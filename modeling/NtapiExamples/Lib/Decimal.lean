/-
Numbers as `printf` writes them in decimal, and what `strtol` reads of them.
-/
import NtapiExamples.Lib.Text

namespace NtapiExamples

namespace Text

/-- `%d` and `%i` of an argument of 32 bits. -/
def decimal (v : BitVec 32) : Text :=
  if v.toInt < 0 then '-' :: Nat.toDigits 10 v.toInt.natAbs
  else Nat.toDigits 10 v.toInt.natAbs

theorem isDigit_of_mem_toDigits {n : Nat} {c : Char}
    (hc : c ∈ Nat.toDigits 10 n) : isDigit c := by
  have hdigit := Nat.isDigit_of_mem_toDigits (by decide) (by decide) hc
  rw [Char.isDigit, Bool.and_eq_true, decide_eq_true_eq, decide_eq_true_eq] at hdigit
  exact hdigit

theorem not_mem_toDigits {d : Char} (hd : ¬ isDigit d) (n : Nat) :
    d ∉ Nat.toDigits 10 n :=
  fun hmem => hd (isDigit_of_mem_toDigits hmem)

theorem digitValue_of_isDigit {c : Char} (hc : isDigit c) :
    digitValue c = c.toNat - '0'.toNat := if_pos hc

theorem digitValue_lt_ten {c : Char} (hc : isDigit c) : digitValue c < 10 := by
  have hle : c.toNat ≤ 57 := hc.2
  have hzero : '0'.toNat = 48 := rfl
  rw [digitValue_of_isDigit hc, hzero]
  omega

/-- The value of digits is the one of the standard library. -/
theorem number_of_digits {s : Text} (hs : ∀ c ∈ s, isDigit c) :
    number 10 s = Nat.ofDigitChars 10 s 0 := by
  have htake : s.takeWhile (fun c => decide (digitValue c < 10)) = s := by
    rw [List.takeWhile_eq_self_iff]
    exact fun c hc => decide_eq_true (digitValue_lt_ten (hs c hc))
  have hfold : ∀ (t : Text) (n : Nat), (∀ c ∈ t, isDigit c) →
      t.foldl (fun n c => n * 10 + digitValue c) n = Nat.ofDigitChars 10 t n := by
    intro t
    induction t with
    | nil => exact fun n _ => Nat.ofDigitChars_nil.symm
    | cons c t ih =>
        intro n ht
        rw [List.foldl_cons, Nat.ofDigitChars_cons,
          ih _ fun d hd => ht d (List.mem_cons_of_mem c hd),
          digitValue_of_isDigit (ht c List.mem_cons_self), Nat.mul_comm n]
  rw [number, htake, hfold s 0 hs]

/-- A printed number is read back. -/
theorem number_toDigits (n : Nat) : number 10 (Nat.toDigits 10 n) = n := by
  rw [number_of_digits fun _ hc => isDigit_of_mem_toDigits hc,
    Nat.ofDigitChars_ten_toDigits]

theorem decimal_of_lt {v : BitVec 32} (hv : v.toNat < 2 ^ 31) :
    decimal v = Nat.toDigits 10 v.toNat := by
  have hint : v.toInt = v.toNat := BitVec.toInt_eq_toNat_of_lt (by omega)
  rw [decimal, hint, if_neg (Int.not_lt.mpr (Int.natCast_nonneg _)),
    Int.natAbs_natCast]

theorem length_decimal_le {v : BitVec 32} {k : Nat} (hk : 0 < k)
    (hpow : v.toNat < 10 ^ k) (hv : v.toNat < 2 ^ 31) :
    (decimal v).length ≤ k := by
  rw [decimal_of_lt hv]
  exact (Nat.length_toDigits_le_iff (by decide) hk).mpr hpow

end Text

end NtapiExamples
