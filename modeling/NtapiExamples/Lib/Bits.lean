/-
C truth values of masked words, and the bit scans used on occupancy masks.
-/
import Mathlib.Data.Nat.Notation
import Mathlib.Tactic.Common
import Mathlib.Tactic.Ring

namespace NtapiExamples

variable {w : Nat}

/-- The C condition `flags & mask`. -/
def test (flags mask : BitVec w) : Bool := flags &&& mask != 0#w

/-- The mask `1 << n` at width `w`. -/
def bit (w n : Nat) : BitVec w := BitVec.twoPow w n

theorem test_eq_true_iff (flags mask : BitVec w) :
    test flags mask = true ↔
      ∃ i, i < w ∧ flags.getLsbD i = true ∧ mask.getLsbD i = true := by
  constructor
  · intro htest
    by_contra hnone
    have hzero : flags &&& mask = 0#w := by
      apply BitVec.eq_of_getLsbD_eq
      intro i hi
      simp only [BitVec.getLsbD_and, BitVec.getLsbD_zero]
      by_contra hbit
      simp only [Bool.and_eq_false_iff, not_or, Bool.not_eq_false] at hbit
      exact hnone ⟨i, hi, hbit.1, hbit.2⟩
    simp [test, hzero] at htest
  · rintro ⟨i, hi, hflags, hmask⟩
    simp only [test, bne_iff_ne, ne_eq]
    intro hzero
    have hbit : (flags &&& mask).getLsbD i = true := by
      simp [hflags, hmask]
    simp [hzero] at hbit

/-- Testing a single-bit mask reads that bit. -/
@[simp] theorem test_bit (flags : BitVec w) (n : Nat) :
    test flags (bit w n) = flags.getLsbD n := by
  rw [Bool.eq_iff_iff, test_eq_true_iff]
  constructor
  · rintro ⟨i, hi, hflags, hmask⟩
    have heq : n = i := by
      simp [bit, BitVec.getLsbD_twoPow] at hmask
      exact hmask.2
    rw [heq]
    exact hflags
  · intro hflags
    have hn : n < w := BitVec.lt_of_getLsbD hflags
    exact ⟨n, hn, hflags, by simp [bit, hn]⟩

@[simp] theorem test_zero (flags : BitVec w) : test flags 0#w = false := by
  simp [test]

theorem test_or (flags a b : BitVec w) :
    test flags (a ||| b) = (test flags a || test flags b) := by
  rw [Bool.eq_iff_iff, Bool.or_eq_true, test_eq_true_iff, test_eq_true_iff,
    test_eq_true_iff]
  constructor
  · rintro ⟨i, hi, hflags, hmask⟩
    simp only [BitVec.getLsbD_or, Bool.or_eq_true] at hmask
    rcases hmask with ha | hb
    · exact Or.inl ⟨i, hi, hflags, ha⟩
    · exact Or.inr ⟨i, hi, hflags, hb⟩
  · rintro (⟨i, hi, hflags, ha⟩ | ⟨i, hi, hflags, hb⟩)
    · exact ⟨i, hi, hflags, by simp [ha]⟩
    · exact ⟨i, hi, hflags, by simp [hb]⟩

/-- Flags that were cleared together with others are not set. -/
theorem test_cleared {flags mask cleared : BitVec w}
    (hmask : mask &&& ~~~cleared = 0#w) :
    test (flags &&& ~~~cleared) mask = false := by
  have hzero : flags &&& ~~~cleared &&& mask = 0#w := by
    rw [BitVec.and_assoc, BitVec.and_comm (~~~cleared), hmask,
      BitVec.and_zero]
  simp [test, hzero]

/-- Raising flags takes none away. -/
theorem test_raised {flags raised mask : BitVec w}
    (htest : test flags mask = true) : test (flags ||| raised) mask = true := by
  rw [test_eq_true_iff] at htest ⊢
  obtain ⟨i, hi, hflags, hmask⟩ := htest
  exact ⟨i, hi, by simp [hflags], hmask⟩

/-- Flags outside the cleared ones are as they were. -/
theorem test_kept {flags mask cleared : BitVec w}
    (hmask : ~~~cleared &&& mask = mask) :
    test (flags &&& ~~~cleared) mask = test flags mask := by
  rw [test, BitVec.and_assoc, hmask, test]

@[simp] theorem getLsbD_bit (n i : Nat) :
    (bit w n).getLsbD i = (decide (n < w) && decide (n = i)) := by
  simp [bit, BitVec.getLsbD_twoPow]

/-- The flags of a list of words together. -/
def orAll (words : List (BitVec w)) : BitVec w :=
  words.foldr (fun word flags => word ||| flags) 0#w

@[simp] theorem orAll_nil : orAll ([] : List (BitVec w)) = 0#w := rfl

@[simp] theorem orAll_cons (word : BitVec w) (words : List (BitVec w)) :
    orAll (word :: words) = word ||| orAll words := rfl

@[simp] theorem orAll_append (words words' : List (BitVec w)) :
    orAll (words ++ words') = orAll words ||| orAll words' := by
  induction words with
  | nil => simp
  | cons word words ih =>
      rw [List.cons_append, orAll_cons, ih, orAll_cons, BitVec.or_assoc]

theorem orAll_perm {words words' : List (BitVec w)}
    (hperm : words.Perm words') : orAll words = orAll words' := by
  induction hperm with
  | nil => rfl
  | cons word _ ih => rw [orAll_cons, orAll_cons, ih]
  | swap first second words =>
      rw [orAll_cons, orAll_cons, orAll_cons, orAll_cons, ← BitVec.or_assoc,
        ← BitVec.or_assoc, BitVec.or_comm second first]
  | trans _ _ ih ih' => exact ih.trans ih'

theorem orAll_map_or {E : Type*} (f g : E → BitVec w) (elements : List E) :
    orAll (elements.map fun e => f e ||| g e) =
      orAll (elements.map f) ||| orAll (elements.map g) := by
  induction elements with
  | nil => simp
  | cons e elements ih =>
      simp only [List.map_cons, orAll_cons]
      rw [ih, BitVec.or_assoc, BitVec.or_assoc, ← BitVec.or_assoc (g e),
        BitVec.or_comm (g e), BitVec.or_assoc]

/-- Words add nothing together when none of them does. -/
theorem or_orAll_eq_iff (flags : BitVec w) (words : List (BitVec w)) :
    flags ||| orAll words = flags ↔ ∀ word ∈ words, flags ||| word = flags := by
  induction words with
  | nil => simp
  | cons word words ih =>
      rw [orAll_cons, List.forall_mem_cons, ← ih]
      constructor
      · intro hall
        have hword : flags ||| word = flags := by
          rw [← hall, BitVec.or_assoc, BitVec.or_comm _ word,
            ← BitVec.or_assoc word, BitVec.or_self]
        refine ⟨hword, ?_⟩
        rwa [← BitVec.or_assoc, hword] at hall
      · rintro ⟨hword, hwords⟩
        rw [← BitVec.or_assoc, hword, hwords]

/-- `__builtin_ctz`: the index of the lowest set bit of a 32-bit word. -/
def ctz (word : BitVec 32) : Nat :=
  ((List.range 32).find? fun i => word.getLsbD i).getD 32

/-- `n & (n - 1)` clears the lowest set bit and nothing else. -/
theorem nat_testBit_and_pred {n i : Nat} (hbit : n.testBit i = true)
    (hlow : ∀ j, j < i → n.testBit j = false) (j : Nat) :
    (n &&& (n - 1)).testBit j = (n.testBit j && decide (j ≠ i)) := by
  have hmod : n % 2 ^ i = 0 := by
    apply Nat.eq_of_testBit_eq
    intro k
    rw [Nat.testBit_mod_two_pow, Nat.zero_testBit]
    by_cases hk : k < i
    · simp [hlow k hk]
    · simp [hk]
  have hodd : n / 2 ^ i % 2 = 1 := by
    simpa [Nat.testBit, Nat.shiftRight_eq_div_pow, Nat.and_comm] using hbit
  let k := n / 2 ^ i / 2
  have hpos : 0 < 2 ^ i := Nat.two_pow_pos i
  have hn : n = 2 ^ (i + 1) * k + 2 ^ i := by
    have hdiv := Nat.div_add_mod n (2 ^ i)
    have hhalf := Nat.div_add_mod (n / 2 ^ i) 2
    rw [hmod] at hdiv
    rw [hodd] at hhalf
    calc n = 2 ^ i * (n / 2 ^ i) := by omega
      _ = 2 ^ i * (2 * k + 1) := by rw [hhalf]
      _ = 2 ^ (i + 1) * k + 2 ^ i := by ring
  have hlt : 2 ^ i < 2 ^ (i + 1) := Nat.pow_lt_pow_succ (by omega)
  have hpred : n - 1 = 2 ^ (i + 1) * k + (2 ^ i - 1) := by omega
  rw [Nat.testBit_and, hpred, Nat.testBit_two_pow_mul_add k (by omega)]
  by_cases hj : j < i + 1
  · simp only [hj, if_true, Nat.testBit_two_pow_sub_one]
    by_cases hji : j = i
    · simp [hji]
    · have hjlt : j < i := by omega
      simp [hlow j hjlt]
  · simp only [hj, if_false]
    rw [hn, Nat.testBit_two_pow_mul_add k hlt]
    have hne : j ≠ i := by omega
    simp [hj, hne]

/-- `x & (x - 1)` clears the lowest set bit of a word. -/
theorem getLsbD_and_pred {x : BitVec w} {i : Nat} (hbit : x.getLsbD i = true)
    (hlow : ∀ j, j < i → x.getLsbD j = false) (j : Nat) :
    (x &&& (x - 1#w)).getLsbD j = (x.getLsbD j && decide (j ≠ i)) := by
  have hi : i < w := BitVec.lt_of_getLsbD hbit
  have hpos : 1 ≤ x.toNat := by
    by_contra hzero
    have hx : x.toNat = 0 := by omega
    simp [BitVec.getLsbD, hx] at hbit
  have hpred : (x - 1#w).toNat = x.toNat - 1 := by
    have hone : (1#w).toNat = 1 := by
      rw [BitVec.toNat_ofNat, Nat.mod_eq_of_lt (Nat.one_lt_two_pow (by omega))]
    rw [BitVec.toNat_sub_of_le (by rw [BitVec.le_def, hone]; exact hpos), hone]
  simp only [BitVec.getLsbD, BitVec.toNat_and, hpred]
  exact nat_testBit_and_pred hbit hlow j

/-- One less than a power of two from 2 on is odd. -/
theorem getLsbD_pred_zero {x : BitVec w} (hle : 2 ≤ x.toNat)
    (hpower : x &&& (x - 1#w) = 0#w) : (x - 1#w).getLsbD 0 = true := by
  have hclear : x.getLsbD 0 = false := by
    by_contra hset
    rw [Bool.not_eq_false] at hset
    have hone : x = 1#w := by
      apply BitVec.eq_of_getLsbD_eq
      intro i hi
      have hbit := getLsbD_and_pred hset (by omega) i
      rw [hpower, BitVec.getLsbD_zero] at hbit
      rw [BitVec.getLsbD_one]
      by_cases hzero : i = 0
      · simp [hzero, hset, show 0 < w by omega]
      · simpa [hzero, hi] using hbit.symm
    have htoNat : x.toNat ≤ 1 := by
      rw [hone, BitVec.toNat_ofNat]
      exact Nat.mod_le 1 (2 ^ w)
    omega
  have hw : 1 < 2 ^ w := by have := x.isLt; omega
  have hone : (1#w).toNat = 1 := by
    rw [BitVec.toNat_ofNat, Nat.mod_eq_of_lt hw]
  have hpred : (x - 1#w).toNat = x.toNat - 1 := by
    rw [BitVec.toNat_sub_of_le (by rw [BitVec.le_def, hone]; omega), hone]
  simp only [BitVec.getLsbD, Nat.testBit_zero, decide_eq_false_iff_not,
    decide_eq_true_eq] at hclear ⊢
  rw [hpred]
  omega

theorem ctz_spec {word : BitVec 32} {i : Nat} (hbit : word.getLsbD i = true) :
    word.getLsbD (ctz word) = true ∧
      ∀ j, j < ctz word → word.getLsbD j = false := by
  cases hfind : (List.range 32).find? fun j => word.getLsbD j with
  | none =>
      rw [List.find?_range_eq_none] at hfind
      have hunset := hfind i (BitVec.lt_of_getLsbD hbit)
      simp [hbit] at hunset
  | some k =>
      rw [List.find?_range_eq_some] at hfind
      have hk : ctz word = k := by
        rw [ctz, List.find?_range_eq_some.mpr hfind, Option.getD_some]
      rw [hk]
      exact ⟨hfind.1, fun j hj => by simpa using hfind.2.2 j hj⟩

/-- The mask `(1 << n) - 1` has exactly the bits below `n`. -/
theorem getLsbD_lowMask {n : Nat} (hn : n < w) (i : Nat) :
    ((1#w <<< n) - 1#w).getLsbD i = decide (i < n) := by
  have hone : (1#w).toNat = 1 := by
    rw [BitVec.toNat_ofNat, Nat.mod_eq_of_lt (Nat.one_lt_two_pow (by omega))]
  have hshift : (1#w <<< n).toNat = 2 ^ n := by
    rw [BitVec.toNat_shiftLeft, hone, Nat.one_shiftLeft,
      Nat.mod_eq_of_lt (Nat.pow_lt_pow_right (by omega) hn)]
  have hle : 1#w ≤ 1#w <<< n := by
    rw [BitVec.le_def, hone, hshift]
    exact Nat.one_le_two_pow
  rw [BitVec.getLsbD, BitVec.toNat_sub_of_le hle, hshift, hone,
    Nat.testBit_two_pow_sub_one]

/-- `__builtin_ctz` on a 64-bit word reads its low half. -/
theorem ctz_setWidth_spec {word : BitVec 64} {i : Nat} (hi : i < 32)
    (hbit : word.getLsbD i = true) :
    ctz (word.setWidth 32) ≤ i ∧
      word.getLsbD (ctz (word.setWidth 32)) = true ∧
      ∀ j, j < ctz (word.setWidth 32) → word.getLsbD j = false := by
  have hbits : ∀ j, j < 32 →
      (word.setWidth 32).getLsbD j = word.getLsbD j := by
    intro j hj
    simp [hj]
  obtain ⟨hset, hbelow⟩ := ctz_spec ((hbits i hi).trans hbit)
  have hle : ctz (word.setWidth 32) ≤ i := by
    by_contra hgt
    have hclear := hbelow i (by omega)
    rw [hbits i hi, hbit] at hclear
    contradiction
  refine ⟨hle, ?_, ?_⟩
  · rw [← hbits _ (by omega)]
    exact hset
  · intro j hj
    rw [← hbits j (by omega)]
    exact hbelow j hj

end NtapiExamples
