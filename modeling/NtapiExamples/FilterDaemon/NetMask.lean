/-
The mask of a prefix: what the loop over `subnet[16]` leaves in the array, and
the prefix lengths with which it stays inside.  `parse` checks none of them.
-/
import Mathlib.Algebra.Ring.Nat
import NtapiExamples.FilterDaemon.FileHandler

namespace NtapiExamples

namespace FilterDaemon

/-- Byte `k` of the mask whose first `n` bits are set. -/
def maskByte (n k : Nat) : Nat :=
  ((List.range 8).map fun bit =>
    if 8 * k + bit < n then 2 ^ (7 - bit) else 0).sum

/-- The array when the first `n` bits are set. -/
def maskArray (n : Nat) : List Nat := (List.range 16).map (maskByte n)

theorem length_maskArray (n : Nat) : (maskArray n).length = 16 := by
  simp [maskArray]

theorem maskArray_getD {n k : Nat} (hk : k < 16) :
    (maskArray n).getD k 0 = maskByte n k := by
  simp [maskArray, List.getD, hk]

theorem maskArray_zero : maskArray 0 = List.replicate 16 0 := by decide

/-- The byte the next bit belongs to. -/
theorem maskByte_succ_same (n : Nat) :
    maskByte (n + 1) (n / 8) = maskByte n (n / 8) ||| 1 <<< (7 - n % 8) := by
  have hrange : ∀ r < 8,
      ((List.range 8).map fun bit => if bit < r + 1 then 2 ^ (7 - bit) else 0).sum =
        ((List.range 8).map fun bit => if bit < r then 2 ^ (7 - bit) else 0).sum |||
          1 <<< (7 - r) := by
    decide
  have hbyte : ∀ bit, 8 * (n / 8) + bit < n ↔ bit < n % 8 := fun bit => by omega
  have hnext : ∀ bit, 8 * (n / 8) + bit < n + 1 ↔ bit < n % 8 + 1 :=
    fun bit => by omega
  simp only [maskByte, hbyte, hnext]
  exact hrange (n % 8) (Nat.mod_lt n (by decide))

/-- The other bytes stay as they are. -/
theorem maskByte_succ_other {n k : Nat} (hk : k ≠ n / 8) :
    maskByte (n + 1) k = maskByte n k := by
  unfold maskByte
  congr 1
  apply List.map_congr_left
  intro bit hbit
  rw [List.mem_range] at hbit
  have hiff : 8 * k + bit < n + 1 ↔ 8 * k + bit < n := by omega
  simp only [hiff]

/-- One turn of the loop sets the next bit. -/
theorem maskArray_succ (n : Nat) :
    (maskArray n).modify (n / 8) (fun byte => byte ||| 1 <<< (7 - n % 8)) =
      maskArray (n + 1) := by
  apply List.ext_getElem
  · simp [length_maskArray]
  · intro k hleft hright
    rw [List.getElem_modify]
    simp only [maskArray, List.getElem_map, List.getElem_range]
    split
    case isTrue hk =>
      subst hk
      exact (maskByte_succ_same n).symm
    case isFalse hk => exact (maskByte_succ_other (Ne.symm hk)).symm

/-- The loop from bit `n` on: it fills the array or runs out of it. -/
theorem maskLoop_eq (turns n : Nat) :
    IPAddress.maskLoop turns n (n / 8) (maskArray n) =
      if turns = 0 ∨ n + turns ≤ 128 then some (maskArray (n + turns))
      else none := by
  induction turns generalizing n with
  | zero => simp [IPAddress.maskLoop]
  | succ turns ih =>
      rw [IPAddress.maskLoop]
      by_cases hinside : n / 8 < 16
      · have hpos : (if n % 8 = 7 then n / 8 + 1 else n / 8) = (n + 1) / 8 := by
          split <;> omega
        rw [if_pos hinside, hpos, maskArray_succ, ih,
          show n + 1 + turns = n + (turns + 1) by omega]
        have hiff : (turns = 0 ∨ n + (turns + 1) ≤ 128) ↔
            (turns + 1 = 0 ∨ n + (turns + 1) ≤ 128) := by omega
        simp only [hiff]
      · rw [if_neg hinside, if_neg (by omega)]

/-- A prefix of up to 128 bits gives its mask, a longer one leaves the array. -/
theorem netMaskOf_eq (ver : IPVersion) (bits : BitVec 32) :
    IPAddress.netMaskOf ver (some bits) =
      if bits.toNat ≤ 128 then
        some (IPAddress.maskText ver (maskArray bits.toNat))
      else none := by
  have hloop := maskLoop_eq bits.toNat 0
  rw [Nat.zero_div, maskArray_zero, Nat.zero_add] at hloop
  rw [IPAddress.netMaskOf, hloop]
  by_cases hbits : bits.toNat ≤ 128
  · rw [if_pos (Or.inr hbits), if_pos hbits]
    rfl
  · rw [if_neg (by omega), if_neg hbits]
    rfl

/-- The prefix length a line gives, as `strtoul` reads the text behind its first
slash; `subnetBits` has the low 32 bits of it. -/
def givenBits (line : Text) : Option Nat :=
  let s := (IPAddress.strip line).rest
  (Text.find ['/'] s).map fun i => (Text.strtoul (s.drop (i + 1))).toNat

/-- The address of a line: what stands before the slash and the two dots. -/
def addressText (line : Text) : Text :=
  (IPAddress.takeRange (IPAddress.takeSubnet (IPAddress.strip line).rest).2).2

/-- The family of the address: by its own characters, by those of the whole line
if these do not tell. -/
def addressFamily (line : Text) : IPVersion :=
  IPAddress.versionOf
    (IPAddress.versionOf .unknown (IPAddress.strip line).rest)
    (addressText line)

/-- A prefix length that fits the addresses of a family. -/
def fitsFamily : IPVersion → Nat → Prop
  | .ipv4, bits => bits ≤ 32
  | .ipv6, bits => bits ≤ 128
  | .unknown, _ => True

/-- `parse` writes inside `subnet[16]` only, and accepts no prefix longer than
the address. -/
def MaskSafe (line : Text) : Prop :=
  ∃ addr accepted, IPAddress.parse (uncomment line) = some (addr, accepted) ∧
    (accepted = true → ∀ bits, givenBits (uncomment line) = some bits →
      fitsFamily addr.ver bits)

/-- The prefix length of a line is one the array and the family have room
for. -/
def PrefixFits (line : Text) : Prop :=
  ∀ bits, givenBits line = some bits →
    bits % 2 ^ 32 ≤ 128 ∧
      (addressText line ≠ [] → fitsFamily (addressFamily line) bits)

theorem takeSubnet_bits (line : Text) :
    (IPAddress.takeSubnet (IPAddress.strip line).rest).1 =
      (givenBits line).map (BitVec.ofNat 32) := by
  simp only [IPAddress.takeSubnet, givenBits]
  cases Text.find ['/'] (IPAddress.strip line).rest with
  | none => rfl
  | some i =>
      simp only [Option.map_some, Option.some.injEq]
      apply BitVec.eq_of_toNat_eq
      simp

/-- The result of `parse`, with what the mask loop has room for. -/
theorem parse_of_bits (line : Text) :
    IPAddress.parse line =
      (IPAddress.netMaskOf
        (IPAddress.versionOf .unknown (IPAddress.strip line).rest)
        ((givenBits line).map (BitVec.ofNat 32))).map fun netMask =>
          ({ src := (IPAddress.strip line).src
             dst := (IPAddress.strip line).dst
             addr := addressText line
             ver := addressFamily line
             ntplId := 0
             netMask := netMask
             rangeAddr := (IPAddress.takeRange
              (IPAddress.takeSubnet (IPAddress.strip line).rest).2).1 },
            decide (0 < (addressText line).length)) := by
  rw [← takeSubnet_bits]
  rfl

/-- One bit more than the array has. -/
def longPrefix : Text := "10.0.0.0/129".toList

/-- The 129th bit is written behind the array. -/
theorem longPrefix_leaves_array : ¬ ∀ line : Text, MaskSafe line := by
  intro hall
  obtain ⟨addr, accepted, hparse, _⟩ := hall longPrefix
  have hnone : IPAddress.parse (uncomment longPrefix) = none := by
    decide +kernel
  rw [hnone] at hparse
  cases hparse

/-- The mask stays in its array and within its family exactly for the lines
whose prefix length fits. -/
theorem maskSafe_iff (line : Text) :
    MaskSafe line ↔ PrefixFits (uncomment line) := by
  have hlength : decide (0 < (addressText (uncomment line)).length) = true ↔
      addressText (uncomment line) ≠ [] := by
    rw [decide_eq_true_eq, List.length_pos_iff]
  unfold MaskSafe PrefixFits
  rw [parse_of_bits]
  cases hgiven : givenBits (uncomment line) with
  | none => simp [IPAddress.netMaskOf]
  | some bits =>
      rw [Option.map_some, netMaskOf_eq, BitVec.toNat_ofNat]
      by_cases hroom : bits % 2 ^ 32 ≤ 128
      · rw [if_pos hroom]
        constructor
        · rintro ⟨addr, accepted, heq, hfits⟩ bits' hbits
          simp only [Option.map_some, Option.some.injEq, Prod.mk.injEq] at heq
          obtain ⟨rfl, rfl⟩ := heq
          rw [← Option.some.inj hbits]
          exact ⟨hroom, fun hne => hfits (hlength.mpr hne) bits rfl⟩
        · intro hfits
          refine ⟨_, _, rfl, fun haccepted bits' hbits => ?_⟩
          exact (hfits bits' hbits).2 (hlength.mp haccepted)
      · rw [if_neg hroom]
        constructor
        · rintro ⟨addr, accepted, heq, _⟩
          cases heq
        · intro hfits
          exact absurd (hfits bits rfl).1 hroom

end FilterDaemon

end NtapiExamples
