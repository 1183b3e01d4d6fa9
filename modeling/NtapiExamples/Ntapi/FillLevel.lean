/-
The fill levels of a host buffer and of its on-board buffer in per cent, as
`bufferProfile` and `hbMonitor` compute them.
-/
import NtapiExamples.Ntapi.Usage

namespace NtapiExamples

namespace Ntapi

/-- A division, which ends the program when the divisor is zero. -/
def div {w : Nat} (x y : BitVec w) : Option (BitVec w) :=
  if y = 0 then none else some (x / y)

theorem div_isSome_iff {w : Nat} (x y : BitVec w) :
    (div x y).isSome ↔ y ≠ 0 := by
  by_cases hy : y = 0
  · rw [div, if_pos hy]
    exact ⟨nofun, fun hne => absurd hy hne⟩
  · rw [div, if_neg hy]
    exact ⟨fun _ => hy, fun _ => rfl⟩

namespace HostBuffer

variable (highwater : BitVec 64) (b : HostBuffer)

def onboardFill : Option (BitVec 64) := div (100 * b.onboardUsed) b.onboardSize

/-- The size of the host buffer in kB, less the part that is kept free. -/
def bufSize : BitVec 32 :=
  (b.enQueuedAdapter / 1024 + b.deQueued / 1024 + b.enQueued / 1024 -
    highwater).setWidth 32

def hostFill : Option (BitVec 32) :=
  (div (100 * b.deQueued / 1024) ((b.bufSize highwater).setWidth 64)).map
    (BitVec.setWidth 32)

/-- No fill level of the host buffer divides by zero. -/
def FillDefined : Prop := b.onboardSize ≠ 0 ∧ b.bufSize highwater ≠ 0

theorem fillLevels_isSome_iff :
    b.onboardFill.isSome ∧ (b.hostFill highwater).isSome ↔
      b.FillDefined highwater := by
  have hwide : (b.bufSize highwater).setWidth 64 ≠ 0 ↔
      b.bufSize highwater ≠ 0 := by
    refine not_congr ⟨fun h => ?_, fun h => by rw [h]; rfl⟩
    have hnat := congrArg BitVec.toNat h
    rw [BitVec.toNat_setWidth_of_le (by decide)] at hnat
    exact BitVec.eq_of_toNat_eq hnat
  rw [onboardFill, hostFill, Option.isSome_map, div_isSome_iff, div_isSome_iff,
    hwide, FillDefined]

end HostBuffer

end Ntapi

end NtapiExamples
