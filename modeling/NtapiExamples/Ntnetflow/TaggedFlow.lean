/-
`union tagged_flow`: the 64-bit id that carries an entry pointer and a tag to the
adapter and back, and through the program queue.  The tag is the low bit field.
-/
import NtapiExamples.Lib.Bits

namespace NtapiExamples

namespace Ntnetflow

/-- `TAG_BITS` for a value of `VIRTUAL_MEM_BITS`. -/
def tagBits (virtualMemBits : Nat) : Nat := 64 - (virtualMemBits - 1)

/-- `union tagged_flow f = { .tag = tag, .pointer = pointer }`, as `f.value`. -/
def taggedFlow (virtualMemBits : Nat) (tag : BitVec 32)
    (pointer : BitVec 64) : BitVec 64 :=
  (tag.setWidth (tagBits virtualMemBits)).setWidth 64 |||
    (pointer.setWidth (virtualMemBits - 1)).setWidth 64 <<<
      tagBits virtualMemBits

/-- `f.tag` of `f.value`. -/
def flowTag (virtualMemBits : Nat) (value : BitVec 64) : BitVec 32 :=
  (value.setWidth (tagBits virtualMemBits)).setWidth 32

/-- `f.pointer` of `f.value`. -/
def flowPointer (virtualMemBits : Nat) (value : BitVec 64) : BitVec 64 :=
  ((value >>> tagBits virtualMemBits).setWidth
    (virtualMemBits - 1)).setWidth 64

/-- `flow->id` as `fl_flow` sets it in the process `pid`. -/
def flFlowId (virtualMemBits : Nat) (pid : BitVec 32) (entry : BitVec 64) :
    BitVec 64 :=
  taggedFlow virtualMemBits pid entry

/-- The record filter both reader threads use: `flow_id.tag != pid` skips. -/
def recordEntry (virtualMemBits : Nat) (pid : BitVec 32) (id : BitVec 64) :
    Option (BitVec 64) :=
  if flowTag virtualMemBits id ≠ pid then none
  else some (flowPointer virtualMemBits id)

/-- The entry `fl_status_main` takes a status record for; `none` when skipped. -/
def flStatusEntry (virtualMemBits : Nat) (pid : BitVec 32) (id : BitVec 64) :
    Option (BitVec 64) :=
  recordEntry virtualMemBits pid id

/-- The entry `fl_record_main` takes an info record for; `none` when skipped. -/
def flRecordEntry (virtualMemBits : Nat) (pid : BitVec 32)
    (id : BitVec 64) : Option (BitVec 64) :=
  recordEntry virtualMemBits pid id

section Fields

variable {v : Nat} {tag pid pid' : BitVec 32} {pointer : BitVec 64}

/-- The tag comes back truncated to its field. -/
theorem flowTag_taggedFlow (hlow : 33 ≤ v) (hhigh : v ≤ 64) :
    flowTag v (taggedFlow v tag pointer) =
      (tag.setWidth (tagBits v)).setWidth 32 := by
  have hbits : tagBits v ≤ 32 ∧ 0 < tagBits v := by
    simp only [tagBits]
    omega
  apply BitVec.eq_of_getLsbD_eq
  intro i hi
  rw [flowTag, taggedFlow]
  by_cases hi' : i < tagBits v
  · simp [BitVec.getLsbD_setWidth, hi, hi', show i < 64 by omega]
  · simp [BitVec.getLsbD_setWidth, hi']

theorem flowPointer_taggedFlow (hlow : 33 ≤ v) (hhigh : v ≤ 64)
    (hpointer : pointer.toNat < 2 ^ (v - 1)) :
    flowPointer v (taggedFlow v tag pointer) = pointer := by
  have hsum : tagBits v + (v - 1) = 64 := by
    simp only [tagBits]
    omega
  apply BitVec.eq_of_getLsbD_eq
  intro i hi
  rw [flowPointer, taggedFlow, BitVec.getLsbD_setWidth,
    BitVec.getLsbD_setWidth, BitVec.getLsbD_ushiftRight, BitVec.getLsbD_or,
    BitVec.getLsbD_setWidth, BitVec.getLsbD_setWidth,
    BitVec.getLsbD_shiftLeft, BitVec.getLsbD_setWidth,
    BitVec.getLsbD_setWidth]
  by_cases hi' : i < v - 1
  · have hlt : tagBits v + i < 64 := by omega
    simp [hi, hi', hlt]
  · have hzero : pointer.getLsbD i = false := by
      rw [BitVec.getLsbD, Nat.testBit_lt_two_pow]
      exact Nat.lt_of_lt_of_le hpointer
        (Nat.pow_le_pow_right (by decide) (by omega))
    simp [hi', hzero]

theorem truncated_eq_iff :
    (pid'.setWidth (tagBits v)).setWidth 32 = pid ↔
      pid'.toNat % 2 ^ tagBits v = pid.toNat := by
  rw [← BitVec.toNat_inj, BitVec.toNat_setWidth, BitVec.toNat_setWidth,
    Nat.mod_eq_of_lt]
  exact Nat.lt_of_le_of_lt (Nat.mod_le _ _) pid'.isLt

/-- A record of the process `pid'` passes the filter of `pid`, and then leads
to its entry, exactly when the truncated tag is the full process id. -/
theorem recordEntry_flFlowId (hlow : 33 ≤ v) (hhigh : v ≤ 64)
    (hpointer : pointer.toNat < 2 ^ (v - 1)) :
    recordEntry v pid (flFlowId v pid' pointer) =
      if pid'.toNat % 2 ^ tagBits v = pid.toNat then some pointer
      else none := by
  rw [recordEntry, flFlowId, flowTag_taggedFlow hlow hhigh,
    flowPointer_taggedFlow hlow hhigh hpointer]
  by_cases heq : pid'.toNat % 2 ^ tagBits v = pid.toNat
  · rw [if_pos heq, if_neg]
    simpa [truncated_eq_iff] using heq
  · rw [if_neg heq, if_pos]
    simpa [truncated_eq_iff] using heq

/-- What the id is for: a process gets its own entry back from both readers, and
the records of another process are skipped by both. -/
def FlowIdLaw (virtualMemBits : Nat) (pid pid' : BitVec 32)
    (entry : BitVec 64) : Prop :=
  flStatusEntry virtualMemBits pid (flFlowId virtualMemBits pid entry) =
      some entry ∧
    flRecordEntry virtualMemBits pid (flFlowId virtualMemBits pid entry) =
      some entry ∧
    flStatusEntry virtualMemBits pid (flFlowId virtualMemBits pid' entry) =
      none ∧
    flRecordEntry virtualMemBits pid (flFlowId virtualMemBits pid' entry) =
      none

instance (v : Nat) (pid pid' : BitVec 32) (entry : BitVec 64) :
    Decidable (FlowIdLaw v pid pid' entry) :=
  inferInstanceAs (Decidable (_ ∧ _ ∧ _ ∧ _))

/-- The tag field holds `TAG_BITS` bits of the process id and is compared with
all of it: own records are kept only when the id fits into the field, foreign
ones are skipped only when their truncated id is another one. -/
theorem flowIdLaw_iff (hlow : 33 ≤ v) (hhigh : v ≤ 63)
    (hpointer : pointer.toNat < 2 ^ (v - 1)) :
    FlowIdLaw v pid pid' pointer ↔
      pid.toNat < 2 ^ tagBits v ∧
        pid'.toNat % 2 ^ tagBits v ≠ pid.toNat := by
  have hhigh' : v ≤ 64 := by omega
  simp only [FlowIdLaw, flStatusEntry, flRecordEntry,
    recordEntry_flFlowId hlow hhigh' hpointer]
  have hfits : pid.toNat % 2 ^ tagBits v = pid.toNat ↔
      pid.toNat < 2 ^ tagBits v := by
    constructor
    · intro heq
      rw [← heq]
      exact Nat.mod_lt _ (Nat.two_pow_pos _)
    · exact Nat.mod_eq_of_lt
  rw [← hfits]
  by_cases hown : pid.toNat % 2 ^ tagBits v = pid.toNat <;>
    by_cases hother : pid'.toNat % 2 ^ tagBits v = pid.toNat <;>
    simp [hown, hother]

/-- With 48 virtual address bits there are 17 tag bits: the law at the process
ids 1 and 2, and at an id that does not fit. -/
theorem flowIdLaw_iff_x86 :
    (FlowIdLaw 48 1#32 2#32 64#64 ↔ 1 < 2 ^ 17 ∧ 2 % 2 ^ 17 ≠ 1) ∧
      (FlowIdLaw 48 131072#32 2#32 64#64 ↔
        131072 < 2 ^ 17 ∧ 2 % 2 ^ 17 ≠ 131072) :=
  ⟨flowIdLaw_iff (by decide) (by decide) (by decide),
    flowIdLaw_iff (by decide) (by decide) (by decide)⟩

/-- Every record of the process 131072 is skipped, and the process 1 takes the
records of the process 131073 for its own. -/
theorem flowIdLaw_fails : ¬ FlowIdLaw 48 131072#32 2#32 64#64 ∧
    ¬ FlowIdLaw 48 1#32 131073#32 64#64 := by
  decide

end Fields

end Ntnetflow

end NtapiExamples
