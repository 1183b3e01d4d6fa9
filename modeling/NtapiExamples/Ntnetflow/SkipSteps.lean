/-
What each step does to `entry->poll.skip` of the entries, and which entries it
gives back.
-/
import NtapiExamples.Ntnetflow.FlowLearnFlags

namespace NtapiExamples

namespace Ntnetflow

variable {cfg : FlConfig} {s s' : Sys} {t t' t'' : FlowTable}
variable {e : EntryPtr} {action : SysAction}

def skipOf (t : FlowTable) (e : EntryPtr) : Int := (t.content e).poll.skip

/-- The counter of an entry after a write. -/
def newSkip (write : Option (EntryPtr × (Int → Int))) (e : EntryPtr)
    (skip : Int) : Int :=
  match write with
  | some (e', f) => if e = e' then f skip else skip
  | none => skip

/-- A visit leaves the counters of other entries alone. -/
theorem newSkip_pollSkip {skip : Int} (hother : s.poller ≠ .skip e) :
    newSkip (skipWrite s .pollSkip) e skip = skip := by
  cases hpc : s.poller with
  | skip e' =>
      rw [hpc, ne_eq, PollPc.skip.injEq] at hother
      simp [skipWrite, hpc, newSkip, Ne.symm hother]
  | asleep => simp [skipWrite, hpc, newSkip]
  | next => simp [skipWrite, hpc, newSkip]
  | flags e' => simp [skipWrite, hpc, newSkip]
  | push e' op => simp [skipWrite, hpc, newSkip]
  | remove e' => simp [skipWrite, hpc, newSkip]
  | deref e' => simp [skipWrite, hpc, newSkip]

/-- Something else was written. -/
structure SkipKept (t t' : FlowTable) : Prop extends Edited t t' where
  skip : ∀ e, skipOf t' e = skipOf t e

/-- The counters changed as `write` says, except that those of a freed bucket
are zero, and no entry but `released` was given back. -/
structure Skipped (t t' : FlowTable) (write : Option (EntryPtr × (Int → Int)))
    (released : Option EntryPtr) : Prop where
  skip : ∀ e, skipOf t' e = newSkip write e (skipOf t e) ∨
    skipOf t' e = 0 ∧ ¬ t'.Used e
  used : ∀ e, t.Used e → t'.Used e ∨ released = some e

theorem SkipKept.modify {f : FlowEntry → FlowEntry}
    (hmodify : t.modifyEntry e f = some t')
    (hbucket : ∀ entry, (f entry).bucket = entry.bucket)
    (hindex : ∀ entry, (f entry).index = entry.index)
    (hskip : ∀ entry, (f entry).poll.skip = entry.poll.skip) :
    SkipKept t t' := by
  obtain ⟨hedited, -, hcontent⟩ := modifyEntry_spec hmodify hbucket hindex
  refine ⟨hedited, fun e' => ?_⟩
  rw [skipOf, hcontent]
  by_cases he : e' = e
  · rw [if_pos he, hskip, he]
    rfl
  · rw [if_neg he]
    rfl

/-- What keeps the counters can follow any change of the table. -/
theorem Skipped.keep {write : Option (EntryPtr × (Int → Int))}
    {released : Option EntryPtr} (hskipped : Skipped t t' write released)
    (hkept : SkipKept t' t'') : Skipped t t'' write released := by
  refine ⟨fun e => ?_, fun e he => ?_⟩
  · rw [hkept.skip, hkept.used]
    exact hskipped.skip e
  · rw [hkept.used]
    exact hskipped.used e he

/-- A table that stays the same, and a counter that is written back. -/
theorem Skipped.refl (t : FlowTable) (write : Option EntryPtr) :
    Skipped t t (write.map fun e => (e, fun skip => skip)) none := by
  refine ⟨fun e => Or.inl ?_, fun e he => Or.inl he⟩
  cases write <;> simp [newSkip]

/-- A write to the counter. -/
theorem Skipped.modify {g : Int → Int}
    (hmodify : (t.modifyEntry e fun entry =>
      { entry with poll := { entry.poll with skip := g entry.poll.skip } }) =
        some t') : Skipped t t' (some (e, g)) none := by
  obtain ⟨hedited, -, hcontent⟩ :=
    modifyEntry_spec hmodify (fun _ => rfl) (fun _ => rfl)
  refine ⟨fun e' => Or.inl ?_, fun e' he' => Or.inl ((hedited.used e').mpr he')⟩
  rw [skipOf, hcontent, newSkip]
  by_cases he : e' = e
  · rw [if_pos he, if_pos he, he]
    rfl
  · rw [if_neg he, if_neg he]
    rfl

/-- A new entry has the counter its slot had before. -/
theorem Skipped.rxAdd (hok : TableOk t) {alloc : Option Nat}
    {streamId : BitVec 32} {packet : Packet}
    (hadd : rxAdd t alloc streamId packet = some (t', e)) :
    Skipped t t' none none := by
  obtain ⟨-, hused, -, -, hpoll, hother⟩ := rxAdd_spec hok hadd
  refine ⟨fun e' => Or.inl ?_,
    fun e' he' => Or.inl ((hused e').mpr (Or.inr he'))⟩
  by_cases he : e' = e
  · rw [he, skipOf, hpoll]
    rfl
  · rw [skipOf, hother e' he]
    rfl

theorem Skipped.ftDeref (hok : TableOk t) (hderef : t.ftDeref e 1 = some t') :
    Skipped t t' none (if releases t e then some e else none) := by
  simp only [FlowTable.ftDeref, Option.bind_eq_bind,
    Option.bind_eq_some_iff] at hderef
  obtain ⟨t₁, hmodify, hderef⟩ := hderef
  have hkept : SkipKept t t₁ :=
    SkipKept.modify hmodify (fun _ => rfl) (fun _ => rfl) (fun _ => rfl)
  have hok₁ := hkept.ok hok
  split at hderef
  case isTrue hlast =>
    have hremoved := FlowTable.ftRemove_removed hok₁.inv hok₁.slots hderef
    rw [releases, if_pos (by simpa using hlast)]
    refine ⟨fun e' => ?_, fun e' he' => ?_⟩
    · by_cases hvalid : t'.valid e'.bucket = true
      · left
        rw [skipOf, hremoved.kept e' hvalid]
        exact hkept.skip e'
      · right
        refine ⟨?_, fun hused => hvalid hused.1⟩
        rw [skipOf, FlowTable.content, if_neg hvalid]
        rfl
    · by_cases he : e' = e
      · exact Or.inr (by rw [he])
      · exact Or.inl (hremoved.used e' ((hkept.used e').mpr he') he)
  case isFalse hmore =>
    rw [Option.some.injEq] at hderef
    rw [← hderef, releases, if_neg (by simpa using hmore)]
    exact (Skipped.refl t none).keep hkept

theorem TableEdit.skipped {writes : Writes} (hok : TableOk t)
    (hedit : TableEdit t t' writes) :
    Skipped t t' writes.skip writes.released := by
  induction hedit with
  | same => exact Skipped.refl t none
  | flags e f hmodify =>
      exact (Skipped.refl t none).keep
        (SkipKept.modify hmodify (fun _ => rfl) (fun _ => rfl) (fun _ => rfl))
  | skip e g hmodify => exact Skipped.modify hmodify
  | keepSkip e => exact Skipped.refl t (some e)
  | add hadd => exact Skipped.rxAdd hok hadd
  | deref hderef => exact Skipped.ftDeref hok hderef
  | other _ hmodify hneutral ih =>
      exact ih.keep (SkipKept.modify hmodify hneutral.bucket hneutral.index
        hneutral.skip)
  | stats stat value _ ih =>
      refine ih.keep ⟨statsUpdate_edited stat value, fun e => ?_⟩
      rw [skipOf, statsUpdate_content]
      rfl

/-- The counters after each step. -/
theorem sysStep_skipped (hok : TableOk s.table)
    (hstep : sysStep cfg s action = some s') :
    Skipped s.table s'.table (skipWrite s action) (releasedBy s action) :=
  (sysStep_edit hstep).skipped hok

/-- What a step does to the work of `fl_status_main`. -/
theorem sysStep_status (hstep : sysStep cfg s action = some s') :
    (action ≠ .statusSkip ∧ s'.status = s.status) ∨
      (∃ e count, action = .statusSkip ∧ s.status = .skip e count ∧
        s'.status = .idle) ∨
      ∃ e kind, action = .statusFlags e kind ∧ s.status = .idle ∧
        statusClears cfg kind ≠ none ∧
        s'.status = .skip e (statusSkip kind (flagsOf s.table e)) := by
  cases action
  case statusSkip =>
    simp only [Ntnetflow.sysStep, stepStatusSkip] at hstep
    split at hstep
    case h_1 e count hpc =>
      simp only [Option.bind_eq_bind, Option.bind_eq_some_iff,
        Option.some.injEq] at hstep
      obtain ⟨t', -, rfl⟩ := hstep
      exact Or.inr (Or.inl ⟨e, count, rfl, hpc, rfl⟩)
    case h_2 => simp at hstep
  case statusFlags e kind =>
    simp only [Ntnetflow.sysStep, stepStatusFlags] at hstep
    split at hstep
    case h_1 hpc =>
      split at hstep
      · split at hstep
        · rw [Option.some.injEq] at hstep
          rw [← hstep]
          exact Or.inl ⟨by simp, rfl⟩
        · simp only [Option.bind_eq_bind, Option.bind_eq_some_iff,
            Option.some.injEq] at hstep
          obtain ⟨⟨t', flags⟩, hand, rfl⟩ := hstep
          obtain ⟨rfl, -, -, -⟩ := fetchAnd_spec hand
          exact Or.inr (Or.inr ⟨e, kind, rfl, hpc, by simp [*], rfl⟩)
      · simp at hstep
    case h_2 => simp at hstep
  all_goals
    refine Or.inl ⟨by simp, ?_⟩
    simp only [Ntnetflow.sysStep, stepRxLookup, stepRxAdd, stepRxPush,
      stepRxCount, stepProgramPull, stepProgramFlags, stepProgramRef,
      stepProgramAddPoll, stepProgramSkip, stepProgramWrite, stepRecordFlags,
      stepRecordUpdate, stepRecordProbe, stepRecordPush, stepRecordTrack,
      stepPollTick, stepPollNext, stepPollSkip, stepPollFlags, stepPollPush,
      stepPollRemove, stepPollDeref, flProgram, setRx,
      Option.bind_eq_bind] at hstep
    grind [Option.bind_eq_some_iff]

end Ntnetflow

end NtapiExamples
