/-
What each step does to the flags of the entries, and which components of the
state it leaves alone.  Nothing here assumes that the poll list is in order.
-/
import NtapiExamples.Ntnetflow.FlowLearnEdit

namespace NtapiExamples

namespace Ntnetflow

variable {cfg : FlConfig} {s s' : Sys} {t t' t'' : FlowTable} {e : EntryPtr}
variable {action : SysAction}

/-- The steps of `fl_program_main`. -/
def SysAction.isProgram : SysAction → Bool
  | .programPull | .programFlags | .programRef | .programAddPoll
  | .programSkip | .programWrite _ => true
  | _ => false

/-- The components of the state, and the steps that may change them. -/
@[mk_iff]
structure SysFrame (s s' : Sys) (action : SysAction) : Prop where
  program : action.isProgram = false → s'.program = s.program
  inserted : action ≠ .programAddPoll →
    s'.history.inserted = s.history.inserted
  members : action ≠ .programAddPoll → action ≠ .pollRemove →
    s'.history.members = s.history.members
  written : (∀ success, action ≠ .programWrite success) →
    s'.history.written = s.history.written
  answered : (∀ e kind, action ≠ .statusFlags e kind) →
    s'.history.answered = s.history.answered
  queue : action ≠ .programPull → ∀ item ∈ s.queue, item ∈ s'.queue

theorem sysStep_frame (hstep : sysStep cfg s action = some s') :
    SysFrame s s' action := by
  rw [sysFrame_iff]
  cases action
  all_goals
    simp only [sysStep, stepRxLookup, stepRxAdd, stepRxPush, stepRxCount,
      stepProgramPull, stepProgramFlags, stepProgramRef, stepProgramAddPoll,
      stepProgramSkip, stepProgramWrite, stepStatusFlags, stepStatusSkip,
      stepRecordFlags, stepRecordUpdate, stepRecordProbe, stepRecordPush,
      stepRecordTrack, stepPollTick, stepPollNext, stepPollSkip,
      stepPollFlags, stepPollPush, stepPollRemove, stepPollDeref, flProgram,
      setRx, Option.bind_eq_bind] at hstep
    grind [Option.bind_eq_some_iff, SysAction.isProgram]

/-- Operations leave the queue only at its front, and only when they are
pulled. -/
theorem sysStep_queue (hstep : sysStep cfg s action = some s') :
    (action = .programPull ∧ ∃ item, s.queue = item :: s'.queue) ∨
      ∀ item ∈ s.queue, item ∈ s'.queue := by
  by_cases haction : action = .programPull
  · subst haction
    simp only [sysStep, stepProgramPull] at hstep
    grind
  · exact Or.inr ((sysStep_frame hstep).queue haction)

theorem setRx_rx (s : Sys) (thread other : Nat) (pc : RxPc) :
    (setRx s thread pc).rx other = if other = thread then pc else s.rx other :=
  Function.update_apply s.rx thread pc other

@[simp] theorem setRx_queue (s : Sys) (thread : Nat) (pc : RxPc) :
    (setRx s thread pc).queue = s.queue := rfl

/-- A successful push appends the operation to the queue. -/
theorem flProgram_queue {op : FlOp}
    (hpush : flProgram s e op true = some s') :
    s'.queue = s.queue ++ [(op, e)] ∧ s'.rx = s.rx := by
  simp only [flProgram, Bool.not_true, Bool.false_eq_true, if_false] at hpush
  split at hpush
  · rw [Option.some.injEq] at hpush
    rw [← hpush]
    exact ⟨rfl, rfl⟩
  · simp at hpush

/-- A receive thread that is about to queue a LEARN stays there until it has
pushed it. -/
theorem sysStep_rx {thread : Nat} {packet : Packet}
    (hstep : sysStep cfg s action = some s')
    (hpc : s.rx thread = .learn e packet) :
    s'.rx thread = .learn e packet ∨ action = .rxPush thread false ∨
      (.learn, e) ∈ s'.queue := by
  cases action
  case rxPush other success =>
    simp only [sysStep, stepRxPush] at hstep
    split at hstep
    case h_1 e' packet' hpc' =>
      simp only [Option.bind_eq_bind, Option.bind_eq_some_iff,
        Option.some.injEq] at hstep
      obtain ⟨s₁, hpush, rfl⟩ := hstep
      cases success with
      | true =>
          obtain ⟨hqueue, hrx⟩ := flProgram_queue hpush
          rw [setRx_rx, setRx_queue, hqueue, hrx]
          by_cases heq : thread = other
          · rw [← heq, hpc, RxPc.learn.injEq] at hpc'
            rw [hpc'.1]
            simp
          · rw [if_neg heq]
            exact Or.inl hpc
      | false =>
          simp only [flProgram, Bool.not_false, if_true,
            Option.some.injEq] at hpush
          rw [setRx_rx, ← hpush]
          by_cases heq : thread = other
          · rw [heq]
            exact Or.inr (Or.inl rfl)
          · rw [if_neg heq]
            exact Or.inl hpc
    case h_2 => simp at hstep
  all_goals
    simp only [sysStep, stepRxLookup, stepRxAdd, stepRxCount,
      stepProgramPull, stepProgramFlags, stepProgramRef, stepProgramAddPoll,
      stepProgramSkip, stepProgramWrite, stepStatusFlags, stepStatusSkip,
      stepRecordFlags, stepRecordUpdate, stepRecordProbe, stepRecordPush,
      stepRecordTrack, stepPollTick, stepPollNext, stepPollSkip,
      stepPollFlags, stepPollPush, stepPollRemove, stepPollDeref, flProgram,
      Option.bind_eq_bind] at hstep
    grind [Option.bind_eq_some_iff, setRx_rx, setRx_queue]

/-- What the steps of `fl_program_main` do to its own state and to the
history. -/
inductive ProgramStep (cfg : FlConfig) (s s' : Sys) : SysAction → Prop
  | pull (op : FlOp) (e : EntryPtr) : s.program = .idle →
      s.queue = (op, e) :: s'.queue → s'.program = .handle op e →
      ProgramStep cfg s s' .programPull
  | flags (op : FlOp) (e : EntryPtr) : s.program = .handle op e →
      s'.program = programNext cfg op e (flagsOf s.table e) →
      ProgramStep cfg s s' .programFlags
  | ref (e : EntryPtr) (flags : BitVec 32) : s.program = .ref e flags →
      s'.program = .addPoll e flags → ProgramStep cfg s s' .programRef
  | addPoll (e : EntryPtr) (flags : BitVec 32) : s.program = .addPoll e flags →
      s'.program = .skip e flags →
      s'.history.inserted = e :: s.history.inserted →
      s'.history.members = e :: s.history.members →
      ProgramStep cfg s s' .programAddPoll
  | skip (e : EntryPtr) (flags : BitVec 32) : s.program = .skip e flags →
      s'.program = .write e .learn → ProgramStep cfg s s' .programSkip
  | write (e : EntryPtr) (command : FlowCommand) :
      s.program = .write e command → s'.program = .idle →
      s'.history.written = (e, command) :: s.history.written →
      ProgramStep cfg s s' (.programWrite true)
  | fail (e : EntryPtr) (command : FlowCommand) :
      s.program = .write e command → s'.program = .exited →
      s'.history.written = s.history.written →
      ProgramStep cfg s s' (.programWrite false)

theorem sysStep_program (hstep : sysStep cfg s action = some s')
    (hprogram : action.isProgram = true) : ProgramStep cfg s s' action := by
  cases action <;> simp only [SysAction.isProgram, Bool.false_eq_true]
    at hprogram
  case programPull =>
    simp only [sysStep, stepProgramPull] at hstep
    split at hstep
    case h_1 op e queue hpc hqueue =>
      rw [Option.some.injEq] at hstep
      subst hstep
      exact ProgramStep.pull op e hpc hqueue rfl
    case h_2 => simp at hstep
  case programFlags =>
    simp only [sysStep, stepProgramFlags] at hstep
    split at hstep
    case h_1 op e hpc =>
      simp only [Option.bind_eq_bind, Option.bind_eq_some_iff,
        Option.some.injEq] at hstep
      obtain ⟨⟨t', flags⟩, hor, rfl⟩ := hstep
      obtain ⟨rfl, -, -, -⟩ := fetchOr_spec hor
      exact ProgramStep.flags op e hpc rfl
    case h_2 => simp at hstep
  case programRef =>
    simp only [sysStep, stepProgramRef] at hstep
    split at hstep
    case h_1 e flags hpc =>
      simp only [Option.bind_eq_bind, Option.bind_eq_some_iff,
        Option.some.injEq] at hstep
      obtain ⟨t', -, rfl⟩ := hstep
      exact ProgramStep.ref e flags hpc rfl
    case h_2 => simp at hstep
  case programAddPoll =>
    simp only [sysStep, stepProgramAddPoll] at hstep
    split at hstep
    case h_1 e flags hpc =>
      simp only [Option.bind_eq_bind, Option.bind_eq_some_iff,
        Option.some.injEq] at hstep
      obtain ⟨⟨t', poll'⟩, -, rfl⟩ := hstep
      exact ProgramStep.addPoll e flags hpc rfl rfl rfl
    case h_2 => simp at hstep
  case programSkip =>
    simp only [sysStep, stepProgramSkip] at hstep
    split at hstep
    case h_1 e flags hpc =>
      obtain ⟨t', rfl⟩ : ∃ t',
          { s with table := t', program := .write e .learn } = s' := by
        split at hstep <;> simp only [Option.bind_eq_bind,
          Option.bind_eq_some_iff, Option.some.injEq] at hstep
        · obtain ⟨t', -, rfl⟩ := hstep
          exact ⟨t', rfl⟩
        · obtain ⟨t', -, rfl⟩ := hstep
          exact ⟨t', rfl⟩
      exact ProgramStep.skip e flags hpc rfl
    case h_2 => simp at hstep
  case programWrite success =>
    simp only [sysStep, stepProgramWrite] at hstep
    split at hstep
    case h_1 e command hpc =>
      cases success with
      | true =>
          simp only [if_true, Option.some.injEq] at hstep
          subst hstep
          exact ProgramStep.write e command hpc rfl rfl
      | false =>
          simp only [Bool.false_eq_true, if_false, Option.some.injEq] at hstep
          subst hstep
          exact ProgramStep.fail e command hpc rfl rfl
    case h_2 => simp at hstep

/-- The flags of an entry after a write. -/
def newFlags (write : Option (EntryPtr × (BitVec 32 → BitVec 32)))
    (e : EntryPtr) (flags : BitVec 32) : BitVec 32 :=
  match write with
  | some (e', f) => if e = e' then f flags else flags
  | none => flags

/-- The table is in order again, the flags changed as `write` says, except that
those of a new or freed entry are clear, and no entry but `added` was taken into
use. -/
structure Flagged (t t' : FlowTable)
    (write : Option (EntryPtr × (BitVec 32 → BitVec 32)))
    (added : Option EntryPtr) : Prop where
  ok : TableOk t'
  flags : ∀ e, flagsOf t' e = newFlags write e (flagsOf t e) ∨
    flagsOf t' e = 0#32 ∧ (t'.Used e → ¬ t.Used e)
  used : ∀ e, t'.Used e → t.Used e ∨ added = some e

theorem Flagged.refl (hok : TableOk t) : Flagged t t none none :=
  ⟨hok, fun _ => Or.inl rfl, fun _ he => Or.inl he⟩

theorem Flagged.edited {write : Option (EntryPtr × (BitVec 32 → BitVec 32))}
    (hok : TableOk t) (hedited : Edited t t')
    (hflags : ∀ e, flagsOf t' e = newFlags write e (flagsOf t e)) :
    Flagged t t' write none :=
  ⟨hedited.ok hok, fun e => Or.inl (hflags e),
    fun e he => Or.inl ((hedited.used e).mp he)⟩

/-- What keeps the flags can follow any change of the table. -/
theorem Flagged.edit {write : Option (EntryPtr × (BitVec 32 → BitVec 32))}
    {added : Option EntryPtr} (hflagged : Flagged t t' write added)
    (hedited : Edited t' t'')
    (hflags : ∀ e, flagsOf t'' e = flagsOf t' e) :
    Flagged t t'' write added := by
  refine ⟨hedited.ok hflagged.ok, ?_, ?_⟩
  · intro e
    rw [hflags, hedited.used]
    exact hflagged.flags e
  · exact fun e he => hflagged.used e ((hedited.used e).mp he)

theorem Flagged.rxAdd (hok : TableOk t) {alloc : Option Nat}
    {streamId : BitVec 32} {packet : Packet}
    (hadd : rxAdd t alloc streamId packet = some (t', e)) :
    Flagged t t' none (some e) := by
  obtain ⟨hfresh, hused, -, hflags, -, hother⟩ := rxAdd_spec hok hadd
  refine ⟨hok.rxAdd hadd, ?_, ?_⟩
  · intro e'
    by_cases he : e' = e
    · rw [he]
      exact Or.inr ⟨hflags, fun _ => hfresh⟩
    · left
      rw [flagsOf, hother e' he]
      rfl
  · intro e' he'
    rcases (hused e').mp he' with rfl | hold
    · exact Or.inr rfl
    · exact Or.inl hold

theorem Flagged.ftDeref (hok : TableOk t) {count : Nat}
    (hderef : t.ftDeref e count = some t') : Flagged t t' none none := by
  refine ⟨hok.ftDeref hderef, ?_,
    fun e' he' => Or.inl (ftDeref_used hok hderef e' he')⟩
  intro e'
  rcases ftDeref_flags hok hderef e' with hflags | ⟨hflags, hunused⟩
  · exact Or.inl hflags
  · exact Or.inr ⟨hflags, fun hused => absurd hused hunused⟩

theorem TableEdit.flagged {writes : Writes} (hok : TableOk t)
    (hedit : TableEdit t t' writes) :
    Flagged t t' writes.flags writes.added := by
  induction hedit with
  | same => exact Flagged.refl hok
  | flags e f hmodify =>
      obtain ⟨hedited, -, hcontent⟩ :=
        modifyEntry_spec hmodify (fun _ => rfl) (fun _ => rfl)
      apply Flagged.edited hok hedited
      intro e'
      rw [flagsOf, hcontent, newFlags]
      by_cases he : e' = e <;> simp [he, flagsOf]
  | skip e g hmodify =>
      exact (Flagged.refl hok).edit
        (modifyEntry_spec hmodify (fun _ => rfl) (fun _ => rfl)).1
        (modifyEntry_flags hmodify (fun _ => rfl) (fun _ => rfl)
          (fun _ => rfl))
  | keepSkip e => exact Flagged.refl hok
  | add hadd => exact Flagged.rxAdd hok hadd
  | deref hderef => exact Flagged.ftDeref hok hderef
  | other _ hmodify hneutral ih =>
      exact ih.edit (modifyEntry_spec hmodify hneutral.bucket hneutral.index).1
        (modifyEntry_flags hmodify hneutral.bucket hneutral.index
          hneutral.flags)
  | stats stat value _ ih =>
      refine ih.edit (statsUpdate_edited stat value) fun e => ?_
      rw [flagsOf, statsUpdate_content]
      rfl

/-- The flags after each step. -/
theorem sysStep_flagged (hok : TableOk s.table)
    (hstep : sysStep cfg s action = some s') :
    Flagged s.table s'.table (flagWrite cfg s action)
      (addedEntryOf s' action) :=
  (sysStep_edit hstep).flagged hok

/-- A flag other than SOFTWARE is only raised by `fl_program_main`. -/
theorem flag_raised {i : Nat} (hok : TableOk s.table)
    (hstep : sysStep cfg s action = some s') (hi : i ≠ 7)
    (hset : test (flagsOf s'.table e) (bit 32 i) = true) :
    test (flagsOf s.table e) (bit 32 i) = true ∨
      action = .programFlags ∧ ∃ op, s.program = .handle op e ∧
        test (opFlags op) (bit 32 i) = true := by
  rcases (sysStep_flagged hok hstep).flags e with hflags | ⟨hflags, -⟩
  · rw [hflags] at hset
    simp only [test_bit] at hset ⊢
    cases action <;> simp only [flagWrite, newFlags] at hset <;>
      first
      | exact Or.inl hset
      | skip
    case programFlags =>
      cases hpc : s.program <;> simp only [hpc] at hset <;>
        first
        | exact Or.inl hset
        | skip
      case handle op e' =>
        by_cases he : e = e'
        · rw [if_pos he, BitVec.getLsbD_or, Bool.or_eq_true] at hset
          rcases hset with hset | hset
          · exact Or.inl hset
          · exact Or.inr ⟨rfl, op, by rw [he], hset⟩
        · rw [if_neg he] at hset
          exact Or.inl hset
    case statusFlags e' kind =>
      left
      cases hclears : statusClears cfg kind with
      | none => simpa [hclears] using hset
      | some mask =>
          simp only [hclears, Option.map_some] at hset
          grind
    all_goals
      left
      grind [FLOW_FLAGS_SOFTWARE, getLsbD_bit]
  · rw [hflags] at hset
    simp at hset

end Ntnetflow

end NtapiExamples
