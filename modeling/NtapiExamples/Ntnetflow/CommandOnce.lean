/-
The flag of an operation keeps `fl_program_main` from writing the operation
twice: it drops an operation whose flag is set.  The flag is set some steps
before the command is written, and the other threads may clear it in between.
-/
import NtapiExamples.Ntnetflow.Pending

namespace NtapiExamples

namespace Ntnetflow

variable {cfg : FlConfig} {s s' start : Sys} {t t' : FlowTable} {e : EntryPtr}
variable {action : SysAction} {op : FlOp}

/-- The flag an operation is dropped for, when it is set already. -/
def FlOp.flag : FlOp → BitVec 32
  | .unlearn => FLOW_FLAGS_UNLEARN
  | .learn => FLOW_FLAGS_LEARN
  | .probe => FLOW_FLAGS_PROBE
  | .refresh => FLOW_FLAGS_REFRESH

/-- The entry of the next `NT_FlowWrite`. -/
def ProgramPc.writing : ProgramPc → Option EntryPtr
  | .write e _ => some e
  | _ => none

/-- The program, with the operation `fl_program_main` set the flag of last; it is
forgotten with the entry. -/
structure Traced where
  sys : Sys
  handled : Option (FlOp × EntryPtr)

def handledNext (x : Traced) (s' : Sys) (action : SysAction) :
    Option (FlOp × EntryPtr) :=
  (match action, x.sys.program with
    | .programFlags, .handle op e => some (op, e)
    | _, _ => x.handled).filter fun handled =>
      decide (s'.table.Used handled.2)

def tracedStep (cfg : FlConfig) (x : Traced) (action : SysAction) :
    Option Traced :=
  (sysStep cfg x.sys action).map fun s' => ⟨s', handledNext x s' action⟩

namespace Traced

/-- `fl_program_main` is about to write this operation. -/
def AtWrite (x : Traced) (op : FlOp) (e : EntryPtr) : Prop :=
  x.handled = some (op, e) ∧ x.sys.program.writing = some e

instance (x : Traced) (op : FlOp) (e : EntryPtr) :
    Decidable (x.AtWrite op e) :=
  inferInstanceAs (Decidable (_ ∧ _))

/-- `fl_program_main` has set the flag of this operation and has still to write
it. -/
def InWindow (x : Traced) (op : FlOp) (e : EntryPtr) : Prop :=
  x.handled = some (op, e) ∧ x.sys.program.writes.map Prod.fst = some e

instance (x : Traced) (op : FlOp) (e : EntryPtr) :
    Decidable (x.InWindow op e) :=
  inferInstanceAs (Decidable (_ ∧ _))

theorem AtWrite.inWindow {x : Traced} (hat : x.AtWrite op e) :
    x.InWindow op e := by
  refine ⟨hat.1, ?_⟩
  have hwriting := hat.2
  cases hpc : x.sys.program <;> simp only [hpc, ProgramPc.writing,
    reduceCtorEq] at hwriting
  exact hwriting

end Traced

/-- The step takes the flag away: the poll thread's FLOW_FLAGS_CLEAR or, for a
REFRESH, the handling of a learn-done status. -/
def clears (s : Sys) (action : SysAction) (op : FlOp) (e : EntryPtr) : Bool :=
  test (flagsOf s.table e) op.flag &&
    match action, s.poller with
    | .pollFlags, .flags e' => decide (e' = e)
    | .statusFlags e' .lds, _ => decide (e' = e ∧ op = .refresh)
    | _, _ => false

/-- No flag is taken away before its operation is written. -/
def windowSafe (x : Traced) (action : SysAction) : Bool :=
  match x.handled with
  | some (op, e) =>
      decide (op = .probe) || !decide (x.InWindow op e) ||
        !clears x.sys action op e
  | none => true

/-- On one occupancy of an entry an operation is not written again unless its
flag is taken away in between. -/
def WrittenOnce (cfg : FlConfig) (ok : Traced → SysAction → Prop)
    (start : Sys) : Prop :=
  ∀ (op : FlOp) (e : EntryPtr) (success : Bool) (x₁ x₂ x₃ : Traced),
    op ≠ .probe → Run (tracedStep cfg) ok ⟨start, none⟩ x₁ →
    x₁.AtWrite op e → tracedStep cfg x₁ (.programWrite success) = some x₂ →
    Run (tracedStep cfg) (fun x action => ok x action ∧
      x.sys.table.Used e ∧ clears x.sys action op e = false) x₂ x₃ →
    ¬ x₃.AtWrite op e

theorem opSkipped_of_flag {flags : BitVec 32} (hop : op ≠ .probe)
    (hflag : test flags op.flag = true) : opSkipped cfg op flags = true := by
  cases op with
  | probe => exact absurd rfl hop
  | unlearn =>
      rw [opSkipped, test_or]
      simp only [FlOp.flag] at hflag
      rw [hflag, Bool.true_or]
  | refresh => exact hflag
  | learn => exact hflag

theorem Flagged.flagsOf_eq
    {write : Option (EntryPtr × (BitVec 32 → BitVec 32))}
    {added : Option EntryPtr} (hflagged : Flagged t t' write added)
    (hbefore : t.Used e) (hafter : t'.Used e) :
    flagsOf t' e = newFlags write e (flagsOf t e) := by
  rcases hflagged.flags e with hflags | ⟨-, hfresh⟩
  · exact hflags
  · exact absurd hbefore (hfresh hafter)

/-- The flag of an operation is outside of what the other clears take away. -/
theorem flag_outside {mask : BitVec 32} (op : FlOp)
    (hmask : mask &&& (FLOW_FLAGS_UNLEARN ||| FLOW_FLAGS_LEARN |||
      FLOW_FLAGS_PROBE ||| FLOW_FLAGS_REFRESH) = 0#32) (flags : BitVec 32) :
    test (flags &&& ~~~mask) op.flag = test flags op.flag := by
  apply test_kept
  apply BitVec.eq_of_getLsbD_eq
  intro i hi
  have hbit := congrArg (fun v => BitVec.getLsbD v i) hmask
  cases op <;> simp [FlOp.flag, FLOW_FLAGS_UNLEARN, FLOW_FLAGS_LEARN,
    FLOW_FLAGS_PROBE, FLOW_FLAGS_REFRESH] at hbit ⊢ <;> grind

/-- What a step writes to the flags keeps the flag, except for the two
clears. -/
theorem newFlags_kept (hflag : test (flagsOf s.table e) op.flag = true)
    (hclears : clears s action op e = false) :
    test (newFlags (flagWrite cfg s action) e (flagsOf s.table e)) op.flag =
      true := by
  simp only [clears, hflag, Bool.true_and] at hclears
  cases action
  case programFlags =>
    cases hpc : s.program <;> simp only [flagWrite, hpc, newFlags] <;>
      first
      | exact hflag
      | skip
    case handle op' e' =>
      split
      · exact test_raised hflag
      · exact hflag
  case statusFlags e' kind =>
    cases hmask : statusClears cfg kind with
    | none => simpa [flagWrite, hmask, newFlags] using hflag
    | some mask =>
        simp only [flagWrite, hmask, Option.map_some, newFlags]
        split
        case isTrue he =>
          cases kind <;> simp only [statusClears, Option.some.injEq,
            reduceCtorEq] at hmask
          case lds =>
            have hrefresh : op ≠ .refresh := by
              rintro rfl
              simp [he] at hclears
            rw [← hmask, test_kept]
            · exact hflag
            · clear hmask
              cases op with
              | refresh => exact absurd rfl hrefresh
              | unlearn => decide
              | learn => decide
              | probe => decide
          case lfs =>
            rw [← hmask, flag_outside op (by decide)]
            exact hflag
          case uds =>
            rw [← hmask, flag_outside op (by split <;> decide)]
            exact hflag
        case isFalse => exact hflag
  case recordFlags e' info =>
    simp only [flagWrite, newFlags]
    split
    · exact test_raised hflag
    · exact hflag
  case recordProbe =>
    cases hpc : s.record <;> simp only [flagWrite, hpc, newFlags] <;>
      first
      | exact hflag
      | skip
    split
    · rw [flag_outside op (by decide)]
      exact hflag
    · exact hflag
  case recordTrack =>
    cases hpc : s.record <;> simp only [flagWrite, hpc, newFlags] <;>
      first
      | exact hflag
      | skip
    split
    · rw [flag_outside op (by decide)]
      exact hflag
    · exact hflag
  case pollFlags =>
    cases hpc : s.poller <;> simp only [flagWrite, hpc, newFlags] <;>
      first
      | exact hflag
      | skip
    case flags e' =>
      simp only [hpc, decide_eq_false_iff_not] at hclears
      rw [if_neg (Ne.symm hclears)]
      exact hflag
  all_goals exact hflag

/-- An entry that stays in use keeps the flag, except for the two clears. -/
theorem flag_kept (hok : TableOk s.table)
    (hstep : sysStep cfg s action = some s')
    (hbefore : s.table.Used e) (hafter : s'.table.Used e)
    (hflag : test (flagsOf s.table e) op.flag = true)
    (hclears : clears s action op e = false) :
    test (flagsOf s'.table e) op.flag = true := by
  rw [(sysStep_flagged hok hstep).flagsOf_eq hbefore hafter]
  exact newFlags_kept hflag hclears

/-- Only an operation whose flag was clear goes on to a command; every other
step leaves the command that is under way. -/
theorem writes_before {written : EntryPtr × FlowCommand}
    (hstep : sysStep cfg s action = some s')
    (hwrites : s'.program.writes = some written) :
    s.program.writes = some written ∨ action = .programFlags ∧
      ∃ op, s.program = .handle op written.1 ∧
        opSkipped cfg op (flagsOf s.table written.1) = false := by
  cases hprogram : action.isProgram with
  | false =>
      left
      rwa [(sysStep_frame hstep).program hprogram] at hwrites
  | true =>
      cases sysStep_program hstep hprogram with
      | pull op e _ _ hafter => simp [hafter, ProgramPc.writes] at hwrites
      | flags op e hbefore hafter =>
          right
          rw [hafter] at hwrites
          cases hskipped : opSkipped cfg op (flagsOf s.table e) with
          | true => simp [programNext, hskipped, ProgramPc.writes] at hwrites
          | false =>
              rw [programNext_writes hskipped, Option.some.injEq] at hwrites
              rw [← hwrites]
              exact ⟨rfl, op, hbefore, hskipped⟩
      | ref e flags hbefore hafter =>
          left
          rw [hafter] at hwrites
          rw [hbefore]
          exact hwrites
      | addPoll e flags hbefore hafter =>
          left
          rw [hafter] at hwrites
          rw [hbefore]
          exact hwrites
      | skip e flags hbefore hafter =>
          left
          rw [hafter] at hwrites
          rw [hbefore]
          exact hwrites
      | write e command _ hafter => simp [hafter, ProgramPc.writes] at hwrites
      | fail e command _ hafter => simp [hafter, ProgramPc.writes] at hwrites

namespace Traced

variable {x x' : Traced}

/-- An operation gets into the window by a step of its own, which finds the flag
clear and sets it. -/
theorem InWindow.before (hwindow : x'.InWindow op e)
    (hstep : tracedStep cfg x action = some x') :
    x'.sys.table.Used e ∧ (x.InWindow op e ∨
      action = .programFlags ∧ x.sys.program = .handle op e ∧
        opSkipped cfg op (flagsOf x.sys.table e) = false) := by
  simp only [tracedStep, Option.map_eq_some_iff] at hstep
  obtain ⟨s', hstep, rfl⟩ := hstep
  obtain ⟨hhandled, hwrites⟩ := hwindow
  simp only [handledNext, Option.filter_eq_some_iff, decide_eq_true_eq]
    at hhandled
  obtain ⟨hhandled, hused⟩ := hhandled
  rw [Option.map_eq_some_iff] at hwrites
  obtain ⟨written, hwrites, rfl⟩ := hwrites
  refine ⟨hused, ?_⟩
  rcases writes_before hstep hwrites with hbefore | ⟨rfl, op', hpc, hskipped⟩
  · left
    refine ⟨?_, by rw [hbefore]; rfl⟩
    split at hhandled
    case h_1 op' e' hpc => simp [hpc, ProgramPc.writes] at hbefore
    case h_2 => exact hhandled
  · right
    simp only [hpc, Option.some.injEq, Prod.mk.injEq, and_true] at hhandled
    rw [← hhandled]
    exact ⟨rfl, hpc, hskipped⟩

/-- The flag of an operation in the window is set. -/
structure WindowInv (x : Traced) : Prop where
  ok : TableOk x.sys.table
  used : ∀ op e, x.InWindow op e → x.sys.table.Used e
  flag : ∀ op e, op ≠ .probe → x.InWindow op e →
    test (flagsOf x.sys.table e) op.flag = true

theorem sysStep_of_tracedStep (hstep : tracedStep cfg x action = some x') :
    sysStep cfg x.sys action = some x'.sys := by
  simp only [tracedStep, Option.map_eq_some_iff] at hstep
  obtain ⟨s', hstep, rfl⟩ := hstep
  exact hstep

/-- The step that handles an operation sets its flag. -/
theorem flag_set (hok : TableOk s.table) (hpc : s.program = .handle op e)
    (hstep : sysStep cfg s .programFlags = some s') (hused : s'.table.Used e) :
    test (flagsOf s'.table e) op.flag = true := by
  have hflagged := sysStep_flagged hok hstep
  have hbefore : s.table.Used e :=
    (hflagged.used e hused).resolve_right (by simp [addedEntryOf])
  rw [hflagged.flagsOf_eq hbefore hused]
  simp only [flagWrite, hpc, newFlags, if_true, BitVec.or_comm (flagsOf _ _)]
  apply test_raised
  cases op <;> decide

theorem WindowInv.step (hinv : WindowInv x)
    (hsafe : windowSafe x action = true)
    (hstep : tracedStep cfg x action = some x') : WindowInv x' := by
  have hsys := sysStep_of_tracedStep hstep
  have hok := (sysStep_flagged hinv.ok hsys).ok
  refine ⟨hok, fun op e hwindow => (hwindow.before hstep).1, ?_⟩
  intro op e hop hwindow
  obtain ⟨hused, hbefore | ⟨rfl, hpc, -⟩⟩ := hwindow.before hstep
  · apply flag_kept hinv.ok hsys (hinv.used op e hbefore) hused
      (hinv.flag op e hop hbefore)
    simpa [windowSafe, hbefore.1, hop, hbefore] using hsafe
  · exact flag_set hinv.ok hpc hsys hused

/-- Once the command is written, the flag keeps its operation out of the
window. -/
structure WrittenInv (x : Traced) (op : FlOp) (e : EntryPtr) : Prop where
  ok : TableOk x.sys.table
  flag : x.sys.table.Used e → test (flagsOf x.sys.table e) op.flag = true
  out : ¬ x.InWindow op e

theorem WrittenInv.step (hinv : WrittenInv x op e) (hop : op ≠ .probe)
    (hused : x.sys.table.Used e) (hclears : clears x.sys action op e = false)
    (hstep : tracedStep cfg x action = some x') : WrittenInv x' op e := by
  have hsys := sysStep_of_tracedStep hstep
  refine ⟨(sysStep_flagged hinv.ok hsys).ok, fun hused' =>
    flag_kept hinv.ok hsys hused hused' (hinv.flag hused) hclears, ?_⟩
  intro hwindow
  rcases (hwindow.before hstep).2 with hbefore | ⟨-, -, hskipped⟩
  · exact hinv.out hbefore
  · rw [opSkipped_of_flag hop (hinv.flag hused)] at hskipped
    exact Bool.false_ne_true hskipped.symm

theorem WindowInv.write (hinv : WindowInv x) (hop : op ≠ .probe)
    (hat : x.AtWrite op e) {success : Bool}
    (hstep : tracedStep cfg x (.programWrite success) = some x') :
    WrittenInv x' op e := by
  have hsys := sysStep_of_tracedStep hstep
  have hok := (sysStep_flagged hinv.ok hsys).ok
  have hused := hinv.used op e hat.inWindow
  refine ⟨hok, fun hused' => ?_, ?_⟩
  · exact flag_kept hinv.ok hsys hused hused' (hinv.flag op e hop hat.inWindow)
      (by simp [clears])
  · rintro ⟨-, hwrites⟩
    cases sysStep_program hsys rfl with
    | write e command _ hafter => simp [hafter, ProgramPc.writes] at hwrites
    | fail e command _ hafter => simp [hafter, ProgramPc.writes] at hwrites

end Traced

/-- In every run in which no flag is taken away between the moment it is set and
the write of the command, no command is written twice. -/
theorem writtenOnce_of_windowSafe (hstart : Started start) :
    WrittenOnce cfg (fun x action => windowSafe x action = true) start := by
  intro op e success x₁ x₂ x₃ hop hfirst hat hwrite hrest hagain
  have hwindow : x₁.WindowInv := by
    apply @Run.invariant _ _ _ _ _ _ Traced.WindowInv hfirst ⟨?_, ?_, ?_⟩
      fun hinv hsafe hstep => hinv.step hsafe hstep
    · exact hstart.inv.ok
    · rintro op e ⟨hhandled, -⟩
      simp at hhandled
    · rintro op e - ⟨hhandled, -⟩
      simp at hhandled
  have hwritten : x₃.WrittenInv op e := by
    apply @Run.invariant _ _ _ _ _ _ (fun x => x.WrittenInv op e) hrest
      (hwindow.write hop hat hwrite)
    rintro x action x' hinv ⟨-, hused, hclears⟩ hstep
    exact hinv.step hop hused hclears hstep
  exact hwritten.out hagain.inWindow

/-- A run up to a write, the write, and a run from there that keeps the flag. -/
def twiceRun (ok : Traced → SysAction → Bool) (op : FlOp)
    (first again : List SysAction) : Option (Traced × Traced × Traced) := do
  let t ← FlowTable.ftInit (fun _ _ => none) 0 1 1
  let x₁ ← execOk (tracedStep smallConfig) ok ⟨sysStart t, none⟩ first
  let x₂ ← tracedStep smallConfig x₁ (.programWrite true)
  let x₃ ← execOk (tracedStep smallConfig) (fun x action => ok x action &&
    decide (x.sys.table.Used smallEntry) &&
      !clears x.sys action op smallEntry) x₂ again
  some (x₁, x₂, x₃)

theorem twiceRun_spec {ok : Traced → SysAction → Bool}
    {first again : List SysAction} {x₁ x₂ x₃ : Traced}
    (hrun : twiceRun ok op first again = some (x₁, x₂, x₃)) :
    ∃ start, Started start ∧
      Run (tracedStep smallConfig) (fun x action => ok x action = true)
        ⟨start, none⟩ x₁ ∧
      tracedStep smallConfig x₁ (.programWrite true) = some x₂ ∧
      Run (tracedStep smallConfig) (fun x action => ok x action = true ∧
        x.sys.table.Used smallEntry ∧
          clears x.sys action op smallEntry = false) x₂ x₃ := by
  simp only [twiceRun, Option.bind_eq_bind, Option.bind_eq_some_iff,
    Option.some.injEq, Prod.mk.injEq] at hrun
  obtain ⟨t, hinit, x, hfirst, x', hwrite, x'', hagain, rfl, rfl, rfl⟩ := hrun
  refine ⟨sysStart t, ⟨_, _, _, _, t, hinit, by decide, rfl⟩,
    run_of_execOk first hfirst, hwrite,
    (run_of_execOk again hagain).mono fun x action hok => ?_⟩
  simpa [and_assoc] using hok

/-- The flow is learnt, two info records show no activity, and the first unlearn
is about to be written. -/
def unlearnActions : List SysAction :=
  learnActions ++ [.recordFlags smallEntry ⟨0, 0, 0, 0, 0, 0, 0, 4⟩,
    .recordUpdate, .recordPush true,
    .recordFlags smallEntry ⟨0, 0, 0, 0, 0, 0, 0, 4⟩, .recordUpdate,
    .recordPush true, .programPull, .programFlags]

/-- The second unlearn is handled, and not written. -/
theorem writtenOnce_of_windowSafe_unlearn :
    ∃ (start : Sys) (x₁ x₂ x₃ : Traced), Started start ∧
    x₁.AtWrite .unlearn smallEntry ∧
    tracedStep smallConfig x₁ (.programWrite true) = some x₂ ∧
    x₂.sys.queue = [(.unlearn, smallEntry)] ∧
    x₃.handled = some (.unlearn, smallEntry) ∧ x₃.sys.queue = [] ∧
    ¬ x₃.AtWrite .unlearn smallEntry := by
  have hrun : (twiceRun windowSafe .unlearn unlearnActions
      [.programPull, .programFlags]).map (fun (x₁, x₂, x₃) =>
        decide (x₁.AtWrite .unlearn smallEntry ∧
          x₂.sys.queue = [(.unlearn, smallEntry)] ∧
          x₃.handled = some (.unlearn, smallEntry) ∧ x₃.sys.queue = [])) =
      some true := by
    decide +kernel
  simp only [Option.map_eq_some_iff, decide_eq_true_eq] at hrun
  obtain ⟨⟨x₁, x₂, x₃⟩, hrun, hat, hqueue, hhandled, hempty⟩ := hrun
  obtain ⟨start, hstart, hfirst, hwrite, hagain⟩ := twiceRun_spec hrun
  exact ⟨start, x₁, x₂, x₃, hstart, hat, hwrite, hqueue, hhandled, hempty,
    writtenOnce_of_windowSafe hstart .unlearn smallEntry true x₁ x₂ x₃
      (by decide) hfirst hat hwrite hagain⟩

/-- `fl_add_poll` has put the entry on the list, and the poll thread visits it
before its LEARN is written. -/
def earlyPollActions : List SysAction :=
  [.rxLookup 0 0#32 upstreamPacket.packet, .rxAdd 0 none, .rxPush 0 true,
    .rxCount 0, .programPull, .programFlags, .programRef, .programAddPoll,
    .pollTick, .pollNext, .pollSkip, .pollFlags, .pollPush true, .programSkip]

/-- The LEARN is written, and the one the poll thread queued is written after
it, while nothing takes the flag away. -/
theorem writtenOnce_fails : ∃ start, Started start ∧
    ¬ WrittenOnce smallConfig anyStep start := by
  have hrun : (twiceRun (fun _ _ => true) .learn earlyPollActions
      [.programPull, .programFlags, .programSkip]).map (fun (x₁, _, x₃) =>
        decide (x₁.AtWrite .learn smallEntry ∧
          x₃.AtWrite .learn smallEntry)) = some true := by
    decide +kernel
  simp only [Option.map_eq_some_iff, decide_eq_true_eq] at hrun
  obtain ⟨⟨x₁, x₂, x₃⟩, hrun, hat, hagain⟩ := hrun
  obtain ⟨start, hstart, hfirst, hwrite, hrest⟩ := twiceRun_spec hrun
  refine ⟨start, hstart, fun honce => ?_⟩
  exact honce .learn smallEntry true x₁ x₂ x₃ (by decide)
    (hfirst.mono fun _ _ _ => trivial) hat hwrite
    (hrest.mono fun _ _ h => ⟨trivial, h.2⟩) hagain

end Ntnetflow

end NtapiExamples
