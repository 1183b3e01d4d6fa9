/-
The pending flags.  `fl_program_main` sets one before it writes a command, and
the status record that answers the command is meant to clear it.
-/
import NtapiExamples.Ntnetflow.PollList

namespace NtapiExamples

namespace Ntnetflow

variable {cfg : FlConfig} {s s' : Sys} {action : SysAction} {e : EntryPtr}

/-- The flags that say a command of this kind waits for its status. -/
def FlowCommand.pendingMask : FlowCommand → BitVec 32
  | .learn => FLOW_FLAGS_LEARN_PENDING ||| FLOW_FLAGS_REFRESH_PENDING
  | .unlearn => FLOW_FLAGS_UNLEARN_PENDING
  | .probe => 0#32

/-- The command an operation is written as. -/
def FlOp.command (cfg : FlConfig) : FlOp → FlowCommand
  | .probe => if cfg.hwProbe then .probe else .unlearn
  | .unlearn => .unlearn
  | .refresh => .learn
  | .learn => .learn

/-- The command `fl_program_main` is about to write. -/
def ProgramPc.writes : ProgramPc → Option (EntryPtr × FlowCommand)
  | .ref e _ => some (e, .learn)
  | .addPoll e _ => some (e, .learn)
  | .skip e _ => some (e, .learn)
  | .write e command => some (e, command)
  | _ => none

/-- Some command of this kind for the entry has no status record yet. -/
def unanswered (s : Sys) (e : EntryPtr) (command : FlowCommand) : Bool :=
  decide (s.history.answered.count (e, command) <
    s.history.written.count (e, command))

/-- The adapter answers a command it was given, and each of them once. -/
def adapterAnswers (s : Sys) (action : SysAction) : Bool :=
  match action with
  | .statusFlags e kind => kind.answers.all fun command =>
      unanswered s e command
  | _ => true

/-- A command may be answered `ignored`: its flag is clear, or another command
of its kind is about to be written or still unanswered. -/
def ignoredSafe (s : Sys) (e : EntryPtr) (command : FlowCommand) : Bool :=
  !test (flagsOf s.table e) command.pendingMask ||
    decide (s.program.writes = some (e, command)) ||
    decide (s.history.answered.count (e, command) + 1 <
      s.history.written.count (e, command))

/-- An operation is only dropped while a command of its kind is unanswered, no
command whose flag is set is lost in a failed write, and the answers `ignored`
do no harm. -/
def pendingSafe (cfg : FlConfig) (s : Sys) (action : SysAction) : Bool :=
  match action, s.program with
  | .programFlags, .handle op e =>
      !opSkipped cfg op (flagsOf s.table e) ||
        unanswered s e (op.command cfg)
  | .programWrite false, .write e command =>
      !test (flagsOf s.table e) command.pendingMask ||
        unanswered s e command
  | .statusFlags e .lis, _ => ignoredSafe s e .learn
  | .statusFlags e .uis, _ => ignoredSafe s e .unlearn
  | _, _ => true

/-- No operation for the entry is queued or under way, and every command
written for it is answered. -/
structure Settled (s : Sys) (e : EntryPtr) : Prop where
  queue : ∀ op, (op, e) ∉ s.queue
  program : s.program.entry ≠ some e
  answered : ∀ command, s.history.written.count (e, command) ≤
    s.history.answered.count (e, command)

/-- A pending flag stands for a command about to be written or unanswered. -/
structure PendingInv (s : Sys) : Prop where
  answers : ∀ e command, s.history.answered.count (e, command) ≤
    s.history.written.count (e, command)
  pending : ∀ e command,
    test (flagsOf s.table e) command.pendingMask = true →
      s.program.writes = some (e, command) ∨ unanswered s e command = true

/-- Pending flags are only set by an operation that is written as a command of
that kind. -/
theorem pending_raised {command : FlowCommand} (hok : TableOk s.table)
    (hstep : sysStep cfg s action = some s')
    (hset : test (flagsOf s'.table e) command.pendingMask = true) :
    test (flagsOf s.table e) command.pendingMask = true ∨
      action = .programFlags ∧ ∃ op, s.program = .handle op e ∧
        op.command cfg = command := by
  cases command with
  | learn =>
      simp only [FlowCommand.pendingMask, test_or, Bool.or_eq_true] at hset ⊢
      rcases hset with hset | hset
      · rcases flag_raised hok hstep (by decide) hset with hold |
          ⟨haction, op, hpc, hop⟩
        · exact Or.inl (Or.inl hold)
        · refine Or.inr ⟨haction, op, hpc, ?_⟩
          cases op <;> first | rfl | exact absurd hop (by decide)
      · rcases flag_raised hok hstep (by decide) hset with hold |
          ⟨haction, op, hpc, hop⟩
        · exact Or.inl (Or.inr hold)
        · refine Or.inr ⟨haction, op, hpc, ?_⟩
          cases op <;> first | rfl | exact absurd hop (by decide)
  | unlearn =>
      rcases flag_raised hok hstep (by decide) hset with hold |
        ⟨haction, op, hpc, hop⟩
      · exact Or.inl hold
      · refine Or.inr ⟨haction, op, hpc, ?_⟩
        cases op <;> first | rfl | exact absurd hop (by decide)
  | probe => simp [FlowCommand.pendingMask] at hset

/-- An operation that is not dropped is about to be written. -/
theorem programNext_writes {op : FlOp} {flags : BitVec 32}
    (hskipped : opSkipped cfg op flags = false) :
    (programNext cfg op e flags).writes = some (e, op.command cfg) := by
  unfold programNext
  rw [hskipped]
  cases op with
  | probe => rfl
  | unlearn => rfl
  | refresh => rfl
  | learn =>
      simp only [Bool.false_eq_true, if_false]
      split <;> rfl

theorem statusFlags_answered {kind : FlowStatus}
    (hstep : sysStep cfg s (.statusFlags e kind) = some s') :
    s'.history.answered =
      (kind.answers.toList.map fun command => (e, command)) ++
        s.history.answered := by
  simp only [sysStep, stepStatusFlags] at hstep
  split at hstep
  · split at hstep
    · split at hstep
      · rw [Option.some.injEq] at hstep
        rw [← hstep]
      · simp only [Option.bind_eq_bind, Option.bind_eq_some_iff,
          Option.some.injEq] at hstep
        obtain ⟨r, -, rfl⟩ := hstep
        rfl
    · simp at hstep
  · simp at hstep

/-- A status record is counted once, for its own kind of command. -/
theorem statusFlags_count {kind : FlowStatus} (e' : EntryPtr)
    (command : FlowCommand)
    (hstep : sysStep cfg s (.statusFlags e kind) = some s') :
    s'.history.answered.count (e', command) =
      s.history.answered.count (e', command) +
        if e' = e ∧ kind.answers = some command then 1 else 0 := by
  rw [statusFlags_answered hstep, List.count_append, Nat.add_comm]
  congr 1
  cases hkind : kind.answers with
  | none => simp
  | some command' =>
      by_cases he : e' = e <;> by_cases hc : command' = command <;>
        simp [he, hc, Ne.symm, eq_comm]

/-- What a record other than `ignored` says is done is not pending. -/
theorem statusFlags_cleared {kind : FlowStatus} {command : FlowCommand}
    (hok : TableOk s.table)
    (hstep : sysStep cfg s (.statusFlags e kind) = some s')
    (hkind : kind.answers = some command) (hlis : kind ≠ .lis)
    (huis : kind ≠ .uis) :
    test (flagsOf s'.table e) command.pendingMask = false := by
  rcases (sysStep_flagged hok hstep).flags e with hflags | ⟨hflags, -⟩
  · rw [hflags]
    cases kind <;> simp only [FlowStatus.answers, Option.some.injEq,
      reduceCtorEq] at hkind <;> subst hkind
    case lis => exact absurd rfl hlis
    case uis => exact absurd rfl huis
    case pds => simp [FlowCommand.pendingMask]
    case pis => simp [FlowCommand.pendingMask]
    all_goals
      simp only [flagWrite, newFlags, statusClears, Option.map_some, if_true]
      apply test_cleared
    case lds => decide
    case lfs => decide
    case uds => split <;> decide
  · rw [hflags]
    cases command <;> decide

theorem PendingInv.statusFlags {kind : FlowStatus} (hpending : PendingInv s)
    (hok : TableOk s.table)
    (hadapter : adapterAnswers s (.statusFlags e kind) = true)
    (hsafe : pendingSafe cfg s (.statusFlags e kind) = true)
    (hstep : sysStep cfg s (.statusFlags e kind) = some s') :
    PendingInv s' := by
  have hprogram := (sysStep_frame hstep).program rfl
  have hwritten := (sysStep_frame hstep).written (by simp)
  constructor
  · intro e' command
    rw [statusFlags_count e' command hstep, hwritten]
    split
    case isTrue h =>
      obtain ⟨rfl, hkind⟩ := h
      simp only [adapterAnswers, hkind, Option.all_some, unanswered,
        decide_eq_true_eq] at hadapter
      omega
    case isFalse => exact hpending.answers e' command
  · intro e' command hset
    have hold : test (flagsOf s.table e') command.pendingMask = true := by
      rcases pending_raised hok hstep hset with hold | ⟨heq, -⟩
      · exact hold
      · simp at heq
    rw [hprogram, unanswered, statusFlags_count e' command hstep, hwritten]
    by_cases hanswer : e' = e ∧ kind.answers = some command
    · obtain ⟨rfl, hkind⟩ := hanswer
      by_cases hlis : kind = .lis
      · subst hlis
        simp only [FlowStatus.answers, Option.some.injEq] at hkind
        subst hkind
        simpa [pendingSafe, ignoredSafe, hold, FlowStatus.answers] using hsafe
      · by_cases huis : kind = .uis
        · subst huis
          simp only [FlowStatus.answers, Option.some.injEq] at hkind
          subst hkind
          simpa [pendingSafe, ignoredSafe, hold, FlowStatus.answers] using hsafe
        · rw [statusFlags_cleared hok hstep hkind hlis huis] at hset
          simp at hset
    · rw [if_neg hanswer]
      exact hpending.pending e' command hold

/-- The pending flags after a step that neither sets one nor answers or writes
a command. -/
theorem PendingInv.congr (hpending : PendingInv s) (hok : TableOk s.table)
    (hstep : sysStep cfg s action = some s') (haction : action ≠ .programFlags)
    (hwritten : s'.history.written = s.history.written)
    (hanswered : s'.history.answered = s.history.answered)
    (hwrites : s'.program.writes = s.program.writes) : PendingInv s' := by
  constructor
  · intro e command
    rw [hwritten, hanswered]
    exact hpending.answers e command
  · intro e command hset
    rw [hwrites, unanswered, hwritten, hanswered]
    apply hpending.pending e command
    rcases pending_raised hok hstep hset with hold | ⟨heq, -⟩
    · exact hold
    · exact absurd heq haction

theorem PendingInv.programFlags (hpending : PendingInv s)
    (hok : TableOk s.table) (hsafe : pendingSafe cfg s .programFlags = true)
    (hstep : sysStep cfg s .programFlags = some s') : PendingInv s' := by
  have hwritten := (sysStep_frame hstep).written (by simp)
  have hanswered := (sysStep_frame hstep).answered (by simp)
  cases sysStep_program hstep rfl with
  | flags op e hpc hpc' =>
      constructor
      · intro e' command
        rw [hwritten, hanswered]
        exact hpending.answers e' command
      · intro e' command hset
        rw [unanswered, hwritten, hanswered]
        rcases pending_raised hok hstep hset with hold | ⟨-, op', hpc₁, rfl⟩
        · -- Nothing is about to be written while an operation is handled.
          rcases hpending.pending e' command hold with hwrites | hopen
          · simp [hpc, ProgramPc.writes] at hwrites
          · exact Or.inr hopen
        · rw [hpc, ProgramPc.handle.injEq] at hpc₁
          obtain ⟨rfl, rfl⟩ := hpc₁
          cases hskipped : opSkipped cfg op (flagsOf s.table e) with
          | true =>
              right
              simpa [pendingSafe, hpc, hskipped, unanswered] using hsafe
          | false =>
              left
              rw [hpc', programNext_writes hskipped]

theorem PendingInv.programWrite {success : Bool} (hpending : PendingInv s)
    (hok : TableOk s.table)
    (hsafe : pendingSafe cfg s (.programWrite success) = true)
    (hstep : sysStep cfg s (.programWrite success) = some s') :
    PendingInv s' := by
  have hanswered := (sysStep_frame hstep).answered (by simp)
  have hold : ∀ (e : EntryPtr) (command : FlowCommand),
      test (flagsOf s'.table e) command.pendingMask = true →
      test (flagsOf s.table e) command.pendingMask = true := by
    intro e command hset
    rcases pending_raised hok hstep hset with hold | ⟨heq, -⟩
    · exact hold
    · simp at heq
  cases sysStep_program hstep rfl with
  | write e command hpc hpc' hwritten =>
      constructor
      · intro e' command'
        rw [hwritten, hanswered, List.count_cons]
        have hle := hpending.answers e' command'
        omega
      · intro e' command' hset
        right
        have hle := hpending.answers e' command'
        simp only [unanswered, hwritten, hanswered, List.count_cons,
          decide_eq_true_eq]
        rcases hpending.pending e' command' (hold e' command' hset) with
          hwrites | hopen
        · simp only [hpc, ProgramPc.writes, Option.some.injEq] at hwrites
          rw [hwrites]
          simp only [beq_self_eq_true, if_true]
          omega
        · simp only [unanswered, decide_eq_true_eq] at hopen
          omega
  | fail e command hpc hpc' hwritten =>
      constructor
      · intro e' command'
        rw [hwritten, hanswered]
        exact hpending.answers e' command'
      · intro e' command' hset
        right
        rw [unanswered, hwritten, hanswered]
        have hset' := hold e' command' hset
        rcases hpending.pending e' command' hset' with hwrites | hopen
        · simp only [hpc, ProgramPc.writes, Option.some.injEq,
            Prod.mk.injEq] at hwrites
          obtain ⟨rfl, rfl⟩ := hwrites
          simpa [pendingSafe, hpc, hset', unanswered] using hsafe
        · exact hopen

theorem PendingInv.sysStep (hpending : PendingInv s) (hok : TableOk s.table)
    (hadapter : adapterAnswers s action = true)
    (hsafe : pendingSafe cfg s action = true)
    (hstep : sysStep cfg s action = some s') : PendingInv s' := by
  obtain ⟨hprogram, -, -, hwritten, hanswered, -⟩ := sysStep_frame hstep
  cases hpc : action.isProgram with
  | true =>
      have hsame := sysStep_program hstep hpc
      cases hsame with
      | pull op e hbefore _ hafter =>
          exact hpending.congr hok hstep (by simp) (hwritten (by simp))
            (hanswered (by simp)) (by rw [hbefore, hafter]; rfl)
      | flags op e _ _ => exact hpending.programFlags hok hsafe hstep
      | ref e flags hbefore hafter =>
          exact hpending.congr hok hstep (by simp) (hwritten (by simp))
            (hanswered (by simp)) (by rw [hbefore, hafter]; rfl)
      | addPoll e flags hbefore hafter _ _ =>
          exact hpending.congr hok hstep (by simp) (hwritten (by simp))
            (hanswered (by simp)) (by rw [hbefore, hafter]; rfl)
      | skip e flags hbefore hafter =>
          exact hpending.congr hok hstep (by simp) (hwritten (by simp))
            (hanswered (by simp)) (by rw [hbefore, hafter]; rfl)
      | write e command _ _ _ => exact hpending.programWrite hok hsafe hstep
      | fail e command _ _ _ => exact hpending.programWrite hok hsafe hstep
  | false =>
      by_cases hstatus : ∃ e kind, action = .statusFlags e kind
      · obtain ⟨e, kind, rfl⟩ := hstatus
        exact hpending.statusFlags hok hadapter hsafe hstep
      · have hflags : action ≠ .programFlags := by
          rintro rfl
          simp [SysAction.isProgram] at hpc
        have hwrite : ∀ success, action ≠ .programWrite success := by
          rintro success rfl
          simp [SysAction.isProgram] at hpc
        have hnone : ∀ e kind, action ≠ .statusFlags e kind :=
          fun e kind heq => hstatus ⟨e, kind, heq⟩
        exact hpending.congr hok hstep hflags (hwritten hwrite)
          (hanswered hnone) (by rw [hprogram hpc])

theorem Started.pending (hstart : Started s) : PendingInv s := by
  obtain ⟨calloc, power2, chainSize, bucketSize, t, hinit, -, rfl⟩ := hstart
  constructor
  · simp [sysStart]
  · intro e command hset
    simp only [sysStart, flagsOf, FlowTable.ftInit_content hinit e] at hset
    cases command <;> exact absurd hset (by decide)

/-- In every run of safe steps against such an adapter, an entry whose commands
are all answered has no pending flag. -/
theorem noPending_of_run {start : Sys} (hstart : Started start)
    (hrun : Run (sysStep cfg) (fun s action =>
      (adapterAnswers s action && pendingSafe cfg s action) = true) start s)
    (hsettled : Settled s e) :
    test (flagsOf s.table e) (FLOW_FLAGS_LEARN_PENDING |||
      FLOW_FLAGS_REFRESH_PENDING ||| FLOW_FLAGS_UNLEARN_PENDING) = false := by
  have hinv : TableOk s.table ∧ PendingInv s := by
    apply hrun.invariant ⟨hstart.inv.ok, hstart.pending⟩
    intro s action s' hinv hcond hstep
    rw [Bool.and_eq_true] at hcond
    exact ⟨(sysStep_flagged hinv.1 hstep).ok,
      hinv.2.sysStep hinv.1 hcond.1 hcond.2 hstep⟩
  have hclear : ∀ command : FlowCommand,
      test (flagsOf s.table e) command.pendingMask = false := by
    intro command
    by_contra hset
    rw [Bool.not_eq_false] at hset
    rcases hinv.2.pending e command hset with hwrites | hopen
    · apply hsettled.program
      cases hpc : s.program <;> simp [hpc, ProgramPc.writes] at hwrites <;>
        simp [ProgramPc.entry, hwrites]
    · have hanswered := hsettled.answered command
      simp only [unanswered, decide_eq_true_eq] at hopen
      omega
  have hlearn := hclear .learn
  have hunlearn := hclear .unlearn
  simp only [FlowCommand.pendingMask] at hlearn hunlearn
  rw [test_or, hlearn, hunlearn]
  rfl

/-- Nothing is queued or under way, and the one LEARN is answered. -/
def answeredLearn (s : Sys) : Bool :=
  s.queue.isEmpty && (s.program matches .idle) &&
    decide (s.history.written = [(smallEntry, .learn)]) &&
    decide (s.history.answered = [(smallEntry, .learn)])

theorem answeredLearn_settled (hlearn : answeredLearn s = true) :
    Settled s smallEntry := by
  simp only [answeredLearn, Bool.and_eq_true, List.isEmpty_iff,
    decide_eq_true_eq] at hlearn
  obtain ⟨⟨⟨hqueue, hprogram⟩, hwritten⟩, hanswered⟩ := hlearn
  refine ⟨by simp [hqueue], ?_, by simp [hwritten, hanswered]⟩
  cases hpc : s.program <;> simp [hpc] at hprogram
  simp [ProgramPc.entry]

/-- A LEARN that was answered `done` is not pending. -/
theorem noPending_of_run_done : ∃ start s, Started start ∧
    Run (sysStep smallConfig) (fun s action =>
      (adapterAnswers s action && pendingSafe smallConfig s action) = true)
      start s ∧
    Settled s smallEntry ∧
    test (flagsOf s.table smallEntry) (FLOW_FLAGS_LEARN_PENDING |||
      FLOW_FLAGS_REFRESH_PENDING ||| FLOW_FLAGS_UNLEARN_PENDING) = false := by
  have hrun : ((FlowTable.ftInit (fun _ _ => none) 0 1 1).bind fun t =>
      (execOk (sysStep smallConfig) (fun s action =>
        adapterAnswers s action && pendingSafe smallConfig s action)
        (sysStart t) (learnActions ++
          [.statusFlags smallEntry .lds, .statusSkip])).map answeredLearn) =
            some true := by
    decide +kernel
  simp only [Option.bind_eq_some_iff, Option.map_eq_some_iff] at hrun
  obtain ⟨t, hinit, s, hexec, hlearn⟩ := hrun
  have hstart : Started (sysStart t) :=
    ⟨_, _, _, _, t, hinit, by decide, rfl⟩
  have hreached := run_of_execOk _ hexec
  have hsettled := answeredLearn_settled hlearn
  exact ⟨sysStart t, s, hstart, hreached, hsettled,
    noPending_of_run hstart hreached hsettled⟩

/-- A LEARN that was answered `ignored` stays pending. -/
theorem noPending_fails : ∃ start s, Started start ∧
    Run (sysStep smallConfig) (fun s action => adapterAnswers s action = true)
      start s ∧
    Settled s smallEntry ∧
    test (flagsOf s.table smallEntry) (FLOW_FLAGS_LEARN_PENDING |||
      FLOW_FLAGS_REFRESH_PENDING ||| FLOW_FLAGS_UNLEARN_PENDING) = true := by
  have hrun : ((FlowTable.ftInit (fun _ _ => none) 0 1 1).bind fun t =>
      (execOk (sysStep smallConfig) adapterAnswers (sysStart t)
        (learnActions ++ [.statusFlags smallEntry .lis])).map fun s =>
          (answeredLearn s, test (flagsOf s.table smallEntry)
            (FLOW_FLAGS_LEARN_PENDING ||| FLOW_FLAGS_REFRESH_PENDING |||
              FLOW_FLAGS_UNLEARN_PENDING))) = some (true, true) := by
    decide +kernel
  simp only [Option.bind_eq_some_iff, Option.map_eq_some_iff,
    Prod.mk.injEq] at hrun
  obtain ⟨t, hinit, s, hexec, hlearn, hset⟩ := hrun
  exact ⟨sysStart t, s, ⟨_, _, _, _, t, hinit, by decide, rfl⟩,
    run_of_execOk _ hexec, answeredLearn_settled hlearn, hset⟩

end Ntnetflow

end NtapiExamples
