/-
Membership of the poll list.  `fl_program_main` decides from the TRACK flag
whether an entry is on the list, and other threads clear and set that flag at
other times than they insert and remove.
-/
import NtapiExamples.Ntnetflow.FlowLearnFlags
import NtapiExamples.Ntnetflow.FlowLearnRing

namespace NtapiExamples

namespace Ntnetflow

variable {cfg : FlConfig} {s s' : Sys} {action : SysAction} {e : EntryPtr}

/-- The entry `fl_program_main` has set TRACK on and is about to insert. -/
def ProgramPc.inserts : ProgramPc → Option EntryPtr
  | .ref e _ => some e
  | .addPoll e _ => some e
  | _ => none

/-- The poll list is a circle of distinct entries, insertions and removals are
made for entries off and on it, and tracked entries are on it. -/
structure PollListOk (s : Sys) (l : List EntryPtr) : Prop where
  ring : PollRing s.table s.poll.head l
  add : ∀ e flags, s.program = .addPoll e flags → e ∉ l ∧
    pollNextOf s.table e = none ∧ pollPrevOf s.table e = none
  remove : ∀ e, s.poller = .remove e → e ∈ l
  track : ∀ e, test (flagsOf s.table e) FLOW_FLAGS_TRACK = true →
    e ∈ l ∨ s.program.inserts = some e

/-- An operation that will insert its entry finds one that was never inserted,
one that sets TRACK without inserting finds an entry on the list, and an entry
that is taken off the list is not tracked. -/
def pollListSafe (s : Sys) (action : SysAction) : Bool :=
  match action, s.program, s.poller with
  | .programFlags, .handle op e, _ =>
      match op with
      | .unlearn => true
      | .learn =>
          if test (flagsOf s.table e) FLOW_FLAGS_LEARN
          then decide (e ∈ s.history.members)
          else test (flagsOf s.table e) FLOW_FLAGS_TRACK ||
            decide (e ∉ s.history.inserted)
      | .probe | .refresh => decide (e ∈ s.history.members)
  | .pollRemove, _, .remove e =>
      !test (flagsOf s.table e) FLOW_FLAGS_TRACK
  | _, _, _ => true

/-- What TRACK says about the list while all steps are safe. -/
structure TrackInv (s : Sys) : Prop where
  pending : ∀ e, s.program.inserts = some e → e ∉ s.history.inserted
  track : ∀ e, test (flagsOf s.table e) FLOW_FLAGS_TRACK = true →
    e ∈ s.history.members ∨ s.program.inserts = some e

/-- `fl_program_main` only goes on to insert after a first LEARN. -/
theorem programNext_inserts {op : FlOp} {flags : BitVec 32} {e' : EntryPtr}
    (hinserts : (programNext cfg op e flags).inserts = some e') :
    op = .learn ∧ e' = e ∧ test flags FLOW_FLAGS_LEARN = false ∧
      test flags FLOW_FLAGS_TRACK = false := by
  unfold programNext at hinserts
  split at hinserts
  case isTrue => simp [ProgramPc.inserts] at hinserts
  case isFalse hskipped =>
    cases op with
    | learn =>
        simp only at hinserts
        split at hinserts
        case isTrue => simp [ProgramPc.inserts] at hinserts
        case isFalse htrack =>
          simp only [ProgramPc.inserts, Option.some.injEq] at hinserts
          simp only [opSkipped, Bool.not_eq_true] at hskipped htrack
          exact ⟨rfl, hinserts.symm, hskipped, htrack⟩
    | unlearn => simp [ProgramPc.inserts] at hinserts
    | refresh => simp [ProgramPc.inserts] at hinserts
    | probe => simp [ProgramPc.inserts] at hinserts

/-- TRACK is only set by `fl_program_main`. -/
theorem track_raised (hok : TableOk s.table)
    (hstep : sysStep cfg s action = some s')
    (htrack : test (flagsOf s'.table e) FLOW_FLAGS_TRACK = true) :
    test (flagsOf s.table e) FLOW_FLAGS_TRACK = true ∨
      action = .programFlags ∧ ∃ op, s.program = .handle op e ∧
        op ≠ .unlearn := by
  rcases flag_raised hok hstep (by decide) htrack with hold |
    ⟨haction, op, hpc, hop⟩
  · exact Or.inl hold
  · refine Or.inr ⟨haction, op, hpc, ?_⟩
    rintro rfl
    revert hop
    decide

/-- TRACK and the list after a step that neither handles an operation nor
changes the list. -/
theorem TrackInv.congr (htrack : TrackInv s) (hok : TableOk s.table)
    (hstep : sysStep cfg s action = some s') (haction : action ≠ .programFlags)
    (hinserted : s'.history.inserted = s.history.inserted)
    (hmembers : s'.history.members = s.history.members)
    (hinserts : s'.program.inserts = s.program.inserts) : TrackInv s' := by
  constructor
  · intro e he
    rw [hinserts] at he
    rw [hinserted]
    exact htrack.pending e he
  · intro e he
    rw [hmembers, hinserts]
    apply htrack.track e
    rcases track_raised hok hstep he with hold | ⟨heq, -⟩
    · exact hold
    · exact absurd heq haction

theorem TrackInv.programFlags (htrack : TrackInv s) (hok : TableOk s.table)
    (hsafe : pollListSafe s .programFlags = true)
    (hstep : sysStep cfg s .programFlags = some s') : TrackInv s' := by
  have hinserted := (sysStep_frame hstep).inserted (by simp)
  have hmembers := (sysStep_frame hstep).members (by simp) (by simp)
  cases sysStep_program hstep rfl with
  | flags op e hpc hpc' =>
      constructor
      · intro e' he'
        rw [hpc'] at he'
        obtain ⟨rfl, rfl, hlearn, htrackE⟩ := programNext_inserts he'
        simpa [pollListSafe, hpc, hlearn, htrackE, hinserted] using hsafe
      · intro e' he'
        rw [hmembers]
        have hold : test (flagsOf s.table e') FLOW_FLAGS_TRACK = true →
            e' ∈ s.history.members := by
          intro h
          rcases htrack.track e' h with hmem | hinserts
          · exact hmem
          · simp [hpc, ProgramPc.inserts] at hinserts
        rcases track_raised hok hstep he' with h | ⟨-, op', hpc'', hne⟩
        · exact Or.inl (hold h)
        · rw [hpc, ProgramPc.handle.injEq] at hpc''
          obtain ⟨rfl, rfl⟩ := hpc''
          cases op with
          | unlearn => exact absurd rfl hne
          | probe => left; simpa [pollListSafe, hpc] using hsafe
          | refresh => left; simpa [pollListSafe, hpc] using hsafe
          | learn =>
              cases hlearn : test (flagsOf s.table e) FLOW_FLAGS_LEARN with
              | true =>
                  left
                  simpa [pollListSafe, hpc, hlearn] using hsafe
              | false =>
                  cases htrackE : test (flagsOf s.table e)
                      FLOW_FLAGS_TRACK with
                  | true => exact Or.inl (hold htrackE)
                  | false =>
                      right
                      simp [hpc', programNext, opSkipped, hlearn, htrackE,
                        ProgramPc.inserts]

theorem TrackInv.pollRemove (htrack : TrackInv s) (hok : TableOk s.table)
    (hsafe : pollListSafe s .pollRemove = true)
    (hstep : sysStep cfg s .pollRemove = some s') : TrackInv s' := by
  have hprogram := (sysStep_frame hstep).program rfl
  have hinserted := (sysStep_frame hstep).inserted
  obtain ⟨e, hpc, hmembers⟩ : ∃ e, s.poller = .remove e ∧
      s'.history.members = s.history.members.erase e := by
    simp only [sysStep, stepPollRemove] at hstep
    split at hstep
    case h_1 e hpc =>
      simp only [Option.bind_eq_bind, Option.bind_eq_some_iff,
        Option.some.injEq] at hstep
      obtain ⟨⟨t', poll'⟩, -, rfl⟩ := hstep
      exact ⟨e, hpc, rfl⟩
    case h_2 => simp at hstep
  have hclear : test (flagsOf s.table e) FLOW_FLAGS_TRACK = false := by
    simp only [pollListSafe, hpc, Bool.not_eq_true'] at hsafe
    exact hsafe
  constructor
  · intro e' he'
    rw [hprogram] at he'
    rw [hinserted (by simp)]
    exact htrack.pending e' he'
  · intro e' he'
    rcases track_raised hok hstep he' with hold | ⟨heq, -⟩
    · have hne : e' ≠ e := by
        rintro rfl
        rw [hclear] at hold
        simp at hold
      rw [hprogram, hmembers, List.mem_erase_of_ne hne]
      exact htrack.track e' hold
    · simp at heq

theorem TrackInv.sysStep (htrack : TrackInv s) (hok : TableOk s.table)
    (hsafe : pollListSafe s action = true)
    (hstep : sysStep cfg s action = some s') : TrackInv s' := by
  obtain ⟨hprogram, hinserted, hmembers, -, -, -⟩ := sysStep_frame hstep
  cases hpc : action.isProgram with
  | true =>
      cases sysStep_program hstep hpc with
      | pull op e hbefore _ hafter =>
          exact htrack.congr hok hstep (by simp) (hinserted (by simp))
            (hmembers (by simp) (by simp)) (by rw [hbefore, hafter]; rfl)
      | flags op e _ _ => exact htrack.programFlags hok hsafe hstep
      | ref e flags hbefore hafter =>
          exact htrack.congr hok hstep (by simp) (hinserted (by simp))
            (hmembers (by simp) (by simp)) (by rw [hbefore, hafter]; rfl)
      | addPoll e flags hbefore hafter hinserted' hmembers' =>
          constructor
          · simp [hafter, ProgramPc.inserts]
          · intro e' he'
            left
            rw [hmembers', List.mem_cons]
            rcases track_raised hok hstep he' with hold | ⟨heq, -⟩
            · rcases htrack.track e' hold with hmem | hinserts
              · exact Or.inr hmem
              · left
                simpa [hbefore, ProgramPc.inserts, eq_comm] using hinserts
            · simp at heq
      | skip e flags hbefore hafter =>
          exact htrack.congr hok hstep (by simp) (hinserted (by simp))
            (hmembers (by simp) (by simp)) (by rw [hbefore, hafter]; rfl)
      | write e command hbefore hafter _ =>
          exact htrack.congr hok hstep (by simp) (hinserted (by simp))
            (hmembers (by simp) (by simp)) (by rw [hbefore, hafter]; rfl)
      | fail e command hbefore hafter _ =>
          exact htrack.congr hok hstep (by simp) (hinserted (by simp))
            (hmembers (by simp) (by simp)) (by rw [hbefore, hafter]; rfl)
  | false =>
      by_cases hremove : action = .pollRemove
      · subst hremove
        exact htrack.pollRemove hok hsafe hstep
      · have hadd : action ≠ .programAddPoll := by
          rintro rfl
          simp [SysAction.isProgram] at hpc
        have hflags : action ≠ .programFlags := by
          rintro rfl
          simp [SysAction.isProgram] at hpc
        exact htrack.congr hok hstep hflags (hinserted hadd)
          (hmembers hadd hremove) (by rw [hprogram hpc])

/-- Safe steps keep the two assertions of `fl_add_poll`. -/
theorem TrackInv.asserts (htrack : TrackInv s) (hinv : Inv s) :
    addPollAsserts s action = true := by
  unfold addPollAsserts
  split
  case h_1 e flags hpc =>
    have hlinks := hinv.fresh e (htrack.pending e (by rw [hpc]; rfl))
    simp [hlinks.1, hlinks.2]
  case h_2 => rfl

theorem Started.track (hstart : Started s) : TrackInv s := by
  obtain ⟨calloc, power2, chainSize, bucketSize, t, hinit, -, rfl⟩ := hstart
  constructor
  · simp [sysStart, ProgramPc.inserts]
  · intro e he
    simp only [sysStart, flagsOf, FlowTable.ftInit_content hinit e] at he
    exact absurd he (by decide)

theorem run_trackInv {start : Sys} (hstart : Started start)
    (hrun : Run (sysStep cfg) (fun s action => pollListSafe s action = true)
      start s) : Inv s ∧ TrackInv s := by
  apply hrun.invariant ⟨hstart.inv, hstart.track⟩
  intro s action s' hinv hsafe hstep
  exact ⟨hinv.1.sysStep (hinv.2.asserts hinv.1) hstep,
    hinv.2.sysStep hinv.1.ok hsafe hstep⟩

/-- In every run whose steps are safe the poll list is in order. -/
theorem pollListOk_of_run {start : Sys} (hstart : Started start)
    (hrun : Run (sysStep cfg) (fun s action => pollListSafe s action = true)
      start s) : ∃ l, PollListOk s l := by
  obtain ⟨hinv, htrack⟩ := run_trackInv hstart hrun
  obtain ⟨l, hring, hperm⟩ := hinv.ring
  have hmem : ∀ e, e ∈ l ↔ e ∈ s.history.members := fun _ => hperm.mem_iff
  refine ⟨l, hring, ?_, ?_, ?_⟩
  · intro e flags hpc
    have hfresh := htrack.pending e (by rw [hpc]; rfl)
    refine ⟨?_, hinv.fresh e hfresh⟩
    rw [hmem]
    exact fun h => hfresh (hinv.inserted e h)
  · intro e hpc
    rw [hmem]
    exact hinv.listed e (by rw [hpc]; rfl)
  · intro e he
    rw [hmem]
    exact htrack.track e he

/-- A table with one chain of one slot, and a hardware probe. -/
def smallConfig : FlConfig := ⟨true, 1#64⟩

/-- The program on a table with one chain of one slot. -/
def smallRun (actions : List SysAction) : Option Sys :=
  (FlowTable.ftInit (fun _ _ => none) 0 1 1).bind fun t =>
    exec (sysStep smallConfig) (sysStart t) actions

theorem run_of_smallRun {actions : List SysAction}
    (hrun : smallRun actions = some s) :
    ∃ start, Started start ∧ Run (sysStep smallConfig) anyStep start s := by
  simp only [smallRun, Option.bind_eq_some_iff] at hrun
  obtain ⟨t, hinit, hexec⟩ := hrun
  exact ⟨sysStart t, ⟨_, _, _, _, t, hinit, by decide, rfl⟩,
    run_of_exec actions hexec⟩

/-- A packet of a new flow is missed, and its flow is learnt. -/
def learnActions : List SysAction :=
  [.rxLookup 0 0#32 upstreamPacket.packet, .rxAdd 0 none, .rxPush 0 true,
    .rxCount 0, .programPull, .programFlags, .programRef, .programAddPoll,
    .programSkip, .programWrite true]

/-- The only entry of that table. -/
def smallEntry : EntryPtr := ⟨.first 0, 0⟩

/-- A learnt flow is on the list. -/
theorem pollListOk_of_run_learn : ∃ start s l, Started start ∧
    Run (sysStep smallConfig) (fun s action => pollListSafe s action = true)
      start s ∧ s.poll.head = some smallEntry ∧ PollListOk s l := by
  have hrun : ((FlowTable.ftInit (fun _ _ => none) 0 1 1).bind fun t =>
      (execOk (sysStep smallConfig) pollListSafe (sysStart t)
        learnActions).map fun s => s.poll.head) =
          some (some smallEntry) := by
    decide +kernel
  simp only [Option.bind_eq_some_iff, Option.map_eq_some_iff] at hrun
  obtain ⟨t, hinit, s, hexec, hhead⟩ := hrun
  have hstart : Started (sysStart t) :=
    ⟨_, _, _, _, t, hinit, by decide, rfl⟩
  obtain ⟨l, hok⟩ := pollListOk_of_run hstart
    (run_of_execOk learnActions hexec)
  exact ⟨sysStart t, s, l, hstart, run_of_execOk learnActions hexec, hhead,
    hok⟩

/-- An info record clears TRACK before the retry of an unanswered LEARN. -/
def relearnActions : List SysAction :=
  learnActions ++
    [.recordFlags smallEntry ⟨0, 0, 0, 0, 0, 0, 0, 1⟩, .recordUpdate,
      .recordTrack, .pollTick, .pollNext, .pollSkip, .pollNext, .pollTick,
      .pollNext, .pollSkip, .pollFlags, .pollPush true, .programPull,
      .programFlags, .programRef]

/-- `fl_program_main` is about to insert an entry that has links. -/
def insertsLinked (s : Sys) : Bool :=
  match s.program with
  | .addPoll e _ => (pollNextOf s.table e).isSome
  | _ => false

/-- The entry is on the list and is inserted once more. -/
theorem pollListOk_fails : ∃ start s, Started start ∧
    Run (sysStep smallConfig) anyStep start s ∧ ∀ l, ¬ PollListOk s l := by
  have hlinked : (smallRun relearnActions).map insertsLinked = some true := by
    decide +kernel
  simp only [Option.map_eq_some_iff] at hlinked
  obtain ⟨s, hrun, hlinked⟩ := hlinked
  obtain ⟨start, hstart, hreached⟩ := run_of_smallRun hrun
  refine ⟨start, s, hstart, hreached, ?_⟩
  intro l hok
  unfold insertsLinked at hlinked
  split at hlinked
  case h_1 e flags hpc =>
    rw [(hok.add e flags hpc).2.1] at hlinked
    simp at hlinked
  case h_2 => simp at hlinked

end Ntnetflow

end NtapiExamples
