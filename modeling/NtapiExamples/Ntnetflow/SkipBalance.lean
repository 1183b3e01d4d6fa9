/-
`entry->poll.skip`: `fl_program_main` raises it for a LEARN, so that the next
visit of the poll thread leaves the entry alone, and `fl_status_main` takes it
back when the command was answered before that visit.
-/
import NtapiExamples.Ntnetflow.CommandOnce
import NtapiExamples.Ntnetflow.SkipSteps

namespace NtapiExamples

namespace Ntnetflow

variable {cfg : FlConfig} {s s' start : Sys} {e : EntryPtr} {action : SysAction}

/-- What `fl_status_main` has still to take off the counter. -/
def StatusPc.takes : StatusPc → EntryPtr → Int
  | .idle, _ => 0
  | .skip e' count, e => if e' = e then count else 0

/-- The program, with the entry of the LEARN that the counter was raised for and
that is not written yet, and with the number of LEARN commands that were written
for each entry since its last visit and are not answered. -/
structure Counted where
  sys : Sys
  learning : Option EntryPtr
  counted : EntryPtr → Nat

def learningAfter (x : Counted) (action : SysAction) : Option EntryPtr :=
  match action, x.sys.program with
  | .programSkip, .skip e _ => some e
  | .programWrite _, _ => none
  | _, _ => x.learning

def learningNext (x : Counted) (s' : Sys) (action : SysAction) :
    Option EntryPtr :=
  (learningAfter x action).filter fun e => decide (s'.table.Used e)

def countedAfter (x : Counted) (action : SysAction) (e : EntryPtr) : Nat :=
  match action, x.sys.poller with
  | .programWrite true, _ =>
      if x.learning = some e then x.counted e + 1 else x.counted e
  | .statusFlags e' kind, _ =>
      if e' = e ∧ kind.answers = some .learn then x.counted e - 1
      else x.counted e
  | .pollSkip, .skip e' => if e' = e then 0 else x.counted e
  | _, _ => x.counted e

def countedNext (x : Counted) (s' : Sys) (action : SysAction)
    (e : EntryPtr) : Nat :=
  if s'.table.Used e then countedAfter x action e else 0

def countedStep (cfg : FlConfig) (x : Counted) (action : SysAction) :
    Option Counted :=
  (sysStep cfg x.sys action).map fun s' =>
    ⟨s', learningNext x s' action, countedNext x s' action⟩

/-- What the counter has to cover. -/
def Counted.owed (x : Counted) (e : EntryPtr) : Int :=
  x.counted e + if x.learning = some e then 1 else 0

/-- The counter is never below zero, and a visit leaves an entry alone for which
a LEARN was written since the last one and is not answered. -/
structure SkipBalanced (x : Counted) : Prop where
  nonneg : ∀ e, 0 ≤ skipOf x.sys.table e
  guarded : ∀ e s', x.sys.poller = .skip e → 0 < x.counted e →
    stepPollSkip x.sys = some s' → s'.poller = .next

/-- A status record takes nothing off the counter, or one for a LEARN that still
counts; and no visit, and no release of the entry, comes between the two updates
of `fl_status_main`, nor a visit between raising the counter and the write. -/
def skipSafe (cfg : FlConfig) (x : Counted) (action : SysAction) : Bool :=
  match action, x.sys.poller with
  | .statusFlags e kind, _ =>
      (statusClears cfg kind).isNone ||
        decide (statusSkip kind (flagsOf x.sys.table e) = 0) ||
        decide (kind ≠ .uds ∧ statusSkip kind (flagsOf x.sys.table e) = 1 ∧
          0 < x.counted e)
  | .pollSkip, .skip e =>
      decide (x.sys.status.takes e = 0 ∧ x.learning ≠ some e)
  | .pollDeref, .deref e =>
      decide (x.sys.status.takes e = 0) || !releases x.sys.table e
  | _, _ => true

theorem owed_unused {x x' : Counted} (hstep : countedStep cfg x action = some x')
    (hused : ¬ x'.sys.table.Used e) : x'.owed e = 0 := by
  simp only [countedStep, Option.map_eq_some_iff] at hstep
  obtain ⟨s', -, rfl⟩ := hstep
  have hlearning : learningNext x s' action ≠ some e := by
    intro h
    rw [learningNext, Option.filter_eq_some_iff] at h
    exact hused (of_decide_eq_true h.2)
  simp only at hused
  simp [Counted.owed, countedNext, hused, hlearning]

/-- Only raising the counter adds to what it has to cover. -/
theorem owed_le {x x' : Counted} (hstep : countedStep cfg x action = some x')
    (haction : action ≠ .programSkip) : x'.owed e ≤ x.owed e := by
  by_cases hused : x'.sys.table.Used e
  · simp only [countedStep, Option.map_eq_some_iff] at hstep
    obtain ⟨s', -, rfl⟩ := hstep
    simp only at hused
    have hlearning : learningNext x s' action = some e → x.learning = some e ∧
        ∀ success, action ≠ .programWrite success := by
      intro h
      rw [learningNext, Option.filter_eq_some_iff] at h
      obtain ⟨h, -⟩ := h
      unfold learningAfter at h
      split at h
      · exact absurd rfl haction
      · simp at h
      case h_3 hwrite _ => exact ⟨h, fun success heq => hwrite success heq⟩
    have hcounted : countedNext x s' action e ≤ x.counted e ∨
        x.learning = some e ∧ countedNext x s' action e = x.counted e + 1 ∧
          action = .programWrite true := by
      rw [countedNext, if_pos hused]
      unfold countedAfter
      grind
    simp only [Counted.owed]
    grind
  · rw [owed_unused hstep hused, Counted.owed]
    split <;> omega

/-- Raising the counter of an entry adds one to what its counter has to
cover. -/
theorem owed_programSkip {x x' : Counted} {e₀ : EntryPtr} {flags : BitVec 32}
    (hstep : countedStep cfg x .programSkip = some x')
    (hpc : x.sys.program = .skip e₀ flags) :
    x'.owed e ≤ x.owed e + if e = e₀ then 1 else 0 := by
  simp only [countedStep, Option.map_eq_some_iff] at hstep
  obtain ⟨s', -, rfl⟩ := hstep
  have hcounted : countedNext x s' .programSkip e ≤ x.counted e := by
    simp only [countedNext, countedAfter]
    split <;> omega
  have hlearning : learningNext x s' .programSkip = some e → e = e₀ := by
    intro h
    simp only [learningNext, learningAfter, hpc,
      Option.filter_eq_some_iff, Option.some.injEq] at h
    exact h.1.symm
  simp only [Counted.owed]
  grind

/-- The answer to a LEARN that counts. -/
theorem owed_statusFlags {x x' : Counted} {kind : FlowStatus}
    (hstep : countedStep cfg x (.statusFlags e kind) = some x')
    (hkind : kind.answers = some .learn) (hcounted : 0 < x.counted e) :
    x'.owed e ≤ x.owed e - 1 := by
  simp only [countedStep, Option.map_eq_some_iff] at hstep
  obtain ⟨s', -, rfl⟩ := hstep
  have hless : countedNext x s' (.statusFlags e kind) e ≤ x.counted e - 1 := by
    simp only [countedNext, countedAfter, hkind, and_self, if_true]
    split <;> omega
  have hlearning : learningNext x s' (.statusFlags e kind) = some e →
      x.learning = some e := by
    intro h
    rw [learningNext, Option.filter_eq_some_iff] at h
    exact h.1
  simp only [Counted.owed]
  grind

/-- After a visit nothing counts. -/
theorem owed_pollSkip {x x' : Counted}
    (hstep : countedStep cfg x .pollSkip = some x')
    (hpc : x.sys.poller = .skip e) (hlearning : x.learning ≠ some e) :
    x'.owed e = 0 := by
  simp only [countedStep, Option.map_eq_some_iff] at hstep
  obtain ⟨s', -, rfl⟩ := hstep
  have hcounted : countedNext x s' .pollSkip e = 0 := by
    simp only [countedNext, countedAfter, hpc, if_true, ite_self]
  have hlearning' : learningNext x s' .pollSkip ≠ some e := by
    intro h
    rw [learningNext, Option.filter_eq_some_iff] at h
    exact hlearning h.1
  simp [Counted.owed, hcounted, hlearning']

/-- The flags `fl_program_main` found when it handled a LEARN. -/
def ProgramPc.oldFlags : ProgramPc → Option (BitVec 32)
  | .ref _ flags => some flags
  | .addPoll _ flags => some flags
  | .skip _ flags => some flags
  | _ => none

/-- A pending LEARN has its flag, so no LEARN that is not dropped finds
LEARN_PENDING, and the counter is raised for each. -/
structure LearnFlags (s : Sys) : Prop where
  ok : TableOk s.table
  pending : ∀ e, test (flagsOf s.table e) FLOW_FLAGS_LEARN_PENDING = true →
    test (flagsOf s.table e) FLOW_FLAGS_LEARN = true
  old : ∀ flags, s.program.oldFlags = some flags →
    flags ≠ FLOW_FLAGS_LEARN_PENDING

theorem programNext_oldFlags {op : FlOp} {flags flags' : BitVec 32}
    (hold : (programNext cfg op e flags).oldFlags = some flags') :
    flags' = flags ∧ test flags FLOW_FLAGS_LEARN = false := by
  unfold programNext at hold
  split at hold
  case isTrue => simp [ProgramPc.oldFlags] at hold
  case isFalse hskipped =>
    cases op with
    | learn =>
        simp only [opSkipped, Bool.not_eq_true] at hskipped
        refine ⟨?_, hskipped⟩
        simp only at hold
        split at hold <;> simpa [ProgramPc.oldFlags, eq_comm] using hold
    | unlearn => simp [ProgramPc.oldFlags] at hold
    | refresh => simp [ProgramPc.oldFlags] at hold
    | probe => simp [ProgramPc.oldFlags] at hold

theorem LearnFlags.sysStep (hinv : LearnFlags s)
    (hstep : sysStep cfg s action = some s') : LearnFlags s' := by
  have hflagged := sysStep_flagged hinv.ok hstep
  refine ⟨hflagged.ok, fun e hpending => ?_, fun flags hold => ?_⟩
  · rcases flag_raised hinv.ok hstep (by decide) hpending with hbefore |
      ⟨rfl, op, hpc, hop⟩
    · rcases hflagged.flags e with hflags | ⟨hflags, -⟩
      · cases hclears : clears s action .learn e with
        | false =>
            rw [hflags]
            exact @newFlags_kept cfg s e action .learn (hinv.pending e hbefore)
              hclears
        | true =>
            -- the poll thread clears both flags
            exfalso
            rw [hflags] at hpending
            simp only [clears, Bool.and_eq_true] at hclears
            obtain ⟨-, hclears⟩ := hclears
            split at hclears
            case h_1 e' hpc =>
              simp only [flagWrite, hpc, newFlags,
                (of_decide_eq_true hclears).symm, if_true] at hpending
              rw [FLOW_FLAGS_CLEAR, test_cleared (by decide)] at hpending
              exact Bool.false_ne_true hpending
            case h_2 => simp at hclears
            case h_3 => simp at hclears
      · rw [hflags] at hpending
        exact absurd hpending (by decide)
    · have hlearn : op = .learn := by
        cases op <;> first | rfl | exact absurd hop (by decide)
      subst hlearn
      rcases hflagged.flags e with hflags | ⟨hflags, -⟩
      · rw [hflags]
        simp only [flagWrite, hpc, newFlags, if_true, opFlags]
        rw [BitVec.or_comm]
        apply test_raised
        decide
      · rw [hflags] at hpending
        exact absurd hpending (by decide)
  · cases hprogram : action.isProgram with
    | false =>
        rw [(sysStep_frame hstep).program hprogram] at hold
        exact hinv.old flags hold
    | true =>
        cases sysStep_program hstep hprogram with
        | pull op e _ _ hafter => simp [hafter, ProgramPc.oldFlags] at hold
        | flags op e _ hafter =>
            rw [hafter] at hold
            obtain ⟨rfl, hlearn⟩ := programNext_oldFlags hold
            intro heq
            have hboth := hinv.pending e (by rw [heq]; decide)
            rw [hlearn] at hboth
            exact Bool.false_ne_true hboth
        | ref e flags hbefore hafter =>
            apply hinv.old
            rw [hafter] at hold
            rw [hbefore]
            exact hold
        | addPoll e flags hbefore hafter =>
            apply hinv.old
            rw [hafter] at hold
            rw [hbefore]
            exact hold
        | skip e flags _ hafter => simp [hafter, ProgramPc.oldFlags] at hold
        | write e command _ hafter => simp [hafter, ProgramPc.oldFlags] at hold
        | fail e command _ hafter => simp [hafter, ProgramPc.oldFlags] at hold

/-- The counter of an entry covers the LEARN commands that count for it and what
`fl_status_main` has still to take off. -/
structure SkipInv (x : Counted) : Prop extends LearnFlags x.sys where
  balance : ∀ e, x.owed e + x.sys.status.takes e ≤ skipOf x.sys.table e
  takes : ∀ e, 0 ≤ x.sys.status.takes e
  taken : ∀ e, x.sys.status.takes e ≠ 0 → x.sys.table.Used e
  counts : ∀ e, 0 < x.counted e → x.sys.table.Used e

theorem Counted.owed_nonneg (x : Counted) (e : EntryPtr) : 0 ≤ x.owed e := by
  rw [owed]
  split <;> omega

theorem SkipInv.balanced {x : Counted} (hinv : SkipInv x) : SkipBalanced x := by
  constructor
  · intro e
    have hbalance := hinv.balance e
    have howed := x.owed_nonneg e
    have htakes := hinv.takes e
    omega
  · intro e s' hpc hcounted hvisit
    simp only [stepPollSkip, hpc, Option.bind_eq_bind, Option.bind_eq_some_iff,
      Option.some.injEq] at hvisit
    obtain ⟨t', hmodify, rfl⟩ := hvisit
    have hvalid := (FlowTable.modifyEntry_eq_some_iff.mp hmodify).1
    have hskip : 0 < (x.sys.table.entry e).poll.skip := by
      rw [← FlowTable.content_of_valid hvalid]
      have hbalance := hinv.balance e
      have htakes := hinv.takes e
      simp only [Counted.owed, skipOf] at hbalance
      split at hbalance <;> omega
    simp only [if_pos hskip]

section Steps

variable {x x' : Counted}

theorem sysStep_of_countedStep (hstep : countedStep cfg x action = some x') :
    sysStep cfg x.sys action = some x'.sys := by
  simp only [countedStep, Option.map_eq_some_iff] at hstep
  obtain ⟨s', hstep, rfl⟩ := hstep
  exact hstep

/-- The entry `fl_status_main` is at stays in use. -/
theorem SkipInv.taken_step (hinv : SkipInv x)
    (hsafe : skipSafe cfg x action = true)
    (hstep : countedStep cfg x action = some x') :
    (∀ e, 0 ≤ x'.sys.status.takes e) ∧
      ∀ e, x'.sys.status.takes e ≠ 0 → x'.sys.table.Used e := by
  have hsys := sysStep_of_countedStep hstep
  have hused := (sysStep_skipped hinv.ok hsys).used
  rcases sysStep_status hsys with ⟨-, hsame⟩ |
    ⟨e₀, count, rfl, hbefore, hafter⟩ |
    ⟨e₀, kind, rfl, hbefore, hclears, hafter⟩
  · rw [hsame]
    refine ⟨hinv.takes, fun e htakes => ?_⟩
    rcases hused e (hinv.taken e htakes) with hused | hreleased
    · exact hused
    · exfalso
      obtain ⟨rfl, hpc, hlast⟩ := releasedBy_eq_some hreleased
      simp only [skipSafe, hpc, hlast, Bool.not_true, Bool.or_false,
        decide_eq_true_eq] at hsafe
      exact htakes hsafe
  · rw [hafter]
    exact ⟨fun _ => le_rfl, fun _ htakes => absurd rfl htakes⟩
  · rw [hafter]
    have hsafe' : statusSkip kind (flagsOf x.sys.table e₀) = 0 ∨
        statusSkip kind (flagsOf x.sys.table e₀) = 1 ∧ 0 < x.counted e₀ := by
      simp only [skipSafe, Bool.or_eq_true, Option.isNone_iff_eq_none,
        decide_eq_true_eq] at hsafe
      rcases hsafe with (hnone | hzero) | ⟨-, hone, hcounted⟩
      · exact absurd hnone hclears
      · exact Or.inl hzero
      · exact Or.inr ⟨hone, hcounted⟩
    constructor
    · intro e
      simp only [StatusPc.takes]
      split <;> omega
    · intro e htakes
      simp only [StatusPc.takes] at htakes
      split at htakes
      case isTrue he =>
        subst he
        rcases hsafe' with hzero | ⟨-, hcounted⟩
        · exact absurd hzero htakes
        · rcases hused e₀ (hinv.counts e₀ hcounted) with h | h
          · exact h
          · simp [releasedBy] at h
      case isFalse => exact absurd rfl htakes

theorem SkipInv.balance_step (hinv : SkipInv x)
    (hsafe : skipSafe cfg x action = true)
    (hstep : countedStep cfg x action = some x') (e : EntryPtr) :
    x'.owed e + x'.sys.status.takes e ≤ skipOf x'.sys.table e := by
  have hsys := sysStep_of_countedStep hstep
  have hbalance := hinv.balance e
  have htaken := (hinv.taken_step hsafe hstep).2 e
  rcases (sysStep_skipped hinv.ok hsys).skip e with hskip | ⟨hzero, hunused⟩
  · rcases sysStep_status hsys with ⟨haction, hsame⟩ |
      ⟨e₀, count, rfl, hbefore, hafter⟩ |
      ⟨e₀, kind, rfl, hbefore, hclears, hafter⟩
    · rw [hskip, hsame]
      by_cases hprogram : action = .programSkip
      · subst hprogram
        cases sysStep_program hsys rfl with
        | skip e₀ flags hpc _ =>
            have howed := @owed_programSkip cfg e x x' e₀ flags hstep hpc
            have hflags := hinv.old flags (by rw [hpc]; rfl)
            simp only [skipWrite, hpc, newSkip, ne_eq, hflags,
              not_false_eq_true, if_true]
            by_cases he : e = e₀
            · rw [if_pos he] at howed ⊢
              omega
            · rw [if_neg he] at howed ⊢
              omega
      · have howed := @owed_le cfg e action x x' hstep hprogram
        by_cases hpoll : action = .pollSkip
        · subst hpoll
          by_cases hpc : x.sys.poller = .skip e
          · simp only [skipSafe, hpc, decide_eq_true_eq] at hsafe
            rw [owed_pollSkip hstep hpc hsafe.2, hsafe.1]
            simp [skipWrite, hpc, newSkip]
          · rw [newSkip_pollSkip hpc]
            omega
        · have hnone : skipWrite x.sys action = none := by
            unfold skipWrite
            split <;> simp_all
          rw [hnone]
          simp only [newSkip]
          omega
    · have howed := @owed_le cfg e .statusSkip x x' hstep (by simp)
      rw [hskip, hafter]
      simp only [hbefore, StatusPc.takes] at hbalance
      simp only [skipWrite, hbefore, newSkip, StatusPc.takes]
      by_cases he : e = e₀
      · rw [if_pos he.symm] at hbalance
        rw [if_pos he]
        omega
      · rw [if_neg (Ne.symm he)] at hbalance
        rw [if_neg he]
        omega
    · have howed := @owed_le cfg e (.statusFlags e₀ kind) x x' hstep (by simp)
      rw [hskip, hafter]
      simp only [hbefore, StatusPc.takes] at hbalance
      simp only [skipWrite, newSkip, StatusPc.takes]
      split
      case isTrue he =>
        subst he
        simp only [skipSafe, Bool.or_eq_true, Option.isNone_iff_eq_none,
          decide_eq_true_eq] at hsafe
        rcases hsafe with (hnone | hzero) | ⟨huds, hone, hcounted⟩
        · exact absurd hnone hclears
        · omega
        · have hkind : kind.answers = some .learn := by
            cases kind <;> simp_all [statusClears, FlowStatus.answers]
          have hless := owed_statusFlags hstep hkind hcounted
          omega
      case isFalse => omega
  · have htakes : x'.sys.status.takes e = 0 := by
      by_contra hne
      exact hunused (htaken hne)
    rw [owed_unused hstep hunused, htakes, hzero]
    rfl

theorem SkipInv.step (hinv : SkipInv x) (hsafe : skipSafe cfg x action = true)
    (hstep : countedStep cfg x action = some x') : SkipInv x' := by
  obtain ⟨htakes, htaken⟩ := hinv.taken_step hsafe hstep
  refine ⟨hinv.toLearnFlags.sysStep (sysStep_of_countedStep hstep),
    hinv.balance_step hsafe hstep, htakes, htaken, fun e hcounted => ?_⟩
  by_contra hunused
  have howed := owed_unused hstep hunused
  simp only [Counted.owed] at howed
  split at howed <;> omega

end Steps

/-- The program at its start, where nothing counts. -/
def countedStart (start : Sys) : Counted := ⟨start, none, fun _ => 0⟩

theorem Started.skipInv (hstart : Started start) :
    SkipInv (countedStart start) := by
  obtain ⟨calloc, power2, chainSize, bucketSize, t, hinit, hle, rfl⟩ := hstart
  have hzero := FlowTable.ftInit_content hinit
  refine ⟨⟨Started.inv ⟨_, _, _, _, t, hinit, hle, rfl⟩ |>.ok, ?_, ?_⟩, ?_, ?_,
    ?_, ?_⟩
  · intro e he
    simp only [countedStart, sysStart, flagsOf, hzero e] at he
    exact absurd he (by decide)
  · simp [countedStart, sysStart, ProgramPc.oldFlags]
  · intro e
    simp [countedStart, sysStart, Counted.owed, StatusPc.takes, skipOf, hzero e,
      FlowEntry.zero]
  · exact fun _ => le_rfl
  · exact fun _ htakes => absurd rfl htakes
  · exact fun _ hcounted => absurd hcounted (by simp [countedStart])

/-- In every run whose status records only take off what a LEARN has put on the
counter since the last visit, the counter is balanced. -/
theorem skipBalanced_of_run (hstart : Started start) {x : Counted}
    (hrun : Run (countedStep cfg) (fun x action => skipSafe cfg x action = true)
      (countedStart start) x) : SkipBalanced x := by
  have hinv : SkipInv x := @Run.invariant _ _ _ _ _ _ SkipInv hrun
    hstart.skipInv fun hinv hsafe hstep => hinv.step hsafe hstep
  exact hinv.balanced

def countedRun (ok : Counted → SysAction → Bool) (actions : List SysAction) :
    Option Counted :=
  (FlowTable.ftInit (fun _ _ => none) 0 1 1).bind fun t =>
    execOk (countedStep smallConfig) ok (countedStart (sysStart t)) actions

theorem run_of_countedRun {ok : Counted → SysAction → Bool}
    {actions : List SysAction} {x : Counted}
    (hrun : countedRun ok actions = some x) :
    ∃ start, Started start ∧ Run (countedStep smallConfig)
      (fun x action => ok x action = true) (countedStart start) x := by
  simp only [countedRun, Option.bind_eq_some_iff] at hrun
  obtain ⟨t, hinit, hexec⟩ := hrun
  exact ⟨sysStart t, ⟨_, _, _, _, t, hinit, by decide, rfl⟩,
    run_of_execOk actions hexec⟩

/-- The poll thread is at an entry whose LEARN is not answered. -/
theorem skipBalanced_of_run_learn : ∃ start x, Started start ∧
    Run (countedStep smallConfig) anyStep (countedStart start) x ∧
    x.sys.poller.entry = some smallEntry ∧ 0 < x.counted smallEntry ∧
    SkipBalanced x := by
  have hrun : (countedRun (skipSafe smallConfig)
      (learnActions ++ [.pollTick, .pollNext])).map (fun x =>
        decide (x.sys.poller.entry = some smallEntry ∧
          0 < x.counted smallEntry)) = some true := by
    decide +kernel
  simp only [Option.map_eq_some_iff, decide_eq_true_eq] at hrun
  obtain ⟨x, hrun, hpoller, hcounted⟩ := hrun
  obtain ⟨start, hstart, hreached⟩ := run_of_countedRun hrun
  exact ⟨start, x, hstart, hreached.mono fun _ _ _ => trivial, hpoller,
    hcounted, skipBalanced_of_run hstart hreached⟩

/-- The learn-done status of a flow arrives after the first visit of its
entry. -/
def lateStatusActions : List SysAction :=
  learnActions ++ [.pollTick, .pollNext, .pollSkip,
    .statusFlags smallEntry .lds, .statusSkip]

/-- The visit has reset the counter, and the status takes one off it. -/
theorem skipBalanced_fails : ∃ start x, Started start ∧
    Run (countedStep smallConfig)
      (fun x action => adapterAnswers x.sys action = true)
      (countedStart start) x ∧ ¬ SkipBalanced x := by
  have hrun : (countedRun (fun x => adapterAnswers x.sys)
      lateStatusActions).map (fun x => skipOf x.sys.table smallEntry) =
      some (-1) := by
    decide +kernel
  simp only [Option.map_eq_some_iff] at hrun
  obtain ⟨x, hrun, hskip⟩ := hrun
  obtain ⟨start, hstart, hreached⟩ := run_of_countedRun hrun
  refine ⟨start, x, hstart, hreached, fun hbalanced => ?_⟩
  have hnonneg := hbalanced.nonneg smallEntry
  omega

end Ntnetflow

end NtapiExamples
