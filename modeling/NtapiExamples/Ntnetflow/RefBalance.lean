/-
References of a flow entry.  `ft_add` starts with one reference, the first
LEARN takes another, and `fl_poll_main` drops one when it retires the entry:
nothing drops the first one.
-/
import NtapiExamples.Ntnetflow.PollList

namespace NtapiExamples

namespace Ntnetflow

variable {cfg : FlConfig} {start s s' : Sys} {e : EntryPtr}

/-- No operation is queued or under way, and no entry is being retired. -/
structure Quiescent (s : Sys) : Prop where
  queue : s.queue = []
  program : s.program.entry = none
  poller : s.poller.entry = none

/-- The references of live entries stand for their memberships of the list. -/
def RefBalanced (s : Sys) (l : List EntryPtr) : Prop :=
  ∀ e, s.table.Used e → rcOf s.table e = l.count e

/-- In a quiescent state a live entry has one reference more than it has
memberships. -/
theorem Inv.rc_quiescent (hinv : Inv s) (hquiet : Quiescent s)
    (he : s.table.Used e) :
    rcOf s.table e = s.history.members.count e + 1 := by
  have hrc := hinv.rc e he
  have htook : s.program.took = none := by
    have hentry := hquiet.program
    cases hpc : s.program <;> simp [hpc, ProgramPc.entry] at hentry <;> rfl
  have hdrops : s.poller.drops = none := by
    have hentry := hquiet.poller
    cases hpc : s.poller <;> simp [hpc, PollPc.entry] at hentry <;> rfl
  simp only [htook, hdrops, reduceCtorEq, if_false] at hrc
  omega

/-- An entry that is retired stays in use with a reference. -/
theorem Inv.retire_keeps (hinv : Inv s) (hpc : s.poller = .deref e)
    (hstep : Ntnetflow.sysStep cfg s .pollDeref = some s') :
    s'.table.Used e ∧ 1 ≤ rcOf s'.table e := by
  obtain ⟨hinv', hused⟩ := hinv.stepPollDeref hstep
  have he := hused e hpc
  refine ⟨he, ?_⟩
  have hrc := hinv'.rc e he
  rw [hrc]
  split <;> split <;> omega

/-- The law in one state: at rest the references of a live entry stand for its
memberships, and a retirement gives the slot back unless an operation for the entry
is queued. -/
structure RefLaw (cfg : FlConfig) (s : Sys) : Prop where
  balanced : Quiescent s → ∀ e, s.table.Used e →
    rcOf s.table e = s.history.members.count e
  frees : ∀ e s', s.poller = .deref e → (∀ op, (op, e) ∉ s.queue) →
    sysStep cfg s .pollDeref = some s' → ¬ s'.table.Used e

/-- The program has no flow. -/
structure NoFlows (s : Sys) : Prop extends Inv s where
  empty : ∀ e, ¬ s.table.Used e

theorem Started.noFlows (hstart : Started s) : NoFlows s := by
  refine ⟨hstart.inv, ?_⟩
  obtain ⟨calloc, power2, chainSize, bucketSize, t, hinit, hle, rfl⟩ := hstart
  exact FlowTable.ftInit_not_used hinit hle

/-- Without a flow nothing is queued or under way. -/
theorem NoFlows.quiescent (hnone : NoFlows s) : Quiescent s where
  queue := by
    rw [List.eq_nil_iff_forall_not_mem]
    exact fun item hmem => hnone.empty _ (hnone.queue item.1 item.2 hmem)
  program := Option.eq_none_iff_forall_not_mem.mpr fun e he =>
    hnone.empty e (hnone.program e he)
  poller := Option.eq_none_iff_forall_not_mem.mpr fun e he =>
    hnone.empty e (hnone.poller e he)

theorem NoFlows.refLaw (hnone : NoFlows s) : RefLaw cfg s where
  balanced := fun _ e he => absurd he (hnone.empty e)
  frees := fun e s' hpc _ _ =>
    absurd (hnone.poller e (by rw [hpc]; rfl)) (hnone.empty e)

/-- Only `ft_add` brings a flow. -/
theorem NoFlows.step {action : SysAction} (hnone : NoFlows s)
    (haction : ∀ thread alloc, action ≠ .rxAdd thread alloc)
    (hstep : sysStep cfg s action = some s') : NoFlows s' := by
  have hasserts : addPollAsserts s action = true := by
    have hprogram := hnone.quiescent.program
    unfold addPollAsserts
    split
    case h_1 e flags hpc => simp [hpc, ProgramPc.entry] at hprogram
    case h_2 => rfl
  refine ⟨hnone.toInv.sysStep hasserts hstep, ?_⟩
  intro e he
  rcases (sysStep_flagged hnone.ok hstep).used e he with hold | hadded
  · exact hnone.empty e hold
  · cases action
    case rxAdd thread alloc => exact haction thread alloc rfl
    all_goals cases hadded

/-- The first flow has its reference and no membership. -/
theorem NoFlows.rxAdd {thread : Nat} {alloc : Option Nat} (hnone : NoFlows s)
    (hstep : sysStep cfg s (.rxAdd thread alloc) = some s') :
    ¬ RefLaw cfg s' := by
  intro hlaw
  have hinv : Inv s' := hnone.toInv.stepRxAdd hstep
  obtain ⟨hqueue, hprogram, hpoller⟩ := hnone.quiescent
  simp only [sysStep, stepRxAdd] at hstep
  split at hstep
  case h_2 => cases hstep
  case h_1 streamId packet hpc =>
    simp only [Option.bind_eq_bind, Option.bind_eq_some_iff,
      Option.some.injEq] at hstep
    obtain ⟨⟨t', e⟩, hadd, rfl⟩ := hstep
    obtain ⟨-, hused, -⟩ := rxAdd_spec hnone.ok hadd
    have he : t'.Used e := (hused e).mpr (Or.inl rfl)
    have hquiet : Quiescent (setRx { s with table := t' } thread
        (if test packet.color FLOW_COLOR_MISS then .learn e packet
          else .count e packet)) :=
      ⟨hqueue, hprogram, hpoller⟩
    have hrc := hinv.rc_quiescent hquiet he
    have hbalanced := hlaw.balanced hquiet e he
    omega

/-- The law breaks with the first `ft_add` of a run. -/
theorem refLaw_breaks {actions : List SysAction} (hnone : NoFlows start)
    (hexec : exec (sysStep cfg) start actions = some s) {thread : Nat}
    {alloc : Option Nat} (hadd : .rxAdd thread alloc ∈ actions) :
    ∃ before s₁, before <+: actions ∧
      exec (sysStep cfg) start before = some s₁ ∧ ¬ RefLaw cfg s₁ := by
  induction actions generalizing start with
  | nil => cases hadd
  | cons action actions ih =>
      rw [exec] at hexec
      cases hstep : sysStep cfg start action with
      | none =>
          rw [hstep] at hexec
          cases hexec
      | some next =>
          rw [hstep] at hexec
          by_cases hfirst : ∃ thread alloc, action = .rxAdd thread alloc
          · obtain ⟨thread, alloc, rfl⟩ := hfirst
            exact ⟨[.rxAdd thread alloc], next, ⟨actions, rfl⟩,
              by simp [exec, hstep], hnone.rxAdd hstep⟩
          · simp only [not_exists] at hfirst
            rcases List.mem_cons.mp hadd with heq | hmem
            · exact absurd heq.symm (hfirst thread alloc)
            obtain ⟨before, s₁, hprefix, hbefore, hbreaks⟩ :=
              ih (hnone.step hfirst hstep) hexec hmem
            exact ⟨action :: before, s₁, List.cons_prefix_cons.mpr ⟨rfl, hprefix⟩,
              by simp [exec, hstep, hbefore], hbreaks⟩

/-- The law holds all along a run exactly when the run never adds a flow.  As long
as `fl_add_poll` is called as its assertions say, references and memberships agree
in a quiescent state only when no entry is live, and no retirement gives a slot
back. -/
theorem refBalanced_iff (hstart : Started start) {actions : List SysAction}
    (hexec : exec (sysStep cfg) start actions = some s) :
    ((∀ before s₁, before <+: actions →
        exec (sysStep cfg) start before = some s₁ → RefLaw cfg s₁) ↔
      ∀ thread alloc, .rxAdd thread alloc ∉ actions) ∧
    (execOk (sysStep cfg) addPollAsserts start actions = some s →
      ∃ l, PollRing s.table s.poll.head l ∧
        (Quiescent s → (RefBalanced s l ↔ ∀ e, ¬ s.table.Used e)) ∧
        ∀ e s', s.poller = .deref e → sysStep cfg s .pollDeref = some s' →
          s'.table.Used e ∧ 1 ≤ rcOf s'.table e) := by
  refine ⟨⟨?_, ?_⟩, ?_⟩
  · intro hlaw thread alloc hadd
    obtain ⟨before, s₁, hprefix, hbefore, hbreaks⟩ :=
      refLaw_breaks hstart.noFlows hexec hadd
    exact hbreaks (hlaw before s₁ hprefix hbefore)
  · intro hnever before s₁ hprefix hbefore
    have hnone : NoFlows s₁ :=
      (run_of_exec_mem before hbefore).invariant hstart.noFlows
        fun hnone hmem hstep => hnone.step (fun thread alloc heq =>
          hnever thread alloc (heq ▸ hprefix.subset hmem)) hstep
    exact hnone.refLaw
  · intro hasserts
    have hinv := run_inv hstart (run_of_execOk actions hasserts)
    obtain ⟨l, hring, hperm⟩ := hinv.ring
    refine ⟨l, hring, ?_, fun e s' hpc hstep => hinv.retire_keeps hpc hstep⟩
    intro hquiet
    constructor
    · intro hbalanced e he
      have hrc := hinv.rc_quiescent hquiet he
      rw [hbalanced e he, hperm.count_eq] at hrc
      omega
    · intro hnone e he
      exact absurd he (hnone e)

/-- The flow is learnt, the adapter answers that the learn failed, and the poll
thread retires the entry. -/
def retireActions : List SysAction :=
  learnActions ++
    [.statusFlags smallEntry .lfs, .statusSkip, .pollTick, .pollNext,
      .pollSkip, .pollFlags, .pollRemove, .pollDeref]

/-- The flow ended and nothing is left to do, but its entry is still live and
the list is empty. -/
def leftOver (s : Sys) : Bool :=
  s.queue.isEmpty && s.program.entry.isNone && s.poller.entry.isNone &&
    s.poll.head.isNone && decide (s.table.Used smallEntry) &&
    decide (rcOf s.table smallEntry = 1)

theorem leftOver_spec (hleft : leftOver s = true) :
    Quiescent s ∧ s.poll.head = none ∧ s.table.Used smallEntry ∧
      rcOf s.table smallEntry = 1 := by
  simp only [leftOver, Bool.and_eq_true, List.isEmpty_iff,
    Option.isNone_iff_eq_none, decide_eq_true_eq] at hleft
  obtain ⟨⟨⟨⟨⟨hqueue, hprogram⟩, hpoller⟩, hhead⟩, hused⟩, hrc⟩ := hleft
  exact ⟨⟨hqueue, hprogram, hpoller⟩, hhead, hused, hrc⟩

/-- The run in which a flow is learnt and retired adds one. -/
theorem refBalanced_iff_retired : ∃ start s, Started start ∧
    exec (sysStep smallConfig) start retireActions = some s ∧
    ((∀ before s₁, before <+: retireActions →
        exec (sysStep smallConfig) start before = some s₁ →
          RefLaw smallConfig s₁) ↔
      ∀ thread alloc, .rxAdd thread alloc ∉ retireActions) := by
  have hrun : ((FlowTable.ftInit (fun _ _ => none) 0 1 1).bind fun t =>
      exec (sysStep smallConfig) (sysStart t) retireActions).isSome = true := by
    decide +kernel
  obtain ⟨s, hs⟩ := Option.isSome_iff_exists.mp hrun
  obtain ⟨t, hinit, hexec⟩ := Option.bind_eq_some_iff.mp hs
  have hstart : Started (sysStart t) :=
    ⟨_, _, _, _, t, hinit, by decide, rfl⟩
  exact ⟨sysStart t, s, hstart, hexec, (refBalanced_iff hstart hexec).1⟩

/-- The flow has ended, but its entry keeps a reference and its slot. -/
theorem refBalanced_fails : ∃ start s, Started start ∧
    Run (sysStep smallConfig) anyStep start s ∧ Quiescent s ∧
    ∀ l, PollRing s.table s.poll.head l → ¬ RefBalanced s l := by
  have hleft : (smallRun retireActions).map leftOver = some true := by
    decide +kernel
  simp only [Option.map_eq_some_iff] at hleft
  obtain ⟨s, hrun, hleft⟩ := hleft
  obtain ⟨start, hstart, hreached⟩ := run_of_smallRun hrun
  obtain ⟨hquiet, hhead, hused, hrc⟩ := leftOver_spec hleft
  refine ⟨start, s, hstart, hreached, hquiet, ?_⟩
  intro l hring hbalanced
  have hnil : l = [] := by
    rw [← List.head?_eq_none_iff, ← hring.head, hhead]
  have hcount := hbalanced smallEntry hused
  rw [hrc, hnil] at hcount
  simp at hcount

end Ntnetflow

end NtapiExamples
