/-
`mpmc_queue_push_wait` and `mpmc_queue_pull_wait` of one thread, whatever the
other threads do to the queue and whatever FUTEX_WAIT returns.
-/
import NtapiExamples.Lib.Run
import NtapiExamples.Ntnetflow.MpmcQueue

namespace NtapiExamples

namespace Ntnetflow

def EINTR : Nat := 4

def EAGAIN : Nat := 11

/-- The call is still going on: nothing was taken and nothing given up. -/
def QueuePc.trying : QueuePc → Bool
  | .load _ => true
  | .test _ _ => true
  | .swap _ _ => true
  | .store _ _ => true
  | .enter => true
  | .testRunning => true
  | .loadWatched => true
  | .futexRunning _ => true
  | .futexTest _ => true
  | .futexCall _ => true
  | .asleep _ => true
  | _ => false

/-- The call returns false: `fl_program` drops its operation, and
`fl_program_main` leaves its loop. -/
def QueuePc.givesUp : QueuePc → Bool
  | .leave success => !success
  | .returned => true
  | _ => false

/-- What one thread does, and what happens to it. -/
inductive WaitAct where
  | others (sys : QueueSys)
  | call (data : BitVec 64)
  | own
  | swapFails
  | woken
  | futexFails (errno : Nat)

namespace QueueSys

variable (s : QueueSys)

/-- The other threads change anything but what is the thread's own. -/
def others (t : QueueThread) (sys : QueueSys) : QueueSys :=
  { sys with
    pc := Function.update sys.pc t (s.pc t)
    data := Function.update sys.data t (s.data t) }

/-- FUTEX_WAIT returns 0. -/
def stepWoken (t : QueueThread) : Option QueueSys :=
  match s.pc t with
  | .asleep _ => some (s.wakeOne t)
  | _ => none

/-- FUTEX_WAIT returns -1: `futex_wait` goes on when `errno` is EAGAIN. -/
def stepFutexFails (t : QueueThread) (errno : Nat) : Option QueueSys :=
  match s.pc t with
  | .futexCall val | .asleep val =>
      some (s.setPc t
        (if errno = EAGAIN then .futexRunning val else .leave false))
  | _ => none

def stepWait (t : QueueThread) : WaitAct → Option QueueSys
  | .others sys => some (s.others t sys)
  | .call data => s.stepCall t data
  | .own => s.stepThread t
  | .swapFails => s.stepSwapFails t
  | .woken => s.stepWoken t
  | .futexFails errno => s.stepFutexFails t errno

end QueueSys

/-- The queue, with what the thread has seen and done since its last call: it
found `running` false, it handed over a cell; and whether `app_running` has ever
been false. -/
structure WaitSys where
  sys : QueueSys
  sawStop : Bool
  stored : Bool
  stopped : Bool

def sawStopNext (t : QueueThread) (x : WaitSys) (action : WaitAct) : Bool :=
  match action, x.sys.pc t with
  | .call _, _ => false
  | .own, .testRunning => !x.sys.appRunning
  | .own, .futexRunning _ => !x.sys.appRunning
  | _, _ => x.sawStop

def storedNext (t : QueueThread) (x : WaitSys) (action : WaitAct) : Bool :=
  match action, x.sys.pc t with
  | .call _, _ => false
  | .own, .store _ _ => true
  | _, _ => x.stored

def waitStep (t : QueueThread) (x : WaitSys) (action : WaitAct) :
    Option WaitSys :=
  (x.sys.stepWait t action).map fun sys =>
    { sys := sys
      sawStop := sawStopNext t x action
      stored := storedNext t x action
      stopped := x.stopped || !sys.appRunning }

/-- The thread before a call. -/
def waitStart (sys : QueueSys) : WaitSys := ⟨sys, false, false, !sys.appRunning⟩

/-- A call that returns false has found `running` false and has handed over
nothing; as long as `app_running` stays true there is none. -/
structure WaitOk (t : QueueThread) (x : WaitSys) : Prop where
  observed : (x.sys.pc t).givesUp = true → x.sawStop = true ∧ x.stored = false
  running : x.stopped = false → (x.sys.pc t).givesUp = false

variable {t : QueueThread} {x x' : WaitSys} {action : WaitAct}

@[simp] theorem setPc_pc_self (s : QueueSys) (t : QueueThread) (pc : QueuePc) :
    (s.setPc t pc).pc t = pc := by
  simp [QueueSys.setPc]

/-- A step to a place where a thread does not give up. -/
theorem not_givesUp_of_setPc {s s' : QueueSys} {pc : QueuePc}
    (hset : some (s.setPc t pc) = some s') (hpc : pc.givesUp = false) :
    (s'.pc t).givesUp = false := by
  rw [Option.some.injEq] at hset
  rw [← hset, setPc_pc_self, hpc]

/-- The tests of a thread do not end its call, except in the loops of
`pull_wait`, `push_wait` and `futex_wait`. -/
theorem taken_givesUp (attempt : QueueTry) :
    attempt.taken.givesUp = false ∧ attempt.taken.trying = false := by
  cases attempt <;> exact ⟨rfl, rfl⟩

theorem failed_givesUp (attempt : QueueTry) :
    attempt.failed.givesUp = false := by
  cases attempt with
  | spin tries =>
      rw [QueueTry.failed]
      split <;> rfl
  | wait val => rfl

theorem afterTest_givesUp (s : QueueSys) (t : QueueThread) (attempt : QueueTry)
    (position : BitVec 32) :
    (s.afterTest t attempt position).givesUp = false := by
  simp only [QueueSys.afterTest]
  split
  · rfl
  · split
    · exact failed_givesUp attempt
    · rfl

/-- A step of the thread itself gives up only where it finds `running` false, or
goes on to return. -/
theorem stepThread_givesUp {s s' : QueueSys} (hstep : s.stepThread t = some s')
    (hgives : (s'.pc t).givesUp = true) :
    s.appRunning = false ∧ (s.pc t = .testRunning ∨
      ∃ val, s.pc t = .futexRunning val) ∨ s.pc t = .leave false := by
  cases hpc : s.pc t <;> simp only [QueueSys.stepThread, hpc, Option.some.injEq,
    reduceCtorEq] at hstep <;> subst hstep
  case load attempt => simp [QueuePc.givesUp] at hgives
  case test attempt position =>
    rw [setPc_pc_self, afterTest_givesUp] at hgives
    exact absurd hgives Bool.false_ne_true
  case swap attempt position =>
    simp only [QueueSys.swap] at hgives
    split at hgives <;> simp [QueuePc.givesUp] at hgives
  case store attempt position =>
    cases t <;> simp [QueueSys.store, (taken_givesUp attempt).1] at hgives
  case enter => simp [QueuePc.givesUp] at hgives
  case testRunning =>
    left
    cases hrunning : s.appRunning <;> simp_all [QueuePc.givesUp]
  case loadWatched => simp [QueuePc.givesUp] at hgives
  case futexRunning val =>
    left
    cases hrunning : s.appRunning <;> simp_all [QueuePc.givesUp]
  case futexTest val =>
    rw [setPc_pc_self] at hgives
    split at hgives <;> simp [QueuePc.givesUp] at hgives
  case futexCall val =>
    simp only [QueueSys.futexWait] at hgives
    split at hgives <;> simp [QueuePc.givesUp] at hgives
  case leave success =>
    right
    cases success with
    | true => simp [QueueSys.leave, QueuePc.givesUp] at hgives
    | false => rfl
  case wakeTest =>
    rw [setPc_pc_self] at hgives
    split at hgives <;> simp [QueuePc.givesUp] at hgives

/-- A step of the thread itself that goes on trying stores nothing and does not
find `running` false. -/
theorem stepThread_trying {s s' : QueueSys} (hstep : s.stepThread t = some s')
    (htrying : (s'.pc t).trying = true) :
    (s.pc t).trying = true ∧
      (∀ attempt position, s.pc t ≠ .store attempt position) ∧
      ((s.pc t = .testRunning ∨ ∃ val, s.pc t = .futexRunning val) →
        s.appRunning = true) := by
  cases hpc : s.pc t <;> simp only [QueueSys.stepThread, hpc, Option.some.injEq,
    reduceCtorEq] at hstep <;> subst hstep
  case store attempt position =>
    cases t <;> simp [QueueSys.store, (taken_givesUp attempt).2] at htrying
  case testRunning =>
    cases hrunning : s.appRunning <;> simp_all [QueuePc.trying]
  case futexRunning val =>
    cases hrunning : s.appRunning <;> simp_all [QueuePc.trying]
  case leave success =>
    cases success <;> cases t <;>
      simp [QueueSys.leave, QueuePc.trying] at htrying
  case wakeTest =>
    rw [setPc_pc_self] at htrying
    split at htrying <;> simp [QueuePc.trying] at htrying
  all_goals simp [QueuePc.trying]

/-- What holds whatever FUTEX_WAIT returns. -/
structure WaitInv (t : QueueThread) (x : WaitSys) : Prop where
  trying : (x.sys.pc t).trying = true → x.sawStop = false ∧ x.stored = false
  saw : x.sawStop = true → x.stopped = true
  flag : x.sys.appRunning = false → x.stopped = true

/-- `futex_wait` ends with -1 for a reason of its own. -/
def WaitAct.breaks : WaitAct → Bool
  | .futexFails errno => decide (errno ≠ EAGAIN)
  | _ => false

theorem stepWait_trying {s s' : QueueSys}
    (hstep : s.stepWait t action = some s')
    (htrying : (s'.pc t).trying = true) :
    (∃ data, action = .call data) ∨ (s.pc t).trying = true ∧
      (action = .own → (∀ attempt position, s.pc t ≠ .store attempt position) ∧
        ((s.pc t = .testRunning ∨ ∃ val, s.pc t = .futexRunning val) →
          s.appRunning = true)) := by
  cases action with
  | others sys =>
      right
      simp only [QueueSys.stepWait, Option.some.injEq] at hstep
      rw [← hstep] at htrying
      simpa [QueueSys.others] using htrying
  | call data => exact Or.inl ⟨data, rfl⟩
  | own =>
      obtain ⟨hbefore, hown⟩ := stepThread_trying hstep htrying
      exact Or.inr ⟨hbefore, fun _ => hown⟩
  | swapFails =>
      right
      simp only [QueueSys.stepWait, QueueSys.stepSwapFails] at hstep
      split at hstep
      case h_1 hpc => simp [hpc, QueuePc.trying]
      case h_2 => simp at hstep
  | woken =>
      right
      simp only [QueueSys.stepWait, QueueSys.stepWoken] at hstep
      split at hstep
      case h_1 hpc => simp [hpc, QueuePc.trying]
      case h_2 => simp at hstep
  | futexFails errno =>
      right
      simp only [QueueSys.stepWait, QueueSys.stepFutexFails] at hstep
      split at hstep
      case h_1 hpc => simp [hpc, QueuePc.trying]
      case h_2 hpc => simp [hpc, QueuePc.trying]
      case h_3 => simp at hstep

theorem WaitInv.step (hinv : WaitInv t x)
    (hstep : waitStep t x action = some x') : WaitInv t x' := by
  simp only [waitStep, Option.map_eq_some_iff] at hstep
  obtain ⟨sys, hstep, rfl⟩ := hstep
  constructor
  · intro htrying
    rcases stepWait_trying hstep htrying with ⟨data, rfl⟩ | ⟨hbefore, hown⟩
    · exact ⟨rfl, rfl⟩
    · obtain ⟨hsaw, hstored⟩ := hinv.trying hbefore
      simp only [sawStopNext, storedNext]
      grind
  · intro hsaw
    simp only [sawStopNext] at hsaw
    have hflag := hinv.flag
    have hsaw' := hinv.saw
    grind
  · intro hflag
    simp only at hflag
    simp [hflag]

/-- A thread gives up where it finds `running` false, or where FUTEX_WAIT
fails. -/
theorem stepWait_givesUp {s s' : QueueSys}
    (hstep : s.stepWait t action = some s')
    (hgives : (s'.pc t).givesUp = true) (hbreaks : action.breaks = false) :
    (action = .own ∧ s.appRunning = false ∧ (s.pc t = .testRunning ∨
      ∃ val, s.pc t = .futexRunning val)) ∨
      (s.pc t).givesUp = true ∧ ∀ data, action ≠ .call data := by
  cases action with
  | others sys =>
      right
      simp only [QueueSys.stepWait, Option.some.injEq] at hstep
      rw [← hstep] at hgives
      simpa [QueueSys.others] using hgives
  | call data =>
      have hgoes : (s'.pc t).givesUp = false := by
        simp only [QueueSys.stepWait, QueueSys.stepCall] at hstep
        split at hstep
        · exact not_givesUp_of_setPc hstep rfl
        · exact not_givesUp_of_setPc hstep rfl
        · simp at hstep
      simp [hgoes] at hgives
  | own =>
      rcases stepThread_givesUp hstep hgives with hstop | hleave
      · exact Or.inl ⟨rfl, hstop⟩
      · right
        simp [hleave, QueuePc.givesUp]
  | swapFails =>
      have hgoes : (s'.pc t).givesUp = false := by
        simp only [QueueSys.stepWait, QueueSys.stepSwapFails] at hstep
        split at hstep
        · exact not_givesUp_of_setPc hstep rfl
        · simp at hstep
      simp [hgoes] at hgives
  | woken =>
      exfalso
      simp only [QueueSys.stepWait, QueueSys.stepWoken] at hstep
      split at hstep
      case h_1 hpc =>
        rw [Option.some.injEq] at hstep
        rw [← hstep] at hgives
        simp [QueueSys.wakeOne, hpc, QueuePc.woken, QueuePc.givesUp] at hgives
      case h_2 => simp at hstep
  | futexFails errno =>
      simp only [WaitAct.breaks, decide_eq_false_iff_not, not_not] at hbreaks
      have hgoes : (s'.pc t).givesUp = false := by
        simp only [QueueSys.stepWait, QueueSys.stepFutexFails, hbreaks, if_true]
          at hstep
        split at hstep
        · exact not_givesUp_of_setPc hstep rfl
        · exact not_givesUp_of_setPc hstep rfl
        · simp at hstep
      simp [hgoes] at hgives

theorem WaitInv.observed_step (hinv : WaitInv t x)
    (hobserved : (x.sys.pc t).givesUp = true →
      x.sawStop = true ∧ x.stored = false) (hbreaks : action.breaks = false)
    (hstep : waitStep t x action = some x')
    (hgives : (x'.sys.pc t).givesUp = true) :
    x'.sawStop = true ∧ x'.stored = false := by
  simp only [waitStep, Option.map_eq_some_iff] at hstep
  obtain ⟨sys, hstep, rfl⟩ := hstep
  rcases stepWait_givesUp hstep hgives hbreaks with
    ⟨rfl, hstop, hpc⟩ | ⟨hbefore, hcall⟩
  · have htrying : (x.sys.pc t).trying = true := by
      rcases hpc with hpc | ⟨val, hpc⟩ <;> rw [hpc] <;> rfl
    have hstored := (hinv.trying htrying).2
    rcases hpc with hpc | ⟨val, hpc⟩ <;>
      simp [sawStopNext, storedNext, hpc, hstop, hstored]
  · obtain ⟨hsaw, hstored⟩ := hobserved hbefore
    have hpc : x.sys.pc t = .leave false ∨ x.sys.pc t = .returned := by
      revert hbefore
      cases x.sys.pc t <;> simp [QueuePc.givesUp]
    cases action with
    | call data => exact absurd rfl (hcall data)
    | own =>
        rcases hpc with hpc | hpc <;>
          simp [sawStopNext, storedNext, hpc, hsaw, hstored]
    | others sys => exact ⟨hsaw, hstored⟩
    | swapFails => exact ⟨hsaw, hstored⟩
    | woken => exact ⟨hsaw, hstored⟩
    | futexFails errno => exact ⟨hsaw, hstored⟩

/-- FUTEX_WAIT fails in the middle of a call. -/
theorem WaitInv.not_waitOk (hinv : WaitInv t x)
    (hbreaks : action.breaks = true)
    (hstep : waitStep t x action = some x') : ¬ WaitOk t x' := by
  cases action <;> simp only [WaitAct.breaks, Bool.false_eq_true] at hbreaks
  case futexFails errno =>
    simp only [waitStep, Option.map_eq_some_iff, QueueSys.stepWait,
      QueueSys.stepFutexFails] at hstep
    obtain ⟨sys, hstep, rfl⟩ := hstep
    have hfalse : sys.pc t = .leave false ∧ (x.sys.pc t).trying = true := by
      simp only [if_neg (of_decide_eq_true hbreaks)] at hstep
      split at hstep
      case h_1 hpc =>
        rw [Option.some.injEq] at hstep
        rw [← hstep, hpc]
        simp [QueuePc.trying]
      case h_2 hpc =>
        rw [Option.some.injEq] at hstep
        rw [← hstep, hpc]
        simp [QueuePc.trying]
      case h_3 => simp at hstep
    intro hok
    have hsaw := (hok.observed (by simp [hfalse.1, QueuePc.givesUp])).1
    simp [sawStopNext, (hinv.trying hfalse.2).1] at hsaw

theorem waitInv_start {sys : QueueSys} (hidle : sys.pc t = .idle) :
    WaitInv t (waitStart sys) := by
  constructor
  · intro htrying
    simp [waitStart, hidle, QueuePc.trying] at htrying
  · intro hsaw
    simp [waitStart] at hsaw
  · intro hflag
    simp only [waitStart] at hflag
    simp [waitStart, hflag]

theorem waitInv_of_exec {sys : QueueSys} {actions : List WaitAct}
    (hidle : sys.pc t = .idle)
    (hexec : exec (waitStep t) (waitStart sys) actions = some x) :
    WaitInv t x :=
  @Run.invariant _ _ _ _ _ _ (WaitInv t) (run_of_exec actions hexec)
    (waitInv_start hidle) fun hinv _ hstep => hinv.step hstep

/-- The waits of a thread fail only at shutdown, for every queue and whatever
the other threads do, exactly as long as no FUTEX_WAIT of the thread fails with
another error than EAGAIN. -/
theorem waitOk_iff {sys : QueueSys} {actions : List WaitAct}
    (hidle : sys.pc t = .idle)
    (hexec : exec (waitStep t) (waitStart sys) actions = some x) :
    (∀ first rest y, actions = first ++ rest →
      exec (waitStep t) (waitStart sys) first = some y → WaitOk t y) ↔
      ∀ errno, .futexFails errno ∈ actions → errno = EAGAIN := by
  constructor
  · intro hok errno hmem
    by_contra herrno
    obtain ⟨first, rest, rfl⟩ := List.append_of_mem hmem
    rw [exec_append, Option.bind_eq_some_iff] at hexec
    obtain ⟨y, hfirst, hrest⟩ := hexec
    simp only [exec] at hrest
    cases hstep : waitStep t y (.futexFails errno) with
    | none => simp [hstep] at hrest
    | some z =>
        refine (waitInv_of_exec hidle hfirst).not_waitOk
          (by simp [WaitAct.breaks, herrno]) hstep
          (hok (first ++ [.futexFails errno]) rest z (by simp) ?_)
        simp only [exec_append, hfirst, Option.bind_some, exec, hstep]
  · intro herrno first rest y hactions hfirst
    have hinv : WaitInv t y ∧ ((y.sys.pc t).givesUp = true →
        y.sawStop = true ∧ y.stored = false) := by
      apply @Run.invariant _ _ _ _ _ _ (fun y => WaitInv t y ∧
        ((y.sys.pc t).givesUp = true → y.sawStop = true ∧ y.stored = false))
        (run_of_exec_mem first hfirst)
      · refine ⟨waitInv_start hidle, fun hgives => ?_⟩
        simp [waitStart, hidle, QueuePc.givesUp] at hgives
      · rintro y action y' ⟨hinv, hobserved⟩ hmem hstep
        have hbreaks : action.breaks = false := by
          cases action with
          | futexFails errno =>
              have hagain := herrno errno (by
                rw [hactions]
                exact List.mem_append_left rest hmem)
              simp [WaitAct.breaks, hagain]
          | _ => rfl
        exact ⟨hinv.step hstep,
          hinv.observed_step hobserved hbreaks hstep⟩
    obtain ⟨hinv, hobserved⟩ := hinv
    refine ⟨hobserved, fun hstopped => ?_⟩
    cases hgives : (y.sys.pc t).givesUp with
    | false => rfl
    | true =>
        have hstop := hinv.saw (hobserved hgives).1
        rw [hstopped] at hstop
        exact absurd hstop Bool.false_ne_true

/-- A queue of two cells, with no thread in a call. -/
def emptyQueue : Option QueueSys :=
  (mpmcQueueInit (some fun _ => ⟨0, 0⟩) 2).map queueStart

/-- `fl_program_main` finds nothing `MAX_SPIN` times and calls FUTEX_WAIT. -/
def pullUntilWait : List WaitAct := .call 0 :: List.replicate 15 .own

theorem emptyQueue_start {actions : List WaitAct} {β : Type}
    {view : WaitSys → β} {seen : β}
    (hrun : (emptyQueue.bind fun sys => (exec (waitStep .consumer)
      (waitStart sys) actions).map view) = some seen) :
    ∃ sys x, sys.appRunning = true ∧ sys.pc .consumer = .idle ∧
      exec (waitStep .consumer) (waitStart sys) actions = some x ∧
      view x = seen := by
  simp only [Option.bind_eq_some_iff, Option.map_eq_some_iff, emptyQueue]
    at hrun
  obtain ⟨sys, ⟨queue, -, rfl⟩, x, hexec, hview⟩ := hrun
  exact ⟨queueStart queue, x, rfl, rfl, hexec, hview⟩

/-- FUTEX_WAIT finds that the counter has changed, and the consumer goes on. -/
theorem waitOk_iff_again : ∃ sys x, sys.pc .consumer = .idle ∧
    exec (waitStep .consumer) (waitStart sys)
      (pullUntilWait ++ [.futexFails EAGAIN, .own]) = some x ∧
    x.stopped = false ∧ WaitOk .consumer x := by
  have hrun : (emptyQueue.bind fun sys => (exec (waitStep .consumer)
      (waitStart sys) (pullUntilWait ++ [.futexFails EAGAIN, .own])).map
        WaitSys.stopped) = some false := by
    decide +kernel
  obtain ⟨sys, x, -, hidle, hexec, hstopped⟩ := emptyQueue_start hrun
  refine ⟨sys, x, hidle, hexec, hstopped, (waitOk_iff hidle hexec).mpr ?_ _ []
    x (by simp) hexec⟩
  intro errno hmem
  simpa [pullUntilWait] using hmem

/-- A signal interrupts FUTEX_WAIT of `fl_program_main`, which leaves its loop
while `app_running` is true. -/
theorem waitOk_fails : ∃ sys x, sys.appRunning = true ∧
    sys.pc .consumer = .idle ∧
    exec (waitStep .consumer) (waitStart sys)
      (pullUntilWait ++ [.own, .futexFails EINTR, .own]) = some x ∧
    x.stopped = false ∧ ¬ WaitOk .consumer x := by
  have hrun : (emptyQueue.bind fun sys => (exec (waitStep .consumer)
      (waitStart sys) (pullUntilWait ++ [.own, .futexFails EINTR, .own])).map
        fun x => (x.stopped, (x.sys.pc .consumer).givesUp)) =
      some (false, true) := by
    decide +kernel
  obtain ⟨sys, x, hrunning, hidle, hexec, hview⟩ := emptyQueue_start hrun
  simp only [Prod.mk.injEq] at hview
  refine ⟨sys, x, hrunning, hidle, hexec, hview.1, fun hok => ?_⟩
  have hgives := hok.running hview.1
  rw [hview.2] at hgives
  exact absurd hgives (by decide)

end Ntnetflow

end NtapiExamples
