/-
Where the elements of the program queue are, when a push or a pull gives up,
and what `mpmc_queue_size` says.
-/
import NtapiExamples.Ntnetflow.MpmcFifo

namespace NtapiExamples

namespace Ntnetflow

/-- `mpmc_queue_size`, with the two counters it loads one after the other. -/
def mpmcQueueSize (head tail : BitVec 32) : BitVec 32 := tail - head

variable {x x' : QueueRun} {t : QueueThread} {n p : Nat}
  {memory : Option (BitVec 32 → QueueCell)} {capacity : BitVec 32}
  {queue : MpmcQueue}

theorem ofNat_add_ofNat (p i : Nat) :
    BitVec.ofNat 32 p + BitVec.ofNat 32 i = BitVec.ofNat 32 (p + i) := by
  apply BitVec.eq_of_toNat_eq
  simp [BitVec.toNat_add]

/-- The counters apart, as long as they are less than a turn apart. -/
theorem mpmcQueueSize_ofNat {head tail : Nat} (hle : head ≤ tail)
    (hlt : tail < head + 2 ^ 32) :
    (mpmcQueueSize (BitVec.ofNat 32 head) (BitVec.ofNat 32 tail)).toNat =
      tail - head := by
  simp only [mpmcQueueSize, BitVec.toNat_sub, BitVec.toNat_ofNat]
  omega

theorem stepThread_pc_of_ne {s s' : QueueSys} {u : QueueThread} (hne : u ≠ t)
    (hstep : s.stepThread t = some s') : s'.pc u = s.pc u := by
  simp only [QueueSys.stepThread] at hstep
  cases hpc : s.pc t <;> simp only [hpc, Option.some.injEq, reduceCtorEq]
    at hstep <;> rw [← hstep]
  case swap attempt position =>
    rw [QueueSys.swap]
    split <;> exact setPc_pc_of_ne _ hne _
  case store attempt position =>
    cases t <;> exact setPc_pc_of_ne _ hne _
  case futexCall val =>
    rw [QueueSys.futexWait]
    split <;> exact setPc_pc_of_ne _ hne _
  all_goals exact setPc_pc_of_ne _ hne _

theorem wakeOne_idle {s : QueueSys} (u : QueueThread) (hidle : s.pc t = .idle) :
    (s.wakeOne u).pc t = .idle := by
  by_cases htu : t = u
  · rw [← htu]
    simp only [QueueSys.wakeOne, setPc_pc_self, hidle, QueuePc.woken]
  · exact (setPc_pc_of_ne _ htu _).trans hidle

theorem broadcast_idle {s : QueueSys} (side : QueueSide)
    (hidle : s.pc t = .idle) : (s.broadcast side).pc t = .idle := by
  simp only [QueueSys.broadcast, hidle, QueuePc.woken, ite_self]

/-- A thread that waits for its next call stays there until it is called. -/
theorem queueStep_idle {s s' : QueueSys} {action : QueueAct}
    (hidle : s.pc t = .idle) (hcall : ∀ data, action ≠ .call t data)
    (hstep : queueStep s action = some s') : s'.pc t = .idle := by
  cases action with
  | call u data =>
      have hne : t ≠ u := fun heq => hcall data (by rw [heq])
      simp only [queueStep, QueueSys.stepCall] at hstep
      split at hstep
      · rw [Option.some.injEq] at hstep
        rw [← hstep]
        exact (setPc_pc_of_ne _ hne _).trans hidle
      · rw [Option.some.injEq] at hstep
        rw [← hstep]
        exact (setPc_pc_of_ne _ hne _).trans hidle
      · simp at hstep
  | thread u =>
      by_cases htu : t = u
      · rw [← htu] at hstep
        simp [queueStep, QueueSys.stepThread, hidle] at hstep
      · exact (stepThread_pc_of_ne htu hstep).trans hidle
  | swapFails u =>
      simp only [queueStep, QueueSys.stepSwapFails] at hstep
      split at hstep
      · rename_i hpc
        have hne : t ≠ u := by
          intro heq
          rw [← heq, hidle] at hpc
          simp at hpc
        rw [Option.some.injEq] at hstep
        rw [← hstep]
        exact (setPc_pc_of_ne _ hne _).trans hidle
      · simp at hstep
  | wake u woken =>
      simp only [queueStep, QueueSys.stepWake] at hstep
      split at hstep
      · rename_i hpc
        have hne : t ≠ u := by
          intro heq
          rw [← heq, hidle] at hpc
          simp at hpc
        split at hstep
        · split at hstep
          · rw [Option.some.injEq] at hstep
            rw [← hstep]
            exact (setPc_pc_of_ne _ hne _).trans (wakeOne_idle _ hidle)
          · simp at hstep
        · split at hstep
          · rw [Option.some.injEq] at hstep
            rw [← hstep]
            exact (setPc_pc_of_ne _ hne _).trans hidle
          · simp at hstep
      · simp at hstep
  | ret u interrupted =>
      simp only [queueStep, QueueSys.stepReturn] at hstep
      split at hstep
      · rename_i hpc
        have hne : t ≠ u := by
          intro heq
          rw [← heq, hidle] at hpc
          simp at hpc
        rw [Option.some.injEq] at hstep
        rw [← hstep]
        split
        · exact (setPc_pc_of_ne _ hne _).trans (wakeOne_idle u hidle)
        · exact wakeOne_idle u hidle
      · simp at hstep
  | stop =>
      simp only [queueStep, Option.some.injEq] at hstep
      rw [← hstep]
      exact hidle
  | join =>
      simp only [queueStep, QueueSys.stepJoin] at hstep
      split at hstep
      · split at hstep
        · simp at hstep
        · rw [Option.some.injEq] at hstep
          rw [← hstep]
          exact broadcast_idle .pull hidle
      · rw [Option.some.injEq] at hstep
        rw [← hstep]
        exact broadcast_idle .push hidle
      · simp at hstep

/-- A thread that no action of a run calls does nothing in it. -/
theorem idle_of_run {ok : QueueRun → QueueAct → Prop}
    (hrun : Run historyStep ok (historyStart queue) x)
    (hcall : ∀ y action data, ok y action → action ≠ .call t data) :
    x.sys.pc t = .idle := by
  induction hrun with
  | refl => rfl
  | tail action _ hok hstep ih =>
      rw [historyStep, Option.map_eq_some_iff] at hstep
      obtain ⟨sys, hsys, rfl⟩ := hstep
      exact queueStep_idle ih (fun data => hcall _ action data hok) hsys

/-- Between the calls the elements stand in the cells from `head` to `tail`, in
order. -/
theorem mpmcQueue_settled
    (hinit : mpmcQueueInit memory capacity = some queue)
    (hcapacity : capacityOk capacity = true)
    (hrun : Run historyStep (fun x action => notWrapped x action = true)
      (historyStart queue) x)
    (hsettled : ∀ t, (x.sys.pc t).storing = false) :
    ∃ contents, FifoHistory capacity.toNat x.history.trace contents ∧
      (mpmcQueueSize x.sys.queue.head x.sys.queue.tail).toNat =
        contents.length ∧
      ∀ i value, contents[i]? = some value →
        x.sys.queue.cellAt (x.sys.queue.head + BitVec.ofNat 32 i) =
          ⟨x.sys.queue.head + BitVec.ofNat 32 i + 1, value⟩ := by
  have hinv := FifoInv.of_run hinit hcapacity hrun
  have hcontents := hinv.contents
  rw [hinv.capacity] at hcontents
  have hidle := hinv.idle (hsettled .consumer)
  have hle := hinv.taken_le
  have hbound := hinv.pushed_le
  have hmax := hinv.ring.le
  refine ⟨_, hcontents, ?_, ?_⟩
  · rw [hinv.head, hinv.tail, mpmcQueueSize_ofNat hle (by omega),
      List.length_drop, hidle]
  · intro i value hget
    rw [List.getElem?_drop, ← hidle] at hget
    rw [hinv.head, ofNat_add_ofNat, ofNat_succ]
    rcases hinv.live _ value (by omega) hget with
      hpublished | ⟨-, -, j, hj, -⟩
    · exact hpublished
    · rw [hsettled] at hj
      exact absurd hj Bool.false_ne_true

/-- Only the first two producers are called. -/
def twoProducers (x : QueueRun) (action : QueueAct) : Bool :=
  notWrapped x action &&
    match action with
    | .call (.producer i) _ => decide (i < 2)
    | _ => true

/-- After the race one element has come out and the other one is in. -/
theorem mpmcQueue_settled_race : ∃ queue, ∃ x : QueueRun,
    mpmcQueueInit (some fun _ => ⟨0, 0⟩) 2 = some queue ∧
    x.history.trace = [.push 8, .push 7, .pull 8] ∧
    ∃ contents, FifoHistory (2 : BitVec 32).toNat x.history.trace contents ∧
      (mpmcQueueSize x.sys.queue.head x.sys.queue.tail).toNat =
        contents.length ∧
      ∀ i value, contents[i]? = some value →
        x.sys.queue.cellAt (x.sys.queue.head + BitVec.ofNat 32 i) =
          ⟨x.sys.queue.head + BitVec.ofNat 32 i + 1, value⟩ := by
  have hexec : ((mpmcQueueInit (some fun _ => ⟨0, 0⟩) 2).bind fun queue =>
      (execOk historyStep twoProducers (historyStart queue) raceForCell).map
        fun x => (x.history.trace, (x.sys.pc .consumer).storing,
          (x.sys.pc (.producer 0)).storing, (x.sys.pc (.producer 1)).storing)) =
      some ([.push 8, .push 7, .pull 8], false, false, false) := by
    decide +kernel
  simp only [Option.bind_eq_some_iff, Option.map_eq_some_iff,
    Prod.mk.injEq] at hexec
  obtain ⟨queue, hinit, x, hexec, htrace, hconsumer, hfirst, hsecond⟩ := hexec
  have hrun := run_of_execOk _ hexec
  have hsettled : ∀ t, (x.sys.pc t).storing = false := by
    intro t
    match t with
    | .consumer => exact hconsumer
    | .producer 0 => exact hfirst
    | .producer 1 => exact hsecond
    | .producer (i + 2) =>
        have hidle : x.sys.pc (.producer (i + 2)) = .idle := by
          apply idle_of_run hrun
          intro y action data hok hcall
          simp [hcall, twoProducers] at hok
        rw [hidle]
        rfl
  have hrun := hrun.mono fun y action hok =>
    (Bool.and_eq_true_iff.mp hok).1
  exact ⟨queue, x, hinit, htrace,
    mpmcQueue_settled hinit (by decide) hrun hsettled⟩

/-- The cell of any position, as it is for a position of the current turn. -/
theorem slot_add_mul_capacity {q : MpmcQueue} (hring : q.PowerRing)
    (p turns : Nat) : q.slot (p + q.capacity * turns) = q.slot p := by
  have hindex : q.cellIndex (BitVec.ofNat 32 (p + q.capacity * turns)) =
      q.cellIndex (BitVec.ofNat 32 p) := by
    rw [cellIndex_eq_iff hring, Nat.add_mul_mod_self_left]
  exact congrArg q.buffer hindex

/-- Some number of turns later a position is in the current turn. -/
theorem exists_turn {low width : Nat} (hwidth : 0 < width) (hle : p ≤ low) :
    ∃ turns, low ≤ p + width * turns ∧ p + width * turns < low + width := by
  have hdiv := Nat.div_add_mod (low - p + (width - 1)) width
  have hmod := Nat.mod_lt (low - p + (width - 1)) hwidth
  exact ⟨(low - p + (width - 1)) / width, by omega, by omega⟩

/-- The sequence number at a position that `tail` has passed is its own, or one
that counts as later. -/
theorem FifoInv.passed (hinv : FifoInv n x) (hlt : p < x.history.pushed.length)
    (hnear : x.history.pushed.length + n < p + 2 ^ 31) :
    ∃ p', p ≤ p' ∧ p' < p + 2 ^ 31 ∧
      (x.sys.queue.slot p).sequence = BitVec.ofNat 32 p' := by
  have hring := hinv.ring
  have hcap := hinv.capacity
  have htwo := hring.two_le
  have hbound := hinv.pushed_le
  have hpulled := hinv.pulled_le
  have htaken := hinv.taken_le
  obtain ⟨turns, hge, hwindow⟩ : ∃ turns,
      x.history.pulled.length ≤ p + x.sys.queue.capacity * turns ∧
      p + x.sys.queue.capacity * turns <
        max (p + 1) (x.history.pulled.length + x.sys.queue.capacity) := by
    rcases Nat.le_total p x.history.pulled.length with hle | hge
    · have hpos : 0 < x.sys.queue.capacity := by omega
      obtain ⟨turns, hge, hwindow⟩ := exists_turn hpos hle
      exact ⟨turns, hge, by omega⟩
    · exact ⟨0, by simpa using hge, by simp⟩
  have hslot := slot_add_mul_capacity hring p turns
  generalize hposition : p + x.sys.queue.capacity * turns = position at *
  have hle : p ≤ position := by omega
  rw [← hslot]
  rcases Nat.lt_or_ge position x.history.pushed.length with hlive | hfree
  · rcases hinv.live_sequence hge (List.getElem?_eq_getElem hlive) with
      hsequence | hsequence
    · exact ⟨_, hle, by omega, hsequence⟩
    · exact ⟨_, by omega, by omega, hsequence⟩
  · exact ⟨_, hle, by omega, hinv.free _ hfree (by omega)⟩

theorem failed_ne (attempt : QueueTry) (position : BitVec 32) :
    attempt.failed ≠ .swap attempt position ∧ attempt.failed ≠ .load attempt := by
  cases attempt with
  | spin tries =>
      rw [QueueTry.failed]
      split <;> simp
  | wait val => simp [QueueTry.failed]

/-- The sign of `diff` for two positions less than half a turn apart. -/
theorem diff_slt {low high : Nat} (hle : low ≤ high)
    (hlt : high < low + 2 ^ 31) :
    (BitVec.ofNat 32 high - BitVec.ofNat 32 low).slt 0#32 = false := by
  rw [BitVec.slt_zero_eq_msb, BitVec.msb_eq_false_iff_two_mul_lt,
    BitVec.toNat_sub, BitVec.toNat_ofNat, BitVec.toNat_ofNat]
  omega

theorem diff_slt_of_lt {low high : Nat} (hlt : low < high)
    (hle : high ≤ low + 2 ^ 31) :
    (BitVec.ofNat 32 low - BitVec.ofNat 32 high).slt 0#32 = true := by
  rw [BitVec.slt_zero_eq_msb, BitVec.msb_eq_true_iff_two_mul_ge,
    BitVec.toNat_sub, BitVec.toNat_ofNat, BitVec.toNat_ofNat]
  omega

/-- The sequence number is that of the position or later: the test goes on. -/
theorem afterTest_ne_failed {s : QueueSys} {attempt : QueueTry} {low high : Nat}
    (hwanted : MpmcQueue.wanted t.side (BitVec.ofNat 32 p) =
      BitVec.ofNat 32 low)
    (hsequence : (s.queue.slot p).sequence = BitVec.ofNat 32 high)
    (hle : low ≤ high) (hlt : high < low + 2 ^ 31) :
    s.afterTest t attempt (BitVec.ofNat 32 p) ≠ attempt.failed := by
  have hdiff := diff_slt hle hlt
  rw [← hwanted, ← hsequence] at hdiff
  have hafter : s.afterTest t attempt (BitVec.ofNat 32 p) =
      if s.queue.ready t.side (BitVec.ofNat 32 p) then .swap attempt
        (BitVec.ofNat 32 p)
      else if ((s.queue.slot p).sequence - MpmcQueue.wanted t.side
        (BitVec.ofNat 32 p)).slt 0#32 then attempt.failed
      else .load attempt := rfl
  rw [hafter, hdiff]
  have hne := failed_ne attempt (BitVec.ofNat 32 p)
  split
  · exact hne.1.symm
  · exact hne.2.symm

/-- The sequence number is an earlier one: the call gives up. -/
theorem afterTest_failed {s : QueueSys} {attempt : QueueTry} {low high : Nat}
    (hwanted : MpmcQueue.wanted t.side (BitVec.ofNat 32 p) =
      BitVec.ofNat 32 high)
    (hsequence : (s.queue.slot p).sequence = BitVec.ofNat 32 low)
    (hlt : low < high) (hle : high ≤ low + 2 ^ 31) :
    s.afterTest t attempt (BitVec.ofNat 32 p) = attempt.failed := by
  have hdiff := diff_slt_of_lt hlt hle
  rw [← hwanted, ← hsequence] at hdiff
  have hready : s.queue.ready t.side (BitVec.ofNat 32 p) = false := by
    change ((s.queue.slot p).sequence -
      MpmcQueue.wanted t.side (BitVec.ofNat 32 p) == 0#32) = false
    rw [beq_eq_false_iff_ne]
    intro hzero
    rw [hzero] at hdiff
    exact absurd hdiff (by decide)
  have hafter : s.afterTest t attempt (BitVec.ofNat 32 p) =
      if s.queue.ready t.side (BitVec.ofNat 32 p) then .swap attempt
        (BitVec.ofNat 32 p)
      else if ((s.queue.slot p).sequence - MpmcQueue.wanted t.side
        (BitVec.ofNat 32 p)).slt 0#32 then attempt.failed
      else .load attempt := rfl
  rw [hafter, hdiff, hready]
  rfl

/-- `mpmc_queue_push` returns false exactly when the queue is full at its test,
and nothing was pushed since it loaded `tail`. -/
theorem mpmcQueuePush_fails_iff
    (hinit : mpmcQueueInit memory capacity = some queue)
    (hcapacity : capacityOk capacity = true)
    (hrun : Run historyStep (fun x action => notWrapped x action = true)
      (historyStart queue) x) {i : Nat} {attempt : QueueTry}
    {position : BitVec 32}
    (hpc : x.sys.pc (.producer i) = .test attempt position)
    (hnear : x.history.pushed.length = x.history.seen (.producer i) ∨
      x.history.pushed.length + capacity.toNat <
        x.history.seen (.producer i) + 2 ^ 31) :
    x.sys.afterTest (.producer i) attempt position = attempt.failed ↔
      x.history.seen (.producer i) = x.history.pushed.length ∧
      x.history.pushed.length = x.history.pulled.length + capacity.toNat := by
  have hinv := FifoInv.of_run hinit hcapacity hrun
  have hthread := hinv.threads (.producer i)
  rw [hpc] at hthread
  obtain ⟨rfl, hseen⟩ := hthread
  have hle : x.history.seen (.producer i) ≤ x.history.pushed.length := hseen.1
  have hcap := hinv.capacity
  have hmax := hinv.ring.le
  have htwo := hinv.ring.two_le
  have hbound := hinv.pushed_le
  rcases Nat.lt_or_eq_of_le hle with hlt | heq
  · -- somebody pushed since the load
    obtain ⟨p', hge, hlt', hsequence⟩ := hinv.passed hlt (by omega)
    constructor
    · intro hfailed
      exact absurd hfailed (afterTest_ne_failed rfl hsequence hge hlt')
    · rintro ⟨hseen, -⟩
      omega
  · rw [heq]
    rcases Nat.lt_or_eq_of_le hbound with hroom | hfull
    · have hfree := hinv.free _ le_rfl hroom
      constructor
      · intro hfailed
        exact absurd hfailed
          (afterTest_ne_failed rfl hfree le_rfl (by omega))
      · rintro ⟨-, hfull⟩
        omega
    · constructor
      · exact fun _ => ⟨rfl, by omega⟩
      · intro _
        rcases hinv.slot_full hfull with hsequence | hsequence
        · exact afterTest_failed rfl hsequence (by omega) (by omega)
        · exact afterTest_failed rfl hsequence (by omega) (by omega)

/-- The place of a thread at a test before the wait. -/
def QueuePc.spinTest : QueuePc → Option (Nat × BitVec 32)
  | .test (.spin tries) position => some (tries, position)
  | _ => none

theorem eq_test_of_spinTest {pc : QueuePc} {tries : Nat}
    {position : BitVec 32} (htest : pc.spinTest = some (tries, position)) :
    pc = .test (.spin tries) position := by
  unfold QueuePc.spinTest at htest
  split at htest
  · simp only [Option.some.injEq, Prod.mk.injEq] at htest
    rw [htest.1, htest.2]
  · simp at htest

/-- A ring of two is full for a third producer. -/
def pushThree : List QueueAct :=
  .call (.producer 0) 7 :: List.replicate 4 (.thread (.producer 0)) ++
    .call (.producer 1) 8 :: List.replicate 4 (.thread (.producer 1)) ++
    [.call (.producer 2) 9, .thread (.producer 2)]

theorem mpmcQueuePush_fails_full : ∃ queue, ∃ x : QueueRun,
    mpmcQueueInit (some fun _ => ⟨0, 0⟩) 2 = some queue ∧
    x.history.pushed = [7, 8] ∧ x.history.pulled = [] ∧
    (x.sys.afterTest (.producer 2) (.spin 0) 2 = (QueueTry.spin 0).failed ↔
      x.history.seen (.producer 2) = x.history.pushed.length ∧
      x.history.pushed.length =
        x.history.pulled.length + (2 : BitVec 32).toNat) := by
  have hexec : ((mpmcQueueInit (some fun _ => ⟨0, 0⟩) 2).bind fun queue =>
      (execOk historyStep notWrapped (historyStart queue) pushThree).map
        fun x => ((x.sys.pc (.producer 2)).spinTest,
          x.history.seen (.producer 2), x.history.pushed, x.history.pulled)) =
      some (some (0, 2), 2, [7, 8], []) := by
    decide +kernel
  simp only [Option.bind_eq_some_iff, Option.map_eq_some_iff,
    Prod.mk.injEq] at hexec
  obtain ⟨queue, hinit, x, hexec, htest, hseen, hpushed, hpulled⟩ := hexec
  refine ⟨queue, x, hinit, hpushed, hpulled,
    mpmcQueuePush_fails_iff hinit (by decide) (run_of_execOk _ hexec)
      (eq_test_of_spinTest htest) (Or.inl ?_)⟩
  rw [hpushed, hseen]
  rfl

/-- `mpmc_queue_pull` returns false exactly when there is no element, or the
producer of the first one has not stored it yet. -/
theorem mpmcQueuePull_fails_iff
    (hinit : mpmcQueueInit memory capacity = some queue)
    (hcapacity : capacityOk capacity = true)
    (hrun : Run historyStep (fun x action => notWrapped x action = true)
      (historyStart queue) x) {attempt : QueueTry} {position : BitVec 32}
    (hpc : x.sys.pc .consumer = .test attempt position) :
    x.sys.afterTest .consumer attempt position = attempt.failed ↔
      x.history.pushed.length = x.history.pulled.length ∨
      ∃ i, (x.sys.pc (.producer i)).storing = true ∧
        x.history.seen (.producer i) = x.history.pulled.length := by
  have hinv := FifoInv.of_run hinit hcapacity hrun
  have hidle := hinv.idle (by rw [hpc]; rfl)
  have hthread := hinv.threads .consumer
  rw [hpc] at hthread
  obtain ⟨rfl, hseen⟩ := hthread
  have hseen : x.history.seen .consumer = x.history.taken := hseen.2 rfl
  rw [hseen, hidle]
  have htaken := hinv.taken_le
  have htwo := hinv.ring.two_le
  have hwanted : MpmcQueue.wanted QueueThread.consumer.side
      (BitVec.ofNat 32 x.history.pulled.length) =
        BitVec.ofNat 32 (x.history.pulled.length + 1) := ofNat_succ _
  rcases Nat.eq_or_lt_of_le htaken with hempty | hlt
  · have hfree := hinv.free x.history.pulled.length (by omega) (by omega)
    constructor
    · exact fun _ => Or.inl (by omega)
    · intro _
      exact afterTest_failed hwanted hfree (Nat.lt_succ_self _) (by omega)
  · rw [hidle] at hlt
    rcases hinv.live _ _ le_rfl (List.getElem?_eq_getElem hlt) with
      hpublished | ⟨-, hsequence, i, hi, hseeni⟩
    · have hon : (x.sys.queue.slot x.history.pulled.length).sequence =
          BitVec.ofNat 32 (x.history.pulled.length + 1) := by
        rw [hpublished]
      constructor
      · intro hfailed
        exact absurd hfailed
          (afterTest_ne_failed hwanted hon le_rfl (by omega))
      · rintro (hempty | ⟨i, hi, hseeni⟩)
        · omega
        · -- a claimed cell has its own sequence number
          have hclaimed := (hinv.storing hi).2.1
          rw [hseeni, hon] at hclaimed
          have heq := ofNat_inj_of_lt (Nat.le_succ _) (by omega)
            hclaimed.symm
          omega
    · constructor
      · exact fun _ => Or.inr ⟨i, hi, hseeni⟩
      · intro _
        exact afterTest_failed hwanted hsequence (Nat.lt_succ_self _)
          (by omega)

/-- A producer has claimed the first cell, and the consumer looks at it. -/
def pullClaimed : List QueueAct :=
  .call (.producer 0) 7 :: List.replicate 3 (.thread (.producer 0)) ++
    [.call .consumer 0, .thread .consumer]

theorem mpmcQueuePull_fails_claimed : ∃ queue, ∃ x : QueueRun,
    mpmcQueueInit (some fun _ => ⟨0, 0⟩) 2 = some queue ∧
    x.history.pushed = [7] ∧
    (x.sys.afterTest .consumer (.spin 0) 0 = (QueueTry.spin 0).failed ↔
      x.history.pushed.length = x.history.pulled.length ∨
      ∃ i, (x.sys.pc (.producer i)).storing = true ∧
        x.history.seen (.producer i) = x.history.pulled.length) := by
  have hexec : ((mpmcQueueInit (some fun _ => ⟨0, 0⟩) 2).bind fun queue =>
      (execOk historyStep notWrapped (historyStart queue) pullClaimed).map
        fun x => ((x.sys.pc .consumer).spinTest, x.history.pushed)) =
      some (some (0, 0), [7]) := by
    decide +kernel
  simp only [Option.bind_eq_some_iff, Option.map_eq_some_iff,
    Prod.mk.injEq] at hexec
  obtain ⟨queue, hinit, x, hexec, htest, hpushed⟩ := hexec
  exact ⟨queue, x, hinit, hpushed,
    mpmcQueuePull_fails_iff hinit (by decide) (run_of_execOk _ hexec)
      (eq_test_of_spinTest htest)⟩

/-- The counter of the consumer only grows. -/
theorem taken_le_of_run {ok : QueueRun → QueueAct → Prop}
    (hrun : Run historyStep ok x x') :
    x.history.taken ≤ x'.history.taken := by
  induction hrun with
  | refl => exact le_rfl
  | tail action _ _ hstep ih =>
      rw [historyStep, Option.map_eq_some_iff] at hstep
      obtain ⟨sys, -, rfl⟩ := hstep
      apply ih.trans
      cases action <;> try exact le_rfl
      simp only [QueueHistory.next, QueueHistory.thread]
      split
      · exact Nat.le_succ _
      · exact le_rfl

/-- `mpmc_queue_size` counts the elements that are in when it loads `tail`, and
the ones the consumer claimed since it loaded `head`. -/
theorem mpmcQueueSize_run
    (hinit : mpmcQueueInit memory capacity = some queue)
    (hcapacity : capacityOk capacity = true)
    (hrun : Run historyStep (fun x action => notWrapped x action = true)
      (historyStart queue) x)
    (hrun' : Run historyStep (fun x action => notWrapped x action = true) x x')
    (hnear : x'.history.pushed.length < x.history.taken + 2 ^ 32) :
    (mpmcQueueSize x.sys.queue.head x'.sys.queue.tail).toNat =
      (x'.history.pushed.length - x'.history.taken) +
        (x'.history.taken - x.history.taken) := by
  have hinv := FifoInv.of_run hinit hcapacity hrun
  have hinv' := FifoInv.of_run hinit hcapacity (hrun.trans hrun')
  have hmono := taken_le_of_run hrun'
  have htaken := hinv'.taken_le
  rw [hinv.head, hinv'.tail, mpmcQueueSize_ofNat (by omega) hnear]
  omega

/-- `head` is loaded before the consumer takes the first of two elements, and
`tail` after it. -/
theorem mpmcQueueSize_run_pulled : ∃ queue, ∃ x x' : QueueRun,
    mpmcQueueInit (some fun _ => ⟨0, 0⟩) 2 = some queue ∧
    x'.history.pulled = [7] ∧
    (mpmcQueueSize x.sys.queue.head x'.sys.queue.tail).toNat =
      (x'.history.pushed.length - x'.history.taken) +
        (x'.history.taken - x.history.taken) := by
  have hexec : ((mpmcQueueInit (some fun _ => ⟨0, 0⟩) 2).bind fun queue =>
      (execOk historyStep notWrapped (historyStart queue) pushThree).bind
        fun x => (execOk historyStep notWrapped x
          (.call .consumer 0 :: List.replicate 4 (.thread .consumer))).map
            fun x' => (x.history.taken, x'.history.pushed,
              x'.history.pulled)) = some (0, [7, 8], [7]) := by
    decide +kernel
  simp only [Option.bind_eq_some_iff, Option.map_eq_some_iff,
    Prod.mk.injEq] at hexec
  obtain ⟨queue, hinit, x, hexec, x', hexec', htaken, hpushed, hpulled⟩ := hexec
  refine ⟨queue, x, x', hinit, hpulled,
    mpmcQueueSize_run hinit (by decide) (run_of_execOk _ hexec)
      (run_of_execOk _ hexec') ?_⟩
  rw [htaken, hpushed]
  decide

end Ntnetflow

end NtapiExamples
