/-
When a wake-up of the program queue can be lost.  Whoever hands over a cell
wakes a sleeper before it goes on, so a thread can only be left asleep by the
step that puts it to sleep, or by a wake that reaches another thread.
-/
import NtapiExamples.Lib.Run
import NtapiExamples.Lib.Bits
import NtapiExamples.Lib.Count
import NtapiExamples.Ntnetflow.MpmcQueue
import NtapiExamples.Ntnetflow.FlowLearn

namespace NtapiExamples

namespace Ntnetflow

variable {s s' : QueueSys} {t : QueueThread}

/-- `w` made something available to a side: the consumer frees the cells, and
the cell the consumer looks at was published by the producer that stored its
sequence number. -/
def MadeAvailable (s : QueueSys) : QueueSide → QueueThread → Prop
  | .push, .consumer => True
  | .pull, .producer i =>
      s.publisher (s.queue.cellIndex s.queue.head) = some i
  | _, _ => False

/-- `fl_join` is done with the broadcast to a side. -/
def QueueSys.broadcastDone (s : QueueSys) : QueueSide → Bool
  | .pull => decide (s.main ≠ .broadcastEmpty)
  | .push => decide (s.main = .join)

/-- A thread is left asleep: what it waits for holds, and every thread that
made it hold has finished its wake or broadcast. -/
def LostWakeup (s : QueueSys) (t : QueueThread) : Prop :=
  (s.pc t).isAsleep = true ∧
    ((s.queue.available t.side = true ∧
        ∀ w, MadeAvailable s t.side w → (s.pc w).waking = false) ∨
      (s.appRunning = false ∧ s.broadcastDone t.side = true))

/-- The conditions on a step.  `FUTEX_WAIT` does not put a thread to sleep when
there is something for it, or after the broadcast; `FUTEX_WAKE` reaches the only
sleeping producer while a cell is free; a compare-and-swap on `tail` is not
successful on a cell that changed since the test; the count of waiters does not
wrap. -/
def wakeSafe (s : QueueSys) (action : QueueAct) : Bool :=
  match action with
  | .thread t =>
      match s.pc t with
      | .futexCall val =>
          decide (s.queue.watched t.side ≠ val) ||
            !s.queue.available t.side && !s.broadcastDone t.side
      | .swap _ position =>
          decide (s.queue.position t.side ≠ position) ||
            s.queue.ready t.side position
      | .enter => decide (s.queue.waiting t.side + 1 ≠ 0)
      | _ => true
  | .wake t (some woken) =>
      !s.queue.available t.side.other ||
        (s.sleepers t.side.other).all fun u => decide (u = woken)
  | _ => true

/-- What holds of the sleepers. -/
structure WakeInv (s : QueueSys) : Prop where
  odd : s.queue.bufferMask.getLsbD 0 = true
  listed : ∀ t, (s.pc t).isAsleep = true → t ∈ s.sleepers t.side
  counts : ∀ side,
    Counts (fun t => t.side = side ∧ (s.pc t).counted = true)
      (s.queue.waiting side).toNat
  waking : ∀ t, (s.pc t).isAsleep = true →
    s.queue.available t.side = true →
    ∃ w, MadeAvailable s t.side w ∧ (s.pc w).waking = true
  broadcast : ∀ t, (s.pc t).isAsleep = true →
    s.broadcastDone t.side = false

theorem WakeInv.not_lost (hinv : WakeInv s) (t : QueueThread) :
    ¬ LostWakeup s t := by
  rintro ⟨hasleep, ⟨havailable, hdone⟩ | ⟨-, hdone⟩⟩
  · obtain ⟨w, hw, hwaking⟩ := hinv.waking t hasleep havailable
    rw [hdone w hw] at hwaking
    exact Bool.noConfusion hwaking
  · rw [hinv.broadcast t hasleep] at hdone
    exact Bool.noConfusion hdone

theorem counted_of_isAsleep {pc : QueuePc} (hasleep : pc.isAsleep = true) :
    pc.counted = true := by
  cases pc <;> simp_all [QueuePc.isAsleep, QueuePc.counted]

@[simp] theorem woken_counted (pc : QueuePc) :
    pc.woken.counted = pc.counted := by
  cases pc <;> rfl

@[simp] theorem woken_waking (pc : QueuePc) : pc.woken.waking = pc.waking := by
  cases pc <;> rfl

@[simp] theorem woken_isAsleep (pc : QueuePc) : pc.woken.isAsleep = false := by
  cases pc <;> rfl

/-- A sleeper is counted, so the count it is part of is not 0. -/
theorem WakeInv.waiting_ne_zero (hinv : WakeInv s)
    (hasleep : (s.pc t).isAsleep = true) : s.queue.waiting t.side ≠ 0 := by
  intro hzero
  have hpos := (hinv.counts t.side).pos
    ⟨rfl, counted_of_isAsleep hasleep⟩
  rw [hzero] at hpos
  exact absurd hpos (by decide)

/-- The program counters after a thread moved. -/
theorem isAsleep_update {pc : QueuePc} {u : QueueThread}
    (hpc : pc.isAsleep = false)
    (hasleep : (Function.update s.pc t pc u).isAsleep = true) :
    u ≠ t ∧ (s.pc u).isAsleep = true := by
  by_cases hu : u = t
  · rw [hu, Function.update_self, hpc] at hasleep
    exact Bool.noConfusion hasleep
  · rw [Function.update_of_ne hu] at hasleep
    exact ⟨hu, hasleep⟩

/-- A thread that was waking nobody, or goes on to, moves: whoever else made
something available is still waking. -/
theorem waking_update {pc pc' : QueuePc} {w : QueueThread}
    (hpc : s.pc t = pc) (hkeep : pc.waking = true → pc'.waking = true)
    (hwaking : (s.pc w).waking = true) :
    (Function.update s.pc t pc' w).waking = true := by
  by_cases hw : w = t
  · rw [hw] at hwaking ⊢
    rw [Function.update_self]
    exact hkeep (hpc ▸ hwaking)
  · rwa [Function.update_of_ne hw]

/-- The count of a side does not change with a move inside or outside its
counted part. -/
theorem counts_update {pc pc' : QueuePc} {side : QueueSide} {n : Nat}
    (hpc : s.pc t = pc) (hcounted : pc'.counted = pc.counted)
    (hcounts : Counts (fun t => t.side = side ∧ (s.pc t).counted = true) n) :
    Counts (fun u => u.side = side ∧
      (Function.update s.pc t pc' u).counted = true) n := by
  apply hcounts.congr
  intro u
  by_cases hu : u = t
  · rw [hu, Function.update_self, hcounted, hpc]
  · rw [Function.update_of_ne hu]

/-- A step that only moves its thread. -/
theorem WakeInv.move (hinv : WakeInv s) {pc pc' : QueuePc}
    (hpc : s.pc t = pc) (hasleep : pc'.isAsleep = false)
    (hcounted : pc'.counted = pc.counted)
    (hwaking : pc.waking = true → pc'.waking = true) :
    WakeInv (s.setPc t pc') where
  odd := hinv.odd
  listed u hu := hinv.listed u (isAsleep_update hasleep hu).2
  counts side := counts_update hpc hcounted (hinv.counts side)
  waking u hu havailable := by
    obtain ⟨w, hmade, hw⟩ :=
      hinv.waking u (isAsleep_update hasleep hu).2 havailable
    exact ⟨w, hmade, waking_update hpc hwaking hw⟩
  broadcast u hu := hinv.broadcast u (isAsleep_update hasleep hu).2

/-- The data and `app_running` do not matter. -/
theorem WakeInv.ofQueue (hinv : WakeInv s) (hqueue : s'.queue = s.queue)
    (hsleepers : s'.sleepers = s.sleepers) (hpc : s'.pc = s.pc)
    (hmain : s'.main = s.main) (hpublisher : s'.publisher = s.publisher) :
    WakeInv s' := by
  obtain ⟨queue, appRunning, sleepers, pc, data, main, publisher⟩ := s'
  simp only at hqueue hsleepers hpc hmain hpublisher
  subst hqueue hsleepers hpc hmain hpublisher
  refine ⟨hinv.odd, hinv.listed, hinv.counts, ?_, hinv.broadcast⟩
  intro t hasleep havailable
  obtain ⟨w, hmade, hw⟩ := hinv.waking t hasleep havailable
  refine ⟨w, ?_, hw⟩
  revert hmade
  cases t.side <;> cases w <;> exact id

theorem WakeInv.stepCall (hinv : WakeInv s) {data : BitVec 64}
    (hstep : s.stepCall t data = some s') : WakeInv s' := by
  simp only [QueueSys.stepCall] at hstep
  split at hstep
  case h_1 i hpc =>
    rw [Option.some.injEq] at hstep
    rw [← hstep]
    have hinv' : WakeInv { s with
        data := Function.update s.data (.producer i) data } :=
      hinv.ofQueue rfl rfl rfl rfl rfl
    exact hinv'.move hpc rfl rfl nofun
  case h_2 hpc =>
    rw [Option.some.injEq] at hstep
    rw [← hstep]
    exact hinv.move hpc rfl rfl nofun
  case h_3 => simp at hstep

/-- The compare-and-swap.  The cell a producer takes was free, so with a
producer asleep the consumer is waking. -/
theorem WakeInv.swap (hinv : WakeInv s) {attempt : QueueTry}
    {position : BitVec 32} (hpc : s.pc t = .swap attempt position)
    (hready : s.queue.position t.side = position →
      s.queue.ready t.side position = true) :
    WakeInv (s.swap t attempt position) := by
  unfold QueueSys.swap
  split
  case isTrue hposition =>
    have hcounted : (QueuePc.store attempt position).counted =
        (QueuePc.swap attempt position).counted := by
      cases attempt <;> rfl
    refine ⟨?_, ?_, ?_, ?_, ?_⟩
    · cases t <;> exact hinv.odd
    · exact fun u hu => hinv.listed u (isAsleep_update rfl hu).2
    · intro side
      have hcounts := counts_update hpc hcounted (hinv.counts side)
      cases t <;> cases side <;> exact hcounts
    · intro u hu havailable
      obtain ⟨hne, hu⟩ := isAsleep_update rfl hu
      cases u with
      | consumer =>
          cases t with
          | consumer => exact absurd rfl hne
          | producer j =>
              obtain ⟨w, hmade, hw⟩ := hinv.waking .consumer hu havailable
              exact ⟨w, hmade, waking_update hpc nofun hw⟩
      | producer i =>
          have hfree : s.queue.available .push = true := by
            cases t with
            | consumer => exact havailable
            | producer j =>
                have hready := hready hposition
                rw [← hposition] at hready
                exact hready
          obtain ⟨w, hmade, hw⟩ := hinv.waking (.producer i) hu hfree
          refine ⟨w, ?_, waking_update hpc nofun hw⟩
          cases w with
          | consumer => trivial
          | producer k => exact hmade
    · exact fun u hu => hinv.broadcast u (isAsleep_update rfl hu).2
  case isFalse =>
    refine hinv.move hpc rfl ?_ nofun
    cases attempt <;> rfl

/-- Two neighbouring positions have different cells. -/
theorem cellIndex_succ {q : MpmcQueue} (hodd : q.bufferMask.getLsbD 0 = true)
    (position : BitVec 32) :
    q.cellIndex (position + 1) ≠ q.cellIndex position := by
  intro heq
  have hbit : (q.cellIndex (position + 1)).getLsbD 0 =
      (q.cellIndex position).getLsbD 0 := by rw [heq]
  rw [MpmcQueue.cellIndex, MpmcQueue.cellIndex, BitVec.getLsbD_and,
    BitVec.getLsbD_and, hodd, Bool.and_true, Bool.and_true,
    BitVec.getLsbD_add (by decide)] at hbit
  simp at hbit

/-- A store to another cell than the one that `side` looks at. -/
theorem available_setCell {q : MpmcQueue} {side : QueueSide}
    {position : BitVec 32} {cell : QueueCell}
    (hcell : q.cellIndex (q.position side) ≠ q.cellIndex position) :
    (q.setCell position cell).available side = q.available side := by
  have hat : (q.setCell position cell).cellAt (q.position side) =
      q.cellAt (q.position side) := Function.update_of_ne hcell _ _
  cases side <;>
    exact congrArg (fun c : QueueCell => c.sequence - _ == 0) hat

/-- A cell that was just published is not free. -/
theorem cellIndex_ne_of_published {q : MpmcQueue} {position : BitVec 32}
    {cell : QueueCell} (hodd : q.bufferMask.getLsbD 0 = true)
    (hcell : cell.sequence = q.released .push position)
    (havailable : (q.setCell position cell).available .push = true) :
    q.cellIndex (q.position .push) ≠ q.cellIndex position := by
  intro hsame
  have hat : (q.setCell position cell).cellAt (q.position .push) = cell := by
    change Function.update q.buffer (q.cellIndex position) cell
      (q.cellIndex (q.position .push)) = cell
    rw [hsame, Function.update_self]
  change (((q.setCell position cell).cellAt (q.position .push)).sequence -
    q.position .push == 0) = true at havailable
  rw [hat, hcell, beq_iff_eq] at havailable
  have hsucc : position + 1 = q.position .push := by
    simp only [MpmcQueue.released] at havailable
    bv_omega
  apply cellIndex_succ hodd position
  rw [hsucc]
  exact hsame

/-- The store of the sequence number: a thread that hands over a cell wakes the
other side next. -/
theorem WakeInv.store (hinv : WakeInv s) {attempt : QueueTry}
    {position : BitVec 32} (hpc : s.pc t = .store attempt position) :
    WakeInv (s.store t attempt position) := by
  have hasleep : attempt.taken.isAsleep = false := by cases attempt <;> rfl
  have hwaking : (Function.update s.pc t attempt.taken t).waking = true := by
    rw [Function.update_self]
    cases attempt <;> rfl
  have hcounted : attempt.taken.counted =
      (QueuePc.store attempt position).counted := by
    cases attempt <;> rfl
  refine ⟨?_, ?_, ?_, ?_, ?_⟩
  · cases t <;> exact hinv.odd
  · cases t <;> exact fun u hu => hinv.listed u (isAsleep_update hasleep hu).2
  · intro side
    have hcounts := counts_update hpc hcounted (hinv.counts side)
    cases t <;> cases side <;> exact hcounts
  · cases t with
    | consumer =>
        intro u hu _
        obtain ⟨hne, -⟩ := isAsleep_update hasleep hu
        cases u with
        | consumer => exact absurd rfl hne
        | producer i => exact ⟨.consumer, trivial, hwaking⟩
    | producer j =>
        intro u hu havailable
        obtain ⟨-, hu⟩ := isAsleep_update hasleep hu
        cases u with
        | consumer =>
            by_cases hcell : s.queue.cellIndex s.queue.head =
                s.queue.cellIndex position
            · refine ⟨.producer j, ?_, hwaking⟩
              change Function.update s.publisher (s.queue.cellIndex position)
                (some j) (s.queue.cellIndex s.queue.head) = some j
              rw [hcell, Function.update_self]
            · have hkept := (available_setCell hcell).symm.trans havailable
              obtain ⟨w, hmade, hw⟩ := hinv.waking .consumer hu hkept
              refine ⟨w, ?_, waking_update hpc nofun hw⟩
              cases w with
              | consumer => exact hmade
              | producer k =>
                  change Function.update s.publisher
                    (s.queue.cellIndex position) (some j)
                    (s.queue.cellIndex s.queue.head) = some k
                  rw [Function.update_of_ne hcell]
                  exact hmade
        | producer i =>
            have hcell := cellIndex_ne_of_published hinv.odd rfl havailable
            have hkept := (available_setCell hcell).symm.trans havailable
            obtain ⟨w, hmade, hw⟩ := hinv.waking (.producer i) hu hkept
            refine ⟨w, ?_, waking_update hpc nofun hw⟩
            cases w with
            | consumer => trivial
            | producer k => exact hmade
  · cases t <;>
      exact fun u hu => hinv.broadcast u (isAsleep_update hasleep hu).2

/-- The other side's count does not see the move of a thread. -/
theorem counts_other {pc : QueuePc} {side : QueueSide} {n : Nat}
    (hside : side ≠ t.side)
    (hcounts : Counts (fun t => t.side = side ∧ (s.pc t).counted = true) n) :
    Counts (fun u => u.side = side ∧
      (Function.update s.pc t pc u).counted = true) n := by
  apply hcounts.congr
  intro u
  by_cases hu : u = t
  · simp only [hu, hside.symm, false_and]
  · rw [Function.update_of_ne hu]

theorem setWaiting_waiting (q : MpmcQueue) (count : BitVec 32)
    (side : QueueSide) : (q.setWaiting count side).waiting side = count := by
  cases side <;> rfl

theorem setWaiting_waiting_of_ne (q : MpmcQueue) (count : BitVec 32)
    {side side' : QueueSide} (hside : side' ≠ side) :
    (q.setWaiting count side).waiting side' = q.waiting side' := by
  cases side <;> cases side' <;> first | exact absurd rfl hside | rfl

/-- A step that moves its thread and updates the count of its side. -/
theorem WakeInv.moveCounted (hinv : WakeInv s) {pc pc' : QueuePc}
    {count : BitVec 32} (hpc : s.pc t = pc) (hasleep : pc'.isAsleep = false)
    (hwaking : pc.waking = true → pc'.waking = true)
    (hcounts : Counts (fun u => u.side = t.side ∧
      (Function.update s.pc t pc' u).counted = true) count.toNat) :
    WakeInv ({ s with queue := s.queue.setWaiting count t.side }.setPc t
      pc') where
  odd := by cases t <;> exact hinv.odd
  listed u hu := hinv.listed u (isAsleep_update hasleep hu).2
  counts side := by
    by_cases hside : side = t.side
    · rw [hside]
      change Counts _ ((s.queue.setWaiting count t.side).waiting t.side).toNat
      rw [setWaiting_waiting]
      exact hcounts
    · change Counts _ ((s.queue.setWaiting count t.side).waiting side).toNat
      rw [setWaiting_waiting_of_ne _ _ hside]
      exact counts_other hside (hinv.counts side)
  waking u hu havailable := by
    have hkept : s.queue.available u.side = true := by
      cases t <;> cases u <;> exact havailable
    obtain ⟨w, hmade, hw⟩ :=
      hinv.waking u (isAsleep_update hasleep hu).2 hkept
    refine ⟨w, ?_, waking_update hpc hwaking hw⟩
    cases t <;> cases u <;> cases w <;> exact hmade
  broadcast u hu := hinv.broadcast u (isAsleep_update hasleep hu).2

theorem WakeInv.enter (hinv : WakeInv s) (hpc : s.pc t = .enter)
    (hwrap : s.queue.waiting t.side + 1 ≠ 0) :
    WakeInv ({ s with
      queue := s.queue.setWaiting (s.queue.waiting t.side + 1) t.side }.setPc t
        .testRunning) := by
  refine hinv.moveCounted hpc rfl nofun ?_
  have hcount : (s.queue.waiting t.side + 1).toNat =
      (s.queue.waiting t.side).toNat + 1 := by
    bv_omega
  rw [hcount]
  refine (hinv.counts t.side).enter (t := t) ?_ ?_
  · simp [hpc, QueuePc.counted]
  · intro u
    by_cases hu : u = t
    · simp [hu, QueuePc.counted]
    · simp [hu]

/-- A waiter that returns true goes on to wake the other side. -/
theorem WakeInv.leave (hinv : WakeInv s) {success : Bool}
    (hpc : s.pc t = .leave success) : WakeInv (s.leave t success) := by
  refine hinv.moveCounted hpc ?_ ?_ ?_
  · cases success <;> cases t <;> rfl
  · cases success <;> cases t <;> simp [QueuePc.waking]
  · have hmem : t.side = t.side ∧ (s.pc t).counted = true := by
      simp [hpc, QueuePc.counted]
    have hpos := (hinv.counts t.side).pos hmem
    have hcount : (s.queue.waiting t.side - 1).toNat =
        (s.queue.waiting t.side).toNat - 1 := by
      bv_omega
    rw [hcount]
    refine (hinv.counts t.side).leave hmem ?_
    intro u
    by_cases hu : u = t
    · cases success <;> cases t <;> simp [hu, QueuePc.counted]
    · simp [hu]

/-- Only the other side makes something available. -/
theorem side_of_madeAvailable {side : QueueSide}
    (hmade : MadeAvailable s side t) : side = t.side.other := by
  cases side <;> cases t <;> first | rfl | exact hmade.elim

/-- A thread may stop waking when nobody on the other side is asleep with
something available. -/
theorem WakeInv.stopWaking (hinv : WakeInv s) {pc : QueuePc}
    (hpc : s.pc t = pc) (hcounted : pc.counted = false)
    (hother : ∀ u, u.side = t.side.other → (s.pc u).isAsleep = true →
      s.queue.available u.side = false) : WakeInv (s.setPc t .idle) where
  odd := hinv.odd
  listed u hu := hinv.listed u (isAsleep_update rfl hu).2
  counts side := counts_update hpc hcounted.symm (hinv.counts side)
  waking u hu havailable := by
    have hasleep := (isAsleep_update rfl hu).2
    obtain ⟨w, hmade, hw⟩ := hinv.waking u hasleep havailable
    have hne : w ≠ t := by
      rintro rfl
      have hnone := hother u (side_of_madeAvailable hmade) hasleep
      exact Bool.noConfusion (hnone.symm.trans havailable)
    refine ⟨w, hmade, ?_⟩
    change (Function.update s.pc t .idle w).waking = true
    rwa [Function.update_of_ne hne]
  broadcast u hu := hinv.broadcast u (isAsleep_update rfl hu).2

/-- A wake that found no waiters is over: nobody on the other side is
asleep. -/
theorem WakeInv.wakeTest (hinv : WakeInv s) (hpc : s.pc t = .wakeTest) :
    WakeInv (s.setPc t
      (if s.queue.waiting t.side.other = 0 then .idle else .wakeCall)) := by
  split
  case isTrue hzero =>
    refine hinv.stopWaking hpc rfl ?_
    intro u hside hasleep
    rw [← hside] at hzero
    exact absurd hzero (hinv.waiting_ne_zero hasleep)
  case isFalse => exact hinv.move hpc rfl rfl fun _ => rfl

/-- `FUTEX_WAIT`. -/
theorem WakeInv.futexWait (hinv : WakeInv s) {val : BitVec 32}
    (hpc : s.pc t = .futexCall val)
    (hsafe : s.queue.watched t.side = val →
      s.queue.available t.side = false ∧ s.broadcastDone t.side = false) :
    WakeInv (s.futexWait t val) := by
  unfold QueueSys.futexWait
  split
  case isTrue hval =>
    obtain ⟨hnone, hbefore⟩ := hsafe hval
    have hold : ∀ {u}, u ≠ t →
        (Function.update s.pc t (.asleep val) u).isAsleep = true →
        (s.pc u).isAsleep = true := by
      intro u hne hu
      rwa [Function.update_of_ne hne] at hu
    refine ⟨hinv.odd, ?_, ?_, ?_, ?_⟩
    · intro u hu
      change u ∈ Function.update s.sleepers t.side _ u.side
      by_cases hside : u.side = t.side
      · rw [hside, Function.update_self, List.mem_append]
        by_cases hne : u = t
        · exact Or.inr (by simp [hne])
        · exact Or.inl (hside ▸ hinv.listed u (hold hne hu))
      · rw [Function.update_of_ne hside]
        exact hinv.listed u (hold (fun h => hside (h ▸ rfl)) hu)
    · exact fun side => counts_update hpc rfl (hinv.counts side)
    · intro u hu havailable
      have hne : u ≠ t := by
        rintro rfl
        exact Bool.noConfusion (hnone.symm.trans havailable)
      obtain ⟨w, hmade, hw⟩ := hinv.waking u (hold hne hu) havailable
      exact ⟨w, hmade, waking_update hpc nofun hw⟩
    · intro u hu
      by_cases hne : u = t
      · rw [hne]
        exact hbefore
      · exact hinv.broadcast u (hold hne hu)
  case isFalse => exact hinv.move hpc rfl rfl nofun

/-- The kernel takes a thread out of its queue. -/
theorem WakeInv.wakeOne (hinv : WakeInv s) (u : QueueThread) :
    WakeInv (s.wakeOne u) where
  odd := hinv.odd
  listed v hv := by
    obtain ⟨hne, hv⟩ := isAsleep_update (woken_isAsleep _) hv
    have hmem := hinv.listed v hv
    change v ∈ Function.update s.sleepers u.side _ v.side
    by_cases hside : v.side = u.side
    · rw [hside] at hmem ⊢
      rw [Function.update_self]
      exact (List.mem_erase_of_ne hne).mpr hmem
    · rwa [Function.update_of_ne hside]
  counts side := counts_update rfl (woken_counted _) (hinv.counts side)
  waking v hv havailable := by
    obtain ⟨-, hv⟩ := isAsleep_update (woken_isAsleep _) hv
    obtain ⟨w, hmade, hw⟩ := hinv.waking v hv havailable
    refine ⟨w, hmade, waking_update rfl ?_ hw⟩
    rw [woken_waking]
    exact id
  broadcast v hv :=
    hinv.broadcast v (isAsleep_update (woken_isAsleep _) hv).2

/-- A broadcast leaves nobody of the side asleep. -/
theorem isAsleep_broadcast (hinv : WakeInv s) {side : QueueSide}
    {u : QueueThread}
    (hasleep : ((s.broadcast side).pc u).isAsleep = true) :
    u.side ≠ side ∧ (s.pc u).isAsleep = true := by
  simp only [QueueSys.broadcast] at hasleep
  split at hasleep
  case isTrue => simp at hasleep
  case isFalse hmem =>
    refine ⟨?_, hasleep⟩
    rintro rfl
    exact hmem (hinv.listed u hasleep)

theorem WakeInv.broadcastTo (hinv : WakeInv s) (side : QueueSide) :
    WakeInv (s.broadcast side) where
  odd := hinv.odd
  listed u hu := by
    obtain ⟨hside, hasleep⟩ := isAsleep_broadcast hinv hu
    change u ∈ Function.update s.sleepers side [] u.side
    rw [Function.update_of_ne hside]
    exact hinv.listed u hasleep
  counts other := by
    apply (hinv.counts other).congr
    intro u
    simp only [QueueSys.broadcast]
    split <;> simp
  waking u hu havailable := by
    obtain ⟨w, hmade, hw⟩ :=
      hinv.waking u (isAsleep_broadcast hinv hu).2 havailable
    refine ⟨w, hmade, ?_⟩
    simp only [QueueSys.broadcast]
    split
    · rwa [woken_waking]
    · exact hw
  broadcast u hu := hinv.broadcast u (isAsleep_broadcast hinv hu).2

/-- `fl_join`. -/
theorem WakeInv.stepJoin (hinv : WakeInv s) (hstep : s.stepJoin = some s') :
    WakeInv s' := by
  simp only [QueueSys.stepJoin] at hstep
  split at hstep
  case h_1 hmain =>
    split at hstep
    · simp at hstep
    · rw [Option.some.injEq] at hstep
      rw [← hstep]
      have hinv' := hinv.broadcastTo .pull
      refine ⟨hinv'.odd, hinv'.listed, hinv'.counts, hinv'.waking, ?_⟩
      intro u hu
      obtain ⟨hside, -⟩ := isAsleep_broadcast hinv hu
      cases u with
      | consumer => exact absurd rfl hside
      | producer i => rfl
  case h_2 hmain =>
    rw [Option.some.injEq] at hstep
    rw [← hstep]
    have hinv' := hinv.broadcastTo .push
    refine ⟨hinv'.odd, hinv'.listed, hinv'.counts, hinv'.waking, ?_⟩
    intro u hu
    obtain ⟨hside, hasleep⟩ := isAsleep_broadcast hinv hu
    cases u with
    | consumer =>
        have hbefore := hinv.broadcast .consumer hasleep
        simp [QueueSys.broadcastDone, QueueThread.side, hmain] at hbefore
    | producer i => exact absurd rfl hside
  case h_3 => simp at hstep

/-- `FUTEX_WAKE`. -/
theorem WakeInv.stepWake (hinv : WakeInv s) {woken : Option QueueThread}
    (hsafe : wakeSafe s (.wake t woken) = true)
    (hstep : s.stepWake t woken = some s') : WakeInv s' := by
  simp only [QueueSys.stepWake] at hstep
  split at hstep
  case h_1 hpc =>
    cases woken with
    | none =>
        simp only at hstep
        split at hstep
        · rw [Option.some.injEq] at hstep
          rw [← hstep]
          exact hinv.move hpc rfl rfl fun _ => rfl
        · simp at hstep
    | some u =>
        simp only at hstep
        split at hstep
        case isTrue hu =>
          rw [Option.some.injEq] at hstep
          rw [← hstep]
          have hne : t ≠ u := by
            rintro rfl
            cases t <;> simp [QueueThread.side, QueueSide.other] at hu
          have hpc' : (s.wakeOne u).pc t = .wakeCall := by
            change Function.update s.pc u (s.pc u).woken t = .wakeCall
            rw [Function.update_of_ne hne, hpc]
          refine (hinv.wakeOne u).stopWaking hpc' rfl ?_
          intro v hside hv
          obtain ⟨hvu, hasleep⟩ := isAsleep_update (woken_isAsleep _) hv
          simp only [wakeSafe, Bool.or_eq_true, Bool.not_eq_true',
            List.all_eq_true, decide_eq_true_eq] at hsafe
          rw [← hside] at hsafe
          rcases hsafe with hnone | hall
          · exact hnone
          · exact absurd (hall v (hinv.listed v hasleep)) hvu
        case isFalse => simp at hstep
  case h_2 => simp at hstep

theorem WakeInv.stepReturn (hinv : WakeInv s) {interrupted : Bool}
    (hstep : s.stepReturn t interrupted = some s') : WakeInv s' := by
  simp only [QueueSys.stepReturn] at hstep
  split at hstep
  case h_1 val hpc =>
    rw [Option.some.injEq] at hstep
    rw [← hstep]
    split
    · have hpc' : (s.wakeOne t).pc t = .futexRunning val := by
        change Function.update s.pc t (s.pc t).woken t = .futexRunning val
        rw [Function.update_self, hpc]
        rfl
      exact (hinv.wakeOne t).move hpc' rfl rfl nofun
    · exact hinv.wakeOne t
  case h_2 => simp at hstep

/-- What `diff` leads to. -/
theorem WakeInv.afterTest (hinv : WakeInv s) {attempt : QueueTry}
    {position : BitVec 32} (hpc : s.pc t = .test attempt position) :
    WakeInv (s.setPc t (s.afterTest t attempt position)) := by
  have hfailed : attempt.failed.isAsleep = false ∧
      attempt.failed.counted = (QueuePc.test attempt position).counted := by
    cases attempt with
    | spin tries =>
        simp only [QueueTry.failed]
        split <;> exact ⟨rfl, rfl⟩
    | wait val => exact ⟨rfl, rfl⟩
  have hafter : (s.afterTest t attempt position).isAsleep = false ∧
      (s.afterTest t attempt position).counted =
        (QueuePc.test attempt position).counted := by
    simp only [QueueSys.afterTest]
    split
    · cases attempt <;> exact ⟨rfl, rfl⟩
    · split
      · exact hfailed
      · cases attempt <;> exact ⟨rfl, rfl⟩
  exact hinv.move hpc hafter.1 hafter.2 nofun

theorem WakeInv.stepThread (hinv : WakeInv s)
    (hsafe : wakeSafe s (.thread t) = true)
    (hstep : s.stepThread t = some s') : WakeInv s' := by
  simp only [QueueSys.stepThread] at hstep
  simp only [wakeSafe] at hsafe
  cases hpc : s.pc t <;> simp only [hpc, Option.some.injEq, reduceCtorEq]
    at hstep hsafe <;> rw [← hstep]
  case load attempt => exact hinv.move hpc rfl (by cases attempt <;> rfl) nofun
  case test attempt position => exact hinv.afterTest hpc
  case swap attempt position =>
    refine hinv.swap hpc fun hposition => ?_
    simpa [hposition] using hsafe
  case store attempt position => exact hinv.store hpc
  case enter => exact hinv.enter hpc (by simpa using hsafe)
  case testRunning =>
    split <;> exact hinv.move hpc rfl rfl nofun
  case loadWatched => exact hinv.move hpc rfl rfl nofun
  case futexRunning val =>
    split <;> exact hinv.move hpc rfl rfl nofun
  case futexTest val =>
    split <;> exact hinv.move hpc rfl rfl nofun
  case futexCall val =>
    refine hinv.futexWait hpc fun hval => ?_
    simpa [hval] using hsafe
  case leave success => exact hinv.leave hpc
  case wakeTest => exact hinv.wakeTest hpc

theorem WakeInv.queueStep (hinv : WakeInv s) {action : QueueAct}
    (hsafe : wakeSafe s action = true)
    (hstep : queueStep s action = some s') : WakeInv s' := by
  cases action with
  | call t data => exact hinv.stepCall hstep
  | thread t => exact hinv.stepThread hsafe hstep
  | swapFails t =>
      simp only [Ntnetflow.queueStep, QueueSys.stepSwapFails] at hstep
      split at hstep
      case h_1 attempt position hpc =>
        rw [Option.some.injEq] at hstep
        rw [← hstep]
        exact hinv.move hpc rfl (by cases attempt <;> rfl) nofun
      case h_2 => simp at hstep
  | wake t woken => exact hinv.stepWake hsafe hstep
  | ret t interrupted => exact hinv.stepReturn hstep
  | stop =>
      rw [Ntnetflow.queueStep, Option.some.injEq] at hstep
      rw [← hstep]
      exact hinv.ofQueue rfl rfl rfl rfl rfl
  | join => exact hinv.stepJoin hstep

/-- After `mpmc_queue_init`. -/
theorem WakeInv.start {memory : Option (BitVec 32 → QueueCell)}
    {capacity : BitVec 32} {queue : MpmcQueue}
    (hinit : mpmcQueueInit memory capacity = some queue)
    (hcapacity : capacityOk capacity = true) : WakeInv (queueStart queue) := by
  simp only [mpmcQueueInit, Option.map_eq_some_iff] at hinit
  obtain ⟨buffer, -, rfl⟩ := hinit
  simp only [capacityOk, Bool.and_eq_true, decide_eq_true_eq, beq_iff_eq,
    BitVec.le_def] at hcapacity
  refine ⟨getLsbD_pred_zero hcapacity.1 hcapacity.2, ?_, ?_, ?_, ?_⟩
  · simp [queueStart, QueuePc.isAsleep]
  · intro side
    have hnone : Counts (fun t : QueueThread =>
        t.side = side ∧ (QueuePc.idle).counted = true) 0 :=
      Counts.none (by simp [QueuePc.counted])
    cases side <;> exact hnone
  · simp [queueStart, QueuePc.isAsleep]
  · simp [queueStart, QueuePc.isAsleep]

/-- In a run of safe steps no thread is left asleep. -/
theorem noLostWakeup_of_run {memory : Option (BitVec 32 → QueueCell)}
    {capacity : BitVec 32} {queue : MpmcQueue}
    (hinit : mpmcQueueInit memory capacity = some queue)
    (hcapacity : capacityOk capacity = true)
    (hrun : Run queueStep (fun s action => wakeSafe s action = true)
      (queueStart queue) s) (t : QueueThread) : ¬ LostWakeup s t := by
  have hinv : WakeInv s := by
    apply hrun.invariant
    · exact WakeInv.start hinit hcapacity
    · exact fun hinv hsafe hstep => hinv.queueStep hsafe hstep
  exact hinv.not_lost t

/-- The capacity `fl_init` asks for. -/
def programCapacity : BitVec 32 := BitVec.ofNat 32 QUEUE_SIZE

/-- The consumer finds nothing `MAX_SPIN` times and goes to the kernel. -/
def pullAndSleep : List QueueAct :=
  .call .consumer 0 :: List.replicate 16 (.thread .consumer)

/-- A producer calls `mpmc_queue_push` up to the compare-and-swap. -/
def claimCell : List QueueAct :=
  .call (.producer 0) 7 :: List.replicate 3 (.thread (.producer 0))

/-- It stores the sequence number and wakes the consumer. -/
def publishAndWake : List QueueAct :=
  List.replicate 2 (.thread (.producer 0)) ++
    [.wake (.producer 0) (some .consumer)]

/-- The consumer sleeps on the empty queue, is woken and gets the element. -/
theorem noLostWakeup_of_run_pulled : ∃ queue s,
    mpmcQueueInit (some fun _ => ⟨0, 0⟩) programCapacity = some queue ∧
    Run queueStep (fun s action => wakeSafe s action = true)
      (queueStart queue) s ∧
    s.data .consumer = 7 ∧ ∀ t, ¬ LostWakeup s t := by
  have hrun : ((mpmcQueueInit (some fun _ => ⟨0, 0⟩) programCapacity).bind
      fun queue => (execOk queueStep wakeSafe (queueStart queue)
        (pullAndSleep ++ claimCell ++ publishAndWake ++
          List.replicate 8 (.thread .consumer))).map
            fun s => s.data .consumer) = some 7 := by
    decide +kernel
  simp only [Option.bind_eq_some_iff, Option.map_eq_some_iff] at hrun
  obtain ⟨queue, hinit, s, hexec, hdata⟩ := hrun
  exact ⟨queue, s, hinit, run_of_execOk _ hexec, hdata,
    noLostWakeup_of_run hinit (by decide) (run_of_execOk _ hexec)⟩

/-- With the cell claimed but not published when the consumer loads `tail`, the
consumer sleeps on the counter that has already moved, and goes back to sleep
when the producer wakes it. -/
theorem noLostWakeup_fails : ∃ queue s,
    mpmcQueueInit (some fun _ => ⟨0, 0⟩) programCapacity = some queue ∧
    Run queueStep anyStep (queueStart queue) s ∧
    LostWakeup s .consumer := by
  have hrun : ((mpmcQueueInit (some fun _ => ⟨0, 0⟩) programCapacity).bind
      fun queue => (exec queueStep (queueStart queue)
        (claimCell ++ pullAndSleep ++ publishAndWake ++
          List.replicate 3 (.thread .consumer))).map fun s =>
            ((s.pc .consumer).isAsleep, s.queue.available .pull,
              s.publisher (s.queue.cellIndex s.queue.head),
              (s.pc (.producer 0)).waking)) =
                some (true, true, some 0, false) := by
    decide +kernel
  simp only [Option.bind_eq_some_iff, Option.map_eq_some_iff,
    Prod.mk.injEq] at hrun
  obtain ⟨queue, hinit, s, hexec, hasleep, havailable, hpublisher, hdone⟩ :=
    hrun
  refine ⟨queue, s, hinit, run_of_exec _ hexec, hasleep,
    Or.inl ⟨havailable, ?_⟩⟩
  intro w hmade
  cases w with
  | consumer => exact hmade.elim
  | producer i =>
      have hi : some 0 = some i := hpublisher.symm.trans hmade
      rw [Option.some.injEq] at hi
      rw [← hi]
      exact hdone

end Ntnetflow

end NtapiExamples
