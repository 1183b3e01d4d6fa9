/-
The order of the poll list.  Entries enter at the end of the list, and move
there when `poll_head` goes past them, and both times get the latest time there
is, so that the list is in the order of its times as long as the counters hold.
-/
import NtapiExamples.Ntnetflow.PollOps
import NtapiExamples.Lib.DueList

namespace NtapiExamples

namespace Ntnetflow

variable {cfg : FlConfig} {t t' : FlowTable} {e : EntryPtr}
variable {poll poll' : PollState} {s : PollPair}

/-- `next_update`, without sign. -/
def dueOf (t : FlowTable) (e : EntryPtr) : Nat := (nextUpdateOf t e).toNat

/-- `poll_current + poll_interval`. -/
def PollPair.latest (cfg : FlConfig) (s : PollPair) : Nat :=
  s.heap.poll.current.toNat + cfg.pollInterval.toNat

/-- From `poll_head` on the times do not decrease, none is later than the
interval from now, and when the head is not due no entry is. -/
structure PollSorted (cfg : FlConfig) (s : PollPair) : Prop where
  sorted : s.list.Pairwise fun a b =>
    dueOf s.heap.table a ≤ dueOf s.heap.table b
  bounded : ∀ e ∈ s.list, dueOf s.heap.table e ≤ s.latest cfg
  notDue : ∀ head, s.heap.poll.head = some head →
    s.heap.poll.current < nextUpdateOf s.heap.table head →
    ∀ e ∈ s.list, s.heap.poll.current < nextUpdateOf s.heap.table e

/-- `poll_op_count` does not wrap to 0. -/
def PollPair.CountFits (s : PollPair) : PollOp → Prop
  | .add _ | .remove _ => s.heap.poll.opCount + 1#32 ≠ 0#32
  | .rotate | .tick => True

/-- `poll_current + poll_interval` does not wrap. -/
def PollPair.ClockFits (cfg : FlConfig) (s : PollPair) : PollOp → Prop
  | .add _ | .remove _ | .rotate => True
  | .tick => s.latest cfg + 1 < 2 ^ 64

instance (s : PollPair) (op : PollOp) : Decidable (s.Allows op) :=
  match op with
  | .add _ => inferInstanceAs (Decidable (_ ∧ _))
  | .remove e => inferInstanceAs (Decidable (e ∈ s.list))
  | .rotate | .tick => inferInstanceAs (Decidable True)

instance (s : PollPair) (op : PollOp) : Decidable (s.CountFits op) :=
  match op with
  | .add _ | .remove _ =>
      inferInstanceAs (Decidable (s.heap.poll.opCount + 1#32 ≠ 0#32))
  | .rotate | .tick => inferInstanceAs (Decidable True)

instance (s : PollPair) (op : PollOp) : Decidable (s.ClockFits cfg op) :=
  match op with
  | .add _ | .remove _ | .rotate => inferInstanceAs (Decidable True)
  | .tick => inferInstanceAs (Decidable (s.latest cfg + 1 < 2 ^ 64))

theorem linkPoll_nextUpdate {head head' : Option EntryPtr}
    (hlink : linkPoll t head e = some (t', head')) (e' : EntryPtr) :
    nextUpdateOf t' e' = nextUpdateOf t e' := by
  cases head with
  | none =>
      simp only [linkPoll, Option.bind_eq_bind, Option.bind_eq_some_iff,
        Option.some.injEq, Prod.mk.injEq] at hlink
      obtain ⟨t₁, hset₁, t₂, hset₂, rfl, -⟩ := hlink
      rw [setPrev_nextUpdate hset₂, setNext_nextUpdate hset₁]
  | some h =>
      simp only [linkPoll, Option.bind_eq_bind, Option.bind_eq_some_iff,
        Option.some.injEq, Prod.mk.injEq] at hlink
      obtain ⟨t₁, hset₁, t₂, hset₂, prev, -, t₃, hset₃, t₄, hset₄, rfl, -⟩ :=
        hlink
      rw [setPrev_nextUpdate hset₄, setNext_nextUpdate hset₃,
        setPrev_nextUpdate hset₂, setNext_nextUpdate hset₁]

theorem flAddPoll_times (hadd : flAddPoll cfg t poll e = some (t', poll'))
    (hcount : poll.opCount + 1#32 ≠ 0#32) (hoffset : poll.offset = 0#32) :
    poll'.current = poll.current ∧ poll'.offset = 0#32 ∧
      ∀ e', nextUpdateOf t' e' = if e' = e then poll.current + cfg.pollInterval
        else nextUpdateOf t e' := by
  have hmask : poll.opCount + 1#32 &&& POLL_THROTTLE_MASK ≠ 0#32 := by
    have hall : POLL_THROTTLE_MASK = BitVec.allOnes 32 := by decide
    rw [hall, BitVec.and_allOnes]
    exact hcount
  simp only [flAddPoll, if_neg hmask, hoffset, Option.bind_eq_bind,
    Option.bind_eq_some_iff, Option.some.injEq, Prod.mk.injEq] at hadd
  obtain ⟨⟨t₁, head⟩, hlink, t₂, hset, rfl, rfl⟩ := hadd
  refine ⟨rfl, rfl, fun e' => ?_⟩
  rw [setNextUpdate_nextUpdate hset, linkPoll_nextUpdate hlink,
    BitVec.setWidth_zero, BitVec.add_zero]

theorem flRemovePoll_times
    (hremove : flRemovePoll t poll e = some (t', poll')) :
    poll'.current = poll.current ∧ poll'.offset = poll.offset ∧
      ∀ e', nextUpdateOf t' e' = nextUpdateOf t e' := by
  simp only [flRemovePoll, Option.bind_eq_bind, Option.bind_eq_some_iff,
    Option.some.injEq, Prod.mk.injEq] at hremove
  obtain ⟨prev, -, t₁, hset₁, next, -, t₂, hset₂, rfl, rfl⟩ := hremove
  refine ⟨rfl, rfl, fun e' => ?_⟩
  rw [setPrev_nextUpdate hset₂, setNext_nextUpdate hset₁]

/-- The ring stands for a list in the order of its times, and the counters have
not wrapped. -/
structure PollPaced (cfg : FlConfig) (s : PollPair) : Prop where
  reads : s.Reads
  offset : s.heap.poll.offset = 0#32
  clock : s.latest cfg < 2 ^ 64
  due : DueSorted (dueOf s.heap.table) (s.latest cfg) s.list

namespace PollPaced

/-- The latest time, as the code computes it. -/
theorem latest_eq (hpaced : PollPaced cfg s) :
    (s.heap.poll.current + cfg.pollInterval).toNat = s.latest cfg := by
  rw [BitVec.toNat_add]
  exact Nat.mod_eq_of_lt hpaced.clock

theorem sorted (hpaced : PollPaced cfg s) : PollSorted cfg s where
  sorted := hpaced.due.sorted
  bounded := hpaced.due.bounded
  notDue := by
    intro head hhead hlate e he
    have hlist := hpaced.reads.ring.head
    rw [hhead] at hlist
    cases hl : s.list with
    | nil =>
        rw [hl] at he
        exact absurd he List.not_mem_nil
    | cons first rest =>
        rw [hl, List.head?_cons, Option.some.injEq] at hlist
        subst hlist
        have hdue := hpaced.due
        rw [hl] at hdue he
        exact BitVec.lt_def.mpr (hdue.notDue (BitVec.lt_def.mp hlate) e he)

/-- An operation that keeps the clock keeps the latest time. -/
theorem latest_keep {h : PollHeap} {l : List EntryPtr}
    (hcurrent : h.poll.current = s.heap.poll.current) :
    PollPair.latest cfg ⟨h, l⟩ = s.latest cfg := by
  rw [PollPair.latest, PollPair.latest, hcurrent]

variable {h : PollHeap}

theorem add (hpaced : PollPaced cfg s) (hcount : s.CountFits (.add e))
    (hfresh : e ∉ s.list) (heffect : PollEffect cfg s (.add e) h) :
    PollPaced cfg ⟨h, PollOp.onList (.add e) s.list⟩ := by
  have hstep := heffect.step
  rw [pollStep, Option.map_eq_some_iff] at hstep
  obtain ⟨⟨t', poll'⟩, hadd, rfl⟩ := hstep
  obtain ⟨hcurrent, hoffset, htimes⟩ :=
    flAddPoll_times hadd hcount hpaced.offset
  have hlatest := @latest_keep cfg s ⟨t', poll'⟩ (s.list ++ [e]) hcurrent
  refine ⟨heffect.reads, hoffset, ?_, ?_⟩
  · rw [PollOp.onList, hlatest]
    exact hpaced.clock
  · rw [PollOp.onList, hlatest]
    apply hpaced.due.append
    · intro other hother
      have hne : other ≠ e := by
        rintro rfl
        exact hfresh hother
      rw [dueOf, htimes, if_neg hne]
      rfl
    · rw [dueOf, htimes, if_pos rfl]
      exact hpaced.latest_eq

theorem remove (hpaced : PollPaced cfg s)
    (heffect : PollEffect cfg s (.remove e) h) :
    PollPaced cfg ⟨h, PollOp.onList (.remove e) s.list⟩ := by
  have hstep := heffect.step
  rw [pollStep, Option.map_eq_some_iff] at hstep
  obtain ⟨⟨t', poll'⟩, hremove, rfl⟩ := hstep
  obtain ⟨hcurrent, hoffset, htimes⟩ := flRemovePoll_times hremove
  have hlatest := @latest_keep cfg s ⟨t', poll'⟩ (s.list.erase e) hcurrent
  refine ⟨heffect.reads, hoffset.trans hpaced.offset, ?_, ?_⟩
  · rw [PollOp.onList, hlatest]
    exact hpaced.clock
  · rw [PollOp.onList, hlatest]
    apply (hpaced.due.sublist List.erase_sublist).congr
    intro other _
    rw [dueOf, htimes]
    rfl

theorem rotate (hpaced : PollPaced cfg s)
    (heffect : PollEffect cfg s .rotate h) :
    PollPaced cfg ⟨h, PollOp.onList .rotate s.list⟩ := by
  have hstep := heffect.step
  have hring := hpaced.reads.ring
  have hdue := hpaced.due
  have hreads := heffect.reads
  cases hlist : s.list with
  | nil =>
      rw [hlist] at hring hreads
      have hhead : s.heap.poll.head = none := hring.head
      rw [pollStep, pollRotate, hhead, Option.some.injEq] at hstep
      rw [← hstep] at hreads ⊢
      exact ⟨hreads, hpaced.offset, hpaced.clock, DueSorted.nil⟩
  | cons head rest =>
      rw [hlist] at hring hdue hreads
      have hhead : s.heap.poll.head = some head := hring.head
      simp only [pollStep, pollRotate, hhead, Option.bind_eq_bind,
        Option.bind_eq_some_iff, Option.some.injEq] at hstep
      obtain ⟨t', hset, next, -, rfl⟩ := hstep
      refine ⟨hreads, hpaced.offset, hpaced.clock, ?_⟩
      apply hdue.requeue hring.nodup
      · intro other hne
        rw [dueOf, setNextUpdate_nextUpdate hset, if_neg hne]
        rfl
      · rw [dueOf, setNextUpdate_nextUpdate hset, if_pos rfl]
        exact hpaced.latest_eq

theorem tick (hpaced : PollPaced cfg s) (hclock : s.ClockFits cfg .tick)
    (heffect : PollEffect cfg s .tick h) :
    PollPaced cfg ⟨h, PollOp.onList .tick s.list⟩ := by
  have hstep := heffect.step
  rw [pollStep, Option.some.injEq] at hstep
  subst hstep
  have hone : (s.heap.poll.current + 1#64).toNat =
      s.heap.poll.current.toNat + 1 := by
    rw [BitVec.toNat_add]
    apply Nat.mod_eq_of_lt
    exact Nat.lt_of_le_of_lt (Nat.succ_le_succ (Nat.le_add_right _ _)) hclock
  have hlatest : PollPair.latest cfg
      ⟨⟨s.heap.table, pollTick s.heap.poll⟩, s.list⟩ = s.latest cfg + 1 := by
    rw [PollPair.latest, pollTick, hone, PollPair.latest, Nat.add_right_comm]
  refine ⟨heffect.reads, hpaced.offset, ?_, ?_⟩
  · rw [PollOp.onList, hlatest]
    exact hclock
  · rw [PollOp.onList, hlatest]
    exact hpaced.due.mono (Nat.le_succ _)

theorem step (hpaced : PollPaced cfg s) {op : PollOp} {s' : PollPair}
    (hallows : s.Allows op) (hcount : s.CountFits op)
    (hclock : s.ClockFits cfg op) (hstep : pairStep cfg s op = some s') :
    PollPaced cfg s' := by
  obtain ⟨h, heffect⟩ := @PollPair.Reads.step cfg s hpaced.reads op hallows
  rw [pairStep, heffect.step, Option.map_some, Option.some.injEq] at hstep
  rw [← hstep]
  cases op with
  | add e => exact hpaced.add hcount hallows.1 heffect
  | remove e => exact hpaced.remove heffect
  | rotate => exact hpaced.rotate heffect
  | tick => exact hpaced.tick hclock heffect

end PollPaced

theorem pollPaced_start (cfg : FlConfig) (t : FlowTable) :
    PollPaced cfg (pollStart t) where
  reads := reads_nil t rfl
  offset := rfl
  clock := by
    rw [PollPair.latest]
    have hzero : (pollStart t).heap.poll.current.toNat = 0 := rfl
    rw [hzero, Nat.zero_add]
    exact cfg.pollInterval.isLt
  due := DueSorted.nil

/-- The start after `n` ticks. -/
theorem run_ticks (t : FlowTable) (n : Nat) :
    Run (pairStep cfg) (fun s op => s.Allows op ∧ s.CountFits op) (pollStart t)
      ⟨⟨t, ⟨none, BitVec.ofNat 64 n, 0#32, 0#32⟩⟩, []⟩ := by
  induction n with
  | zero => exact Run.refl
  | succ n ih =>
      refine Run.tail .tick ih ⟨trivial, trivial⟩ ?_
      rw [BitVec.ofNat_add]
      rfl

/-- An entry is inserted with the latest time there is, and the next one after
the clock has wrapped. -/
theorem clockWrap_unsorted :
    ¬ ∀ (cfg : FlConfig) (t : FlowTable) (s : PollPair),
      Run (pairStep cfg) (fun s op => s.Allows op ∧ s.CountFits op)
        (pollStart t) s → PollSorted cfg s := by
  intro hsorted
  have hwrap : (execOk (pairStep ⟨true, 1#64⟩)
      (fun s op => decide (s.Allows op ∧ s.CountFits op))
      ⟨⟨chainTable, ⟨none, BitVec.ofNat 64 (2 ^ 64 - 2), 0#32, 0#32⟩⟩, []⟩
      [.add (chainEntry 0), .tick, .add (chainEntry 1)]).map (fun s =>
        (s.list, dueOf s.heap.table (chainEntry 0),
          dueOf s.heap.table (chainEntry 1))) =
        some ([chainEntry 0, chainEntry 1], 2 ^ 64 - 1, 0) := by
    decide +kernel
  obtain ⟨s, hexec, heq⟩ := Option.map_eq_some_iff.mp hwrap
  have hrun := (run_ticks chainTable (2 ^ 64 - 2)).trans
    ((run_of_execOk _ hexec).mono fun _ _ hok => of_decide_eq_true hok)
  simp only [Prod.mk.injEq] at heq
  obtain ⟨hlist, hfirst, hsecond⟩ := heq
  have hle := (hsorted _ _ s hrun).sorted
  rw [hlist, List.pairwise_pair, hfirst, hsecond] at hle
  exact absurd hle (by decide)

/-- The list stays sorted in every run in which neither the number of operations
of a tick nor the clock wraps. -/
theorem pollSorted_of_run (t : FlowTable)
    (hrun : Run (pairStep cfg)
      (fun s op => s.Allows op ∧ s.CountFits op ∧ s.ClockFits cfg op)
      (pollStart t) s) : PollSorted cfg s := by
  have hpaced : PollPaced cfg s := by
    apply hrun.invariant (pollPaced_start cfg t)
    rintro s op s' hpaced ⟨hallows, hcount, hclock⟩ hstep
    exact hpaced.step hallows hcount hclock hstep
  exact hpaced.sorted

/-- Two entries are inserted in two ticks, and the head is polled when it is
due. -/
theorem pollSorted_of_run_two : ∃ s : PollPair,
    s.list = [chainEntry 1, chainEntry 0] ∧ PollSorted ⟨true, 1#64⟩ s := by
  have hlist : (execOk (pairStep ⟨true, 1#64⟩)
      (fun s op => decide (s.Allows op ∧ s.CountFits op ∧
        s.ClockFits ⟨true, 1#64⟩ op)) (pollStart chainTable)
      [.add (chainEntry 0), .tick, .add (chainEntry 1), .rotate]).map
        PollPair.list = some [chainEntry 1, chainEntry 0] := by
    decide +kernel
  obtain ⟨s, hexec, heq⟩ := Option.map_eq_some_iff.mp hlist
  exact ⟨s, heq, pollSorted_of_run chainTable
    ((run_of_execOk _ hexec).mono fun _ _ hok => of_decide_eq_true hok)⟩

end Ntnetflow

end NtapiExamples
