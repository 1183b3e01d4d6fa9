/-
The history of the program queue: the counters without their wrap-around, the
counter each thread saw last, and the elements in the order in which their
compare-and-swap on `tail`, or their read from the cell, took effect.  No step
of a thread reads it.
-/
import Mathlib.Data.Finset.Basic
import Mathlib.Order.Interval.Finset.Nat
import NtapiExamples.Lib.Bits
import NtapiExamples.Lib.Fifo
import NtapiExamples.Lib.Run
import NtapiExamples.Ntnetflow.MpmcQueue

namespace NtapiExamples

namespace Ntnetflow

namespace MpmcQueue

variable (q : MpmcQueue)

def capacity : Nat := q.bufferMask.toNat + 1

/-- The cell of an unbounded position. -/
def slot (p : Nat) : QueueCell := q.cellAt (BitVec.ofNat 32 p)

/-- What `mpmc_queue_init` asserts of the capacity. -/
def PowerRing : Prop := ∃ k, 0 < k ∧ k < 32 ∧ q.capacity = 2 ^ k

end MpmcQueue

variable {q : MpmcQueue}

theorem MpmcQueue.PowerRing.two_le (hring : q.PowerRing) : 2 ≤ q.capacity := by
  obtain ⟨k, hpos, -, hk⟩ := hring
  rw [hk]
  exact Nat.le_self_pow (by omega) 2

theorem MpmcQueue.PowerRing.le (hring : q.PowerRing) :
    q.capacity ≤ 2 ^ 31 := by
  obtain ⟨k, -, hlt, hk⟩ := hring
  rw [hk]
  exact Nat.pow_le_pow_right (by decide) (by omega)

theorem cellIndex_ofNat (hring : q.PowerRing) (p : Nat) :
    (q.cellIndex (BitVec.ofNat 32 p)).toNat = p % q.capacity := by
  obtain ⟨k, -, hlt, hk⟩ := hring
  have hmask : q.bufferMask.toNat = 2 ^ k - 1 := by
    have hcap : q.bufferMask.toNat + 1 = 2 ^ k := hk
    omega
  rw [MpmcQueue.cellIndex, BitVec.toNat_and, BitVec.toNat_ofNat, hmask,
    Nat.and_two_pow_sub_one_eq_mod, hk]
  exact Nat.mod_mod_of_dvd p (Nat.pow_dvd_pow 2 (by omega))

/-- Two positions share a cell when they are a multiple of the capacity
apart. -/
theorem cellIndex_eq_iff (hring : q.PowerRing) (p p' : Nat) :
    q.cellIndex (BitVec.ofNat 32 p) = q.cellIndex (BitVec.ofNat 32 p') ↔
      p % q.capacity = p' % q.capacity := by
  rw [← BitVec.toNat_inj, cellIndex_ofNat hring, cellIndex_ofNat hring]

/-- The positions of one turn of the ring have cells of their own. -/
theorem cellIndex_injOn (hring : q.PowerRing) {low p p' : Nat} (hp : low ≤ p)
    (hp' : low ≤ p') (hlt : p < low + q.capacity)
    (hlt' : p' < low + q.capacity)
    (heq : q.cellIndex (BitVec.ofNat 32 p) =
      q.cellIndex (BitVec.ofNat 32 p')) : p = p' := by
  rw [cellIndex_eq_iff hring] at heq
  apply Nat.mod_injOn_Ico low q.capacity _ _ heq
  · simp [hp, hlt]
  · simp [hp', hlt']

theorem slot_setCell_self (q : MpmcQueue) (p : Nat) (cell : QueueCell) :
    (q.setCell (BitVec.ofNat 32 p) cell).slot p = cell :=
  Function.update_self _ _ _

theorem slot_setCell_of_ne (hring : q.PowerRing) {low p p' : Nat}
    (hp : low ≤ p) (hp' : low ≤ p') (hlt : p < low + q.capacity)
    (hlt' : p' < low + q.capacity) (hne : p' ≠ p) (cell : QueueCell) :
    (q.setCell (BitVec.ofNat 32 p) cell).slot p' = q.slot p' := by
  apply Function.update_of_ne
  intro heq
  exact hne (cellIndex_injOn hring hp' hp hlt' hlt heq)

/-- One turn further is the same cell. -/
theorem slot_add_capacity (hring : q.PowerRing) (p : Nat) :
    q.slot (p + q.capacity) = q.slot p := by
  have hindex : q.cellIndex (BitVec.ofNat 32 (p + q.capacity)) =
      q.cellIndex (BitVec.ofNat 32 p) := by
    rw [cellIndex_eq_iff hring, Nat.add_mod_right]
  exact congrArg q.buffer hindex

/-- Positions less than a turn of the counters apart are told apart by their
low 32 bits. -/
theorem ofNat_inj_of_lt {p p' : Nat} (hle : p ≤ p') (hlt : p' < p + 2 ^ 32)
    (heq : BitVec.ofNat 32 p = BitVec.ofNat 32 p') : p = p' := by
  have hmod : p % 2 ^ 32 = p' % 2 ^ 32 := by
    rw [← BitVec.toNat_ofNat, ← BitVec.toNat_ofNat, heq]
  omega

/-- `seen` is the counter at the last load of a thread, `taken` the number of
cells the consumer claimed. -/
structure QueueHistory where
  seen : QueueThread → Nat
  taken : Nat
  trace : List (FifoAct (BitVec 64))

namespace QueueHistory

variable (h : QueueHistory)

def pushed : List (BitVec 64) := fifoPushes h.trace

def pulled : List (BitVec 64) := fifoPulls h.trace

/-- `tail` and `head` without the wrap-around. -/
def counter : QueueSide → Nat
  | .push => h.pushed.length
  | .pull => h.taken

end QueueHistory

namespace QueueSys

variable (s : QueueSys)

/-- The compare-and-swap of a thread is about to succeed. -/
def swaps (t : QueueThread) : Bool :=
  match s.pc t with
  | .swap _ position => decide (s.queue.position t.side = position)
  | _ => false

/-- The thread reads its counter: a load, or a compare-and-swap that fails. -/
def reads (t : QueueThread) : Bool :=
  match s.pc t with
  | .load _ => true
  | .swap _ _ => !s.swaps t
  | _ => false

/-- A producer claims its cell; the consumer reads one. -/
def event (t : QueueThread) : Option (FifoAct (BitVec 64)) :=
  match t, s.pc t with
  | .producer _, .swap _ _ =>
      if s.swaps t then some (.push (s.data t)) else none
  | .consumer, .store _ position =>
      some (.pull (s.queue.cellAt position).data)
  | _, _ => none

end QueueSys

/-- What a step of a thread adds to the history. -/
def QueueHistory.thread (h : QueueHistory) (s : QueueSys) (t : QueueThread) :
    QueueHistory :=
  { seen := if s.reads t then Function.update h.seen t (h.counter t.side)
      else h.seen
    taken := if t = .consumer ∧ s.swaps t = true then h.taken + 1 else h.taken
    trace := h.trace ++ (s.event t).toList }

def QueueHistory.next (h : QueueHistory) (s : QueueSys) :
    QueueAct → QueueHistory
  | .thread t => h.thread s t
  | .swapFails t =>
      { h with seen := Function.update h.seen t (h.counter t.side) }
  | _ => h

/-- The queue with its threads, and its history. -/
structure QueueRun where
  sys : QueueSys
  history : QueueHistory

def historyStep (x : QueueRun) (action : QueueAct) : Option QueueRun :=
  (queueStep x.sys action).map fun sys => ⟨sys, x.history.next x.sys action⟩

def historyStart (queue : MpmcQueue) : QueueRun :=
  ⟨queueStart queue, ⟨fun _ => 0, 0, []⟩⟩

/-- A successful compare-and-swap finds the counter its thread loaded, and not
one that has gone round 2^32 since. -/
def notWrapped (x : QueueRun) : QueueAct → Bool
  | .thread t =>
      !x.sys.swaps t ||
        decide (x.history.seen t = x.history.counter t.side)
  | _ => true

end Ntnetflow

end NtapiExamples
