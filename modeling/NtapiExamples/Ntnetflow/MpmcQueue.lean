/-
`mpmc_queue.h` and `futex.h` with several threads.  One step is one atomic load,
store, addition or compare-and-swap, or one futex call; the access to the data
of a cell belongs to the store of its sequence number.  Any number of threads
run `fl_program` (push and wake), one runs the loop of `fl_program_main` (pull
and wake), and `fl_join` broadcasts after the shutdown.
-/
import Mathlib.Logic.Function.Basic

namespace NtapiExamples

namespace Ntnetflow

def MAX_SPIN : Nat := 4

/-- `struct mpmc_queue_cell`. -/
structure QueueCell where
  sequence : BitVec 32
  data : BitVec 64

/-- `struct mpmc_queue`. -/
structure MpmcQueue where
  buffer : BitVec 32 → QueueCell
  bufferMask : BitVec 32
  head : BitVec 32
  tail : BitVec 32
  waitEmpty : BitVec 32
  waitFull : BitVec 32

/-- The assertion of `mpmc_queue_init`. -/
def capacityOk (capacity : BitVec 32) : Bool :=
  decide (2 ≤ capacity) && capacity &&& (capacity - 1) == 0

/-- `mpmc_queue_init`; `memory` is what `posix_memalign` gives. -/
def mpmcQueueInit (memory : Option (BitVec 32 → QueueCell))
    (capacity : BitVec 32) : Option MpmcQueue :=
  memory.map fun buffer =>
    { buffer := fun i =>
        if i < capacity then { buffer i with sequence := i } else buffer i
      bufferMask := capacity - 1
      head := 0
      tail := 0
      waitEmpty := 0
      waitFull := 0 }

/-- The two sides of the queue. -/
inductive QueueSide where
  | push
  | pull
deriving DecidableEq

def QueueSide.other : QueueSide → QueueSide
  | .push => .pull
  | .pull => .push

/-- `fl_program_main`, and the threads that call `fl_program`. -/
inductive QueueThread where
  | consumer
  | producer (i : Nat)
deriving DecidableEq

def QueueThread.side : QueueThread → QueueSide
  | .consumer => .pull
  | .producer _ => .push

namespace MpmcQueue

variable (q : MpmcQueue)

/-- The counter that `mpmc_queue_push` or `mpmc_queue_pull` advances. -/
def position : QueueSide → BitVec 32
  | .push => q.tail
  | .pull => q.head

def setPosition (position : BitVec 32) : QueueSide → MpmcQueue
  | .push => { q with tail := position }
  | .pull => { q with head := position }

/-- The counter that the waiters of a side sleep on. -/
def watched : QueueSide → BitVec 32
  | .push => q.head
  | .pull => q.tail

/-- `wait_full` and `wait_empty`. -/
def waiting : QueueSide → BitVec 32
  | .push => q.waitFull
  | .pull => q.waitEmpty

def setWaiting (count : BitVec 32) : QueueSide → MpmcQueue
  | .push => { q with waitFull := count }
  | .pull => { q with waitEmpty := count }

def cellIndex (position : BitVec 32) : BitVec 32 := position &&& q.bufferMask

def cellAt (position : BitVec 32) : QueueCell :=
  q.buffer (q.cellIndex position)

def setCell (position : BitVec 32) (cell : QueueCell) : MpmcQueue :=
  { q with buffer := Function.update q.buffer (q.cellIndex position) cell }

/-- The sequence number `diff` is taken from. -/
def wanted : QueueSide → BitVec 32 → BitVec 32
  | .push, position => position
  | .pull, position => position + 1

/-- The sequence number stored last. -/
def released : QueueSide → BitVec 32 → BitVec 32
  | .push, position => position + 1
  | .pull, position => position + q.bufferMask + 1

/-- The cell at `position` can be taken: `diff == 0`. -/
def ready (side : QueueSide) (position : BitVec 32) : Bool :=
  (q.cellAt position).sequence - wanted side position == 0

/-- There is a free cell to push to, or a published one to pull from. -/
def available (side : QueueSide) : Bool := q.ready side (q.position side)

end MpmcQueue

/-- Where `mpmc_queue_push` or `mpmc_queue_pull` was called: in one of the
tries before the wait, or in the loop, after the load of the watched counter. -/
inductive QueueTry where
  | spin (tries : Nat)
  | wait (val : BitVec 32)

/-- Where a thread stands. -/
inductive QueuePc where
  | idle
  | load (attempt : QueueTry)
  | test (attempt : QueueTry) (position : BitVec 32)
  | swap (attempt : QueueTry) (position : BitVec 32)
  | store (attempt : QueueTry) (position : BitVec 32)
  | enter
  | testRunning
  | loadWatched
  | futexRunning (val : BitVec 32)
  | futexTest (val : BitVec 32)
  | futexCall (val : BitVec 32)
  | asleep (val : BitVec 32)
  | leave (success : Bool)
  | wakeTest
  | wakeCall
  | returned

/-- The call returns true. -/
def QueueTry.taken : QueueTry → QueuePc
  | .spin _ => .wakeTest
  | .wait _ => .leave true

/-- The call returns false. -/
def QueueTry.failed : QueueTry → QueuePc
  | .spin tries =>
      if tries + 1 < MAX_SPIN then .load (.spin (tries + 1)) else .enter
  | .wait val => .futexRunning val

namespace QueuePc

def isAsleep : QueuePc → Bool
  | .asleep _ => true
  | _ => false

/-- After `FUTEX_WAIT` has returned 0. -/
def woken : QueuePc → QueuePc
  | .asleep val => .futexRunning val
  | pc => pc

/-- Between the store that hands over a cell and the end of the wake. -/
def waking : QueuePc → Bool
  | .leave success => success
  | .wakeTest => true
  | .wakeCall => true
  | _ => false

/-- Between the two updates of `wait_full` or `wait_empty`. -/
def counted : QueuePc → Bool
  | .load (.wait _) => true
  | .test (.wait _) _ => true
  | .swap (.wait _) _ => true
  | .store (.wait _) _ => true
  | .testRunning => true
  | .loadWatched => true
  | .futexRunning _ => true
  | .futexTest _ => true
  | .futexCall _ => true
  | .asleep _ => true
  | .leave _ => true
  | _ => false

end QueuePc

/-- Where `fl_join` stands. -/
inductive JoinPc where
  | broadcastEmpty
  | broadcastFull
  | join
deriving DecidableEq

/-- The queue with its threads.  `sleepers` are the wait queues of the kernel:
the side `pull` sleeps on `tail`, the side `push` on `head`.  `publisher` is the
producer that stored the sequence number of a cell last; no step reads it. -/
structure QueueSys where
  queue : MpmcQueue
  appRunning : Bool
  sleepers : QueueSide → List QueueThread
  pc : QueueThread → QueuePc
  data : QueueThread → BitVec 64
  main : JoinPc
  publisher : BitVec 32 → Option Nat

namespace QueueSys

variable (s : QueueSys)

def setPc (t : QueueThread) (pc : QueuePc) : QueueSys :=
  { s with pc := Function.update s.pc t pc }

/-- `fl_program` is called, or `fl_program_main` comes back to its loop. -/
def stepCall (t : QueueThread) (data : BitVec 64) : Option QueueSys :=
  match s.pc t, t with
  | .idle, .producer _ =>
      some ({ s with data := Function.update s.data t data }.setPc t
        (.load (.spin 0)))
  | .idle, .consumer => some (s.setPc t (.load (.spin 0)))
  | _, _ => none

/-- The branches on `diff`. -/
def afterTest (t : QueueThread) (attempt : QueueTry)
    (position : BitVec 32) : QueuePc :=
  let diff := (s.queue.cellAt position).sequence -
    MpmcQueue.wanted t.side position
  if diff == 0 then .swap attempt position
  else if diff.slt 0 then attempt.failed
  else .load attempt

/-- `atomic_compare_exchange_weak_explicit`, when it does not fail spuriously. -/
def swap (t : QueueThread) (attempt : QueueTry) (position : BitVec 32) :
    QueueSys :=
  if s.queue.position t.side = position then
    { s with queue := s.queue.setPosition (position + 1) t.side }.setPc t
      (.store attempt position)
  else s.setPc t (.test attempt (s.queue.position t.side))

/-- The access to the data and the store of the sequence number. -/
def store (t : QueueThread) (attempt : QueueTry) (position : BitVec 32) :
    QueueSys :=
  match t with
  | .producer i =>
      { s with
        queue := s.queue.setCell position
          { sequence := s.queue.released .push position, data := s.data t }
        publisher := Function.update s.publisher
          (s.queue.cellIndex position) (some i) }.setPc t attempt.taken
  | .consumer =>
      { s with
        queue := s.queue.setCell position
          { s.queue.cellAt position with
            sequence := s.queue.released .pull position }
        data := Function.update s.data t (s.queue.cellAt position).data }.setPc
          t attempt.taken

/-- The system call `FUTEX_WAIT`: the kernel compares once more. -/
def futexWait (t : QueueThread) (val : BitVec 32) : QueueSys :=
  if s.queue.watched t.side = val then
    { s with
      sleepers := Function.update s.sleepers t.side
        (s.sleepers t.side ++ [t]) }.setPc t (.asleep val)
  else s.setPc t (.futexRunning val)

/-- `atomic_fetch_sub_explicit` and the return. -/
def leave (t : QueueThread) (success : Bool) : QueueSys :=
  { s with
    queue := s.queue.setWaiting (s.queue.waiting t.side - 1) t.side }.setPc t
      (if success then .wakeTest else
        match t with
        | .producer _ => .idle
        | .consumer => .returned)

/-- The next operation of a thread. -/
def stepThread (t : QueueThread) : Option QueueSys :=
  match s.pc t with
  | .load attempt =>
      some (s.setPc t (.test attempt (s.queue.position t.side)))
  | .test attempt position =>
      some (s.setPc t (s.afterTest t attempt position))
  | .swap attempt position => some (s.swap t attempt position)
  | .store attempt position => some (s.store t attempt position)
  | .enter =>
      some ({ s with
        queue := s.queue.setWaiting (s.queue.waiting t.side + 1)
          t.side }.setPc t .testRunning)
  | .testRunning =>
      some (s.setPc t (if s.appRunning then .loadWatched else .leave false))
  | .loadWatched =>
      some (s.setPc t (.load (.wait (s.queue.watched t.side))))
  | .futexRunning val =>
      some (s.setPc t (if s.appRunning then .futexTest val else .leave false))
  | .futexTest val =>
      some (s.setPc t
        (if s.queue.watched t.side ≠ val then .testRunning
        else .futexCall val))
  | .futexCall val => some (s.futexWait t val)
  | .leave success => some (s.leave t success)
  | .wakeTest =>
      some (s.setPc t
        (if s.queue.waiting t.side.other = 0 then .idle else .wakeCall))
  | _ => none

/-- A compare-and-swap fails spuriously. -/
def stepSwapFails (t : QueueThread) : Option QueueSys :=
  match s.pc t with
  | .swap attempt _ =>
      some (s.setPc t (.test attempt (s.queue.position t.side)))
  | _ => none

/-- The kernel takes a thread out of the wait queue. -/
def wakeOne (t : QueueThread) : QueueSys :=
  { s with
    sleepers := Function.update s.sleepers t.side
      ((s.sleepers t.side).erase t) }.setPc t (s.pc t).woken

/-- `futex_wake(.., 1)`: one of the sleepers, if there are any. -/
def stepWake (t : QueueThread) (woken : Option QueueThread) :
    Option QueueSys :=
  match s.pc t with
  | .wakeCall =>
      match woken with
      | some u =>
          if u.side = t.side.other ∧ u ∈ s.sleepers t.side.other then
            some ((s.wakeOne u).setPc t .idle)
          else none
      | none =>
          if s.sleepers t.side.other = [] then some (s.setPc t .wakeTest)
          else none
  | _ => none

/-- `FUTEX_WAIT` returns without a wake: by a signal (-1), or spuriously. -/
def stepReturn (t : QueueThread) (interrupted : Bool) : Option QueueSys :=
  match s.pc t with
  | .asleep _ =>
      some (if interrupted then (s.wakeOne t).setPc t (.leave false)
        else s.wakeOne t)
  | _ => none

/-- `futex_wake(.., INT_MAX)`. -/
def broadcast (side : QueueSide) : QueueSys :=
  { s with
    sleepers := Function.update s.sleepers side []
    pc := fun t => if t ∈ s.sleepers side then (s.pc t).woken else s.pc t }

/-- `stop_app`. -/
def stopApp : QueueSys := { s with appRunning := false }

/-- `fl_join`, once `app_running` is false. -/
def stepJoin : Option QueueSys :=
  match s.main with
  | .broadcastEmpty =>
      if s.appRunning then none
      else some { s.broadcast .pull with main := .broadcastFull }
  | .broadcastFull => some { s.broadcast .push with main := .join }
  | .join => none

end QueueSys

/-- The steps of the threads and of the kernel. -/
inductive QueueAct where
  | call (t : QueueThread) (data : BitVec 64)
  | thread (t : QueueThread)
  | swapFails (t : QueueThread)
  | wake (t : QueueThread) (woken : Option QueueThread)
  | ret (t : QueueThread) (interrupted : Bool)
  | stop
  | join

def queueStep (s : QueueSys) : QueueAct → Option QueueSys
  | .call t data => s.stepCall t data
  | .thread t => s.stepThread t
  | .swapFails t => s.stepSwapFails t
  | .wake t woken => s.stepWake t woken
  | .ret t interrupted => s.stepReturn t interrupted
  | .stop => some s.stopApp
  | .join => s.stepJoin

/-- All threads before their first call. -/
def queueStart (queue : MpmcQueue) : QueueSys :=
  { queue := queue
    appRunning := true
    sleepers := fun _ => []
    pc := fun _ => .idle
    data := fun _ => 0
    main := .broadcastEmpty
    publisher := fun _ => none }

end Ntnetflow

end NtapiExamples
