/-
`ft_add` and `ft_remove` in several threads: the sections of both, with the
entries that may be removed, and what is said about the buckets they free.
-/
import NtapiExamples.Lib.Run
import NtapiExamples.Lib.Count
import NtapiExamples.Ntnetflow.FlowTableThreads
import NtapiExamples.Ntnetflow.FlowTableLookup

namespace NtapiExamples

namespace Ntnetflow

namespace FlowTable

/-- The threads, the entries that `ft_add` returned and that were not passed to
`ft_remove` since, and the chains in which `calloc` failed. -/
structure BucketThreads where
  threads : Threads
  live : List EntryPtr
  failed : Nat → Bool

/-- The sections; `alloc` is the answer of `calloc`, `acquired` that of
`pthread_rwlock_trywrlock`. -/
inductive BucketAct where
  | add (thread : Nat) (args : FlowArgs)
  | addTest (thread : Nat)
  | addClaim (thread : Nat) (acquired : Bool)
  | addAppend (thread : Nat) (alloc : Option Nat)
  | addInit (thread : Nat)
  | addRef (thread : Nat)
  | remove (thread : Nat) (e : EntryPtr)
  | removeCheck (thread : Nat)
  | removeMark (thread : Nat)
  | removeUnlink (thread : Nat)
  | removeFree (thread : Nat)

namespace BucketThreads

variable (s : BucketThreads)

def table : FlowTable := s.threads.table

def pc : Nat → TablePc := s.threads.pc

/-- A section of a thread. -/
def withThreads (threads : Option Threads) : Option BucketThreads :=
  threads.map fun threads => { s with threads := threads }

/-- The section under the write lock of the chain. -/
def addAppend (thread : Nat) (alloc : Option Nat) : Option BucketThreads :=
  match s.pc thread with
  | .addAppend args =>
      (s.threads.stepAddAppend thread alloc).map fun threads =>
        { s with
          threads := threads
          failed := Function.update s.failed (s.table.chainIndex args.hash)
            (s.failed (s.table.chainIndex args.hash) || alloc.isNone) }
  | _ => none

/-- `ft_add` returns. -/
def addRef (thread : Nat) : Option BucketThreads :=
  match s.pc thread with
  | .addRef e =>
      (s.threads.stepAddRef thread).map fun threads =>
        { s with threads := threads, live := e :: s.live }
  | _ => none

/-- A thread enters `ft_remove`: of a live entry, and nobody else does. -/
def remove (thread : Nat) (e : EntryPtr) : Option BucketThreads :=
  match s.pc thread with
  | .idle =>
      if e ∈ s.live then
        some { s with
          threads := s.threads.setPc thread (.removeCheck e)
          live := s.live.erase e }
      else none
  | _ => none

end BucketThreads

def bucketStep (s : BucketThreads) : BucketAct → Option BucketThreads
  | .add thread args => s.withThreads (s.threads.stepCall thread (.add args))
  | .addTest thread => s.withThreads (s.threads.stepAddTest thread)
  | .addClaim thread acquired =>
      s.withThreads (s.threads.stepAddClaim thread acquired)
  | .addAppend thread alloc => s.addAppend thread alloc
  | .addInit thread => s.withThreads (s.threads.stepAddInit thread)
  | .addRef thread => s.addRef thread
  | .remove thread e => s.remove thread e
  | .removeCheck thread => s.withThreads (s.threads.stepRemoveCheck thread)
  | .removeMark thread => s.withThreads (s.threads.stepRemoveMark thread)
  | .removeUnlink thread => s.withThreads (s.threads.stepRemoveUnlink thread)
  | .removeFree thread => s.withThreads (s.threads.stepRemoveFree thread)

/-- All threads idle on a table. -/
def bucketStart (t : FlowTable) : BucketThreads :=
  { threads := threadsStart t, live := [], failed := fun _ => false }

/-- A thread that is walking holds the read lock of the chain. -/
def walker : TablePc → Option (FlowArgs × BucketPtr)
  | .addTest args p => some (args, p)
  | .addClaim args p => some (args, p)
  | _ => none

/-- The entry a thread adds or removes. -/
def holds : TablePc → Option EntryPtr
  | .addInit _ e => some e
  | .addRef e => some e
  | .removeCheck e => some e
  | .removeMark e _ => some e
  | _ => none

/-- The bucket a thread has marked. -/
def frees : TablePc → Option BucketPtr
  | .removeUnlink p => some p
  | .removeFree p => some p
  | _ => none

theorem ne_removeFree {pc : TablePc} (hfrees : frees pc = none)
    (p : BucketPtr) : pc ≠ .removeFree p := by
  rintro rfl
  simp [frees] at hfrees

/-- `BUCKET_TO_FREE` is set. -/
def ToFree (t : FlowTable) (p : BucketPtr) : Prop :=
  (t.mem p).flags.getLsbD 1 = true

/-- Allocated, and not taken out of its chain. -/
def Linked (t : FlowTable) (pc : Nat → TablePc) (p : BucketPtr) : Prop :=
  t.valid p = true ∧ ∀ thread, pc thread ≠ .removeFree p

/-- The list of the chain `c`. -/
structure Linkage (t : FlowTable) (pc : Nat → TablePc) (c : Nat)
    (l : List BucketPtr) : Prop where
  head : l.head? = some (.first c)
  nodup : l.Nodup
  seg : Seg t.nextOf t.prevOf none none l
  mem : ∀ p, p ∈ l ↔ Linked t pc p ∧ t.parentOf p = c

/-- Marked buckets have no used slot, none of their slots is being claimed, and
exactly one thread marked each of them and unlinks and frees it.  The entries
that are live, or that an `ft_add` or an `ft_remove` is at, are used, and a walk
only sees linked buckets. -/
structure FreeingOk (s : BucketThreads) : Prop where
  unused : ∀ p, s.table.valid p = true → s.table.ToFree p →
    ∀ slot, ¬ s.table.Used ⟨p, slot⟩
  claimed : ∀ thread e, holds (s.pc thread) = some e →
    ¬ s.table.ToFree e.bucket
  freer : ∀ p, s.table.valid p = true →
    (s.table.ToFree p ↔ ∃! thread, frees (s.pc thread) = some p)
  freed : ∀ thread p, frees (s.pc thread) = some p →
    s.table.valid p = true ∧ s.table.ToFree p
  live : ∀ e ∈ s.live, s.table.Used e
  held : ∀ thread e, holds (s.pc thread) = some e → s.table.Used e
  walks : ∀ thread args p, walker (s.pc thread) = some (args, p) →
    Linked s.table s.pc p

/-- Every chain is a list of its buckets, but for those that are unlinked, and
`chain->last` is its tail. -/
def ChainsOk (s : BucketThreads) : Prop :=
  ∀ c, c < s.table.tableSize → ∃ l, Linkage s.table s.pc c l ∧
    s.table.last c = l.getLast?

/-- What one section does to the marks, the slots and the memory. -/
structure SectionOk (s s' : BucketThreads) : Prop where
  size : s'.table.tableSize = s.table.tableSize
  claims : ∀ e, ¬ s.table.Used e → s'.table.Used e →
    s.table.valid e.bucket = true → ¬ s.table.ToFree e.bucket
  marks : ∀ p, s.table.valid p = true → ¬ s.table.ToFree p →
    s'.table.ToFree p → ∃ thread, s'.pc thread = .removeUnlink p
  unlinks : ∀ p, Linked s.table s.pc p → ¬ Linked s'.table s'.pc p →
    ∃ thread, s.pc thread = .removeUnlink p ∧ s'.pc thread = .removeFree p
  frees : ∀ p, s.table.valid p = true → s'.table.valid p = false →
    ∃ thread, s.pc thread = .removeFree p

/-- The thread that marked a bucket can unlink it when nobody walks in the chain,
and it can free it then. -/
structure CanFree (s : BucketThreads) : Prop where
  unlink : ∀ thread p, s.pc thread = .removeUnlink p →
    s.threads.readers (s.table.parentOf p) = 0 →
      ∃ s', bucketStep s (.removeUnlink thread) = some s'
  free : ∀ thread p, s.pc thread = .removeFree p →
    ∃ s', bucketStep s (.removeFree thread) = some s'

end FlowTable

end Ntnetflow

end NtapiExamples
