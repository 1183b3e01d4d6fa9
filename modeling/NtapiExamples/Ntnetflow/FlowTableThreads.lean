/-
`flowtable.c` with several threads.  One step is one section under a bucket or
entry lock, one section under the write lock of a chain, or one atomic operation
on a reference count.  The read lock of a chain is held over the steps of a
walk: `readers` counts its holders, and a section under the write lock waits
until there are none.
-/
import NtapiExamples.Ntnetflow.FlowTableInit

namespace NtapiExamples

namespace Ntnetflow

namespace FlowTable

/-- The arguments of an `ft_add` or `ft_lookup`. -/
structure FlowArgs where
  hash : BitVec 32
  keyData : KeyData
  color : BitVec 16

/-- The calls a thread can make. -/
inductive TableCall where
  | add (args : FlowArgs)
  | lookup (args : FlowArgs)
  | ref (e : EntryPtr) (count : Nat)
  | deref (e : EntryPtr) (count : Nat)

/-- Where a thread stands in a call. -/
inductive TablePc where
  | idle
  | addTest (args : FlowArgs) (p : BucketPtr)
  | addClaim (args : FlowArgs) (p : BucketPtr)
  | addAppend (args : FlowArgs)
  | addInit (args : FlowArgs) (e : EntryPtr)
  | addRef (e : EntryPtr)
  | visit (args : FlowArgs) (p : BucketPtr)
  | removeCheck (e : EntryPtr)
  | removeMark (e : EntryPtr) (p : BucketPtr)
  | removeUnlink (p : BucketPtr)
  | removeFree (p : BucketPtr)

/-- The `ft_add` that took a slot last, and whether it has written the fields of
the entry; no step reads it. -/
structure Owner where
  thread : Nat
  args : FlowArgs
  written : Bool

/-- What an `ft_lookup` returned, with the state of the entry at that time. -/
structure Returned where
  args : FlowArgs
  e : EntryPtr
  live : Bool
  owner : Option Owner

/-- The table and its threads. -/
structure Threads where
  table : FlowTable
  readers : Nat → Nat
  pc : Nat → TablePc
  owner : EntryPtr → Option Owner
  returned : List Returned

namespace Threads

variable (s : Threads)

def setPc (thread : Nat) (pc : TablePc) : Threads :=
  { s with pc := Function.update s.pc thread pc }

/-- `pthread_rwlock_rdlock(&chain->rwlock)`. -/
def lockChain (hash : BitVec 32) : Threads :=
  { s with
    readers := Function.update s.readers (s.table.chainIndex hash)
      (s.readers (s.table.chainIndex hash) + 1) }

/-- `pthread_rwlock_unlock(&chain->rwlock)` of a reader. -/
def unlockChain (hash : BitVec 32) : Threads :=
  { s with
    readers := Function.update s.readers (s.table.chainIndex hash)
      (s.readers (s.table.chainIndex hash) - 1) }

def setOwner (e : EntryPtr) (owner : Owner) : Threads :=
  { s with owner := Function.update s.owner e (some owner) }

/-- A thread enters `ft_add`, `ft_lookup`, `ft_ref` or `ft_deref`. -/
def stepCall (thread : Nat) (call : TableCall) : Option Threads :=
  match s.pc thread with
  | .idle =>
      match call with
      | .add args =>
          some ((s.lockChain args.hash).setPc thread
            (.addTest args (.first (s.table.chainIndex args.hash))))
      | .lookup args =>
          some ((s.lockChain args.hash).setPc thread
            (.visit args (.first (s.table.chainIndex args.hash))))
      | .ref e count =>
          (s.table.ftRef e count).map fun t => { s with table := t }
      | .deref e count =>
          (s.table.modifyEntry e fun entry =>
            { entry with rc := entry.rc - count }).map fun t =>
              if 0 ≤ (s.table.entry e).rc ∧ (s.table.entry e).rc ≤ count
              then { s with table := t }.setPc thread (.removeCheck e)
              else { s with table := t }
  | _ => none

/-- `while ((bucket = bucket->next))` in `ft_add`. -/
def addAdvance (thread : Nat) (args : FlowArgs) (b : FlowBucket) : Threads :=
  match b.next with
  | some next => s.setPc thread (.addTest args next)
  | none => (s.unlockChain args.hash).setPc thread (.addAppend args)

/-- The test under the read lock of the bucket. -/
def stepAddTest (thread : Nat) : Option Threads :=
  match s.pc thread with
  | .addTest args p =>
      (s.table.deref p).map fun b =>
        if s.table.hasUnused b then s.setPc thread (.addClaim args p)
        else s.addAdvance thread args b
  | _ => none

/-- `pthread_rwlock_trywrlock`, the second test and the claim. -/
def stepAddClaim (thread : Nat) (acquired : Bool) : Option Threads :=
  match s.pc thread with
  | .addClaim args p =>
      (s.table.deref p).map fun b =>
        if acquired && s.table.hasUnused b then
          ((({ s with table := (s.table.claimSlot p).1 }.setOwner
            (s.table.claimSlot p).2 ⟨thread, args, false⟩).unlockChain
              args.hash).setPc thread
                (.addInit args (s.table.claimSlot p).2))
        else s.addAdvance thread args b
  | _ => none

/-- The section under the write lock of the chain. -/
def stepAddAppend (thread : Nat) (alloc : Option Nat) : Option Threads :=
  match s.pc thread with
  | .addAppend args =>
      if s.readers (s.table.chainIndex args.hash) = 0 then
        (s.table.appendBucket alloc (s.table.chainIndex args.hash)).map
          fun r =>
            match r.2 with
            | none => { s with table := r.1 }.setPc thread .idle
            | some e =>
                ({ s with table := r.1 }.setOwner e
                  ⟨thread, args, false⟩).setPc thread (.addInit args e)
      else none
  | _ => none

/-- The owner after `thread` has written the fields of the entry. -/
def writtenOwner (thread : Nat) (owner : Option Owner) : Option Owner :=
  owner.map fun o => if o.thread = thread then { o with written := true } else o

/-- The section under the entry lock. -/
def stepAddInit (thread : Nat) : Option Threads :=
  match s.pc thread with
  | .addInit args e =>
      (s.table.initEntry e args.hash args.keyData args.color).map fun t =>
        { s with
          table := t
          owner := Function.update s.owner e
            (writtenOwner thread (s.owner e)) }.setPc thread (.addRef e)
  | _ => none

def stepAddRef (thread : Nat) : Option Threads :=
  match s.pc thread with
  | .addRef e =>
      (s.table.finishAdd e).map fun t =>
        { s with table := t }.setPc thread .idle
  | _ => none

/-- One bucket of `ft_visit`. -/
def stepVisit (thread : Nat) : Option Threads :=
  match s.pc thread with
  | .visit args p =>
      (s.table.deref p).map fun b =>
        match s.table.visitBucket (fun entry =>
          ftCompare entry args.hash args.keyData args.color) b with
        | some slot =>
            ({ s with
              returned := ⟨args, ⟨p, slot⟩, decide (s.table.Used ⟨p, slot⟩),
                s.owner ⟨p, slot⟩⟩ :: s.returned }.unlockChain
                  args.hash).setPc thread .idle
        | none =>
            match b.next with
            | some next => s.setPc thread (.visit args next)
            | none => (s.unlockChain args.hash).setPc thread .idle
  | _ => none

/-- Is the slot already unused? -/
def stepRemoveCheck (thread : Nat) : Option Threads :=
  match s.pc thread with
  | .removeCheck e => do
      let holder ← s.table.deref e.bucket
      let p ← (holder.entries e.slot).bucket
      let b ← s.table.deref p
      some (if alreadyUnused b (holder.entries e.slot).index
        then s.setPc thread .idle else s.setPc thread (.removeMark e p))
  | _ => none

/-- The slot is given back. -/
def stepRemoveMark (thread : Nat) : Option Threads :=
  match s.pc thread with
  | .removeMark e p => do
      let holder ← s.table.deref e.bucket
      let b ← s.table.deref p
      let r := s.table.releaseSlot b (holder.entries e.slot).index
      let t := s.table.setBucket p r.1
      some (if r.2 then { s with table := t }.setPc thread (.removeUnlink p)
        else { s with table := t.finishRemove }.setPc thread .idle)
  | _ => none

def stepRemoveUnlink (thread : Nat) : Option Threads :=
  match s.pc thread with
  | .removeUnlink p => do
      let b ← s.table.deref p
      if s.readers b.parent = 0 then
        (s.table.unlinkBucket p).map fun t =>
          { s with table := t }.setPc thread (.removeFree p)
      else none
  | _ => none

def stepRemoveFree (thread : Nat) : Option Threads :=
  match s.pc thread with
  | .removeFree p =>
      (s.table.freeBucket p).map fun t =>
        { s with table := t.finishRemove }.setPc thread .idle
  | _ => none

end Threads

/-- One step of one thread. -/
inductive TableAct where
  | call (thread : Nat) (call : TableCall)
  | addTest (thread : Nat)
  | addClaim (thread : Nat) (acquired : Bool)
  | addAppend (thread : Nat) (alloc : Option Nat)
  | addInit (thread : Nat)
  | addRef (thread : Nat)
  | visit (thread : Nat)
  | removeCheck (thread : Nat)
  | removeMark (thread : Nat)
  | removeUnlink (thread : Nat)
  | removeFree (thread : Nat)

def threadStep (s : Threads) : TableAct → Option Threads
  | .call thread call => s.stepCall thread call
  | .addTest thread => s.stepAddTest thread
  | .addClaim thread acquired => s.stepAddClaim thread acquired
  | .addAppend thread alloc => s.stepAddAppend thread alloc
  | .addInit thread => s.stepAddInit thread
  | .addRef thread => s.stepAddRef thread
  | .visit thread => s.stepVisit thread
  | .removeCheck thread => s.stepRemoveCheck thread
  | .removeMark thread => s.stepRemoveMark thread
  | .removeUnlink thread => s.stepRemoveUnlink thread
  | .removeFree thread => s.stepRemoveFree thread

/-- All threads idle on a table. -/
def threadsStart (t : FlowTable) : Threads :=
  { table := t
    readers := fun _ => 0
    pc := fun _ => .idle
    owner := fun _ => none
    returned := [] }

end FlowTable

end Ntnetflow

end NtapiExamples
