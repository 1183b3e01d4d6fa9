/-
`flowtable.c`: the hash table of flow entries.  A chain of buckets hangs off
every hash slot; a bucket is either the one embedded in its chain or one that
`calloc` returned.  Each section the source runs under a lock is a definition of
its own, and the sequential operations are composed from these sections.
-/
import NtapiExamples.Ntnetflow.FlowKey
import NtapiExamples.Ntnetflow.FlowInfo
import Mathlib.Logic.Function.Basic

namespace NtapiExamples

namespace Ntnetflow

/-- `struct flow_bucket *`: `&chain->first`, or a block returned by `calloc`. -/
inductive BucketPtr where
  | first (chain : Nat)
  | heap (addr : Nat)
deriving DecidableEq, Repr

/-- `struct flow_entry *`: the element `slot` of the entries of a bucket. -/
structure EntryPtr where
  bucket : BucketPtr
  slot : Nat
deriving DecidableEq, Repr

/-- `struct flow_poll_list`. -/
structure FlowPollList where
  prev : Option EntryPtr
  next : Option EntryPtr
  skip : Int
  nextUpdate : BitVec 64

/-- `struct flow_entry` without its lock. -/
structure FlowEntry where
  bucket : Option BucketPtr
  hash : BitVec 32
  streamId : BitVec 8
  index : Nat
  color : BitVec 16
  rc : Int
  flags : BitVec 32
  keyData : KeyData
  info : FlowInfo
  poll : FlowPollList

/-- `struct flow_bucket` without its lock; `parent` is the chain's index. -/
structure FlowBucket where
  parent : Nat
  prev : Option BucketPtr
  next : Option BucketPtr
  flags : BitVec 64
  unused : BitVec 64
  entries : Nat → FlowEntry

def BUCKET_DYNAMIC : BitVec 64 := bit 64 0
def BUCKET_TO_FREE : BitVec 64 := bit 64 1

/-- The all-zero entry of a block returned by `calloc`. -/
def FlowEntry.zero : FlowEntry :=
  { bucket := none, hash := 0#32, streamId := 0#8, index := 0, color := 0#16
    rc := 0, flags := 0#32, keyData := fun _ => 0#8, info := fiInit
    poll := ⟨none, none, 0, 0#64⟩ }

def FlowBucket.zero : FlowBucket :=
  { parent := 0, prev := none, next := none, flags := 0#64, unused := 0#64
    entries := fun _ => FlowEntry.zero }

/-- The counters of `stats.c`. -/
inductive Stat where
  | learn | unlearn | refresh | probe | flow | queue
deriving DecidableEq, Repr

/-- The table with the memory its pointers lead to.  `heap` lists the blocks
that `calloc` returned and that have not been freed. -/
structure FlowTable where
  tableSize : Nat
  bucketSize : Nat
  mem : BucketPtr → FlowBucket
  heap : List Nat
  last : Nat → Option BucketPtr
  stats : Stat → Int

namespace FlowTable

variable (t : FlowTable)

/-- `hash & table_mask`. -/
def chainIndex (hash : BitVec 32) : Nat := hash.toNat &&& (t.tableSize - 1)

/-- `table_bucket_mask`. -/
def bucketMask : BitVec 64 := (1#64 <<< t.bucketSize) - 1#64

/-- A pointer to a bucket whose memory has not been freed. -/
def valid : BucketPtr → Bool
  | .first chain => decide (chain < t.tableSize)
  | .heap addr => decide (addr ∈ t.heap)

/-- Read through a bucket pointer; `none` for a pointer to freed memory. -/
def deref (p : BucketPtr) : Option FlowBucket :=
  if t.valid p then some (t.mem p) else none

/-- The entry a pointer leads to. -/
def entry (e : EntryPtr) : FlowEntry := (t.mem e.bucket).entries e.slot

def setBucket (p : BucketPtr) (b : FlowBucket) : FlowTable :=
  { t with mem := Function.update t.mem p b }

/-- Write through a bucket pointer; `none` for a pointer to freed memory. -/
def modifyBucket (p : BucketPtr) (f : FlowBucket → FlowBucket) :
    Option FlowTable :=
  (t.deref p).map fun b => t.setBucket p (f b)

def setEntry (e : EntryPtr) (entry : FlowEntry) : FlowTable :=
  t.setBucket e.bucket { t.mem e.bucket with
    entries := Function.update (t.mem e.bucket).entries e.slot entry }

/-- Write through an entry pointer; `none` for a pointer to freed memory. -/
def modifyEntry (e : EntryPtr) (f : FlowEntry → FlowEntry) :
    Option FlowTable :=
  if t.valid e.bucket then some (t.setEntry e (f (t.entry e))) else none

/-- `stats_update`. -/
def statsUpdate (stat : Stat) (value : Int) : FlowTable :=
  { t with stats := Function.update t.stats stat (t.stats stat + value) }

/-- `ft_init_bucket`. -/
def ftInitBucket (bucket : BucketPtr) (parent : Nat) (prev : Option BucketPtr)
    (dynamic : Bool) : Option FlowTable := do
  let t ← match prev with
    | none => some t
    | some p => t.modifyBucket p fun b => { b with next := some bucket }
  t.modifyBucket bucket fun b =>
    { b with
      parent := parent
      prev := prev
      flags := if dynamic then BUCKET_DYNAMIC else 0#64
      unused := BitVec.allOnes 64
      next := none }

/-- `ft_add_bucket`, where `alloc` is the answer of `calloc`.  `calloc` never
returns a block that is in use. -/
def ftAddBucket (alloc : Option Nat) (parent : Nat) (prev : Option BucketPtr)
    (dynamic : Bool) : Option (FlowTable × Option BucketPtr) :=
  match alloc with
  | none => some (t, none)
  | some addr =>
      if addr ∈ t.heap then none
      else do
        let fresh : FlowTable :=
          { t.setBucket (.heap addr) FlowBucket.zero with
            heap := addr :: t.heap }
        let t ← fresh.ftInitBucket (.heap addr) parent prev dynamic
        some (t, some (.heap addr))

/-- The inner loop of `ft_init`, with `count` buckets still to preallocate.
Returns the final values of `prev` and `bucket`. -/
def ftInitChain (calloc : Nat → Option Nat) (chain : Nat) :
    Nat → FlowTable → BucketPtr → BucketPtr →
      Option (FlowTable × BucketPtr × BucketPtr)
  | 0, t, prev, bucket => some (t, prev, bucket)
  | count + 1, t, _, bucket => do
      let (t, added) ← t.ftAddBucket (calloc count) chain (some bucket) false
      let t ← t.modifyBucket bucket fun b => { b with next := added }
      let next ← added
      ftInitChain calloc chain count t bucket next

/-- The outer loop of `ft_init` over the chains below `count`.  A failed
allocation frees the table and leaves nothing behind: `none`. -/
def ftInitTable (calloc : Nat → Nat → Option Nat) (chainSize : Nat) :
    Nat → FlowTable → Option FlowTable
  | 0, t => some t
  | chain + 1, t => do
      let t ← ftInitTable calloc chainSize chain t
      let t ← t.ftInitBucket (.first chain) chain none false
      let (t, prev, _) ← ftInitChain (calloc chain) chain (chainSize - 1) t
        (.first chain) (.first chain)
      some { t with last := Function.update t.last chain (some prev) }

/-- `ft_init`; `calloc chain k` answers the allocation for which `k` more follow
in that chain. -/
def ftInit (calloc : Nat → Nat → Option Nat)
    (power2 chainSize bucketSize : Nat) : Option FlowTable :=
  if bucketSize < 1 ∨ 64 < bucketSize ∨ bucketSize &&& (bucketSize - 1) ≠ 0
  then none
  else
    ftInitTable calloc chainSize (2 ^ power2)
      { tableSize := 2 ^ power2
        bucketSize := bucketSize
        mem := fun _ => FlowBucket.zero
        heap := []
        last := fun _ => none
        stats := fun _ => 0 }

/-- The test `ft_add` makes under the lock of a bucket. -/
def hasUnused (b : FlowBucket) : Bool :=
  !test b.flags BUCKET_TO_FREE && test b.unused t.bucketMask

/-- The loop of `ft_add` over the buckets of a chain: the first bucket with an
unused slot.  The outer `none` is a walk that does not end. -/
def findUnused : Nat → BucketPtr → Option (Option BucketPtr)
  | 0, _ => none
  | fuel + 1, p => do
      let b ← t.deref p
      if t.hasUnused b then some (some p)
      else match b.next with
        | none => some none
        | some next => findUnused fuel next

/-- The number of buckets a walk can visit before it has to repeat one. -/
def walkBound : Nat := t.heap.length + 1

/-- `ft_add` takes the lowest unused slot of a bucket (bucket lock held). -/
def claimSlot (p : BucketPtr) : FlowTable × EntryPtr :=
  let b := t.mem p
  let slot := ctz (b.unused.setWidth 32)
  (t.setBucket p { b with
    unused := b.unused &&& (b.unused - 1#64)
    entries := Function.update b.entries slot
      { b.entries slot with index := slot } }, ⟨p, slot⟩)

/-- `ft_add` appends a bucket and takes its slot 0 (chain lock held).  When
`calloc` fails, `last->next` and `last` are overwritten with NULL before the
failure is noticed. -/
def appendBucket (alloc : Option Nat) (chain : Nat) :
    Option (FlowTable × Option EntryPtr) := do
  let last := t.last chain
  let (t, bucket) ← t.ftAddBucket alloc chain last true
  let tail ← last
  let t ← t.modifyBucket tail fun b => { b with next := bucket }
  let t := { t with last := Function.update t.last chain bucket }
  match bucket with
  | none => some (t, none)
  | some p =>
      let b := t.mem p
      some (t.setBucket p { b with
        unused := ~~~1#64
        entries := Function.update b.entries 0
          { b.entries 0 with index := 0 } }, some ⟨p, 0⟩)

/-- `ft_add` writes the identifying fields of an entry (entry lock held). -/
def initEntry (e : EntryPtr) (hash : BitVec 32) (keyData : KeyData)
    (color : BitVec 16) : Option FlowTable :=
  t.modifyEntry e fun entry =>
    { entry with
      bucket := some e.bucket
      hash := hash
      flags := 0#32
      color := color
      info := fiInit
      keyData := memcpy entry.keyData 0
        (fun i => if h : i < FLOW_MAX_KEY_LEN then keyData ⟨i, h⟩ else 0#8) 0
        (keyLen color) }

/-- `ft_ref`. -/
def ftRef (e : EntryPtr) (count : Nat) : Option FlowTable :=
  t.modifyEntry e fun entry => { entry with rc := entry.rc + count }

/-- The tail of `ft_add` after the entry lock is released. -/
def finishAdd (e : EntryPtr) : Option FlowTable :=
  ((t.statsUpdate .learn 1).statsUpdate .flow 1).ftRef e 1

/-- `ft_add`, run without interference.  Returns NULL only when `calloc` does;
the outer `none` is a walk that does not end or an access to freed memory. -/
def ftAdd (alloc : Option Nat) (hash : BitVec 32) (keyData : KeyData)
    (color : BitVec 16) : Option (FlowTable × Option EntryPtr) := do
  let chain := t.chainIndex hash
  let found ← t.findUnused t.walkBound (.first chain)
  let (t, claimed) ← match found with
    | some p =>
        let (t, e) := t.claimSlot p
        some (t, some e)
    | none => t.appendBucket alloc chain
  match claimed with
  | none => some (t, none)
  | some e =>
      let t ← t.initEntry e hash keyData color
      let t ← t.finishAdd e
      some (t, some e)

/-- `1 << entry->index`: a 32-bit `int` shift, converted to the mask's type. -/
def slotMask (index : Nat) : BitVec 64 := (1#32 <<< index).signExtend 64

/-- `ft_remove` looks whether the slot is already unused (bucket read lock). -/
def alreadyUnused (b : FlowBucket) (index : Nat) : Bool :=
  test b.unused (slotMask index)

/-- `ft_remove` gives the slot back (bucket write lock): the new bucket and
`to_free`. -/
def releaseSlot (b : FlowBucket) (index : Nat) : FlowBucket × Bool :=
  let unused := b.unused ||| slotMask index
  let toFree := test b.flags BUCKET_DYNAMIC && !test (~~~unused) t.bucketMask
  ({ b with
    unused := unused
    flags := if toFree then b.flags ||| BUCKET_TO_FREE else b.flags }, toFree)

/-- `ft_remove` takes a bucket out of its chain (chain lock held). -/
def unlinkBucket (p : BucketPtr) : Option FlowTable := do
  let b ← t.deref p
  let t := if t.last b.parent = some p
    then { t with last := Function.update t.last b.parent b.prev } else t
  let t ← match b.prev with
    | none => some t
    | some prev => t.modifyBucket prev fun q => { q with next := b.next }
  match b.next with
    | none => some t
    | some next => t.modifyBucket next fun q => { q with prev := b.prev }

/-- `free(bucket)`. -/
def freeBucket : BucketPtr → Option FlowTable
  | .first _ => none
  | .heap addr =>
      if addr ∈ t.heap then some { t with heap := t.heap.erase addr } else none

/-- The counters `ft_remove` updates last. -/
def finishRemove : FlowTable :=
  (t.statsUpdate .unlearn 1).statsUpdate .flow (-1)

/-- `ft_remove`, run without interference. -/
def ftRemove (e : EntryPtr) : Option FlowTable := do
  let holder ← t.deref e.bucket
  let p ← (holder.entries e.slot).bucket
  let index := (holder.entries e.slot).index
  let b ← t.deref p
  if alreadyUnused b index then some t
  else
    let (b, toFree) := t.releaseSlot b index
    let t := t.setBucket p b
    let t ← if toFree then do
        let t ← t.unlinkBucket p
        t.freeBucket p
      else some t
    some t.finishRemove

/-- `ft_deref`.  The signed old count is compared with the unsigned `count`, so
a negative one never removes the entry. -/
def ftDeref (e : EntryPtr) (count : Nat) : Option FlowTable := do
  let preCount := (t.entry e).rc
  let t ← t.modifyEntry e fun entry => { entry with rc := entry.rc - count }
  if 0 ≤ preCount ∧ preCount ≤ count then t.ftRemove e else some t

/-- `ft_compare(…) == 0`. -/
def ftCompare (entry : FlowEntry) (hash : BitVec 32) (keyData : KeyData)
    (color : BitVec 16) : Bool :=
  entry.hash == hash &&
    (entry.color &&& FLOW_COLOR_TYPE_MASK) ==
      (color &&& FLOW_COLOR_TYPE_MASK) &&
    keyEq (keyLen color) entry.keyData keyData

/-- The inner loop of `ft_visit`: the first used slot the visitor accepts. -/
def visitUsed (visitor : FlowEntry → Bool) (entries : Nat → FlowEntry) :
    Nat → BitVec 64 → Option Nat
  | 0, _ => none
  | fuel + 1, used =>
      if used = 0#64 then none
      else
        let index := ctz (used.setWidth 32)
        if visitor (entries index) then some index
        else visitUsed visitor entries fuel (used &&& (used - 1#64))

/-- One bucket of `ft_visit` (bucket read lock).  Every turn of the inner loop
clears one of the 64 bits of `used`. -/
def visitBucket (visitor : FlowEntry → Bool) (b : FlowBucket) : Option Nat :=
  visitUsed visitor b.entries 64 (~~~b.unused &&& t.bucketMask)

/-- `ft_visit`.  The outer `none` is a walk that does not end. -/
def ftVisit (visitor : FlowEntry → Bool) :
    Nat → BucketPtr → Option (Option EntryPtr)
  | 0, _ => none
  | fuel + 1, p => do
      let b ← t.deref p
      match t.visitBucket visitor b with
      | some slot => some (some ⟨p, slot⟩)
      | none =>
          match b.next with
          | none => some none
          | some next => ftVisit visitor fuel next

/-- `ft_lookup`. -/
def ftLookup (hash : BitVec 32) (keyData : KeyData) (color : BitVec 16) :
    Option (Option EntryPtr) :=
  t.ftVisit (fun entry => ftCompare entry hash keyData color) t.walkBound
    (.first (t.chainIndex hash))

end FlowTable

end Ntnetflow

end NtapiExamples
