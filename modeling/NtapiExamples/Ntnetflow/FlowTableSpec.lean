/-
What the operations of the flow table do to the memory.  Each operation gets one
lemma that lists its outcomes with the whole new state; later modules cite
these lemmas and never unfold an operation.
-/
import NtapiExamples.Ntnetflow.FlowTable

namespace NtapiExamples

namespace Ntnetflow

namespace FlowTable

variable {t t' : FlowTable}

theorem deref_eq_some_iff {p : BucketPtr} {b : FlowBucket} :
    t.deref p = some b ↔ t.valid p = true ∧ b = t.mem p := by
  by_cases hvalid : t.valid p = true <;> simp [deref, hvalid, eq_comm]

theorem modifyBucket_eq_some_iff {p : BucketPtr} {f : FlowBucket → FlowBucket} :
    t.modifyBucket p f = some t' ↔
      t.valid p = true ∧ t' = t.setBucket p (f (t.mem p)) := by
  by_cases hvalid : t.valid p = true <;>
    simp [modifyBucket, deref, hvalid, eq_comm]

theorem modifyEntry_eq_some_iff {e : EntryPtr} {f : FlowEntry → FlowEntry} :
    t.modifyEntry e f = some t' ↔
      t.valid e.bucket = true ∧ t' = t.setEntry e (f (t.entry e)) := by
  by_cases hvalid : t.valid e.bucket = true <;>
    simp [modifyEntry, hvalid, eq_comm]

@[simp] theorem setBucket_mem (p : BucketPtr) (b : FlowBucket) :
    (t.setBucket p b).mem = Function.update t.mem p b := rfl

@[simp] theorem setBucket_valid (p q : BucketPtr) (b : FlowBucket) :
    (t.setBucket p b).valid q = t.valid q := by
  cases q <;> rfl

@[simp] theorem setEntry_valid (e : EntryPtr) (entry : FlowEntry)
    (q : BucketPtr) : (t.setEntry e entry).valid q = t.valid q := by
  cases q <;> rfl

@[simp] theorem statsUpdate_valid (stat : Stat) (value : Int)
    (q : BucketPtr) : (t.statsUpdate stat value).valid q = t.valid q := by
  cases q <;> rfl

/-- The entry `ft_add` leaves in the slot `e` that held `old`. -/
def addedEntry (e : EntryPtr) (hash : BitVec 32) (keyData : KeyData)
    (color : BitVec 16) (old : FlowEntry) : FlowEntry :=
  { old with
    bucket := some e.bucket
    index := e.slot
    hash := hash
    flags := 0#32
    color := color
    info := fiInit
    keyData := memcpy old.keyData 0
      (fun i => if h : i < FLOW_MAX_KEY_LEN then keyData ⟨i, h⟩ else 0#8) 0
      (keyLen color)
    rc := old.rc + 1 }

/-- The bucket `ft_add` appends, with its slot 0 taken. -/
def appendedBucket (chain : Nat) (tail : BucketPtr) : FlowBucket :=
  { FlowBucket.zero with
    parent := chain
    prev := some tail
    flags := BUCKET_DYNAMIC
    unused := ~~~1#64 }

/-- `stats` after a successful `ft_add`. -/
def addedStats (stats : Stat → Int) : Stat → Int :=
  Function.update (Function.update stats .learn (stats .learn + 1)) .flow
    (stats .flow + 1)

/-- `ft_add` took a slot of the bucket `p`. -/
structure Claimed (t t' : FlowTable) (p : BucketPtr) (e : EntryPtr)
    (hash : BitVec 32) (keyData : KeyData) (color : BitVec 16) : Prop where
  found : t.findUnused t.walkBound (.first (t.chainIndex hash)) = some (some p)
  valid : t.valid p = true
  ptr : e = ⟨p, ctz ((t.mem p).unused.setWidth 32)⟩
  eq : t' = { t with
    mem := Function.update t.mem p { t.mem p with
      unused := (t.mem p).unused &&& ((t.mem p).unused - 1#64)
      entries := Function.update (t.mem p).entries e.slot
        (addedEntry e hash keyData color ((t.mem p).entries e.slot)) }
    stats := addedStats t.stats }

/-- `ft_add` appended the bucket at `addr` behind `tail`. -/
structure Appended (t t' : FlowTable) (addr : Nat) (tail : BucketPtr)
    (e : EntryPtr) (hash : BitVec 32) (keyData : KeyData)
    (color : BitVec 16) : Prop where
  full : t.findUnused t.walkBound (.first (t.chainIndex hash)) = some none
  last : t.last (t.chainIndex hash) = some tail
  valid : t.valid tail = true
  fresh : addr ∉ t.heap
  ptr : e = ⟨.heap addr, 0⟩
  eq : t' = { t with
    mem := Function.update
      (Function.update t.mem (.heap addr)
        { appendedBucket (t.chainIndex hash) tail with
          entries := Function.update (fun _ => FlowEntry.zero) 0
            (addedEntry e hash keyData color FlowEntry.zero) })
      tail { t.mem tail with next := some (.heap addr) }
    heap := addr :: t.heap
    last := Function.update t.last (t.chainIndex hash) (some (.heap addr))
    stats := addedStats t.stats }

/-- The entry section and the tail of `ft_add`, as one update. -/
theorem initEntry_finishAdd {e : EntryPtr} {hash : BitVec 32}
    {keyData : KeyData} {color : BitVec 16} {t₁ : FlowTable}
    (hinit : t.initEntry e hash keyData color = some t₁)
    (hfinish : t₁.finishAdd e = some t') (hindex : (t.entry e).index = e.slot) :
    t.valid e.bucket = true ∧
      t' = { t with
        mem := Function.update t.mem e.bucket { t.mem e.bucket with
          entries := Function.update (t.mem e.bucket).entries e.slot
            (addedEntry e hash keyData color (t.entry e)) }
        stats := addedStats t.stats } := by
  rw [initEntry, modifyEntry_eq_some_iff] at hinit
  obtain ⟨hvalid, rfl⟩ := hinit
  rw [finishAdd, ftRef, modifyEntry_eq_some_iff] at hfinish
  obtain ⟨-, rfl⟩ := hfinish
  refine ⟨hvalid, ?_⟩
  simp only [setEntry, setBucket, statsUpdate, entry, Function.update_self,
    Function.update_idem, addedEntry, addedStats] at hindex ⊢
  rw [hindex]
  rfl

theorem findUnused_valid {fuel : Nat} {start p : BucketPtr}
    (hfind : t.findUnused fuel start = some (some p)) :
    t.valid p = true ∧ t.hasUnused (t.mem p) = true := by
  induction fuel generalizing start with
  | zero => simp [findUnused] at hfind
  | succ fuel ih =>
      simp only [findUnused, Option.bind_eq_bind,
        Option.bind_eq_some_iff, deref_eq_some_iff] at hfind
      obtain ⟨b, ⟨hvalid, rfl⟩, hfind⟩ := hfind
      by_cases hunused : t.hasUnused (t.mem start) = true
      · simp only [hunused, if_true, Option.some.injEq] at hfind
        subst hfind
        exact ⟨hvalid, hunused⟩
      · simp only [hunused] at hfind
        cases hnext : (t.mem start).next with
        | none => simp [hnext] at hfind
        | some next =>
            simp only [hnext] at hfind
            exact ih hfind

/-- `ft_add_bucket` behind an existing bucket. -/
theorem ftAddBucket_eq_some {alloc : Option Nat} {chain : Nat}
    {tail : BucketPtr} {dynamic : Bool} {r : FlowTable × Option BucketPtr}
    (hadd : t.ftAddBucket alloc chain (some tail) dynamic = some r)
    (htail : t.valid tail = true) :
    (alloc = none ∧ r = (t, none)) ∨
    ∃ addr, alloc = some addr ∧ addr ∉ t.heap ∧
      r = ({ t with
        mem := Function.update
          (Function.update t.mem (.heap addr)
            { FlowBucket.zero with
              parent := chain
              prev := some tail
              flags := if dynamic then BUCKET_DYNAMIC else 0#64
              unused := BitVec.allOnes 64 })
          tail { t.mem tail with next := some (.heap addr) }
        heap := addr :: t.heap }, some (.heap addr)) := by
  cases alloc with
  | none =>
      simp only [ftAddBucket, Option.some.injEq] at hadd
      exact Or.inl ⟨rfl, hadd.symm⟩
  | some addr =>
      right
      refine ⟨addr, rfl, ?_⟩
      by_cases hmem : addr ∈ t.heap
      · simp [ftAddBucket, hmem] at hadd
      · have hne : tail ≠ .heap addr := by
          rintro rfl
          simp [valid, hmem] at htail
        refine ⟨hmem, ?_⟩
        simp only [ftAddBucket, hmem, if_false, ftInitBucket,
          Option.bind_eq_bind, Option.bind_eq_some_iff,
          modifyBucket_eq_some_iff, Option.some.injEq] at hadd
        obtain ⟨t₂, ⟨t₁, ⟨-, rfl⟩, -, rfl⟩, rfl⟩ := hadd
        simp only [setBucket, Function.update_self, ne_eq, hne,
          not_false_eq_true, Function.update_of_ne, Ne.symm hne,
          Prod.mk.injEq, and_true]
        rw [Function.update_comm hne, Function.update_idem]
        rfl

/-- The two ways `ft_add` returns an entry. -/
theorem ftAdd_cases {alloc : Option Nat} {hash : BitVec 32}
    {keyData : KeyData} {color : BitVec 16} {e : EntryPtr}
    (hadd : t.ftAdd alloc hash keyData color = some (t', some e))
    (hvalid : ∀ tail, t.last (t.chainIndex hash) = some tail →
      t.valid tail = true) :
    (∃ p, Claimed t t' p e hash keyData color) ∨
      ∃ addr tail, alloc = some addr ∧
        Appended t t' addr tail e hash keyData color := by
  simp only [ftAdd, Option.bind_eq_bind, Option.bind_eq_some_iff] at hadd
  obtain ⟨found, hfound, hadd⟩ := hadd
  cases found with
  | some p =>
      left
      obtain ⟨hvalid, -⟩ := findUnused_valid hfound
      simp only [Option.bind_some, Option.bind_eq_some_iff, Option.some.injEq,
        Prod.mk.injEq] at hadd
      obtain ⟨t₁, hinit, t₂, hfinish, rfl, rfl⟩ := hadd
      obtain ⟨-, heq⟩ := initEntry_finishAdd hinit hfinish
        (by simp [claimSlot, entry])
      refine ⟨p, hfound, hvalid, rfl, ?_⟩
      rw [heq]
      simp [claimSlot, setBucket, entry, addedEntry]
  | none =>
      right
      simp only [Option.bind_eq_some_iff] at hadd
      obtain ⟨⟨t₁, claimed⟩, happend, hadd⟩ := hadd
      simp only [appendBucket, Option.bind_eq_bind,
        Option.bind_eq_some_iff, modifyBucket_eq_some_iff] at happend
      obtain ⟨⟨t₂, bucket⟩, hbucket, tail, hlast, happend⟩ := happend
      obtain ⟨t₃, ⟨-, rfl⟩, happend⟩ := happend
      cases bucket with
      | none =>
          simp only [Option.some.injEq, Prod.mk.injEq] at happend
          obtain ⟨-, rfl⟩ := happend
          simp at hadd
      | some p =>
          simp only [Option.some.injEq, Prod.mk.injEq] at happend
          obtain ⟨rfl, rfl⟩ := happend
          simp only [Option.bind_eq_some_iff, Option.some.injEq,
            Prod.mk.injEq] at hadd
          obtain ⟨t₄, hinit, t₅, hfinish, rfl, rfl⟩ := hadd
          have htail := hvalid tail hlast
          rw [hlast] at hbucket
          rcases ftAddBucket_eq_some hbucket htail with
            ⟨-, hnone⟩ | ⟨addr, halloc, hfresh, heq⟩
          · simp at hnone
          · simp only [Prod.mk.injEq, Option.some.injEq] at heq
            obtain ⟨rfl, rfl⟩ := heq
            have hne : tail ≠ .heap addr := by
              rintro rfl
              simp [valid, hfresh] at htail
            obtain ⟨-, heq⟩ := initEntry_finishAdd hinit hfinish
              (by simp [entry])
            refine ⟨addr, tail, halloc, hfound, hlast, htail, hfresh, rfl, ?_⟩
            rw [heq]
            simp only [setBucket, entry, Function.update_self, ne_eq,
              Ne.symm hne, not_false_eq_true, Function.update_of_ne,
              Function.update_idem]
            rw [Function.update_comm hne, Function.update_idem]
            simp [appendedBucket, FlowBucket.zero, addedEntry,
              FlowEntry.zero]

/-- `stats` after `ft_remove` gave a slot back. -/
def removedStats (stats : Stat → Int) : Stat → Int :=
  Function.update (Function.update stats .unlearn (stats .unlearn + 1)) .flow
    (stats .flow - 1)

/-- The memory after the section of `ft_remove` that unlinks the bucket `b`. -/
def unlinkedMem (mem : BucketPtr → FlowBucket) (b : FlowBucket)
    (q : BucketPtr) : FlowBucket :=
  { mem q with
    next := if b.prev = some q then b.next else (mem q).next
    prev := if b.next = some q then b.prev else (mem q).prev }

/-- The bucket an entry records as its own. -/
structure Removing (t : FlowTable) (e : EntryPtr) (p : BucketPtr) : Prop where
  holder : t.valid e.bucket = true
  bucket : (t.entry e).bucket = some p
  valid : t.valid p = true

/-- `ft_remove` freed the bucket at `addr`. -/
structure Freed (t t' : FlowTable) (e : EntryPtr) (addr : Nat) : Prop where
  removing : Removing t e (.heap addr)
  used : alreadyUnused (t.mem (.heap addr)) (t.entry e).index = false
  toFree : (t.releaseSlot (t.mem (.heap addr)) (t.entry e).index).2 = true
  neighbours : ∀ q, (t.mem (.heap addr)).prev = some q ∨
    (t.mem (.heap addr)).next = some q → t.valid q = true
  eq : t' = { t with
    mem := unlinkedMem (Function.update t.mem (.heap addr)
      (t.releaseSlot (t.mem (.heap addr)) (t.entry e).index).1)
      (t.mem (.heap addr))
    heap := t.heap.erase addr
    last := if t.last (t.mem (.heap addr)).parent = some (.heap addr)
      then Function.update t.last (t.mem (.heap addr)).parent
        (t.mem (.heap addr)).prev
      else t.last
    stats := removedStats t.stats }

/-- `ft_remove` gave a slot of the bucket `p` back and kept the bucket. -/
structure Released (t t' : FlowTable) (e : EntryPtr) (p : BucketPtr) :
    Prop where
  removing : Removing t e p
  used : alreadyUnused (t.mem p) (t.entry e).index = false
  toFree : (t.releaseSlot (t.mem p) (t.entry e).index).2 = false
  eq : t' = { t with
    mem := Function.update t.mem p
      (t.releaseSlot (t.mem p) (t.entry e).index).1
    stats := removedStats t.stats }

@[simp] theorem releaseSlot_prev (b : FlowBucket) (index : Nat) :
    (t.releaseSlot b index).1.prev = b.prev := rfl

@[simp] theorem releaseSlot_next (b : FlowBucket) (index : Nat) :
    (t.releaseSlot b index).1.next = b.next := rfl

@[simp] theorem releaseSlot_parent (b : FlowBucket) (index : Nat) :
    (t.releaseSlot b index).1.parent = b.parent := rfl

@[simp] theorem releaseSlot_entries (b : FlowBucket) (index : Nat) :
    (t.releaseSlot b index).1.entries = b.entries := rfl

/-- The section of `ft_remove` that unlinks a bucket, as one update. -/
theorem unlinkBucket_eq_some {p : BucketPtr}
    (hunlink : t.unlinkBucket p = some t') :
    t.valid p = true ∧
      (∀ q, (t.mem p).prev = some q ∨ (t.mem p).next = some q →
        t.valid q = true) ∧
      t' = { t with
        mem := unlinkedMem t.mem (t.mem p)
        last := if t.last (t.mem p).parent = some p
          then Function.update t.last (t.mem p).parent (t.mem p).prev
          else t.last } := by
  simp only [unlinkBucket, Option.bind_eq_bind, Option.bind_eq_some_iff,
    deref_eq_some_iff] at hunlink
  obtain ⟨b, ⟨hvalid, rfl⟩, hunlink⟩ := hunlink
  refine ⟨hvalid, ?_⟩
  let last := if t.last (t.mem p).parent = some p
    then Function.update t.last (t.mem p).parent (t.mem p).prev else t.last
  have hlast : (if t.last (t.mem p).parent = some p then
      { t with last :=
          Function.update t.last (t.mem p).parent (t.mem p).prev }
      else t) = { t with last := last } := by
    simp only [last]
    split <;> rfl
  rw [hlast] at hunlink
  have hvalidLast : ∀ q, valid { t with last := last } q = t.valid q := by
    intro q
    cases q <;> rfl
  change _ ∧ t' = { t with mem := _, last := last }
  cases hprev : (t.mem p).prev with
  | none =>
      cases hnext : (t.mem p).next with
      | none =>
          simp only [hprev, hnext, Option.bind_some,
            Option.some.injEq] at hunlink
          refine ⟨by simp, ?_⟩
          rw [← hunlink]
          simp only [FlowTable.mk.injEq, true_and, and_true]
          funext q
          simp [unlinkedMem, hprev, hnext]
      | some next =>
          simp only [hprev, hnext, Option.bind_some,
            modifyBucket_eq_some_iff, hvalidLast] at hunlink
          obtain ⟨hvnext, rfl⟩ := hunlink
          refine ⟨by simpa using hvnext, ?_⟩
          simp only [setBucket, FlowTable.mk.injEq, true_and, and_true]
          funext q
          by_cases hq : next = q
          · subst hq
            simp [unlinkedMem, hprev, hnext]
          · simp [unlinkedMem, hprev, hnext, hq, Ne.symm hq]
  | some prev =>
      cases hnext : (t.mem p).next with
      | none =>
          simp only [hprev, hnext, modifyBucket_eq_some_iff,
            Option.bind_eq_some_iff, hvalidLast, Option.some.injEq] at hunlink
          obtain ⟨t₁, ⟨hvprev, rfl⟩, rfl⟩ := hunlink
          refine ⟨by simpa using hvprev, ?_⟩
          simp only [setBucket, FlowTable.mk.injEq, true_and, and_true]
          funext q
          by_cases hq : prev = q
          · subst hq
            simp [unlinkedMem, hprev, hnext]
          · simp [unlinkedMem, hprev, hnext, hq, Ne.symm hq]
      | some next =>
          simp only [hprev, hnext, modifyBucket_eq_some_iff,
            Option.bind_eq_some_iff, hvalidLast] at hunlink
          obtain ⟨t₁, ⟨hvprev, rfl⟩, hvnext, rfl⟩ := hunlink
          rw [setBucket_valid, hvalidLast] at hvnext
          refine ⟨?_, ?_⟩
          · intro q hq
            simp only [Option.some.injEq] at hq
            rcases hq with rfl | rfl
            · exact hvprev
            · exact hvnext
          simp only [setBucket, FlowTable.mk.injEq, true_and, and_true]
          funext q
          by_cases hqp : prev = q
          · subst hqp
            by_cases hqn : next = prev
            · subst hqn
              simp [unlinkedMem, hprev, hnext]
            · simp [unlinkedMem, hprev, hnext, hqn, Ne.symm hqn]
          · by_cases hqn : next = q
            · subst hqn
              simp [unlinkedMem, hprev, hnext, hqp, Ne.symm hqp]
            · simp [unlinkedMem, hprev, hnext, hqp, hqn, Ne.symm hqp,
                Ne.symm hqn]

/-- The outcomes of `ft_remove`. -/
theorem ftRemove_cases {e : EntryPtr} (hremove : t.ftRemove e = some t') :
    (∃ p, Removing t e p ∧
      alreadyUnused (t.mem p) (t.entry e).index = true ∧ t' = t) ∨
    (∃ p, Released t t' e p) ∨ ∃ addr, Freed t t' e addr := by
  simp only [ftRemove, Option.bind_eq_bind, Option.bind_eq_some_iff,
    deref_eq_some_iff] at hremove
  obtain ⟨holder, ⟨hholder, rfl⟩, p, hbucket, b, ⟨hp, rfl⟩, hremove⟩ :=
    hremove
  rw [show (t.mem e.bucket).entries e.slot = t.entry e from rfl]
    at hbucket hremove
  have hremoving : Removing t e p := ⟨hholder, hbucket, hp⟩
  by_cases hunused : alreadyUnused (t.mem p) (t.entry e).index = true
  · simp only [hunused, if_true, Option.some.injEq] at hremove
    exact Or.inl ⟨p, hremoving, hunused, hremove.symm⟩
  · right
    rw [Bool.not_eq_true] at hunused
    simp only [hunused, Bool.false_eq_true, if_false] at hremove
    by_cases hfree : (t.releaseSlot (t.mem p) (t.entry e).index).2 = true
    · right
      simp only [hfree, if_true, Option.bind_eq_some_iff] at hremove
      obtain ⟨t₁, hunlink, t₂, hfreed, hremove⟩ := hremove
      obtain ⟨-, hneighbours, rfl⟩ := unlinkBucket_eq_some hunlink
      cases p with
      | first chain => simp [freeBucket] at hfreed
      | heap addr =>
          refine ⟨addr, hremoving, hunused, hfree, ?_, ?_⟩
          · simpa using hneighbours
          · simp only [freeBucket, setBucket, Function.update_self,
              releaseSlot_parent, releaseSlot_prev] at hfreed
            split at hfreed
            · simp only [Option.some.injEq] at hfreed hremove
              subst hfreed hremove
              simp only [finishRemove, statsUpdate, FlowTable.mk.injEq,
                true_and]
              exact ⟨rfl, rfl⟩
            · simp at hfreed
    · left
      rw [Bool.not_eq_true] at hfree
      simp only [hfree, Bool.false_eq_true, if_false, Option.bind_some,
        Option.some.injEq] at hremove
      exact ⟨p, hremoving, hunused, hfree, hremove.symm⟩

end FlowTable

end Ntnetflow

end NtapiExamples
