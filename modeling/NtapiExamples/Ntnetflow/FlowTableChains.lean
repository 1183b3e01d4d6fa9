/-
The bucket lists of the flow table.  `ChainList t c front tail rest` reads the
chain `c` from its first bucket: `tail` is the bucket `chain->last` points to
and `rest` are the buckets behind it, which only a table set up with more than
one initial bucket per chain can have.
-/
import NtapiExamples.Ntnetflow.FlowTableSlots
import NtapiExamples.Lib.LinkedSeg
import Mathlib.Data.List.Perm.Subperm

namespace NtapiExamples

namespace Ntnetflow

namespace FlowTable

variable {t t' : FlowTable}

def nextOf (t : FlowTable) (p : BucketPtr) : Option BucketPtr := (t.mem p).next

def prevOf (t : FlowTable) (p : BucketPtr) : Option BucketPtr := (t.mem p).prev

def parentOf (t : FlowTable) (p : BucketPtr) : Nat := (t.mem p).parent

/-- A bucket that `ft_add` appended and `ft_remove` may free. -/
def Dynamic (t : FlowTable) (p : BucketPtr) : Prop :=
  (t.mem p).flags.getLsbD 0 = true

/-- The buckets of the chain `c` in list order, split at `chain->last`. -/
structure ChainList (t : FlowTable) (c : Nat) (front : List BucketPtr)
    (tail : BucketPtr) (rest : List BucketPtr) : Prop where
  head : (front ++ tail :: rest).head? = some (.first c)
  nodup : (front ++ tail :: rest).Nodup
  seg : Seg t.nextOf t.prevOf none none (front ++ tail :: rest)
  valid : ∀ p ∈ front ++ tail :: rest, t.valid p = true
  parent : ∀ p ∈ front ++ tail :: rest, t.parentOf p = c
  last : t.last c = some tail
  static : ∀ p ∈ rest, ¬ t.Dynamic p
  dynamic : ∀ p, t.valid p = true → t.parentOf p = c → t.Dynamic p →
    p ∈ front ++ [tail]

/-- What every operation keeps, whatever the initial chain size. -/
structure TableInv (t : FlowTable) : Prop extends SizeOk t where
  chains : ∀ c, c < t.tableSize → ∃ front tail rest,
    ChainList t c front tail rest
  parent_lt : ∀ p, t.valid p = true → t.parentOf p < t.tableSize
  firstParent : ∀ c, c < t.tableSize → t.parentOf (.first c) = c
  firstStatic : ∀ c, c < t.tableSize → ¬ t.Dynamic (.first c)
  notToFree : ∀ p, t.valid p = true → (t.mem p).flags.getLsbD 1 = false
  heapNodup : t.heap.Nodup

/-- Every allocated bucket of the chain is on its list, and `chain->last` is
the final one. -/
def Whole (t : FlowTable) : Prop :=
  ∀ c, c < t.tableSize → ∃ front tail, ChainList t c front tail [] ∧
    ∀ p, t.valid p = true → t.parentOf p = c → p ∈ front ++ [tail]

theorem chainIndex_lt (hsize : 0 < t.tableSize) (hash : BitVec 32) :
    t.chainIndex hash < t.tableSize := by
  have hle : t.chainIndex hash ≤ t.tableSize - 1 := Nat.and_le_right
  omega

/-- The first of the listed buckets can be read, and leads to the next one. -/
theorem deref_listed {p : BucketPtr} {l : List BucketPtr}
    {before : Option BucketPtr}
    (hseg : Seg t.nextOf t.prevOf before none (p :: l))
    (hvalid : ∀ q ∈ p :: l, t.valid q = true) :
    t.deref p = some (t.mem p) ∧ (t.mem p).next = l.head? := by
  refine ⟨deref_eq_some_iff.mpr ⟨hvalid p List.mem_cons_self, rfl⟩, ?_⟩
  have hnext : (t.mem p).next = l.head?.or none := hseg.2.1
  rw [hnext, Option.or_none]

/-- A walk along the listed buckets finds the first one with an unused slot. -/
theorem findUnused_eq {fuel : Nat} {p : BucketPtr} {l : List BucketPtr}
    {before : Option BucketPtr}
    (hseg : Seg t.nextOf t.prevOf before none (p :: l))
    (hvalid : ∀ q ∈ p :: l, t.valid q = true)
    (hfuel : (p :: l).length ≤ fuel) :
    t.findUnused fuel p =
      some ((p :: l).find? fun q => t.hasUnused (t.mem q)) := by
  induction l generalizing p fuel before with
  | nil =>
      obtain ⟨fuel, rfl⟩ : ∃ n, fuel = n + 1 :=
        ⟨fuel - 1, by simp at hfuel; omega⟩
      obtain ⟨hp, hnext⟩ := deref_listed hseg hvalid
      rw [List.head?_nil] at hnext
      simp only [findUnused, hp, Option.bind_eq_bind, Option.bind_some, hnext]
      by_cases hunused : t.hasUnused (t.mem p) = true <;> simp [hunused]
  | cons q l ih =>
      obtain ⟨fuel, rfl⟩ : ∃ n, fuel = n + 1 :=
        ⟨fuel - 1, by simp at hfuel; omega⟩
      obtain ⟨hp, hnext⟩ := deref_listed hseg hvalid
      rw [List.head?_cons] at hnext
      have hle : (q :: l).length ≤ fuel := by simpa using hfuel
      have hrest := ih hseg.2.2
        (fun r hr => hvalid r (List.mem_cons_of_mem p hr)) hle
      simp only [findUnused, hp, Option.bind_eq_bind, Option.bind_some, hnext]
      by_cases hunused : t.hasUnused (t.mem p) = true
      · simp [hunused]
      · rw [hrest]
        simp [hunused]

/-- A walk of `ft_visit` along the listed buckets. -/
theorem ftVisit_eq (visitor : FlowEntry → Bool) {fuel : Nat} {p : BucketPtr}
    {l : List BucketPtr} {before : Option BucketPtr}
    (hseg : Seg t.nextOf t.prevOf before none (p :: l))
    (hvalid : ∀ q ∈ p :: l, t.valid q = true)
    (hfuel : (p :: l).length ≤ fuel) :
    t.ftVisit visitor fuel p = some ((p :: l).findSome? fun q =>
      (t.visitBucket visitor (t.mem q)).map (EntryPtr.mk q)) := by
  induction l generalizing p fuel before with
  | nil =>
      obtain ⟨fuel, rfl⟩ : ∃ n, fuel = n + 1 :=
        ⟨fuel - 1, by simp at hfuel; omega⟩
      obtain ⟨hp, hnext⟩ := deref_listed hseg hvalid
      rw [List.head?_nil] at hnext
      simp only [ftVisit, hp, Option.bind_eq_bind, Option.bind_some, hnext]
      cases hvisit : t.visitBucket visitor (t.mem p) <;> simp [hvisit]
  | cons q l ih =>
      obtain ⟨fuel, rfl⟩ : ∃ n, fuel = n + 1 :=
        ⟨fuel - 1, by simp at hfuel; omega⟩
      obtain ⟨hp, hnext⟩ := deref_listed hseg hvalid
      rw [List.head?_cons] at hnext
      have hle : (q :: l).length ≤ fuel := by simpa using hfuel
      have hrest := ih hseg.2.2
        (fun r hr => hvalid r (List.mem_cons_of_mem p hr)) hle
      simp only [ftVisit, hp, Option.bind_eq_bind, Option.bind_some, hnext]
      cases hvisit : t.visitBucket visitor (t.mem p) with
      | some slot => simp [hvisit]
      | none =>
          simp only
          rw [hrest]
          simp [hvisit]

namespace ChainList

variable {c : Nat} {front rest : List BucketPtr} {tail : BucketPtr}

/-- The list of a chain fits into the bound of the walks. -/
theorem length_le (hlist : ChainList t c front tail rest)
    (hinv : TableInv t) :
    (front ++ tail :: rest).length ≤ t.walkBound := by
  have hsub : front ++ tail :: rest ⊆
      BucketPtr.first c :: t.heap.map BucketPtr.heap := by
    intro p hp
    cases p with
    | first d =>
        have hd := hlist.valid _ hp
        simp only [FlowTable.valid, decide_eq_true_iff] at hd
        have hparent := hlist.parent _ hp
        rw [hinv.firstParent d hd] at hparent
        simp [hparent]
    | heap addr =>
        have haddr := hlist.valid _ hp
        simp only [FlowTable.valid, decide_eq_true_iff] at haddr
        simp [haddr]
  have hle := (List.subperm_of_subset hlist.nodup hsub).length_le
  simpa [walkBound] using hle

theorem split_head (hlist : ChainList t c front tail rest) :
    ∃ l, front ++ tail :: rest = .first c :: l := by
  cases hwhole : front ++ tail :: rest with
  | nil => simp at hwhole
  | cons p l =>
      have hhead := hlist.head
      rw [hwhole, List.head?_cons, Option.some.injEq] at hhead
      exact ⟨l, by rw [hhead]⟩

theorem findUnused (hlist : ChainList t c front tail rest)
    (hinv : TableInv t) :
    t.findUnused t.walkBound (.first c) =
      some ((front ++ tail :: rest).find? fun q => t.hasUnused (t.mem q)) := by
  obtain ⟨l, hl⟩ := hlist.split_head
  have hle := hlist.length_le hinv
  have hseg := hlist.seg
  have hvalid := hlist.valid
  rw [hl] at hle hseg hvalid ⊢
  exact findUnused_eq hseg hvalid hle

theorem ftVisit (hlist : ChainList t c front tail rest) (hinv : TableInv t)
    (visitor : FlowEntry → Bool) :
    t.ftVisit visitor t.walkBound (.first c) =
      some ((front ++ tail :: rest).findSome? fun q =>
        (t.visitBucket visitor (t.mem q)).map (EntryPtr.mk q)) := by
  obtain ⟨l, hl⟩ := hlist.split_head
  have hle := hlist.length_le hinv
  have hseg := hlist.seg
  have hvalid := hlist.valid
  rw [hl] at hle hseg hvalid ⊢
  exact ftVisit_eq visitor hseg hvalid hle

/-- A chain list only depends on the links of the buckets of the chain. -/
theorem congr (hlist : ChainList t c front tail rest)
    (hlast : t'.last c = t.last c)
    (hvalid : ∀ p, t.parentOf p = c → t.valid p = true → t'.valid p = true)
    (hlinks : ∀ p, t.valid p = true → t.parentOf p = c →
      t'.nextOf p = t.nextOf p ∧ t'.prevOf p = t.prevOf p ∧
        t'.parentOf p = t.parentOf p ∧ (t'.Dynamic p ↔ t.Dynamic p))
    (hback : ∀ p, t'.valid p = true → t'.parentOf p = c →
      t.valid p = true ∧ t.parentOf p = c) :
    ChainList t' c front tail rest := by
  have hmem : ∀ p ∈ front ++ tail :: rest,
      t.valid p = true ∧ t.parentOf p = c :=
    fun p hp => ⟨hlist.valid p hp, hlist.parent p hp⟩
  constructor
  · exact hlist.head
  · exact hlist.nodup
  · apply hlist.seg.congr
    · exact fun p hp => (hlinks p (hmem p hp).1 (hmem p hp).2).1
    · exact fun p hp => (hlinks p (hmem p hp).1 (hmem p hp).2).2.1
  · exact fun p hp => hvalid p (hmem p hp).2 (hmem p hp).1
  · intro p hp
    rw [(hlinks p (hmem p hp).1 (hmem p hp).2).2.2.1]
    exact (hmem p hp).2
  · rw [hlast]
    exact hlist.last
  · intro p hp
    have hp' : p ∈ front ++ tail :: rest := by simp [hp]
    rw [(hlinks p (hmem p hp').1 (hmem p hp').2).2.2.2]
    exact hlist.static p hp
  · intro p hp hparent hdyn
    obtain ⟨hpv, hpp⟩ := hback p hp hparent
    exact hlist.dynamic p hpv hpp ((hlinks p hpv hpp).2.2.2.mp hdyn)

end ChainList

/-- Only masks, entries and counters may differ. -/
structure SameLinks (t t' : FlowTable) : Prop where
  tableSize : t'.tableSize = t.tableSize
  bucketSize : t'.bucketSize = t.bucketSize
  heap : t'.heap = t.heap
  last : t'.last = t.last
  next : ∀ p, t'.nextOf p = t.nextOf p
  prev : ∀ p, t'.prevOf p = t.prevOf p
  parent : ∀ p, t'.parentOf p = t.parentOf p
  flags : ∀ p, (t'.mem p).flags = (t.mem p).flags

namespace SameLinks

theorem valid (hsame : SameLinks t t') (p : BucketPtr) :
    t'.valid p = t.valid p := by
  cases p with
  | first c => simp only [FlowTable.valid, hsame.tableSize]
  | heap addr => simp only [FlowTable.valid, hsame.heap]

theorem dynamic (hsame : SameLinks t t') (p : BucketPtr) :
    t'.Dynamic p ↔ t.Dynamic p := by
  rw [Dynamic, Dynamic, hsame.flags]

theorem chainList (hsame : SameLinks t t') {c : Nat}
    {front rest : List BucketPtr} {tail : BucketPtr}
    (hlist : ChainList t c front tail rest) :
    ChainList t' c front tail rest := by
  apply hlist.congr
  · rw [hsame.last]
  · intro p _ hp
    rw [hsame.valid]
    exact hp
  · exact fun p _ _ =>
      ⟨hsame.next p, hsame.prev p, hsame.parent p, hsame.dynamic p⟩
  · intro p hp hparent
    rw [hsame.valid] at hp
    rw [hsame.parent] at hparent
    exact ⟨hp, hparent⟩

theorem tableInv (hsame : SameLinks t t') (hinv : TableInv t) :
    TableInv t' where
  table := by
    rw [hsame.tableSize]
    exact hinv.table
  pos := by
    rw [hsame.bucketSize]
    exact hinv.pos
  le := by
    rw [hsame.bucketSize]
    exact hinv.le
  chains := by
    intro c hc
    rw [hsame.tableSize] at hc
    obtain ⟨front, tail, rest, hlist⟩ := hinv.chains c hc
    exact ⟨front, tail, rest, hsame.chainList hlist⟩
  parent_lt := by
    intro p hp
    rw [hsame.valid] at hp
    rw [hsame.parent, hsame.tableSize]
    exact hinv.parent_lt p hp
  firstParent := by
    intro c hc
    rw [hsame.tableSize] at hc
    rw [hsame.parent]
    exact hinv.firstParent c hc
  firstStatic := by
    intro c hc
    rw [hsame.tableSize] at hc
    rw [hsame.dynamic]
    exact hinv.firstStatic c hc
  notToFree := by
    intro p hp
    rw [hsame.valid] at hp
    rw [hsame.flags]
    exact hinv.notToFree p hp
  heapNodup := by
    rw [hsame.heap]
    exact hinv.heapNodup

theorem whole (hsame : SameLinks t t') (hwhole : Whole t) : Whole t' := by
  intro c hc
  rw [hsame.tableSize] at hc
  obtain ⟨front, tail, hlist, hall⟩ := hwhole c hc
  refine ⟨front, tail, hsame.chainList hlist, ?_⟩
  intro p hp hparent
  rw [hsame.valid] at hp
  rw [hsame.parent] at hparent
  exact hall p hp hparent

end SameLinks

/-- Replacing a bucket by one with the same links. -/
theorem sameLinks_update {p : BucketPtr} {b : FlowBucket}
    {stats : Stat → Int} (hnext : b.next = (t.mem p).next)
    (hprev : b.prev = (t.mem p).prev) (hparent : b.parent = (t.mem p).parent)
    (hflags : b.flags = (t.mem p).flags) :
    SameLinks t { t with mem := Function.update t.mem p b, stats := stats } := by
  have hfield : ∀ {β : Type} (f : FlowBucket → β), f b = f (t.mem p) →
      ∀ q, f (Function.update t.mem p b q) = f (t.mem q) := by
    intro β f hf q
    by_cases hq : q = p
    · rw [hq, Function.update_self, hf]
    · rw [Function.update_of_ne hq]
  exact ⟨rfl, rfl, rfl, rfl, hfield FlowBucket.next hnext,
    hfield FlowBucket.prev hprev, hfield FlowBucket.parent hparent,
    hfield FlowBucket.flags hflags⟩

theorem Claimed.sameLinks {p : BucketPtr} {e : EntryPtr} {hash : BitVec 32}
    {keyData : KeyData} {color : BitVec 16}
    (hclaimed : Claimed t t' p e hash keyData color) : SameLinks t t' := by
  rw [hclaimed.eq]
  exact sameLinks_update rfl rfl rfl rfl

theorem Released.sameLinks {e : EntryPtr} {p : BucketPtr}
    (hreleased : Released t t' e p) : SameLinks t t' := by
  rw [hreleased.eq]
  exact sameLinks_update rfl rfl rfl
    (releaseSlot_keep_flags hreleased.toFree)

/-- The bucket `b` at the new address `addr` was linked behind `tail`. -/
structure Grown (t t' : FlowTable) (addr : Nat) (tail : BucketPtr)
    (b : FlowBucket) : Prop where
  valid : t.valid tail = true
  fresh : addr ∉ t.heap
  prev : b.prev = some tail
  next : b.next = none
  tableSize : t'.tableSize = t.tableSize
  heap : t'.heap = addr :: t.heap
  mem : t'.mem = Function.update (Function.update t.mem (.heap addr) b)
    tail { t.mem tail with next := some (.heap addr) }

namespace Grown

variable {addr : Nat} {tail : BucketPtr} {b : FlowBucket}

theorem ne_new (hgrown : Grown t t' addr tail b) {p : BucketPtr}
    (hp : t.valid p = true) : p ≠ .heap addr := by
  rintro rfl
  simp only [FlowTable.valid, decide_eq_true_iff] at hp
  exact hgrown.fresh hp

theorem valid_iff (hgrown : Grown t t' addr tail b) (p : BucketPtr) :
    t'.valid p = true ↔ p = .heap addr ∨ t.valid p = true := by
  cases p <;> simp [FlowTable.valid, hgrown.heap, hgrown.tableSize]

theorem mem_new (hgrown : Grown t t' addr tail b) : t'.mem (.heap addr) = b := by
  rw [hgrown.mem, Function.update_of_ne (Ne.symm (hgrown.ne_new hgrown.valid)),
    Function.update_self]

theorem mem_tail (hgrown : Grown t t' addr tail b) :
    t'.mem tail = { t.mem tail with next := some (.heap addr) } := by
  rw [hgrown.mem, Function.update_self]

theorem mem_other (hgrown : Grown t t' addr tail b) {p : BucketPtr}
    (hnew : p ≠ .heap addr) (htail : p ≠ tail) : t'.mem p = t.mem p := by
  rw [hgrown.mem, Function.update_of_ne htail, Function.update_of_ne hnew]

/-- Besides the new bucket, only `next` of the old tail changes. -/
theorem fields_old (hgrown : Grown t t' addr tail b) {p : BucketPtr}
    (hnew : p ≠ .heap addr) :
    t'.prevOf p = t.prevOf p ∧ t'.parentOf p = t.parentOf p ∧
      (t'.mem p).flags = (t.mem p).flags ∧
      (t'.mem p).unused = (t.mem p).unused ∧
      (t'.mem p).entries = (t.mem p).entries := by
  by_cases htail : p = tail
  · rw [htail, prevOf, parentOf, hgrown.mem_tail]
    exact ⟨rfl, rfl, rfl, rfl, rfl⟩
  · rw [prevOf, parentOf, hgrown.mem_other hnew htail]
    exact ⟨rfl, rfl, rfl, rfl, rfl⟩

theorem next_old (hgrown : Grown t t' addr tail b) {p : BucketPtr}
    (hnew : p ≠ .heap addr) (htail : p ≠ tail) :
    t'.nextOf p = t.nextOf p := by
  rw [nextOf, hgrown.mem_other hnew htail]
  rfl

/-- A list that ends in the old tail grows by the new bucket. -/
theorem seg (hgrown : Grown t t' addr tail b) {front : List BucketPtr}
    {after : Option BucketPtr}
    (hseg : Seg t.nextOf t.prevOf none after (front ++ [tail]))
    (hnodup : (front ++ [tail]).Nodup)
    (hvalid : ∀ p ∈ front ++ [tail], t.valid p = true) :
    Seg t'.nextOf t'.prevOf none none (front ++ [tail] ++ [.heap addr]) := by
  have hold : ∀ p ∈ front ++ [tail], p ≠ .heap addr :=
    fun p hp => hgrown.ne_new (hvalid p hp)
  apply hseg.appendNode hnodup
  · rw [prevOf, hgrown.mem_new, hgrown.prev]
    simp
  · rw [nextOf, hgrown.mem_new, hgrown.next]
  · intro p hp
    simp only [List.getLast?_append, List.getLast?_singleton,
      Option.some_or, Option.some.injEq] at hp
    rw [← hp, nextOf, hgrown.mem_tail]
  · intro p hp hnotLast
    apply hgrown.next_old (hold p hp)
    rintro rfl
    simp at hnotLast
  · exact fun p hp => (hgrown.fields_old (hold p hp)).1

theorem nodup (hgrown : Grown t t' addr tail b) {l : List BucketPtr}
    (hnodup : l.Nodup) (hvalid : ∀ p ∈ l, t.valid p = true) :
    (l ++ [BucketPtr.heap addr]).Nodup := by
  rw [List.nodup_append]
  refine ⟨hnodup, by simp, ?_⟩
  intro p hp q hq
  rw [List.mem_singleton] at hq
  rw [hq]
  exact hgrown.ne_new (hvalid p hp)

end Grown

namespace Appended

variable {addr : Nat} {tail : BucketPtr} {e : EntryPtr} {hash : BitVec 32}
  {keyData : KeyData} {color : BitVec 16}

theorem grown (happ : Appended t t' addr tail e hash keyData color) :
    Grown t t' addr tail { appendedBucket (t.chainIndex hash) tail with
      entries := Function.update (fun _ => FlowEntry.zero) 0
        (addedEntry e hash keyData color FlowEntry.zero) } := by
  refine ⟨happ.valid, happ.fresh, rfl, rfl, ?_, ?_, ?_⟩ <;> rw [happ.eq]

/-- The chain that grows: the list up to the old tail, then the new bucket. -/
theorem chainList_grown (happ : Appended t t' addr tail e hash keyData color)
    {front rest : List BucketPtr}
    (hlist : ChainList t (t.chainIndex hash) front tail rest) :
    ChainList t' (t.chainIndex hash) (front ++ [tail]) (.heap addr) [] := by
  have hkept : ∀ p ∈ front ++ [tail], p ∈ front ++ tail :: rest := by
    intro p hp
    simp only [List.mem_append, List.mem_singleton] at hp
    simp only [List.mem_append, List.mem_cons]
    tauto
  have hold : ∀ p ∈ front ++ [tail], p ≠ .heap addr :=
    fun p hp => happ.grown.ne_new (hlist.valid p (hkept p hp))
  have hnodup : (front ++ [tail]).Nodup := by
    have hsub : (front ++ [tail]).Sublist (front ++ tail :: rest) := by
      apply List.Sublist.append_left
      simp
    exact hlist.nodup.sublist hsub
  have hsegOld : Seg t.nextOf t.prevOf none rest.head? (front ++ [tail]) := by
    have hseg := hlist.seg
    rw [List.append_cons, seg_append] at hseg
    simpa using hseg.1
  constructor
  · have hhead := hlist.head
    cases front <;> simpa using hhead
  · exact happ.grown.nodup hnodup (fun p hp => hlist.valid p (hkept p hp))
  · exact happ.grown.seg hsegOld hnodup
      (fun p hp => hlist.valid p (hkept p hp))
  · intro p hp
    rw [happ.grown.valid_iff]
    simp only [List.mem_append, List.mem_singleton] at hp
    rcases hp with hp | rfl
    · exact Or.inr (hlist.valid p (hkept p (by simpa using hp)))
    · exact Or.inl rfl
  · intro p hp
    rcases List.mem_append.mp hp with hp | hp
    · rw [(happ.grown.fields_old (hold p hp)).2.1]
      exact hlist.parent p (hkept p hp)
    · rw [List.mem_singleton] at hp
      rw [hp, parentOf, happ.grown.mem_new]
      rfl
  · rw [happ.eq]
    simp
  · simp
  · intro p hp hparent hdyn
    by_cases hnew : p = .heap addr
    · simp [hnew]
    · rw [happ.grown.valid_iff] at hp
      rw [(happ.grown.fields_old hnew).2.1] at hparent
      rw [Dynamic, (happ.grown.fields_old hnew).2.2.1] at hdyn
      have hmem := hlist.dynamic p (hp.resolve_left hnew) hparent hdyn
      exact List.mem_append_left _ hmem

/-- The other chains keep their lists. -/
theorem chainList_other (happ : Appended t t' addr tail e hash keyData color)
    (htailParent : t.parentOf tail = t.chainIndex hash) {c : Nat}
    (hc : c ≠ t.chainIndex hash) {front rest : List BucketPtr}
    {last : BucketPtr} (hlist : ChainList t c front last rest) :
    ChainList t' c front last rest := by
  apply hlist.congr
  · rw [happ.eq]
    exact Function.update_of_ne hc _ _
  · intro p _ hp
    rw [happ.grown.valid_iff]
    exact Or.inr hp
  · intro p hp hparent
    have hne := happ.grown.ne_new hp
    have htail : p ≠ tail := by
      rintro rfl
      exact hc (hparent.symm.trans htailParent)
    obtain ⟨hprev, hpar, hflags, -⟩ := happ.grown.fields_old hne
    refine ⟨happ.grown.next_old hne htail, hprev, hpar, ?_⟩
    rw [Dynamic, Dynamic, hflags]
  · intro p hp hparent
    have hne : p ≠ .heap addr := by
      rintro rfl
      rw [parentOf, happ.grown.mem_new] at hparent
      exact hc hparent.symm
    rw [happ.grown.valid_iff] at hp
    rw [(happ.grown.fields_old hne).2.1] at hparent
    exact ⟨hp.resolve_left hne, hparent⟩

end Appended

end FlowTable

end Ntnetflow

end NtapiExamples
