/-
The lists of buckets while sections of several threads append to them and take
buckets out of them.
-/
import NtapiExamples.Ntnetflow.BucketThreads
import NtapiExamples.Ntnetflow.FlowTableFailed

namespace NtapiExamples

namespace Ntnetflow

namespace FlowTable

variable {t t' : FlowTable} {pc pc' : Nat → TablePc} {c thread : Nat}
  {p : BucketPtr}

theorem Linkage.congr {l : List BucketPtr} (hlink : Linkage t pc c l)
    (hnext : ∀ p ∈ l, t'.nextOf p = t.nextOf p)
    (hprev : ∀ p ∈ l, t'.prevOf p = t.prevOf p)
    (hmem : ∀ p, Linked t' pc' p ∧ t'.parentOf p = c ↔
      Linked t pc p ∧ t.parentOf p = c) : Linkage t' pc' c l where
  head := hlink.head
  nodup := hlink.nodup
  seg := hlink.seg.congr hnext hprev
  mem := fun p => (hlink.mem p).trans (hmem p).symm

/-- Changing the place of a thread that has not unlinked a bucket. -/
theorem linked_update {pc₁ : TablePc} (hold : pc thread ≠ .removeFree p)
    (hnew : pc₁ ≠ .removeFree p) :
    Linked t (Function.update pc thread pc₁) p ↔ Linked t pc p := by
  refine and_congr_right fun _ => ⟨fun h other => ?_, fun h other => ?_⟩
  · by_cases hother : other = thread
    · rw [hother]
      exact hold
    · have := h other
      rwa [Function.update_of_ne hother] at this
  · by_cases hother : other = thread
    · rw [hother, Function.update_self]
      exact hnew
    · rw [Function.update_of_ne hother]
      exact h other

/-- Taking `p` out of its list: `thread` will free it. -/
theorem linked_unlink {q : BucketPtr}
    (hold : ∀ q, pc thread ≠ .removeFree q) :
    Linked t (Function.update pc thread (.removeFree p)) q ↔
      Linked t pc q ∧ q ≠ p := by
  by_cases hq : q = p
  · refine iff_of_false (fun h => ?_) (fun h => h.2 hq)
    exact h.2 thread (by rw [Function.update_self, hq])
  · rw [linked_update (hold q) (fun h => hq (TablePc.removeFree.inj h).symm)]
    exact (and_iff_left hq).symm

/-- The lists of all chains; `chain->last` is NULL after a failed `calloc`. -/
structure ChainPart (t : FlowTable) (pc : Nat → TablePc)
    (failed : Nat → Bool) : Prop extends SizeOk t where
  firstParent : ∀ c, c < t.tableSize → t.parentOf (.first c) = c
  firstStatic : ∀ c, c < t.tableSize → ¬ t.Dynamic (.first c)
  parentLt : ∀ p, t.valid p = true → t.parentOf p < t.tableSize
  heapNodup : t.heap.Nodup
  chains : ∀ c, c < t.tableSize → ∃ l, Linkage t pc c l ∧
    t.last c = if failed c then none else l.getLast?

/-- Only slots, counters and `BUCKET_TO_FREE` may differ. -/
structure SameChain (t t' : FlowTable) : Prop where
  tableSize : t'.tableSize = t.tableSize
  bucketSize : t'.bucketSize = t.bucketSize
  heap : t'.heap = t.heap
  last : t'.last = t.last
  next : ∀ p, t'.nextOf p = t.nextOf p
  prev : ∀ p, t'.prevOf p = t.prevOf p
  parent : ∀ p, t'.parentOf p = t.parentOf p
  dynamic : ∀ p, t'.Dynamic p ↔ t.Dynamic p

theorem SameLinks.sameChain (hsame : SameLinks t t') : SameChain t t' :=
  ⟨hsame.tableSize, hsame.bucketSize, hsame.heap, hsame.last, hsame.next,
    hsame.prev, hsame.parent, hsame.dynamic⟩

theorem SameChain.trans {t'' : FlowTable} (hfirst : SameChain t t')
    (hsecond : SameChain t' t'') : SameChain t t'' where
  tableSize := hsecond.tableSize.trans hfirst.tableSize
  bucketSize := hsecond.bucketSize.trans hfirst.bucketSize
  heap := hsecond.heap.trans hfirst.heap
  last := hsecond.last.trans hfirst.last
  next := fun p => (hsecond.next p).trans (hfirst.next p)
  prev := fun p => (hsecond.prev p).trans (hfirst.prev p)
  parent := fun p => (hsecond.parent p).trans (hfirst.parent p)
  dynamic := fun p => (hsecond.dynamic p).trans (hfirst.dynamic p)

theorem SameChain.valid (hsame : SameChain t t') (p : BucketPtr) :
    t'.valid p = t.valid p := by
  cases p with
  | first c => simp only [FlowTable.valid, hsame.tableSize]
  | heap addr => simp only [FlowTable.valid, hsame.heap]

theorem SameChain.linked (hsame : SameChain t t') (p : BucketPtr) :
    Linked t' pc p ↔ Linked t pc p := by
  rw [Linked, hsame.valid]
  exact Iff.rfl

variable {failed : Nat → Bool}

theorem ChainPart.same (hpart : ChainPart t pc failed)
    (hsame : SameChain t t') : ChainPart t' pc failed where
  table := by
    rw [hsame.tableSize]
    exact hpart.table
  pos := by
    rw [hsame.bucketSize]
    exact hpart.pos
  le := by
    rw [hsame.bucketSize]
    exact hpart.le
  firstParent := fun c hc => by
    rw [hsame.tableSize] at hc
    rw [hsame.parent]
    exact hpart.firstParent c hc
  firstStatic := fun c hc => by
    rw [hsame.tableSize] at hc
    rw [hsame.dynamic]
    exact hpart.firstStatic c hc
  parentLt := fun p hp => by
    rw [hsame.valid] at hp
    rw [hsame.parent, hsame.tableSize]
    exact hpart.parentLt p hp
  heapNodup := by
    rw [hsame.heap]
    exact hpart.heapNodup
  chains := fun c hc => by
    rw [hsame.tableSize] at hc
    obtain ⟨l, hlink, hlast⟩ := hpart.chains c hc
    refine ⟨l, hlink.congr (fun p _ => hsame.next p)
      (fun p _ => hsame.prev p) fun p => ?_, ?_⟩
    · rw [hsame.linked, hsame.parent]
    · rw [hsame.last, hlast]

theorem ChainPart.setPc (hpart : ChainPart t pc failed)
    (hpc : ∀ p, Linked t pc' p ↔ Linked t pc p) :
    ChainPart t pc' failed where
  toSizeOk := hpart.toSizeOk
  firstParent := hpart.firstParent
  firstStatic := hpart.firstStatic
  parentLt := hpart.parentLt
  heapNodup := hpart.heapNodup
  chains := fun c hc => by
    obtain ⟨l, hlink, hlast⟩ := hpart.chains c hc
    refine ⟨l, hlink.congr (fun _ _ => rfl) (fun _ _ => rfl) fun p => ?_,
      hlast⟩
    rw [hpc]

/-- The tail of a chain that has not lost its `last`. -/
theorem ChainPart.tail (hpart : ChainPart t pc failed) {tail : BucketPtr}
    (hc : c < t.tableSize) (hlast : t.last c = some tail) :
    failed c = false ∧ ∃ front, Linkage t pc c (front ++ [tail]) := by
  obtain ⟨l, hlink, hl⟩ := hpart.chains c hc
  rw [hlast] at hl
  cases hfailed : failed c with
  | true =>
      rw [hfailed] at hl
      simp at hl
  | false =>
      rw [hfailed] at hl
      obtain ⟨front, rfl⟩ := List.getLast?_eq_some_iff.mp hl.symm
      exact ⟨rfl, front, hlink⟩

/-- Every linked bucket is in the list of its chain. -/
theorem ChainPart.split (hpart : ChainPart t pc failed)
    (hp : Linked t pc p) : ∃ a b, Linkage t pc (t.parentOf p) (a ++ p :: b) ∧
      t.last (t.parentOf p) =
        if failed (t.parentOf p) then none else (a ++ p :: b).getLast? := by
  obtain ⟨l, hlink, hlast⟩ := hpart.chains _ (hpart.parentLt p hp.1)
  obtain ⟨a, b, rfl⟩ := List.append_of_mem ((hlink.mem p).mpr ⟨hp, rfl⟩)
  exact ⟨a, b, hlink, hlast⟩

section Append

variable {addr : Nat} {tail : BucketPtr} {b : FlowBucket}

theorem Grown.linked_iff (hgrown : Grown t t' addr tail b)
    (hheap : ∀ thread, pc thread ≠ .removeFree (.heap addr)) :
    Linked t' pc p ↔ p = .heap addr ∨ Linked t pc p := by
  by_cases hp : p = .heap addr
  · rw [hp]
    exact iff_of_true ⟨(hgrown.valid_iff _).mpr (Or.inl rfl), hheap⟩
      (Or.inl rfl)
  · rw [Linked, hgrown.valid_iff, Linked]
    simp only [hp, false_or]

/-- The chain that grows. -/
theorem Grown.linkage (hgrown : Grown t t' addr tail b)
    (hparent : b.parent = c)
    (hheap : ∀ thread, pc thread ≠ .removeFree (.heap addr))
    {front : List BucketPtr} (hlink : Linkage t pc c (front ++ [tail])) :
    Linkage t' pc c (front ++ [tail] ++ [.heap addr]) := by
  have hvalid : ∀ p ∈ front ++ [tail], t.valid p = true :=
    fun p hp => ((hlink.mem p).mp hp).1.1
  constructor
  · rw [List.head?_append, hlink.head]
    rfl
  · exact hgrown.nodup hlink.nodup hvalid
  · exact hgrown.seg hlink.seg hlink.nodup hvalid
  · intro p
    rw [List.mem_append, List.mem_singleton, hlink.mem,
      hgrown.linked_iff hheap]
    by_cases hp : p = .heap addr
    · have hnew : t'.parentOf (.heap addr) = c := by
        rw [parentOf, hgrown.mem_new, hparent]
      simp [hp, hnew]
    · rw [(hgrown.fields_old hp).2.1]
      simp [hp]

/-- The other chains keep their lists. -/
theorem Grown.linkage_other (hgrown : Grown t t' addr tail b)
    (hparent : b.parent = c) (htail : t.parentOf tail = c)
    (hheap : ∀ thread, pc thread ≠ .removeFree (.heap addr)) {d : Nat}
    (hd : d ≠ c) {l : List BucketPtr} (hlink : Linkage t pc d l) :
    Linkage t' pc d l := by
  have hold : ∀ p ∈ l, p ≠ .heap addr ∧ p ≠ tail := by
    intro p hp
    have hboth := (hlink.mem p).mp hp
    refine ⟨hgrown.ne_new hboth.1.1, ?_⟩
    rintro rfl
    exact hd (hboth.2.symm.trans htail)
  apply hlink.congr
  · exact fun p hp => hgrown.next_old (hold p hp).1 (hold p hp).2
  · exact fun p hp => (hgrown.fields_old (hold p hp).1).1
  · intro p
    rw [hgrown.linked_iff hheap]
    by_cases hp : p = .heap addr
    · rw [hp, parentOf, hgrown.mem_new, hparent]
      refine iff_of_false (fun h => hd h.2.symm) (fun h => ?_)
      exact hgrown.ne_new h.1.1 rfl
    · rw [(hgrown.fields_old hp).2.1]
      simp [hp]

theorem ChainPart.grown (hpart : ChainPart t pc failed)
    (hgrown : Grown t t' addr tail b) (hparent : b.parent = c)
    (hbucket : t'.bucketSize = t.bucketSize) (hc : c < t.tableSize)
    (hlast : t.last c = some tail)
    (hlast' : t'.last = Function.update t.last c (some (.heap addr)))
    (hheap : ∀ thread, pc thread ≠ .removeFree (.heap addr)) :
    ChainPart t' pc failed := by
  obtain ⟨hfailed, front, hlink⟩ := hpart.tail hc hlast
  have htail := ((hlink.mem tail).mp (by simp)).2
  have htable := hgrown.tableSize
  refine ⟨⟨?_, ?_, ?_⟩, ?_, ?_, ?_, ?_, ?_⟩
  · rw [htable]
    exact hpart.table
  · rw [hbucket]
    exact hpart.pos
  · rw [hbucket]
    exact hpart.le
  · intro d hd
    rw [htable] at hd
    rw [(hgrown.fields_old (by simp)).2.1]
    exact hpart.firstParent d hd
  · intro d hd
    rw [htable] at hd
    rw [Dynamic, (hgrown.fields_old (by simp)).2.2.1]
    exact hpart.firstStatic d hd
  · intro p hp
    rw [htable]
    by_cases hnew : p = .heap addr
    · rw [hnew, parentOf, hgrown.mem_new, hparent]
      exact hc
    · rw [(hgrown.fields_old hnew).2.1]
      rw [hgrown.valid_iff] at hp
      exact hpart.parentLt p (hp.resolve_left hnew)
  · rw [hgrown.heap]
    exact List.nodup_cons.mpr ⟨hgrown.fresh, hpart.heapNodup⟩
  · intro d hd
    rw [htable] at hd
    by_cases hdc : d = c
    · subst hdc
      refine ⟨_, hgrown.linkage hparent hheap hlink, ?_⟩
      rw [hlast', Function.update_self, hfailed]
      simp
    · obtain ⟨l, hl, hlastL⟩ := hpart.chains d hd
      refine ⟨l, hgrown.linkage_other hparent htail hheap hdc hl, ?_⟩
      rw [hlast', Function.update_of_ne hdc, hlastL]

/-- A failed `calloc` only loses `last`: behind the tail there is nothing. -/
theorem ChainPart.callocFailed (hpart : ChainPart t pc failed)
    (hc : c < t.tableSize) (hlast : t.last c = some tail) :
    ChainPart { t.cut tail with last := Function.update t.last c none } pc
      (Function.update failed c true) := by
  obtain ⟨-, front, hlink⟩ := hpart.tail hc hlast
  have hend : t.nextOf tail = none := by
    simpa using hlink.seg.next_of_split
  have hsame : SameChain t (t.cut tail) := by
    refine ⟨rfl, rfl, rfl, rfl, fun p => ?_, fun p => (cut_fields p).2.1,
      fun p => (cut_fields p).1, fun p => ?_⟩
    · by_cases hp : p = tail
      · rw [hp, cut_next_self, hend]
      · exact cut_next_ne hp
    · rw [Dynamic, Dynamic, (cut_fields p).2.2.1]
  have hcut := hpart.same hsame
  refine ⟨⟨hpart.table, hpart.pos, hpart.le⟩, hcut.firstParent,
    hcut.firstStatic, ?_, hcut.heapNodup, ?_⟩
  · intro p hp
    exact hcut.parentLt p (by cases p <;> exact hp)
  · intro d hd
    obtain ⟨l, hl, hlastL⟩ := hcut.chains d hd
    refine ⟨l, hl.congr (fun _ _ => rfl) (fun _ _ => rfl) fun p => ?_, ?_⟩
    · cases p <;> exact Iff.rfl
    · by_cases hdc : d = c
      · rw [hdc]
        simp
      · rw [Function.update_of_ne hdc]
        change Function.update t.last c none d = _
        rw [Function.update_of_ne hdc]
        exact hlastL

end Append

/-- The neighbours of a linked bucket are in its chain. -/
theorem Linkage.neighbours {a b : List BucketPtr}
    (hlink : Linkage t pc c (a ++ p :: b)) {q : BucketPtr}
    (hq : t.prevOf p = some q ∨ t.nextOf p = some q) :
    q ∈ a ++ p :: b := by
  have hnext := hlink.seg.next_of_split
  have hprev := hlink.seg.prev_of_split
  rw [Option.or_none] at hnext hprev
  rw [List.mem_append, List.mem_cons]
  rcases hq with hq | hq
  · rw [hprev] at hq
    exact Or.inl (List.mem_of_getLast? hq)
  · rw [hnext] at hq
    exact Or.inr (Or.inr (List.mem_of_head? hq))

/-- `chain->last` moves back when the tail is unlinked. -/
theorem unlink_last {a b : List BucketPtr}
    (hlink : Linkage t pc (t.parentOf p) (a ++ p :: b))
    (hlast : t.last (t.parentOf p) =
      if failed (t.parentOf p) then none else (a ++ p :: b).getLast?) :
    (if t.last (t.mem p).parent = some p
      then Function.update t.last (t.mem p).parent (t.mem p).prev
      else t.last) (t.parentOf p) =
        if failed (t.parentOf p) then none else (a ++ b).getLast? := by
  have hprev := hlink.seg.prev_of_split
  rw [Option.or_none] at hprev
  change (if t.last (t.parentOf p) = some p
    then Function.update t.last (t.parentOf p) (t.prevOf p)
    else t.last) (t.parentOf p) = _
  cases hfailed : failed (t.parentOf p) with
  | true =>
      rw [hfailed] at hlast
      rw [hlast]
      exact hlast
  | false =>
      rw [hfailed] at hlast
      simp only [Bool.false_eq_true, if_false] at hlast ⊢
      cases hb : b.getLast? with
      | none =>
          have hnil := List.getLast?_eq_none_iff.mp hb
          subst hnil
          rw [List.getLast?_concat] at hlast
          rw [if_pos hlast, Function.update_self, hprev, List.append_nil]
      | some q =>
          have hq : (a ++ p :: b).getLast? = some q := by
            rw [List.getLast?_append, List.getLast?_cons, hb]
            rfl
          have hne : q ≠ p := by
            rintro rfl
            have hnodup := (List.nodup_append.mp hlink.nodup).2.1
            exact (List.nodup_cons.mp hnodup).1 (List.mem_of_getLast? hb)
          rw [hlast, hq, if_neg (fun h => hne (Option.some.inj h)), hlast, hq,
            List.getLast?_append, hb]
          rfl

section Unlink

variable (hold : ∀ q, pc thread ≠ .removeFree q)

include hold

/-- The chain that loses `p`. -/
theorem Linkage.unlink {a b : List BucketPtr}
    (hlink : Linkage t pc c (a ++ p :: b)) (hfirst : p ≠ .first c) :
    Linkage { t with mem := unlinkedMem t.mem (t.mem p) }
      (Function.update pc thread (.removeFree p)) c (a ++ b) := by
  have hnext := hlink.seg.next_of_split
  have hprev := hlink.seg.prev_of_split
  rw [Option.or_none] at hnext hprev
  have hperm : (a ++ p :: b).Perm (p :: (a ++ b)) := List.perm_middle
  obtain ⟨hfresh, hnodup⟩ := List.nodup_cons.mp
    (hperm.nodup_iff.mp hlink.nodup)
  constructor
  · have hhead := hlink.head
    cases a with
    | nil =>
        simp only [List.nil_append, List.head?_cons,
          Option.some.injEq] at hhead
        exact absurd hhead hfirst
    | cons q a => exact hhead
  · exact hnodup
  · apply hlink.seg.unlink hlink.nodup
    · intro q hq
      exact if_pos (hprev.trans hq)
    · intro q hq
      exact if_pos (hnext.trans hq)
    · intro q _ hne
      exact if_neg fun h => hne (hprev.symm.trans h)
    · intro q _ hne
      exact if_neg fun h => hne (hnext.symm.trans h)
  · intro q
    have hmem := hlink.mem q
    rw [hperm.mem_iff, List.mem_cons] at hmem
    have hvalid : Linked { t with mem := unlinkedMem t.mem (t.mem p) }
        (Function.update pc thread (.removeFree p)) q ↔
          Linked t pc q ∧ q ≠ p := by
      rw [← linked_unlink hold]
      cases q <;> exact Iff.rfl
    rw [hvalid]
    change _ ↔ _ ∧ t.parentOf q = c
    constructor
    · intro hq
      have hboth := hmem.mp (Or.inr hq)
      refine ⟨⟨hboth.1, ?_⟩, hboth.2⟩
      rintro rfl
      exact hfresh hq
    · rintro ⟨⟨hlinked, hne⟩, hparent⟩
      exact (hmem.mpr ⟨hlinked, hparent⟩).resolve_left hne

theorem ChainPart.unlink (hpart : ChainPart t pc failed)
    (hp : Linked t pc p) (hfirst : ∀ c, p ≠ .first c)
    (hunlink : t.unlinkBucket p = some t') :
    ChainPart t' (Function.update pc thread (.removeFree p)) failed := by
  obtain ⟨a, b, hlink, hlast⟩ := hpart.split hp
  obtain ⟨-, -, rfl⟩ := unlinkBucket_eq_some hunlink
  refine ⟨⟨hpart.table, hpart.pos, hpart.le⟩, hpart.firstParent,
    hpart.firstStatic, ?_, hpart.heapNodup, ?_⟩
  · intro q hq
    exact hpart.parentLt q (by cases q <;> exact hq)
  · intro d hd
    by_cases hdc : d = t.parentOf p
    · subst hdc
      have hl := hlink.unlink hold (hfirst _)
      refine ⟨a ++ b, ⟨hl.head, hl.nodup, hl.seg, fun q => ?_⟩, ?_⟩
      · rw [hl.mem]
        cases q <;> exact Iff.rfl
      · exact unlink_last hlink hlast
    · obtain ⟨l, hl, hlastL⟩ := hpart.chains d hd
      have hother : ∀ q ∈ l, t.prevOf p ≠ some q ∧ t.nextOf p ≠ some q := by
        intro q hq
        have hparent := ((hl.mem q).mp hq).2
        refine ⟨fun h => ?_, fun h => ?_⟩
        · have hmem := hlink.neighbours (Or.inl h)
          exact hdc (hparent.symm.trans ((hlink.mem q).mp hmem).2)
        · have hmem := hlink.neighbours (Or.inr h)
          exact hdc (hparent.symm.trans ((hlink.mem q).mp hmem).2)
      refine ⟨l, hl.congr ?_ ?_ fun q => ?_, ?_⟩
      · exact fun q hq => if_neg (hother q hq).1
      · exact fun q hq => if_neg (hother q hq).2
      · have hsame : Linked t (Function.update pc thread (.removeFree p)) q ∧
            t.parentOf q = d ↔ Linked t pc q ∧ t.parentOf q = d := by
          rw [linked_unlink hold]
          refine and_congr_left fun hq => and_iff_left ?_
          rintro rfl
          exact hdc hq.symm
        rw [← hsame]
        cases q <;> exact Iff.rfl
      · rw [← hlastL]
        simp only
        split
        · exact Function.update_of_ne hdc _ _
        · rfl

end Unlink

theorem freeBucket_eq_some (hfree : t.freeBucket p = some t') :
    ∃ addr, p = .heap addr ∧ addr ∈ t.heap ∧
      t' = { t with heap := t.heap.erase addr } := by
  cases p with
  | first c => simp [freeBucket] at hfree
  | heap addr =>
      simp only [freeBucket] at hfree
      split at hfree
      case isFalse => simp at hfree
      case isTrue hmem =>
        exact ⟨addr, rfl, hmem, (Option.some.inj hfree).symm⟩

theorem freeBucket_fields (hfree : t.freeBucket p = some t') :
    t'.mem = t.mem ∧ t'.tableSize = t.tableSize ∧
      t'.bucketSize = t.bucketSize := by
  obtain ⟨addr, -, -, rfl⟩ := freeBucket_eq_some hfree
  exact ⟨rfl, rfl, rfl⟩

theorem freeBucket_valid (hnodup : t.heap.Nodup)
    (hfree : t.freeBucket p = some t') (q : BucketPtr) :
    t'.valid q = true ↔ t.valid q = true ∧ q ≠ p := by
  obtain ⟨addr, rfl, -, rfl⟩ := freeBucket_eq_some hfree
  cases q with
  | first c => simp [valid]
  | heap other =>
      simp only [valid, decide_eq_true_iff, hnodup.mem_erase_iff, ne_eq,
        BucketPtr.heap.injEq]
      exact and_comm

/-- Freeing a bucket that is unlinked leaves the others linked. -/
theorem free_linked (hnodup : t.heap.Nodup) (hpc : pc thread = .removeFree p)
    (hfree : t.freeBucket p = some t') (q : BucketPtr) :
    Linked t' (Function.update pc thread .idle) q ↔ Linked t pc q := by
  rw [Linked, freeBucket_valid hnodup hfree]
  constructor
  · rintro ⟨⟨hq, hne⟩, hpcs⟩
    refine ⟨hq, fun other => ?_⟩
    by_cases hother : other = thread
    · rw [hother, hpc]
      exact fun h => hne (TablePc.removeFree.inj h).symm
    · have := hpcs other
      rwa [Function.update_of_ne hother] at this
  · rintro ⟨hq, hpcs⟩
    refine ⟨⟨hq, ?_⟩, fun other => ?_⟩
    · rintro rfl
      exact hpcs thread hpc
    · by_cases hother : other = thread
      · rw [hother, Function.update_self]
        exact ne_removeFree rfl q
      · rw [Function.update_of_ne hother]
        exact hpcs other

theorem ChainPart.free (hpart : ChainPart t pc failed)
    (hpc : pc thread = .removeFree p)
    (hfree : t.freeBucket p = some t') :
    ChainPart t' (Function.update pc thread .idle) failed := by
  have hvalid := freeBucket_valid hpart.heapNodup hfree
  have hlinked := free_linked hpart.heapNodup hpc hfree
  obtain ⟨addr, -, -, rfl⟩ := freeBucket_eq_some hfree
  refine ⟨⟨hpart.table, hpart.pos, hpart.le⟩, hpart.firstParent,
    hpart.firstStatic, ?_, hpart.heapNodup.erase addr, ?_⟩
  · exact fun q hq => hpart.parentLt q ((hvalid q).mp hq).1
  · intro c hc
    obtain ⟨l, hl, hlast⟩ := hpart.chains c hc
    refine ⟨l, hl.congr (fun _ _ => rfl) (fun _ _ => rfl) fun q => ?_, hlast⟩
    rw [hlinked]
    exact Iff.rfl

end FlowTable

end Ntnetflow

end NtapiExamples
