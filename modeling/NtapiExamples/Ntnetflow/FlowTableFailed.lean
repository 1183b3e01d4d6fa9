/-
`ft_add` when `calloc` fails: `chain->last` is NULL from then on, and what the
other operations do does not depend on it.
-/
import NtapiExamples.Ntnetflow.FlowTableRuns

namespace NtapiExamples

namespace Ntnetflow

namespace FlowTable

variable {t t' : FlowTable}

/-- The table after a failed `calloc` in the chains of `lost`. -/
def lose (t : FlowTable) (lost : Nat → Bool) : FlowTable :=
  { t with last := fun c => if lost c then none else t.last c }

@[simp] theorem lose_none : t.lose (fun _ => false) = t := by
  cases t
  rfl

section Commute

variable {lost : Nat → Bool}

@[simp] theorem lose_valid (p : BucketPtr) :
    (t.lose lost).valid p = t.valid p := by
  cases p <;> rfl

@[simp] theorem lose_deref (p : BucketPtr) :
    (t.lose lost).deref p = t.deref p := by
  rw [deref, lose_valid]
  rfl

@[simp] theorem lose_used (e : EntryPtr) :
    (t.lose lost).Used e ↔ t.Used e := by
  rw [Used, lose_valid]
  exact Iff.rfl

theorem lose_modifyBucket (p : BucketPtr) (f : FlowBucket → FlowBucket) :
    (t.lose lost).modifyBucket p f =
      (t.modifyBucket p f).map (·.lose lost) := by
  rw [modifyBucket, lose_deref, modifyBucket, Option.map_map]
  rfl

theorem lose_findUnused (fuel : Nat) (p : BucketPtr) :
    (t.lose lost).findUnused fuel p = t.findUnused fuel p := by
  induction fuel generalizing p with
  | zero => rfl
  | succ fuel ih =>
      simp only [findUnused, lose_deref]
      refine Option.bind_congr fun b _ => ?_
      have hunused : (t.lose lost).hasUnused b = t.hasUnused b := rfl
      rw [hunused]
      cases b.next with
      | none => rfl
      | some next => simp only [ih]

/-- A NULL `chain->last` stays NULL when a bucket is unlinked. -/
theorem lose_unlinkLast (b : FlowBucket) (p : BucketPtr) :
    (if (t.lose lost).last b.parent = some p then
      { t.lose lost with
        last := Function.update (t.lose lost).last b.parent b.prev }
      else t.lose lost) =
    (if t.last b.parent = some p then
      { t with last := Function.update t.last b.parent b.prev }
      else t).lose lost := by
  cases hlost : lost b.parent with
  | true =>
      have hnull : (t.lose lost).last b.parent ≠ some p := by
        simp [lose, hlost]
      rw [if_neg hnull]
      split
      · simp only [lose, mk.injEq, true_and, and_true]
        funext c
        by_cases hc : c = b.parent
        · rw [hc, hlost, if_pos rfl, if_pos rfl]
        · rw [Function.update_of_ne hc]
      · rfl
  | false =>
      have hsame : (t.lose lost).last b.parent = t.last b.parent := by
        simp [lose, hlost]
      rw [hsame]
      split
      · simp only [lose, mk.injEq, true_and, and_true]
        funext c
        by_cases hc : c = b.parent
        · rw [hc, hlost, Function.update_self, Function.update_self]
          rfl
        · rw [Function.update_of_ne hc, Function.update_of_ne hc]
      · rfl

theorem lose_unlinkBucket (p : BucketPtr) :
    (t.lose lost).unlinkBucket p =
      (t.unlinkBucket p).map (·.lose lost) := by
  simp only [unlinkBucket, lose_deref, Option.bind_eq_bind]
  rw [Option.map_bind]
  refine Option.bind_congr fun b _ => ?_
  simp only [Function.comp_apply]
  rw [lose_unlinkLast]
  generalize (if t.last b.parent = some p then
    { t with last := Function.update t.last b.parent b.prev } else t) = t₁
  cases b.prev with
  | none =>
      simp only [Option.bind_some]
      cases b.next with
      | none => rfl
      | some next => exact lose_modifyBucket next _
  | some prev =>
      simp only
      rw [lose_modifyBucket, Option.map_bind, Option.bind_map]
      refine Option.bind_congr fun t₂ _ => ?_
      cases b.next with
      | none => rfl
      | some next => exact lose_modifyBucket next _

theorem lose_freeBucket (p : BucketPtr) :
    (t.lose lost).freeBucket p = (t.freeBucket p).map (·.lose lost) := by
  cases p with
  | first c => rfl
  | heap addr =>
      simp only [freeBucket]
      have hheap : (t.lose lost).heap = t.heap := rfl
      rw [hheap]
      split <;> rfl

/-- `ft_remove` does not depend on `chain->last`. -/
theorem lose_ftRemove (e : EntryPtr) :
    (t.lose lost).ftRemove e = (t.ftRemove e).map (·.lose lost) := by
  simp only [ftRemove, lose_deref, Option.bind_eq_bind]
  rw [Option.map_bind]
  refine Option.bind_congr fun holder _ => ?_
  simp only [Function.comp_apply]
  rw [Option.map_bind]
  refine Option.bind_congr fun p _ => ?_
  simp only [Function.comp_apply]
  rw [Option.map_bind]
  refine Option.bind_congr fun b _ => ?_
  simp only [Function.comp_apply]
  have hrelease : ∀ index, (t.lose lost).releaseSlot b index =
      t.releaseSlot b index := fun _ => rfl
  have hset : ∀ b, (t.lose lost).setBucket p b =
      (t.setBucket p b).lose lost := fun _ => rfl
  rw [hrelease, hset]
  split
  · rfl
  · split
    · rw [lose_unlinkBucket, Option.bind_map, Option.map_bind]
      refine Option.bind_congr fun t₁ _ => ?_
      simp only [Function.comp_apply]
      rw [lose_freeBucket, Option.bind_map, Option.map_bind]
      rfl
    · rfl

end Commute

/-- `last->next` is overwritten with NULL. -/
def cut (t : FlowTable) (tail : BucketPtr) : FlowTable :=
  t.setBucket tail { t.mem tail with next := none }

/-- A call of `ft_add` that returned NULL: its chain was full, and the write
through `last` went to the bucket `tail`. -/
structure AddFailed (t t' : FlowTable) (hash : BitVec 32) (tail : BucketPtr) :
    Prop where
  full : t.findUnused t.walkBound (.first (t.chainIndex hash)) = some none
  last : t.last (t.chainIndex hash) = some tail
  valid : t.valid tail = true
  eq : t' = (t.cut tail).lose fun c => decide (c = t.chainIndex hash)

/-- Without a new bucket nothing is allocated. -/
theorem ftAddBucket_null {alloc : Option Nat} {chain : Nat}
    {prev : Option BucketPtr} {dynamic : Bool}
    (hbucket : t.ftAddBucket alloc chain prev dynamic = some (t', none)) :
    t' = t := by
  cases alloc with
  | none =>
      simp only [ftAddBucket, Option.some.injEq, Prod.mk.injEq,
        and_true] at hbucket
      exact hbucket.symm
  | some addr =>
      simp only [ftAddBucket] at hbucket
      split at hbucket
      · simp at hbucket
      · simp [Option.bind_eq_some_iff] at hbucket

theorem ftAdd_addFailed {alloc : Option Nat} {hash : BitVec 32}
    {keyData : KeyData} {color : BitVec 16}
    (hadd : t.ftAdd alloc hash keyData color = some (t', none)) :
    ∃ tail, AddFailed t t' hash tail := by
  simp only [ftAdd, Option.bind_eq_bind, Option.bind_eq_some_iff] at hadd
  obtain ⟨found, hfull, hadd⟩ := hadd
  cases found with
  | some p => simp [Option.bind_eq_some_iff] at hadd
  | none =>
      simp only [Option.bind_eq_some_iff] at hadd
      obtain ⟨⟨t₁, claimed⟩, happend, hadd⟩ := hadd
      simp only [appendBucket, Option.bind_eq_bind,
        Option.bind_eq_some_iff, modifyBucket_eq_some_iff] at happend
      obtain ⟨⟨t₂, bucket⟩, hbucket, tail, hlast, t₃, ⟨hvalid, rfl⟩,
        happend⟩ := happend
      cases bucket with
      | some p =>
          simp only [Option.some.injEq, Prod.mk.injEq] at happend
          obtain ⟨rfl, rfl⟩ := happend
          simp [Option.bind_eq_some_iff] at hadd
      | none =>
          simp only [Option.some.injEq, Prod.mk.injEq] at happend
          obtain ⟨rfl, rfl⟩ := happend
          simp only [Option.some.injEq, Prod.mk.injEq, and_true] at hadd
          have hsame : t₂ = t := ftAddBucket_null hbucket
          rw [hsame] at hvalid
          refine ⟨tail, hfull, hlast, hvalid, ?_⟩
          rw [← hadd, hsame]
          simp only [cut, lose, setBucket, mk.injEq, true_and, and_true]
          funext c
          by_cases hc : c = t.chainIndex hash
          · simp [hc]
          · simp [hc]

/-- `ft_add` returns NULL only when `calloc` does. -/
theorem ftAdd_failed {alloc : Option Nat} {hash : BitVec 32}
    {keyData : KeyData} {color : BitVec 16}
    (hadd : t.ftAdd alloc hash keyData color = some (t', none)) :
    ∃ tail, t.last (t.chainIndex hash) = some tail ∧
      t' = (t.cut tail).lose fun c => decide (c = t.chainIndex hash) := by
  obtain ⟨tail, hfailed⟩ := ftAdd_addFailed hadd
  exact ⟨tail, hfailed.last, hfailed.eq⟩

section Cut

variable {tail : BucketPtr}

@[simp] theorem cut_valid (p : BucketPtr) :
    (t.cut tail).valid p = t.valid p :=
  setBucket_valid tail p _

theorem cut_fields (p : BucketPtr) :
    ((t.cut tail).mem p).parent = (t.mem p).parent ∧
      ((t.cut tail).mem p).prev = (t.mem p).prev ∧
      ((t.cut tail).mem p).flags = (t.mem p).flags ∧
      ((t.cut tail).mem p).unused = (t.mem p).unused ∧
      ((t.cut tail).mem p).entries = (t.mem p).entries := by
  by_cases hp : p = tail
  · subst hp
    simp [cut]
  · simp [cut, hp]

theorem cut_next_self : (t.cut tail).nextOf tail = none := by
  simp [cut, nextOf]

theorem cut_next_ne {p : BucketPtr} (hp : p ≠ tail) :
    (t.cut tail).nextOf p = t.nextOf p := by
  simp [cut, nextOf, hp]

theorem cut_used (e : EntryPtr) : (t.cut tail).Used e ↔ t.Used e := by
  rw [Used, Used, cut_valid, (cut_fields e.bucket).2.2.2.1]
  exact Iff.rfl

theorem cut_entry (e : EntryPtr) : (t.cut tail).entry e = t.entry e := by
  rw [FlowTable.entry, FlowTable.entry, (cut_fields e.bucket).2.2.2.2]

theorem cut_content (e : EntryPtr) :
    (t.cut tail).content e = t.content e := by
  rw [content, content, cut_valid, cut_entry]

/-- The buckets behind `tail` are no longer in the chain. -/
theorem ChainList.cut {c : Nat} {front rest : List BucketPtr}
    (hlist : ChainList t c front tail rest) :
    ChainList (t.cut tail) c front tail [] := by
  have hkept : ∀ p ∈ front ++ [tail], p ∈ front ++ tail :: rest := by
    intro p hp
    simp only [List.mem_append, List.mem_singleton] at hp
    simp only [List.mem_append, List.mem_cons]
    tauto
  have hnodup : (front ++ [tail]).Nodup := by
    have hsub : (front ++ [tail]).Sublist (front ++ tail :: rest) := by
      apply List.Sublist.append_left
      simp
    exact hlist.nodup.sublist hsub
  have hseg := hlist.seg
  rw [List.append_cons, seg_append] at hseg
  constructor
  · have hhead := hlist.head
    cases front <;> simpa using hhead
  · exact hnodup
  · apply hseg.1.setAfter hnodup
    · intro p hp
      simp only [List.getLast?_append, List.getLast?_singleton,
        Option.some_or, Option.some.injEq] at hp
      rw [← hp, cut_next_self]
    · intro p _ hnotLast
      apply cut_next_ne
      rintro rfl
      simp at hnotLast
    · exact fun p _ => (cut_fields p).2.1
  · intro p hp
    rw [cut_valid]
    exact hlist.valid p (hkept p hp)
  · intro p hp
    rw [parentOf, (cut_fields p).1]
    exact hlist.parent p (hkept p hp)
  · exact hlist.last
  · simp
  · intro p hp hparent hdyn
    rw [cut_valid] at hp
    rw [parentOf, (cut_fields p).1] at hparent
    rw [Dynamic, (cut_fields p).2.2.1] at hdyn
    exact hlist.dynamic p hp hparent hdyn

theorem TableInv.cut (hinv : TableInv t) {c : Nat} (hc : c < t.tableSize)
    (hlast : t.last c = some tail) : TableInv (t.cut tail) := by
  have htail := (hinv.last_valid hc hlast).2
  refine ⟨⟨hinv.table, hinv.pos, hinv.le⟩, ?_, ?_, ?_, ?_, ?_, ?_⟩
  · intro d hd
    obtain ⟨front, tail', rest, hlist⟩ := hinv.chains d hd
    by_cases heq : d = c
    · subst heq
      have hsame := hlist.last
      rw [hlast, Option.some.injEq] at hsame
      subst hsame
      exact ⟨front, tail, [], hlist.cut⟩
    · refine ⟨front, tail', rest, hlist.congr rfl ?_ ?_ ?_⟩
      · intro p _ hp
        rw [cut_valid]
        exact hp
      · intro p _ hparent
        have hne : p ≠ tail := by
          rintro rfl
          exact heq (hparent.symm.trans htail)
        obtain ⟨hpar, hprev, hflags, -⟩ := @cut_fields t tail p
        refine ⟨cut_next_ne hne, hprev, hpar, ?_⟩
        rw [Dynamic, Dynamic, hflags]
      · intro p hp hparent
        rw [cut_valid] at hp
        rw [parentOf, (cut_fields p).1] at hparent
        exact ⟨hp, hparent⟩
  · intro p hp
    rw [cut_valid] at hp
    rw [parentOf, (cut_fields p).1]
    exact hinv.parent_lt p hp
  · intro d hd
    rw [parentOf, (cut_fields _).1]
    exact hinv.firstParent d hd
  · intro d hd
    rw [Dynamic, (cut_fields _).2.2.1]
    exact hinv.firstStatic d hd
  · intro p hp
    rw [cut_valid] at hp
    rw [(cut_fields p).2.2.1]
    exact hinv.notToFree p hp
  · exact hinv.heapNodup

theorem LiveInv.cut {s : Calls} (hinv : LiveInv s) {c : Nat}
    (hc : c < s.table.tableSize) (hlast : s.table.last c = some tail) :
    LiveInv ⟨s.table.cut tail, s.live⟩ where
  table := hinv.table.cut hc hlast
  slots := fun e => by
    rw [cut_content]
    exact hinv.slots e
  nodup := hinv.nodup
  used := fun e he => (cut_used e).mpr (hinv.used e he)
  own := fun e he => by
    rw [cut_entry]
    exact hinv.own e he
  parent := fun e he => by
    rw [cut_entry, parentOf, (cut_fields e.bucket).1]
    exact hinv.parent e he

end Cut

end FlowTable

end Ntnetflow

end NtapiExamples
