/-
Every section of `ft_add` and `ft_remove` keeps the chains, the marks, the walks
and the slots in order.
-/
import NtapiExamples.Ntnetflow.BucketFreeing
import NtapiExamples.Ntnetflow.FlowTableInterleave

namespace NtapiExamples

namespace Ntnetflow

namespace FlowTable

variable {t t' : FlowTable} {e : EntryPtr} {p : BucketPtr}

theorem SameLinks.toFree (hsame : SameLinks t t') :
    t'.ToFree p ↔ t.ToFree p := by
  rw [ToFree, hsame.flags]
  exact Iff.rfl

theorem SameLinks.used (hsame : SameLinks t t')
    (hunused : ∀ q, (t'.mem q).unused = (t.mem q).unused) :
    t'.Used e ↔ t.Used e := by
  rw [Used, hsame.valid, hsame.bucketSize, hunused]
  exact Iff.rfl

theorem MarkPart.sameLinks {pc : Nat → TablePc} (hpart : MarkPart t pc)
    (hsame : SameLinks t t')
    (hunused : ∀ q, (t'.mem q).unused = (t.mem q).unused) :
    MarkPart t' pc := by
  apply hpart.table hsame.bucketSize
  · exact fun q hq _ => ⟨(hsame.valid q).trans hq, hsame.flags q, hunused q⟩
  · intro q hq hmarked
    exact ⟨(hsame.valid q).symm.trans hq, hsame.toFree.mp hmarked⟩

theorem kept_of_mem {q : BucketPtr} {slot : Nat}
    (hvalid : t'.valid q = t.valid q)
    (hbucket : t'.bucketSize = t.bucketSize)
    (hunused : (t'.mem q).unused.getLsbD slot =
      (t.mem q).unused.getLsbD slot)
    (hentry : ((t'.mem q).entries slot).bucket =
        ((t.mem q).entries slot).bucket ∧
      ((t'.mem q).entries slot).index = ((t.mem q).entries slot).index)
    (hused : t.Used ⟨q, slot⟩) : Kept t t' ⟨q, slot⟩ := by
  refine ⟨?_, hentry.1, hentry.2⟩
  rw [Used, hvalid, hbucket]
  exact ⟨hused.1, hused.2.1, hunused.trans hused.2.2⟩

theorem claimSlot_index (p : BucketPtr) :
    ((t.claimSlot p).1.entry (t.claimSlot p).2).index =
      (t.claimSlot p).2.slot := by
  simp [claimSlot, entry]

section Claim

variable (hsize : SizeOk t) (hfree : t.hasUnused (t.mem p) = true)

theorem claimSlot_sameLinks : SameLinks t (t.claimSlot p).1 :=
  sameLinks_update rfl rfl rfl rfl

include hsize hfree

theorem claimSlot_fresh : ¬ t.Used (t.claimSlot p).2 := by
  rintro ⟨-, -, hclear⟩
  have hset := (lowest_of_hasUnused hsize hfree).2.1
  simp only [claimSlot] at hclear
  rw [hset] at hclear
  simp at hclear

theorem claimSlot_used (hvalid : t.valid p = true) :
    (t.claimSlot p).1.Used (t.claimSlot p).2 := by
  have hlt := (lowest_of_hasUnused hsize hfree).1
  refine ⟨?_, hlt, ?_⟩
  · rw [claimSlot_sameLinks.valid]
    exact hvalid
  · simp only [claimSlot, setBucket_mem, Function.update_self]
    rw [getLsbD_claimed hsize hfree]
    simp

omit hsize in
theorem hasUnused_not_toFree : ¬ t.ToFree p := by
  intro hmarked
  simp only [hasUnused, Bool.and_eq_true, Bool.not_eq_true',
    BUCKET_TO_FREE, test_bit] at hfree
  rw [ToFree, hfree.1] at hmarked
  simp at hmarked

/-- Only the claimed slot becomes used. -/
theorem claimSlot_claims (hvalid : t.valid p = true) (hnot : ¬ t.Used e)
    (hused : (t.claimSlot p).1.Used e) : ¬ t.ToFree e.bucket := by
  have he : e = (t.claimSlot p).2 := by
    by_contra hne
    exact hnot ((claimSlot_recycled hsize hvalid hfree).kept e
      (fun h => hne (Option.some.inj h)) hused).1
  rw [he]
  exact hasUnused_not_toFree hfree

theorem claimSlot_kept (hused : t.Used e) :
    Kept t (t.claimSlot p).1 e := by
  have hne : e ≠ (t.claimSlot p).2 := by
    rintro rfl
    exact claimSlot_fresh hsize hfree hused
  obtain ⟨q, slot⟩ := e
  by_cases hq : q = p
  · subst hq
    have hslot : slot ≠ ctz ((t.mem q).unused.setWidth 32) := by
      rintro rfl
      exact hne rfl
    apply kept_of_mem (claimSlot_sameLinks.valid q) rfl _ _ hused
    · simp only [claimSlot, setBucket_mem, Function.update_self]
      rw [getLsbD_claimed hsize hfree]
      simp [hslot]
    · simp [claimSlot, Function.update_of_ne hslot]
  · apply kept_of_mem (claimSlot_sameLinks.valid q) rfl _ _ hused
    · simp only [claimSlot, setBucket_mem, Function.update_of_ne hq]
    · simp [claimSlot, Function.update_of_ne hq]

omit hsize in
theorem claimSlot_marks {pc : Nat → TablePc} (hpart : MarkPart t pc) :
    MarkPart (t.claimSlot p).1 pc := by
  have hnot := hasUnused_not_toFree hfree
  have hsame := @claimSlot_sameLinks t p
  apply hpart.table hsame.bucketSize
  · intro q hq hmarked
    have hne : q ≠ p := by
      rintro rfl
      exact hnot hmarked
    refine ⟨(hsame.valid q).trans hq, hsame.flags q, ?_⟩
    simp only [claimSlot, setBucket_mem, Function.update_of_ne hne]
  · intro q hq hmarked
    exact ⟨(hsame.valid q).symm.trans hq, hsame.toFree.mp hmarked⟩

end Claim

theorem Kept.trans {t'' : FlowTable} (hfirst : Kept t t' e)
    (hsecond : Kept t' t'' e) : Kept t t'' e where
  used := hsecond.used
  bucket := hsecond.bucket.trans hfirst.bucket
  index := hsecond.index.trans hfirst.index

theorem statsUpdate_kept (stat : Stat) (value : Int) (hused : t.Used e) :
    Kept t (t.statsUpdate stat value) e := by
  refine ⟨⟨?_, hused.2.1, hused.2.2⟩, rfl, rfl⟩
  rw [statsUpdate_valid]
  exact hused.1

theorem finishRemove_sameLinks : SameLinks t t.finishRemove :=
  ⟨rfl, rfl, rfl, rfl, fun _ => rfl, fun _ => rfl, fun _ => rfl,
    fun _ => rfl⟩

theorem finishRemove_kept (hused : t.Used e) : Kept t t.finishRemove e :=
  (statsUpdate_kept .unlearn 1 hused).trans
    (statsUpdate_kept .flow (-1) (statsUpdate_kept .unlearn 1 hused).used)

theorem finishRemove_used : t.finishRemove.Used e ↔ t.Used e :=
  finishRemove_sameLinks.used fun _ => rfl

/-- Writes through an entry pointer that keep the slot of the entry. -/
theorem setEntry_kept {entry : FlowEntry} {e' : EntryPtr}
    (hindex : entry.index = (t.entry e).index)
    (hbucket : e' = e → entry.bucket = (t.entry e).bucket)
    (hused : t.Used e') : Kept t (t.setEntry e entry) e' := by
  refine ⟨(setEntry_used e e' entry).mpr hused, ?_, ?_⟩
  · rw [setEntry_entry]
    split
    case isTrue h =>
      rw [hbucket h, h]
    case isFalse => rfl
  · rw [setEntry_entry]
    split
    case isTrue h => rw [hindex, h]
    case isFalse => rfl

/-- What `ft_add` does last keeps the slots. -/
theorem finishAdd_kept {e' : EntryPtr} (hfinish : t.finishAdd e = some t')
    (hused : t.Used e') : Kept t t' e' := by
  rw [finishAdd, ftRef, modifyEntry_eq_some_iff] at hfinish
  obtain ⟨-, rfl⟩ := hfinish
  have hlearn := statsUpdate_kept .learn 1 hused
  have hflow := statsUpdate_kept .flow 1 hlearn.used
  exact (hlearn.trans hflow).trans (setEntry_kept rfl (fun _ => rfl) hflow.used)

theorem finishAdd_sameLinks (hfinish : t.finishAdd e = some t') :
    SameLinks t t' ∧ ∀ q, (t'.mem q).unused = (t.mem q).unused := by
  rw [finishAdd, ftRef, modifyEntry_eq_some_iff] at hfinish
  obtain ⟨-, rfl⟩ := hfinish
  exact ⟨sameLinks_update rfl rfl rfl rfl, setEntry_unused _ _⟩

theorem releaseSlot_dynamic (b : FlowBucket) (index : Nat) :
    (t.releaseSlot b index).1.flags.getLsbD 0 = b.flags.getLsbD 0 := by
  simp only [releaseSlot]
  split
  · rw [BitVec.getLsbD_or, BUCKET_TO_FREE, getLsbD_bit]
    simp
  · rfl

/-- `releaseSlot` marks the bucket exactly when it says so. -/
theorem releaseSlot_marked {b : FlowBucket} {index : Nat}
    (hfree : (t.releaseSlot b index).2 = true) :
    (t.releaseSlot b index).1.flags.getLsbD 1 = true := by
  have hflags : (t.releaseSlot b index).1.flags =
      if (t.releaseSlot b index).2 then b.flags ||| BUCKET_TO_FREE
      else b.flags := rfl
  rw [hflags, if_pos hfree, BitVec.getLsbD_or, BUCKET_TO_FREE, getLsbD_bit]
  simp

theorem releaseSlot_sameChain (p : BucketPtr) (index : Nat) :
    SameChain t (t.setBucket p (t.releaseSlot (t.mem p) index).1) := by
  have hfield : ∀ {β : Type} (f : FlowBucket → β),
      f (t.releaseSlot (t.mem p) index).1 = f (t.mem p) → ∀ q,
        f (Function.update t.mem p (t.releaseSlot (t.mem p) index).1 q) =
          f (t.mem q) := by
    intro β f hf q
    by_cases hq : q = p
    · rw [hq, Function.update_self, hf]
    · rw [Function.update_of_ne hq]
  refine ⟨rfl, rfl, rfl, rfl, hfield FlowBucket.next rfl,
    hfield FlowBucket.prev rfl, hfield FlowBucket.parent rfl, fun q => ?_⟩
  have hbit := hfield (fun b => b.flags.getLsbD 0)
    (releaseSlot_dynamic (t.mem p) index) q
  rw [Dynamic, Dynamic]
  exact iff_of_eq (congrArg (· = true) hbit)

theorem releaseSlot_kept {e' : EntryPtr} (hsize : SizeOk t)
    (hlt : e.slot < t.bucketSize) (hne : e' ≠ e) (hused : t.Used e') :
    Kept t (t.setBucket e.bucket
      (t.releaseSlot (t.mem e.bucket) e.slot).1) e' := by
  have hle := hsize.le
  obtain ⟨q, slot⟩ := e'
  have hvalid : (t.setBucket e.bucket
      (t.releaseSlot (t.mem e.bucket) e.slot).1).valid q = t.valid q := by
    rw [setBucket_valid]
  by_cases hq : q = e.bucket
  · subst hq
    have hslot : slot ≠ e.slot := by
      rintro rfl
      exact hne rfl
    apply kept_of_mem hvalid rfl _ _ hused
    · have hslotLt := hused.2.1
      simp only at hslotLt
      rw [setBucket_mem, Function.update_self,
        getLsbD_released (by omega) (by omega)]
      simp [hslot]
    · rw [setBucket_mem, Function.update_self, releaseSlot_entries]
      exact ⟨rfl, rfl⟩
  · apply kept_of_mem hvalid rfl _ _ hused
    · rw [setBucket_mem, Function.update_of_ne hq]
    · rw [setBucket_mem, Function.update_of_ne hq]
      exact ⟨rfl, rfl⟩

theorem releaseSlot_flags {index : Nat}
    (hkeep : (t.releaseSlot (t.mem p) index).2 = false) (q : BucketPtr) :
    ((t.setBucket p (t.releaseSlot (t.mem p) index).1).mem q).flags =
      (t.mem q).flags := by
  by_cases hq : q = p
  · rw [hq, setBucket_mem, Function.update_self, releaseSlot_keep_flags hkeep]
  · rw [setBucket_mem, Function.update_of_ne hq]

theorem releaseSlot_marks {pc : Nat → TablePc} (hpart : MarkPart t pc)
    (hused : t.Used e)
    (hkeep : (t.releaseSlot (t.mem e.bucket) e.slot).2 = false) :
    MarkPart (t.setBucket e.bucket
      (t.releaseSlot (t.mem e.bucket) e.slot).1) pc := by
  have hnot := hpart.not_toFree hused
  have hflags := @releaseSlot_flags t _ _ hkeep
  refine hpart.table ?_ ?_ ?_
  · rfl
  · intro q hq hmarked
    have hne : q ≠ e.bucket := by
      rintro rfl
      exact hnot hmarked
    refine ⟨by rwa [setBucket_valid], hflags q, ?_⟩
    rw [setBucket_mem, Function.update_of_ne hne]
  · intro q hq hmarked
    rw [setBucket_valid] at hq
    rw [ToFree, hflags] at hmarked
    exact ⟨hq, hmarked⟩

theorem releaseSlot_mark {pc : Nat → TablePc} {thread : Nat}
    (hsize : SizeOk t) (hpart : MarkPart t pc) (hused : t.Used e)
    (hfree : (t.releaseSlot (t.mem e.bucket) e.slot).2 = true)
    (hpc : frees (pc thread) = none) :
    MarkPart (t.setBucket e.bucket
      (t.releaseSlot (t.mem e.bucket) e.slot).1)
        (Function.update pc thread (.removeUnlink e.bucket)) := by
  obtain ⟨hdynamic, hunused⟩ := releaseSlot_toFree hsize hfree
  apply hpart.mark
  · rw [setBucket_valid]
    exact hused.1
  · rw [(releaseSlot_sameChain e.bucket e.slot).dynamic]
    exact hdynamic
  · rfl
  · rw [ToFree, setBucket_mem, Function.update_self]
    exact releaseSlot_marked hfree
  · exact hpart.not_toFree hused
  · intro slot hslot
    rw [setBucket_mem, Function.update_self]
    exact hunused slot hslot
  · intro q hq
    rw [setBucket_valid, setBucket_mem, Function.update_of_ne hq]
    exact ⟨rfl, rfl⟩
  · exact hpc

/-- Unlinking a bucket only changes links. -/
theorem unlink_kept (hunlink : t.unlinkBucket p = some t')
    (hused : t.Used e) : Kept t t' e := by
  obtain ⟨-, -, rfl⟩ := unlinkBucket_eq_some hunlink
  refine ⟨⟨?_, hused.2.1, hused.2.2⟩, rfl, rfl⟩
  have hvalid := hused.1
  cases hb : e.bucket <;> rw [hb] at hvalid <;> exact hvalid

theorem unlink_fields (hunlink : t.unlinkBucket p = some t')
    (q : BucketPtr) :
    t'.valid q = t.valid q ∧ t'.parentOf q = t.parentOf q ∧
      (t'.mem q).flags = (t.mem q).flags ∧
      (t'.mem q).unused = (t.mem q).unused := by
  obtain ⟨-, -, rfl⟩ := unlinkBucket_eq_some hunlink
  refine ⟨?_, rfl, rfl, rfl⟩
  cases q <;> rfl

theorem unlink_sizes (hunlink : t.unlinkBucket p = some t') :
    t'.tableSize = t.tableSize ∧ t'.bucketSize = t.bucketSize := by
  obtain ⟨-, -, rfl⟩ := unlinkBucket_eq_some hunlink
  exact ⟨rfl, rfl⟩

theorem unlink_marks {pc : Nat → TablePc} (hpart : MarkPart t pc)
    (hunlink : t.unlinkBucket p = some t') : MarkPart t' pc := by
  apply hpart.table (unlink_sizes hunlink).2
  · intro q hq _
    obtain ⟨hvalid, -, hflags, hunused⟩ := unlink_fields hunlink q
    exact ⟨hvalid.trans hq, hflags, hunused⟩
  · intro q hq hmarked
    obtain ⟨hvalid, -, hflags, -⟩ := unlink_fields hunlink q
    rw [hvalid] at hq
    rw [ToFree, hflags] at hmarked
    exact ⟨hq, hmarked⟩

/-- The section of `ft_add` under the write lock of the chain. -/
theorem appendBucket_cases {alloc : Option Nat} {c : Nat}
    {added : Option EntryPtr}
    (hvalid : ∀ tail, t.last c = some tail → t.valid tail = true)
    (happend : t.appendBucket alloc c = some (t', added)) :
    ∃ tail, t.last c = some tail ∧
      ((alloc = none ∧ added = none ∧
        t' = { t.cut tail with last := Function.update t.last c none }) ∨
      ∃ addr, alloc = some addr ∧ added = some ⟨.heap addr, 0⟩ ∧
        Grown t t' addr tail { appendedBucket c tail with
          entries := Function.update (fun _ => FlowEntry.zero) 0
            FlowEntry.zero } ∧
        t'.bucketSize = t.bucketSize ∧
        t'.last = Function.update t.last c (some (.heap addr))) := by
  simp only [appendBucket, Option.bind_eq_bind,
    Option.bind_eq_some_iff, modifyBucket_eq_some_iff] at happend
  obtain ⟨⟨t₁, bucket⟩, hbucket, tail, hlast, t₂, ⟨-, rfl⟩, happend⟩ :=
    happend
  have htail := hvalid tail hlast
  rw [hlast] at hbucket
  refine ⟨tail, hlast, ?_⟩
  rcases ftAddBucket_eq_some hbucket htail with
    ⟨halloc, hnone⟩ | ⟨addr, halloc, hfresh, heq⟩
  · simp only [Prod.mk.injEq] at hnone
    obtain ⟨rfl, rfl⟩ := hnone
    simp only [Option.some.injEq, Prod.mk.injEq] at happend
    obtain ⟨rfl, rfl⟩ := happend
    exact Or.inl ⟨halloc, rfl, rfl⟩
  · simp only [Prod.mk.injEq] at heq
    obtain ⟨rfl, rfl⟩ := heq
    simp only [Option.some.injEq, Prod.mk.injEq] at happend
    obtain ⟨rfl, rfl⟩ := happend
    have hne : tail ≠ .heap addr := by
      rintro rfl
      simp [valid, hfresh] at htail
    refine Or.inr ⟨addr, halloc, rfl, ⟨htail, hfresh, rfl, rfl, rfl, rfl, ?_⟩,
      rfl, rfl⟩
    simp only [setBucket, Function.update_self, ne_eq, Ne.symm hne,
      not_false_eq_true, Function.update_of_ne, Function.update_idem]
    rw [Function.update_comm hne, Function.update_idem]
    rfl

section Append

variable {addr c : Nat} {tail : BucketPtr} {pc : Nat → TablePc}
  (hgrown : Grown t t' addr tail { appendedBucket c tail with
    entries := Function.update (fun _ => FlowEntry.zero) 0 FlowEntry.zero })
  (hbucket : t'.bucketSize = t.bucketSize)

include hgrown hbucket

theorem grown_kept (hused : t.Used e) : Kept t t' e := by
  obtain ⟨q, slot⟩ := e
  have hne := hgrown.ne_new hused.1
  obtain ⟨-, -, -, hunused, hentries⟩ := hgrown.fields_old hne
  have hvalid : t'.valid q = t.valid q := by
    rw [Bool.eq_iff_iff, hgrown.valid_iff]
    simp [hne]
  apply kept_of_mem hvalid hbucket _ _ hused
  · rw [hunused]
  · rw [hentries]
    exact ⟨rfl, rfl⟩

theorem grown_used (hpos : 0 < t.bucketSize) :
    t'.Used ⟨.heap addr, 0⟩ ∧ (t'.entry ⟨.heap addr, 0⟩).index = 0 := by
  refine ⟨⟨(hgrown.valid_iff _).mpr (Or.inl rfl), ?_, ?_⟩, ?_⟩
  · rw [hbucket]
    exact hpos
  · rw [hgrown.mem_new]
    change (~~~1#64).getLsbD 0 = false
    decide
  · rw [FlowTable.entry, hgrown.mem_new]
    rfl

theorem grown_marks (hpart : MarkPart t pc) : MarkPart t' pc := by
  apply hpart.table hbucket
  · intro q hq _
    have hne := hgrown.ne_new hq
    obtain ⟨-, -, hflags, hunused, -⟩ := hgrown.fields_old hne
    exact ⟨(hgrown.valid_iff q).mpr (Or.inr hq), hflags, hunused⟩
  · intro q hq hmarked
    by_cases hnew : q = .heap addr
    · rw [hnew, ToFree, hgrown.mem_new] at hmarked
      change BUCKET_DYNAMIC.getLsbD 1 = true at hmarked
      exact absurd hmarked (by decide)
    · rw [ToFree, (hgrown.fields_old hnew).2.2.1] at hmarked
      rw [hgrown.valid_iff] at hq
      exact ⟨hq.resolve_left hnew, hmarked⟩

end Append

end FlowTable

end Ntnetflow

end NtapiExamples
