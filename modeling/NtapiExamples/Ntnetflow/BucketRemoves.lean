/-
The sections of `ft_remove`: what unlinking and freeing a bucket leaves to the
other threads.
-/
import NtapiExamples.Ntnetflow.BucketRuns

namespace NtapiExamples

namespace Ntnetflow

namespace FlowTable

variable {s s' : BucketThreads} {thread : Nat}

theorem BucketInv.remove (hinv : BucketInv s) {e : EntryPtr}
    (hstep : bucketStep s (.remove thread e) = some s') :
    BucketInv s' ∧ SectionOk s s' := by
  simp only [bucketStep, BucketThreads.remove] at hstep
  split at hstep
  case h_2 => simp at hstep
  case h_1 hpc =>
    split at hstep
    case isFalse => simp at hstep
    case isTrue he =>
      rw [Option.some.injEq] at hstep
      subst hstep
      have hold := @ne_removeFree (s.pc thread) (by rw [hpc]; rfl)
      refine hinv.goto rfl rfl rfl hold (ne_removeFree rfl) (by rw [hpc]; rfl) ?_
        (hinv.hold.remove he)
      exact hinv.walk.setPc hold (ne_removeFree rfl) (by rw [hpc]; rfl)

/-- The entry of a thread in `ft_remove` leads to its own bucket. -/
theorem BucketInv.own (hinv : BucketInv s) {e : EntryPtr}
    (hholds : holds (s.pc thread) = some e)
    (hpc : ∀ args, s.pc thread ≠ .addInit args e) {p : BucketPtr}
    (hbucket : ((s.table.mem e.bucket).entries e.slot).bucket = some p) :
    p = e.bucket := by
  have hown := (hinv.hold.held thread e hholds).own hpc
  exact Option.some.inj (hbucket.symm.trans hown)

theorem BucketInv.removeCheck (hinv : BucketInv s)
    (hstep : bucketStep s (.removeCheck thread) = some s') :
    BucketInv s' ∧ SectionOk s s' := by
  simp only [bucketStep, BucketThreads.withThreads,
    Option.map_eq_some_iff, Threads.stepRemoveCheck] at hstep
  obtain ⟨threads, hcheck, rfl⟩ := hstep
  split at hcheck
  case h_2 => simp at hcheck
  case h_1 e hpc =>
    simp only [Option.bind_eq_bind, Option.bind_eq_some_iff,
      deref_eq_some_iff, Option.some.injEq] at hcheck
    obtain ⟨_, ⟨-, rfl⟩, p, hbucket, _, ⟨-, rfl⟩, rfl⟩ := hcheck
    have hpc' : s.pc thread = .removeCheck e := hpc
    have hholds : holds (s.pc thread) = some e := by rw [hpc']; rfl
    have hnotInit : ∀ args, s.pc thread ≠ .addInit args e := by simp [hpc']
    have hold := @ne_removeFree (s.pc thread) (by rw [hpc']; rfl)
    have hp := hinv.own hholds hnotInit hbucket
    split
    case isTrue =>
      refine hinv.goto rfl rfl rfl hold (ne_removeFree rfl)
        (by rw [hpc']; rfl) ?_ (hinv.hold.drop rfl)
      exact hinv.walk.setPc hold (ne_removeFree rfl) (by rw [hpc']; rfl)
    case isFalse =>
      refine hinv.goto rfl rfl rfl hold (ne_removeFree rfl)
        (by rw [hpc']; rfl) ?_ (hinv.hold.keep hholds rfl ?_ ?_)
      · exact hinv.walk.setPc hold (ne_removeFree rfl) (by rw [hpc']; rfl)
      · exact fun _ => (hinv.hold.held thread e hholds).own hnotInit
      · intro q hq
        rw [← (TablePc.removeMark.inj hq).2, hp]

theorem releaseSlot_used_before {t : FlowTable} {p : BucketPtr} {index : Nat}
    {e : EntryPtr}
    (hused : (t.setBucket p (t.releaseSlot (t.mem p) index).1).Used e) :
    t.Used e := by
  obtain ⟨hvalid, hlt, hclear⟩ := hused
  rw [setBucket_valid] at hvalid
  refine ⟨hvalid, hlt, ?_⟩
  by_cases hp : e.bucket = p
  · rw [setBucket_mem, hp, Function.update_self] at hclear
    rw [hp]
    by_contra hset
    rw [releaseSlot_unused (Bool.eq_true_of_not_eq_false hset)] at hclear
    simp at hclear
  · rwa [setBucket_mem, Function.update_of_ne hp] at hclear

/-- The slot is given back; the last one of a bucket marks it. -/
theorem BucketInv.removeMark (hinv : BucketInv s)
    (hstep : bucketStep s (.removeMark thread) = some s') :
    BucketInv s' ∧ SectionOk s s' := by
  simp only [bucketStep, BucketThreads.withThreads,
    Option.map_eq_some_iff, Threads.stepRemoveMark] at hstep
  obtain ⟨threads, hmark, rfl⟩ := hstep
  split at hmark
  case h_2 => simp at hmark
  case h_1 e p hpc =>
    simp only [Option.bind_eq_bind, Option.bind_eq_some_iff,
      deref_eq_some_iff, Option.some.injEq] at hmark
    obtain ⟨_, ⟨-, rfl⟩, _, ⟨-, rfl⟩, hthreads⟩ := hmark
    have hpc' : s.pc thread = .removeMark e p := hpc
    have hholds : holds (s.pc thread) = some e := by rw [hpc']; rfl
    have hholding := hinv.hold.held thread e hholds
    have hp : p = e.bucket := hholding.mark p hpc'
    subst hp
    have hindex : ((s.threads.table.mem e.bucket).entries e.slot).index =
        e.slot := hholding.index
    rw [hindex] at hthreads
    have hsize := hinv.chain.toSizeOk
    have hused := hholding.used
    have hfrees : frees (s.pc thread) = none := by rw [hpc']; rfl
    have hold := @ne_removeFree (s.pc thread) (by rw [hpc']; rfl)
    have hchain := @releaseSlot_sameChain s.table e.bucket e.slot
    split at hthreads
    case isTrue hfree =>
      subst hthreads
      refine hinv.write hchain rfl rfl rfl hold (fun _ => by simp)
        (by rw [hpc']; rfl) ?_ ?_ ?_ ?_
      · exact releaseSlot_mark hsize hinv.mark hused hfree hfrees
      · exact hinv.hold.leave hholds rfl fun e' hne =>
          releaseSlot_kept hsize hused.2.1 hne
      · exact fun e' => releaseSlot_used_before
      · intro q hmarked
        by_cases hq : q = e.bucket
        · exact Or.inr (by rw [hq]; exact Function.update_self ..)
        · refine Or.inl ?_
          change ToFree (s.table.setBucket _ _) q at hmarked
          rwa [ToFree, setBucket_mem, Function.update_of_ne hq] at hmarked
    case isFalse hkeep =>
      subst hthreads
      have hkeep : (s.table.releaseSlot (s.table.mem e.bucket) e.slot).2 =
          false := Bool.eq_false_iff.mpr hkeep
      have hkept : ∀ e', e' ≠ e → s.table.Used e' → Kept s.table
          (s.table.setBucket e.bucket
            (s.table.releaseSlot (s.table.mem e.bucket) e.slot).1).finishRemove
          e' := by
        intro e' hne hused'
        have hrelease := releaseSlot_kept hsize hused.2.1 hne hused'
        exact hrelease.trans (finishRemove_kept hrelease.used)
      refine hinv.write (hchain.trans finishRemove_sameLinks.sameChain)
        rfl rfl rfl hold (ne_removeFree rfl) (by rw [hpc']; rfl) ?_
        (hinv.hold.leave hholds rfl hkept) ?_ ?_
      · exact ((releaseSlot_marks hinv.mark hused hkeep).sameLinks
          finishRemove_sameLinks fun _ => rfl).setPc (by rw [hfrees]; rfl)
      · exact fun e' hused' =>
          releaseSlot_used_before (finishRemove_used.mp hused')
      · intro q hmarked
        refine Or.inl ?_
        exact (congrArg (fun f => BitVec.getLsbD f 1)
          (releaseSlot_flags hkeep q)).symm.trans hmarked

/-- A bucket stays linked from the mark to the unlink. -/
theorem BucketInv.marked_linked (hinv : BucketInv s) {p : BucketPtr}
    (hpc : s.pc thread = .removeUnlink p) : Linked s.table s.pc p := by
  have hfrees : frees (s.pc thread) = some p := by rw [hpc]; rfl
  refine ⟨(hinv.mark.freed thread p hfrees).1, fun other h => ?_⟩
  have hother := hinv.mark.one other thread p (by rw [h]; rfl) hfrees
  rw [hother, hpc] at h
  simp at h

/-- A marked bucket is not in the walks of a chain without readers. -/
theorem BucketInv.removeUnlink (hinv : BucketInv s)
    (hstep : bucketStep s (.removeUnlink thread) = some s') :
    BucketInv s' ∧ SectionOk s s' := by
  simp only [bucketStep, BucketThreads.withThreads,
    Option.map_eq_some_iff, Threads.stepRemoveUnlink] at hstep
  obtain ⟨threads, hunlink, rfl⟩ := hstep
  split at hunlink
  case h_2 => simp at hunlink
  case h_1 p hpc =>
    simp only [Option.bind_eq_bind, Option.bind_eq_some_iff,
      deref_eq_some_iff] at hunlink
    obtain ⟨_, ⟨hvalid, rfl⟩, hunlink⟩ := hunlink
    split at hunlink
    case isFalse => simp at hunlink
    case isTrue hreaders =>
      simp only [Option.map_eq_some_iff] at hunlink
      obtain ⟨t', hunlink, rfl⟩ := hunlink
      have hpc' : s.pc thread = .removeUnlink p := hpc
      have hfrees : frees (s.pc thread) = some p := by rw [hpc']; rfl
      obtain ⟨hp, -, hdynamic⟩ := hinv.mark.freed thread p hfrees
      have hold : ∀ q, s.pc thread ≠ .removeFree q := by simp [hpc']
      have hlinked := hinv.marked_linked hpc'
      have hfirst : ∀ c, p ≠ .first c := by
        rintro c rfl
        exact hinv.chain.firstStatic c (by simpa [valid] using hp) hdynamic
      have hfields := @unlink_fields s.table t' p hunlink
      have hwalker : ∀ other, walker (Function.update s.pc thread
          (.removeFree p) other) = walker (s.pc other) :=
        walker_update (by rw [hpc']; rfl)
      have hlinked' : ∀ q, Linked t'
          (Function.update s.pc thread (.removeFree p)) q ↔
            Linked s.table s.pc q ∧ q ≠ p := by
        intro q
        rw [← linked_unlink hold, Linked, (hfields q).1]
        exact Iff.rfl
      refine ⟨⟨?_, ?_, ?_, ?_⟩, (unlink_sizes hunlink).1, ?_, ?_, ?_, ?_⟩
      · exact hinv.chain.unlink hold hlinked hfirst hunlink
      · exact (unlink_marks hinv.mark hunlink).setPc (by rw [hpc']; rfl)
      · apply hinv.walk.table (unlink_sizes hunlink).1 hwalker
        intro other args q hwalks hq
        refine ⟨(hlinked' q).mpr ⟨hq, ?_⟩, (hfields q).2.1⟩
        rintro rfl
        have hparent := (hinv.walk.walks other args _ hwalks).2
        apply hinv.walk.not_walks _ other hwalks
        rw [← hparent]
        exact hreaders
      · exact (hinv.hold.table (fun e _ => unlink_kept hunlink)
          fun _ e _ => unlink_kept hunlink).drop rfl
      · intro e hnot hused
        obtain ⟨hvalidE, -, -, hunused⟩ := hfields e.bucket
        change t'.Used e at hused
        rw [Used, hvalidE, (unlink_sizes hunlink).2, hunused] at hused
        exact absurd hused hnot
      · intro q _ hnot hmarked
        change t'.ToFree q at hmarked
        rw [ToFree, (hfields q).2.2.1] at hmarked
        exact absurd hmarked hnot
      · intro q hq hnot
        have hqp : q = p := by
          by_contra hne
          exact hnot ((hlinked' q).mpr ⟨hq, hne⟩)
        rw [hqp]
        exact ⟨thread, hpc', Function.update_self ..⟩
      · intro q hq hnot
        change t'.valid q = false at hnot
        rw [(hfields q).1, hq] at hnot
        simp at hnot

theorem BucketInv.removeFree (hinv : BucketInv s)
    (hstep : bucketStep s (.removeFree thread) = some s') :
    BucketInv s' ∧ SectionOk s s' := by
  simp only [bucketStep, BucketThreads.withThreads,
    Option.map_eq_some_iff, Threads.stepRemoveFree] at hstep
  obtain ⟨threads, hremove, rfl⟩ := hstep
  split at hremove
  case h_2 => simp at hremove
  case h_1 p hpc =>
    simp only [Option.map_eq_some_iff] at hremove
    obtain ⟨t', hfree, rfl⟩ := hremove
    have hpc' : s.pc thread = .removeFree p := hpc
    have hfrees : frees (s.pc thread) = some p := by rw [hpc']; rfl
    obtain ⟨hp, hmarked, -⟩ := hinv.mark.freed thread p hfrees
    have hnodup := hinv.chain.heapNodup
    have hvalid := freeBucket_valid hnodup hfree
    obtain ⟨hmem, htable, hbucket⟩ := @freeBucket_fields s.table t' p hfree
    have hlinked := free_linked hnodup hpc' hfree
    have hfinish := @finishRemove_sameLinks t'
    have hwalker : ∀ other, walker (Function.update s.pc thread .idle other) =
        walker (s.pc other) := walker_update (by rw [hpc']; rfl)
    have hlinked' : ∀ q, Linked t'.finishRemove
        (Function.update s.pc thread .idle) q ↔ Linked s.table s.pc q :=
      fun q => (hfinish.sameChain.linked q).trans (hlinked q)
    -- The slots of the marked bucket are all unused.
    have hkept : ∀ e, s.table.Used e → Kept s.table t'.finishRemove e := by
      intro e hused
      have hne : e.bucket ≠ p := by
        intro h
        exact hinv.mark.not_toFree hused (h ▸ hmarked)
      have hfreeKept : Kept s.table t' e := by
        apply kept_of_mem
        · rw [Bool.eq_iff_iff, hvalid]
          exact and_iff_left hne
        · exact hbucket
        · rw [hmem]
        · rw [hmem]
          exact ⟨rfl, rfl⟩
        · exact hused
      exact hfreeKept.trans (finishRemove_kept hfreeKept.used)
    refine ⟨⟨?_, ?_, ?_, ?_⟩, hfinish.tableSize.trans htable, ?_, ?_, ?_, ?_⟩
    · exact (hinv.chain.free hpc' hfree).same hfinish.sameChain
    · exact (hinv.mark.free hfrees hbucket hmem hvalid).sameLinks hfinish
        fun _ => rfl
    · apply hinv.walk.table (hfinish.tableSize.trans htable) hwalker
      intro other args q _ hq
      refine ⟨(hlinked' q).mpr hq, ?_⟩
      change (t'.mem q).parent = _
      rw [hmem]
      rfl
    · exact (hinv.hold.table (fun e _ => hkept e)
        fun _ e _ => hkept e).drop rfl

    · intro e hnot hused
      have hused' := finishRemove_used.mp hused
      rw [Used, hvalid, hbucket, hmem] at hused'
      exact absurd ⟨hused'.1.1, hused'.2⟩ hnot
    · intro q _ hnot hmarkedQ
      change t'.ToFree q at hmarkedQ
      rw [ToFree, hmem] at hmarkedQ
      exact absurd hmarkedQ hnot
    · exact fun q hq hnot => absurd ((hlinked' q).mpr hq) hnot
    · intro q hq hnot
      change t'.finishRemove.valid q = false at hnot
      rw [hfinish.valid] at hnot
      have hqp : q = p := by
        by_contra hne
        rw [(hvalid q).mpr ⟨hq, hne⟩] at hnot
        simp at hnot
      rw [hqp]
      exact ⟨thread, hpc'⟩

end FlowTable

end Ntnetflow

end NtapiExamples
