/-
The marks, walks and slots of the threads in `ft_add` and `ft_remove`, one
invariant for each.
-/
import NtapiExamples.Ntnetflow.BucketChain

namespace NtapiExamples

namespace Ntnetflow

namespace FlowTable

variable {t t' : FlowTable} {pc : Nat → TablePc} {thread : Nat}
  {pc₁ : TablePc}

/-- A marked bucket has no used slot and one thread that frees it. -/
structure MarkPart (t : FlowTable) (pc : Nat → TablePc) : Prop where
  unused : ∀ p, t.valid p = true → t.ToFree p → ∀ slot, slot < t.bucketSize →
    (t.mem p).unused.getLsbD slot = true
  freed : ∀ thread p, frees (pc thread) = some p →
    t.valid p = true ∧ t.ToFree p ∧ t.Dynamic p
  freer : ∀ p, t.valid p = true → t.ToFree p →
    ∃ thread, frees (pc thread) = some p
  one : ∀ thread other p, frees (pc thread) = some p →
    frees (pc other) = some p → thread = other

theorem frees_update {other : Nat} {p : BucketPtr}
    (hsame : frees pc₁ = frees (pc thread)) :
    frees (Function.update pc thread pc₁ other) = some p ↔
      frees (pc other) = some p := by
  by_cases hother : other = thread
  · rw [hother, Function.update_self, hsame]
  · rw [Function.update_of_ne hother]

theorem MarkPart.setPc (hpart : MarkPart t pc)
    (hsame : frees pc₁ = frees (pc thread)) :
    MarkPart t (Function.update pc thread pc₁) where
  unused := hpart.unused
  freed := fun other p h => hpart.freed other p ((frees_update hsame).mp h)
  freer := fun p hp hmarked => by
    obtain ⟨other, hother⟩ := hpart.freer p hp hmarked
    exact ⟨other, (frees_update hsame).mpr hother⟩
  one := fun first second p h h' =>
    hpart.one first second p ((frees_update hsame).mp h)
      ((frees_update hsame).mp h')

theorem MarkPart.not_toFree (hpart : MarkPart t pc) {e : EntryPtr}
    (hused : t.Used e) : ¬ t.ToFree e.bucket := by
  intro hmarked
  have hset := hpart.unused _ hused.1 hmarked _ hused.2.1
  rw [hused.2.2] at hset
  simp at hset

/-- Buckets come unmarked, and the marked ones are not written to. -/
theorem MarkPart.table (hpart : MarkPart t pc)
    (hbucket : t'.bucketSize = t.bucketSize)
    (hkept : ∀ p, t.valid p = true → t.ToFree p → t'.valid p = true ∧
      (t'.mem p).flags = (t.mem p).flags ∧
      (t'.mem p).unused = (t.mem p).unused)
    (hold : ∀ p, t'.valid p = true → t'.ToFree p →
      t.valid p = true ∧ t.ToFree p) : MarkPart t' pc where
  unused := fun p hp hmarked slot hslot => by
    obtain ⟨hp', hmarked'⟩ := hold p hp hmarked
    rw [hbucket] at hslot
    rw [(hkept p hp' hmarked').2.2]
    exact hpart.unused p hp' hmarked' slot hslot
  freed := fun other p h => by
    obtain ⟨hp, hmarked, hdynamic⟩ := hpart.freed other p h
    obtain ⟨hp', hflags, -⟩ := hkept p hp hmarked
    rw [ToFree, Dynamic, hflags]
    exact ⟨hp', hmarked, hdynamic⟩
  freer := fun p hp hmarked => by
    obtain ⟨hp', hmarked'⟩ := hold p hp hmarked
    exact hpart.freer p hp' hmarked'
  one := hpart.one

/-- A thread marks the bucket `p`. -/
theorem MarkPart.mark (hpart : MarkPart t pc) {p : BucketPtr}
    (hvalid : t'.valid p = true) (hdynamic : t'.Dynamic p)
    (hbucket : t'.bucketSize = t.bucketSize)
    (hmarked : t'.ToFree p) (hnot : ¬ t.ToFree p)
    (hunused : ∀ slot, slot < t.bucketSize →
      (t'.mem p).unused.getLsbD slot = true)
    (hother : ∀ q, q ≠ p → t'.valid q = t.valid q ∧ t'.mem q = t.mem q)
    (hpc : frees (pc thread) = none) :
    MarkPart t' (Function.update pc thread (.removeUnlink p)) := by
  have hupdate : ∀ other q,
      frees (Function.update pc thread (.removeUnlink p) other) = some q ↔
        (other = thread ∧ q = p) ∨ frees (pc other) = some q := by
    intro other q
    by_cases heq : other = thread
    · rw [heq, Function.update_self, hpc]
      simp [frees, eq_comm]
    · rw [Function.update_of_ne heq]
      simp [heq]
  have hnone : ∀ other, frees (pc other) ≠ some p :=
    fun other h => hnot (hpart.freed other p h).2.1
  constructor
  · intro q hq hmarkedQ slot hslot
    rw [hbucket] at hslot
    by_cases hqp : q = p
    · rw [hqp]
      exact hunused slot hslot
    · obtain ⟨hvalidQ, hmem⟩ := hother q hqp
      rw [hvalidQ] at hq
      rw [ToFree, hmem] at hmarkedQ
      rw [hmem]
      exact hpart.unused q hq hmarkedQ slot hslot
  · intro other q h
    rcases (hupdate other q).mp h with ⟨-, rfl⟩ | hbefore
    · exact ⟨hvalid, hmarked, hdynamic⟩
    · have hqp : q ≠ p := by
        rintro rfl
        exact hnone other hbefore
      obtain ⟨hvalidQ, hmem⟩ := hother q hqp
      rw [hvalidQ, ToFree, Dynamic, hmem]
      exact hpart.freed other q hbefore
  · intro q hq hmarkedQ
    by_cases hqp : q = p
    · exact ⟨thread, (hupdate thread q).mpr (Or.inl ⟨rfl, hqp⟩)⟩
    · obtain ⟨hvalidQ, hmem⟩ := hother q hqp
      rw [hvalidQ] at hq
      rw [ToFree, hmem] at hmarkedQ
      obtain ⟨other, h⟩ := hpart.freer q hq hmarkedQ
      exact ⟨other, (hupdate other q).mpr (Or.inr h)⟩
  · intro first second q h h'
    rcases (hupdate first q).mp h with ⟨rfl, rfl⟩ | hbefore
    · rcases (hupdate second q).mp h' with ⟨rfl, -⟩ | hbefore'
      · rfl
      · exact absurd hbefore' (hnone second)
    · rcases (hupdate second q).mp h' with ⟨rfl, rfl⟩ | hbefore'
      · exact absurd hbefore (hnone first)
      · exact hpart.one first second q hbefore hbefore'

/-- The marked bucket is freed. -/
theorem MarkPart.free (hpart : MarkPart t pc) {p : BucketPtr}
    (hpc : frees (pc thread) = some p)
    (hbucket : t'.bucketSize = t.bucketSize)
    (hmem : t'.mem = t.mem)
    (hvalid : ∀ q, t'.valid q = true ↔ t.valid q = true ∧ q ≠ p) :
    MarkPart t' (Function.update pc thread .idle) := by
  have hupdate : ∀ other q,
      frees (Function.update pc thread .idle other) = some q ↔
        frees (pc other) = some q ∧ q ≠ p := by
    intro other q
    by_cases heq : other = thread
    · rw [heq, Function.update_self, hpc]
      simp [frees, eq_comm]
    · rw [Function.update_of_ne heq]
      refine (and_iff_left_of_imp fun h => ?_).symm
      rintro rfl
      exact heq (hpart.one other thread q h hpc)
  constructor
  · intro q hq hmarked slot hslot
    rw [hbucket] at hslot
    rw [ToFree, hmem] at hmarked
    rw [hmem]
    exact hpart.unused q ((hvalid q).mp hq).1 hmarked slot hslot
  · intro other q h
    obtain ⟨h, hne⟩ := (hupdate other q).mp h
    obtain ⟨hq, hmarked, hdynamic⟩ := hpart.freed other q h
    rw [hvalid, ToFree, Dynamic, hmem]
    exact ⟨⟨hq, hne⟩, hmarked, hdynamic⟩
  · intro q hq hmarked
    rw [ToFree, hmem] at hmarked
    obtain ⟨hq, hne⟩ := (hvalid q).mp hq
    obtain ⟨other, h⟩ := hpart.freer q hq hmarked
    exact ⟨other, (hupdate other q).mpr ⟨h, hne⟩⟩
  · intro first second q h h'
    exact hpart.one first second q ((hupdate first q).mp h).1
      ((hupdate second q).mp h').1

/-- A walk in the chain `c`. -/
def WalksIn (t : FlowTable) (pc : TablePc) (c : Nat) : Prop :=
  ∃ args p, walker pc = some (args, p) ∧ t.chainIndex args.hash = c

theorem walker_update (hsame : walker pc₁ = walker (pc thread)) (other : Nat) :
    walker (Function.update pc thread pc₁ other) = walker (pc other) := by
  by_cases hother : other = thread
  · rw [hother, Function.update_self, hsame]
  · rw [Function.update_of_ne hother]

theorem not_walksIn (hpc : walker pc₁ = none) (c : Nat) :
    ¬ WalksIn t pc₁ c := by
  rintro ⟨args, p, h, -⟩
  rw [hpc] at h
  simp at h

theorem walksIn_iff {args : FlowArgs} {p : BucketPtr}
    (hpc : walker pc₁ = some (args, p)) (c : Nat) :
    WalksIn t pc₁ c ↔ t.chainIndex args.hash = c := by
  constructor
  · rintro ⟨args', p', h, hc⟩
    rw [hpc, Option.some.injEq, Prod.mk.injEq] at h
    rw [h.1]
    exact hc
  · exact fun hc => ⟨args, p, hpc, hc⟩

/-- The read lock of a chain is held by those that walk in it, and they are at
linked buckets. -/
structure WalkPart (t : FlowTable) (pc : Nat → TablePc)
    (readers : Nat → Nat) : Prop where
  readers : ∀ c, Counts (fun thread => WalksIn t (pc thread) c) (readers c)
  walks : ∀ thread args p, walker (pc thread) = some (args, p) →
    Linked t pc p ∧ t.parentOf p = t.chainIndex args.hash

section Walks

variable {readers : Nat → Nat} {args : FlowArgs} {p : BucketPtr}

/-- Without readers nobody walks in the chain. -/
theorem WalkPart.not_walks (hpart : WalkPart t pc readers)
    (hzero : readers (t.chainIndex args.hash) = 0) (other : Nat) :
    walker (pc other) ≠ some (args, p) := by
  intro h
  have hpos := (hpart.readers _).pos
    (show WalksIn t (pc other) _ from ⟨args, p, h, rfl⟩)
  omega

/-- A section that leaves the buckets that are walked over linked. -/
theorem WalkPart.table {pc' : Nat → TablePc} (hpart : WalkPart t pc readers)
    (htable : t'.tableSize = t.tableSize)
    (hwalker : ∀ other, walker (pc' other) = walker (pc other))
    (hkept : ∀ other args p, walker (pc other) = some (args, p) →
      Linked t pc p → Linked t' pc' p ∧ t'.parentOf p = t.parentOf p) :
    WalkPart t' pc' readers where
  readers := fun c => (hpart.readers c).congr fun other => by
    simp only [WalksIn, hwalker, chainIndex_congr htable]
  walks := fun other args p h => by
    rw [hwalker] at h
    obtain ⟨hlinked, hparent⟩ := hpart.walks other args p h
    obtain ⟨hlinked', hparent'⟩ := hkept other args p h hlinked
    rw [chainIndex_congr htable, hparent']
    exact ⟨hlinked', hparent⟩

variable (hold : ∀ p, pc thread ≠ .removeFree p)
  (hnew : ∀ p, pc₁ ≠ .removeFree p)

include hold hnew

theorem WalkPart.setPc (hpart : WalkPart t pc readers)
    (hwalker : walker pc₁ = walker (pc thread)) :
    WalkPart t (Function.update pc thread pc₁) readers := by
  apply hpart.table rfl (walker_update hwalker)
  exact fun _ _ p _ hlinked =>
    ⟨(linked_update (hold p) (hnew p)).mpr hlinked, rfl⟩

/-- A walk goes on to another bucket. -/
theorem WalkPart.move (hpart : WalkPart t pc readers) {q : BucketPtr}
    (hbefore : walker (pc thread) = some (args, p))
    (hafter : walker pc₁ = some (args, q)) (hlinked : Linked t pc q)
    (hparent : t.parentOf q = t.chainIndex args.hash) :
    WalkPart t (Function.update pc thread pc₁) readers where
  readers := fun c => (hpart.readers c).congr fun other => by
    by_cases hother : other = thread
    · rw [hother, Function.update_self, walksIn_iff hafter,
        walksIn_iff hbefore]
    · rw [Function.update_of_ne hother]
  walks := fun other args' q' h => by
    rw [linked_update (hold q') (hnew q')]
    by_cases hother : other = thread
    · rw [hother, Function.update_self, hafter, Option.some.injEq,
        Prod.mk.injEq] at h
      obtain ⟨rfl, rfl⟩ := h
      exact ⟨hlinked, hparent⟩
    · rw [Function.update_of_ne hother] at h
      exact hpart.walks other args' q' h

theorem WalkPart.enter (hpart : WalkPart t pc readers)
    (hbefore : walker (pc thread) = none)
    (hafter : walker pc₁ = some (args, p)) (hlinked : Linked t pc p)
    (hparent : t.parentOf p = t.chainIndex args.hash) :
    WalkPart t (Function.update pc thread pc₁)
      (Function.update readers (t.chainIndex args.hash)
        (readers (t.chainIndex args.hash) + 1)) where
  readers := fun c => by
    by_cases hc : c = t.chainIndex args.hash
    · rw [hc, Function.update_self]
      apply (hpart.readers _).enter (t := thread) (not_walksIn hbefore _)
      intro other
      by_cases hother : other = thread
      · rw [hother, Function.update_self, walksIn_iff hafter]
        simp
      · rw [Function.update_of_ne hother]
        simp [hother]
    · rw [Function.update_of_ne hc]
      refine (hpart.readers c).congr fun other => ?_
      by_cases hother : other = thread
      · rw [hother, Function.update_self, walksIn_iff hafter]
        exact iff_of_false (fun h => hc h.symm) (not_walksIn hbefore c)
      · rw [Function.update_of_ne hother]
  walks := fun other args' q h => by
    rw [linked_update (hold q) (hnew q)]
    by_cases hother : other = thread
    · rw [hother, Function.update_self, hafter, Option.some.injEq,
        Prod.mk.injEq] at h
      obtain ⟨rfl, rfl⟩ := h
      exact ⟨hlinked, hparent⟩
    · rw [Function.update_of_ne hother] at h
      exact hpart.walks other args' q h

theorem WalkPart.leave (hpart : WalkPart t pc readers)
    (hbefore : walker (pc thread) = some (args, p))
    (hafter : walker pc₁ = none) :
    WalkPart t (Function.update pc thread pc₁)
      (Function.update readers (t.chainIndex args.hash)
        (readers (t.chainIndex args.hash) - 1)) where
  readers := fun c => by
    by_cases hc : c = t.chainIndex args.hash
    · rw [hc, Function.update_self]
      apply (hpart.readers _).leave (t := thread)
        ((walksIn_iff hbefore _).mpr rfl)
      intro other
      by_cases hother : other = thread
      · rw [hother, Function.update_self]
        exact iff_of_false (not_walksIn hafter _) fun h => h.1 rfl
      · rw [Function.update_of_ne hother]
        simp [hother]
    · rw [Function.update_of_ne hc]
      refine (hpart.readers c).congr fun other => ?_
      by_cases hother : other = thread
      · rw [hother, Function.update_self, walksIn_iff hbefore]
        exact iff_of_false (not_walksIn hafter c) fun h => hc h.symm
      · rw [Function.update_of_ne hother]
  walks := fun other args' q h => by
    rw [linked_update (hold q) (hnew q)]
    by_cases hother : other = thread
    · rw [hother, Function.update_self, hafter] at h
      simp at h
    · rw [Function.update_of_ne hother] at h
      exact hpart.walks other args' q h

end Walks

/-- What an entry records, once `ft_add` has written it. -/
structure Own (t : FlowTable) (e : EntryPtr) : Prop where
  bucket : (t.entry e).bucket = some e.bucket
  index : (t.entry e).index = e.slot

/-- A used entry that stays as it is. -/
structure Kept (t t' : FlowTable) (e : EntryPtr) : Prop where
  used : t'.Used e
  bucket : (t'.entry e).bucket = (t.entry e).bucket
  index : (t'.entry e).index = (t.entry e).index

/-- A thread at the entry `e`, which nobody else is at. -/
structure Holding (t : FlowTable) (live : List EntryPtr) (pc : TablePc)
    (e : EntryPtr) : Prop where
  used : t.Used e
  notLive : e ∉ live
  index : (t.entry e).index = e.slot
  own : (∀ args, pc ≠ .addInit args e) → (t.entry e).bucket = some e.bucket
  mark : ∀ p, pc = .removeMark e p → p = e.bucket

/-- The live entries and those of the threads are used and told apart. -/
structure HoldPart (t : FlowTable) (pc : Nat → TablePc)
    (live : List EntryPtr) : Prop where
  nodup : live.Nodup
  lives : ∀ e ∈ live, t.Used e ∧ Own t e
  held : ∀ thread e, holds (pc thread) = some e →
    Holding t live (pc thread) e
  one : ∀ thread other e, holds (pc thread) = some e →
    holds (pc other) = some e → thread = other

section Holds

variable {live : List EntryPtr} {e : EntryPtr}

theorem Holding.kept (hholding : Holding t live pc₁ e)
    (hkept : Kept t t' e) : Holding t' live pc₁ e where
  used := hkept.used
  notLive := hholding.notLive
  index := hkept.index.trans hholding.index
  own := fun h => hkept.bucket.trans (hholding.own h)
  mark := hholding.mark

theorem HoldPart.table (hpart : HoldPart t pc live)
    (hlive : ∀ e ∈ live, t.Used e → Kept t t' e)
    (hheld : ∀ thread e, holds (pc thread) = some e → t.Used e →
      Kept t t' e) : HoldPart t' pc live where
  nodup := hpart.nodup
  lives := fun e he => by
    obtain ⟨hused, hown⟩ := hpart.lives e he
    have hkept := hlive e he hused
    exact ⟨hkept.used, hkept.bucket.trans hown.bucket,
      hkept.index.trans hown.index⟩
  held := fun other e h =>
    (hpart.held other e h).kept (hheld other e h (hpart.held other e h).used)
  one := hpart.one

/-- A thread goes to another place; it may hold an entry that nobody has. -/
theorem HoldPart.update (hpart : HoldPart t pc live)
    (hnew : ∀ e, holds pc₁ = some e → Holding t live pc₁ e)
    (hone : ∀ e, holds pc₁ = some e → ∀ other, other ≠ thread →
      holds (pc other) ≠ some e) :
    HoldPart t (Function.update pc thread pc₁) live where
  nodup := hpart.nodup
  lives := hpart.lives
  held := fun other e h => by
    by_cases hother : other = thread
    · rw [hother, Function.update_self] at h ⊢
      exact hnew e h
    · rw [Function.update_of_ne hother] at h ⊢
      exact hpart.held other e h
  one := fun first second e h h' => by
    by_cases hfirst : first = thread
    · by_cases hsecond : second = thread
      · rw [hfirst, hsecond]
      · rw [hfirst, Function.update_self] at h
        rw [Function.update_of_ne hsecond] at h'
        exact absurd h' (hone e h second hsecond)
    · rw [Function.update_of_ne hfirst] at h
      by_cases hsecond : second = thread
      · rw [hsecond, Function.update_self] at h'
        exact absurd h (hone e h' first hfirst)
      · rw [Function.update_of_ne hsecond] at h'
        exact hpart.one first second e h h'

/-- A thread lets go of its entry. -/
theorem HoldPart.drop (hpart : HoldPart t pc live) (hpc : holds pc₁ = none) :
    HoldPart t (Function.update pc thread pc₁) live := by
  apply hpart.update
  · intro e h
    rw [hpc] at h
    simp at h
  · intro e h
    rw [hpc] at h
    simp at h

/-- A thread writes to its entry and lets go of it. -/
theorem HoldPart.leave (hpart : HoldPart t pc live)
    (hbefore : holds (pc thread) = some e) (hafter : holds pc₁ = none)
    (hkept : ∀ e', e' ≠ e → t.Used e' → Kept t t' e') :
    HoldPart t' (Function.update pc thread pc₁) live := by
  refine (hpart.drop hafter).table (fun e' he' => hkept e' ?_)
    fun other e' h => hkept e' ?_
  · rintro rfl
    exact (hpart.held thread _ hbefore).notLive he'
  · rintro rfl
    by_cases hother : other = thread
    · rw [hother, Function.update_self, hafter] at h
      simp at h
    · rw [Function.update_of_ne hother] at h
      exact hother (hpart.one other thread _ h hbefore)

/-- A thread goes on with its entry. -/
theorem HoldPart.keep (hpart : HoldPart t pc live)
    (hbefore : holds (pc thread) = some e) (hafter : holds pc₁ = some e)
    (hown : (∀ args, pc₁ ≠ .addInit args e) →
      (t.entry e).bucket = some e.bucket)
    (hmark : ∀ p, pc₁ = .removeMark e p → p = e.bucket) :
    HoldPart t (Function.update pc thread pc₁) live := by
  have hholding := hpart.held thread e hbefore
  apply hpart.update
  · intro e' h
    rw [hafter, Option.some.injEq] at h
    subst h
    exact ⟨hholding.used, hholding.notLive, hholding.index, hown, hmark⟩
  · intro e' h other hother h'
    rw [hafter, Option.some.injEq] at h
    subst h
    exact hother (hpart.one other thread e h' hbefore)

/-- `ft_add` returns the entry. -/
theorem HoldPart.returned (hpart : HoldPart t pc live)
    (hpc : pc thread = .addRef e) :
    HoldPart t (Function.update pc thread .idle) (e :: live) := by
  have hbefore : holds (pc thread) = some e := by rw [hpc]; rfl
  have hholding := hpart.held thread e hbefore
  have hdrop : HoldPart t (Function.update pc thread .idle) live :=
    hpart.drop rfl
  constructor
  · exact List.nodup_cons.mpr ⟨hholding.notLive, hpart.nodup⟩
  · intro e' he'
    rcases List.mem_cons.mp he' with rfl | he'
    · refine ⟨hholding.used, hholding.own ?_, hholding.index⟩
      simp [hpc]
    · exact hpart.lives e' he'
  · intro other e' h
    by_cases hother : other = thread
    · rw [hother, Function.update_self] at h
      simp [holds] at h
    · rw [Function.update_of_ne hother] at h ⊢
      have hother' := hpart.held other e' h
      refine ⟨hother'.used, fun hmem => ?_, hother'.index, hother'.own,
        hother'.mark⟩
      rcases List.mem_cons.mp hmem with rfl | hmem
      · exact hother (hpart.one other thread e' h hbefore)
      · exact hother'.notLive hmem
  · exact hdrop.one

/-- A live entry is passed to `ft_remove`. -/
theorem HoldPart.remove (hpart : HoldPart t pc live) (he : e ∈ live) :
    HoldPart t (Function.update pc thread (.removeCheck e))
      (live.erase e) := by
  obtain ⟨hused, hown⟩ := hpart.lives e he
  have hmem : ∀ e', e' ∈ live.erase e ↔ e' ≠ e ∧ e' ∈ live :=
    fun e' => hpart.nodup.mem_erase_iff
  have herase : HoldPart t pc (live.erase e) := by
    refine ⟨hpart.nodup.erase e, fun e' he' => ?_, fun other e' h => ?_,
      hpart.one⟩
    · exact hpart.lives e' ((hmem e').mp he').2
    · have hholding := hpart.held other e' h
      exact ⟨hholding.used, fun h' => hholding.notLive ((hmem e').mp h').2,
        hholding.index, hholding.own, hholding.mark⟩
  apply herase.update
  · intro e' h
    simp only [holds, Option.some.injEq] at h
    subst h
    exact ⟨hused, fun h => ((hmem e).mp h).1 rfl, hown.index,
      fun _ => hown.bucket, by simp⟩
  · intro e' h other _ h'
    simp only [holds, Option.some.injEq] at h
    subst h
    exact (hpart.held other e h').notLive he

end Holds

end FlowTable

end Ntnetflow

end NtapiExamples
