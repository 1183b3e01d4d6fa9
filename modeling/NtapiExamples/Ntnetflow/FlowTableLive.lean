/-
What a caller sees of `ft_add` and `ft_remove`: which slots are taken, what the
entries hold, and that the chains stay in order.
-/
import NtapiExamples.Ntnetflow.FlowTableSteps

namespace NtapiExamples

namespace Ntnetflow

namespace FlowTable

variable {t t' : FlowTable} {e : EntryPtr} {hash : BitVec 32}
  {keyData : KeyData} {color : BitVec 16}

/-- What an entry holds, where memory that is not allocated counts as the zero
entry that `calloc` will make of it. -/
def content (t : FlowTable) (e : EntryPtr) : FlowEntry :=
  if t.valid e.bucket then t.entry e else FlowEntry.zero

theorem content_of_valid (hvalid : t.valid e.bucket = true) :
    t.content e = t.entry e := by
  rw [content, if_pos hvalid]

theorem content_of_used (hused : t.Used e) : t.content e = t.entry e :=
  content_of_valid hused.1

/-- Every entry that was ever handed out records its own place. -/
def SlotsOk (t : FlowTable) : Prop :=
  ∀ e, (t.content e).bucket = none ∨
    ((t.content e).bucket = some e.bucket ∧ (t.content e).index = e.slot ∧
      e.slot < t.bucketSize)

/-- A successful `ft_add`, seen from outside. -/
structure Added (t t' : FlowTable) (e : EntryPtr) (hash : BitVec 32)
    (keyData : KeyData) (color : BitVec 16) : Prop where
  tableSize : t'.tableSize = t.tableSize
  bucketSize : t'.bucketSize = t.bucketSize
  fresh : ¬ t.Used e
  used : ∀ e', t'.Used e' ↔ e' = e ∨ t.Used e'
  added : t'.content e = addedEntry e hash keyData color (t.content e)
  kept : ∀ e', e' ≠ e → t'.content e' = t.content e'
  parent : t'.parentOf e.bucket = t.chainIndex hash
  parentKept : ∀ p, t.valid p = true →
    t'.valid p = true ∧ t'.parentOf p = t.parentOf p

/-- An `ft_remove`, seen from outside.  It may leave the slot taken: for slot 31
the test for an unused slot reads the bits above the bucket as well. -/
structure Removed (t t' : FlowTable) (e : EntryPtr) : Prop where
  tableSize : t'.tableSize = t.tableSize
  bucketSize : t'.bucketSize = t.bucketSize
  used : ∀ e', t.Used e' → e' ≠ e → t'.Used e'
  usedOf : ∀ e', t'.Used e' → t.Used e'
  kept : ∀ e', t'.valid e'.bucket = true → t'.content e' = t.content e'
  parentKept : ∀ p, t'.valid p = true →
    t.valid p = true ∧ t'.parentOf p = t.parentOf p

theorem chainIndex_congr (hsize : t'.tableSize = t.tableSize)
    (hash : BitVec 32) : t'.chainIndex hash = t.chainIndex hash := by
  rw [chainIndex, hsize, chainIndex]

theorem Claimed.added {p : BucketPtr}
    (hclaimed : Claimed t t' p e hash keyData color) (hinv : TableInv t) :
    Added t t' e hash keyData color := by
  have hsize := hinv.toSizeOk
  have hunused := (findUnused_valid hclaimed.found).2
  obtain ⟨hlt, hset, -⟩ := lowest_of_hasUnused hsize hunused
  have hptr := hclaimed.ptr
  have hsame := hclaimed.sameLinks
  have hmem : ∀ q, q ≠ p → t'.mem q = t.mem q := by
    intro q hq
    rw [hclaimed.eq]
    exact Function.update_of_ne hq _ _
  have hmask : ∀ j, (t'.mem p).unused.getLsbD j =
      ((t.mem p).unused.getLsbD j && decide (j ≠ e.slot)) := by
    intro j
    rw [hclaimed.eq, hptr]
    simp only [Function.update_self]
    exact getLsbD_claimed hsize hunused j
  have hentry : ∀ j, t'.entry ⟨p, j⟩ = if j = e.slot
      then addedEntry e hash keyData color (t.entry ⟨p, j⟩)
      else t.entry ⟨p, j⟩ := by
    intro j
    rw [hclaimed.eq]
    simp only [FlowTable.entry, Function.update_self]
    by_cases hj : j = e.slot
    · rw [hj, Function.update_self, if_pos rfl]
    · rw [Function.update_of_ne hj, if_neg hj]
  have hbucket : e.bucket = p := by rw [hptr]
  have hslot : e.slot < t.bucketSize := by
    rw [hptr]
    exact hlt
  refine ⟨hsame.tableSize, hsame.bucketSize, ?_, ?_, ?_, ?_, ?_, ?_⟩
  · rintro ⟨-, -, hclear⟩
    rw [hptr] at hclear
    simp [hset] at hclear
  · rintro ⟨q, j⟩
    simp only [Used, hsame.valid, hsame.bucketSize]
    by_cases hq : q = p
    · subst hq
      rw [hmask]
      by_cases hj : j = e.slot
      · subst hj
        have heq : (⟨q, e.slot⟩ : EntryPtr) = e := by rw [← hbucket]
        simp [heq, hclaimed.valid, hslot]
      · have hne : (⟨q, j⟩ : EntryPtr) ≠ e := by
          rintro rfl
          exact hj rfl
        simp [hj, hne]
    · have hne : (⟨q, j⟩ : EntryPtr) ≠ e := by
        rintro rfl
        exact hq hbucket
      simp [hmem q hq, hne]
  · have heq : (⟨p, e.slot⟩ : EntryPtr) = e := by rw [← hbucket]
    have hnew := hentry e.slot
    rw [if_pos rfl, heq] at hnew
    rw [content, content, hsame.valid, hbucket, if_pos hclaimed.valid, hnew,
      if_pos hclaimed.valid]
  · rintro ⟨q, j⟩ hne
    simp only [content, hsame.valid]
    by_cases hq : q = p
    · subst hq
      have hj : j ≠ e.slot := by
        rintro rfl
        exact hne (by rw [← hbucket])
      rw [hentry, if_neg hj]
    · simp only [FlowTable.entry, hmem q hq]
  · obtain ⟨front, tail, rest, hlist⟩ :=
      hinv.chains _ (chainIndex_lt hinv.table hash)
    have hfound := hclaimed.found
    rw [hlist.findUnused hinv, Option.some.injEq] at hfound
    rw [hbucket, hsame.parent]
    exact hlist.parent p (List.mem_of_find?_eq_some hfound)
  · intro q hq
    rw [hsame.valid, hsame.parent]
    exact ⟨hq, rfl⟩

theorem Appended.added {addr : Nat} {tail : BucketPtr}
    (happ : Appended t t' addr tail e hash keyData color)
    (hinv : TableInv t) : Added t t' e hash keyData color := by
  have hptr := happ.ptr
  have hle := hinv.le
  have hpos := hinv.pos
  have hinvalid : t.valid (.heap addr) = false := by
    simpa [FlowTable.valid] using happ.fresh
  -- Masks and entries of the buckets that existed before are untouched.
  have hold : ∀ q, q ≠ .heap addr →
      (t'.mem q).unused = (t.mem q).unused ∧
        (t'.mem q).entries = (t.mem q).entries :=
    fun q hq => (happ.grown.fields_old hq).2.2.2
  refine ⟨happ.sizes.1, happ.sizes.2, ?_, ?_, ?_, ?_, ?_, ?_⟩
  · rintro ⟨hvalid, -⟩
    rw [hptr] at hvalid
    simp [hinvalid] at hvalid
  · rintro ⟨q, j⟩
    simp only [Used, happ.grown.valid_iff, happ.sizes.2]
    by_cases hq : q = .heap addr
    · subst hq
      simp only [hinvalid, Bool.false_eq_true, or_false, true_and, false_and]
      rw [happ.grown.mem_new, hptr, EntryPtr.mk.injEq]
      simp only [true_and]
      change j < t.bucketSize ∧ (~~~1#64).getLsbD j = false ↔ j = 0
      rw [BitVec.getLsbD_not, BitVec.getLsbD_one]
      simp only [Bool.and_eq_false_iff, decide_eq_false_iff_not,
        Bool.not_eq_false', Bool.and_eq_true, decide_eq_true_iff]
      omega
    · have hne : (⟨q, j⟩ : EntryPtr) ≠ e := by
        rw [hptr]
        simp [hq]
      simp [hq, hne, (hold q hq).1]
  · have hnew : t'.entry e = addedEntry e hash keyData color
        FlowEntry.zero := by
      have hslot : e.slot = 0 := by rw [hptr]
      have hbucket : e.bucket = .heap addr := by rw [hptr]
      rw [FlowTable.entry, hbucket, happ.grown.mem_new, hslot]
      simp only [Function.update_self]
    have hvalid : t'.valid e.bucket = true := by
      rw [happ.grown.valid_iff, hptr]
      exact Or.inl rfl
    rw [content_of_valid hvalid, hnew, content, hptr]
    simp [hinvalid]
  · rintro ⟨q, j⟩ hne
    by_cases hq : q = .heap addr
    · subst hq
      have hj : j ≠ 0 := by
        rintro rfl
        exact hne hptr.symm
      have hvalid : t'.valid (.heap addr) = true := by
        rw [happ.grown.valid_iff]
        exact Or.inl rfl
      simp only [content, hvalid, hinvalid, if_true, FlowTable.entry]
      rw [happ.grown.mem_new]
      simp [Function.update_of_ne hj]
    · have hvalid : t'.valid q = t.valid q := by
        rw [Bool.eq_iff_iff, happ.grown.valid_iff]
        simp [hq]
      simp only [content, hvalid, FlowTable.entry, (hold q hq).2]
  · rw [hptr, parentOf, happ.grown.mem_new]
    rfl
  · intro q hq
    rw [happ.grown.valid_iff]
    exact ⟨Or.inr hq, (happ.grown.fields_old (happ.grown.ne_new hq)).2.1⟩

section Add

variable {alloc : Option Nat}

theorem ftAdd_outcome (hinv : TableInv t)
    (hadd : t.ftAdd alloc hash keyData color = some (t', some e)) :
    (∃ p, Claimed t t' p e hash keyData color) ∨
      ∃ addr tail, Appended t t' addr tail e hash keyData color := by
  have hlast : ∀ tail, t.last (t.chainIndex hash) = some tail →
      t.valid tail = true :=
    fun tail hlast =>
      (hinv.last_valid (chainIndex_lt hinv.table hash) hlast).1
  rcases ftAdd_cases hadd hlast with hclaimed | ⟨addr, tail, -, happ⟩
  · exact Or.inl hclaimed
  · exact Or.inr ⟨addr, tail, happ⟩

theorem ftAdd_added (hinv : TableInv t)
    (hadd : t.ftAdd alloc hash keyData color = some (t', some e)) :
    Added t t' e hash keyData color := by
  rcases ftAdd_outcome hinv hadd with ⟨p, hclaimed⟩ | ⟨addr, tail, happ⟩
  · exact hclaimed.added hinv
  · exact happ.added hinv

theorem ftAdd_tableInv (hinv : TableInv t)
    (hadd : t.ftAdd alloc hash keyData color = some (t', some e)) :
    TableInv t' := by
  rcases ftAdd_outcome hinv hadd with ⟨p, hclaimed⟩ | ⟨addr, tail, happ⟩
  · exact hclaimed.sameLinks.tableInv hinv
  · exact happ.tableInv hinv

theorem ftAdd_whole (hinv : TableInv t) (hwhole : Whole t)
    (hadd : t.ftAdd alloc hash keyData color = some (t', some e)) :
    Whole t' := by
  rcases ftAdd_outcome hinv hadd with ⟨p, hclaimed⟩ | ⟨addr, tail, happ⟩
  · exact hclaimed.sameLinks.whole hwhole
  · exact happ.whole hinv hwhole

end Add

theorem Added.usedNew (hadded : Added t t' e hash keyData color) :
    t'.Used e :=
  (hadded.used e).mpr (Or.inl rfl)

theorem Added.slotsOk (hadded : Added t t' e hash keyData color)
    (hslots : SlotsOk t) : SlotsOk t' := by
  intro e'
  rw [hadded.bucketSize]
  by_cases heq : e' = e
  · subst heq
    right
    rw [hadded.added]
    have hlt := hadded.usedNew.2.1
    rw [hadded.bucketSize] at hlt
    exact ⟨rfl, rfl, hlt⟩
  · rw [hadded.kept e' heq]
    exact hslots e'

/-- The slot an entry records is its own. -/
theorem SlotsOk.own (hslots : SlotsOk t) (hvalid : t.valid e.bucket = true)
    {p : BucketPtr} (hbucket : (t.entry e).bucket = some p) :
    p = e.bucket ∧ (t.entry e).index = e.slot ∧ e.slot < t.bucketSize := by
  have hown := hslots e
  rw [content_of_valid hvalid, hbucket] at hown
  simpa using hown

theorem Released.removed {p : BucketPtr} (hreleased : Released t t' e p)
    (hsize : SizeOk t) (hslots : SlotsOk t) : Removed t t' e := by
  have hsame := hreleased.sameLinks
  have hle := hsize.le
  obtain ⟨rfl, hindex, hlt⟩ := hslots.own hreleased.removing.holder
    hreleased.removing.bucket
  have hmask : ∀ j, j < 32 → (t'.mem e.bucket).unused.getLsbD j =
      ((t.mem e.bucket).unused.getLsbD j || decide (j = e.slot)) := by
    intro j hj
    rw [hreleased.eq]
    simp only [Function.update_self]
    rw [hindex]
    exact getLsbD_released (by omega) hj
  have hmem : ∀ q, q ≠ e.bucket → t'.mem q = t.mem q := by
    intro q hq
    rw [hreleased.eq]
    exact Function.update_of_ne hq _ _
  have hentries : ∀ q, (t'.mem q).entries = (t.mem q).entries := by
    intro q
    by_cases hq : q = e.bucket
    · rw [hq, hreleased.eq]
      simp only [Function.update_self, releaseSlot_entries]
    · rw [hmem q hq]
  refine ⟨hsame.tableSize, hsame.bucketSize, ?_, ?_, ?_, ?_⟩
  · rintro ⟨q, j⟩ ⟨hvalid, hj, hclear⟩ hne
    refine ⟨by rw [hsame.valid]; exact hvalid,
      by rw [hsame.bucketSize]; exact hj, ?_⟩
    by_cases hq : q = e.bucket
    · subst hq
      have hslot : j ≠ e.slot := by
        rintro rfl
        exact hne rfl
      simp only at hclear hj ⊢
      rw [hmask j (by omega), hclear]
      simpa using hslot
    · rw [hmem q hq]
      exact hclear
  · rintro ⟨q, j⟩ ⟨hvalid, hj, hclear⟩
    rw [hsame.valid] at hvalid
    rw [hsame.bucketSize] at hj
    refine ⟨hvalid, hj, ?_⟩
    by_cases hq : q = e.bucket
    · subst hq
      simp only at hclear hj ⊢
      rw [hmask j (by omega), Bool.or_eq_false_iff] at hclear
      exact hclear.1
    · rw [hmem q hq] at hclear
      exact hclear
  · intro e' _
    simp only [content, hsame.valid, FlowTable.entry, hentries]
  · intro q hq
    rw [hsame.valid] at hq
    exact ⟨hq, hsame.parent q⟩

theorem Freed.removed {addr : Nat} (hfreed : Freed t t' e addr)
    (hinv : TableInv t) (hslots : SlotsOk t) : Removed t t' e := by
  have hle := hinv.le
  obtain ⟨hown, hindex, hlt⟩ := hslots.own hfreed.removing.holder
    hfreed.removing.bucket
  have hmem : ∀ q, q ≠ .heap addr →
      (t'.mem q).unused = (t.mem q).unused ∧
        (t'.mem q).entries = (t.mem q).entries := by
    intro q hq
    rw [hfreed.eq]
    simp [unlinkedMem, Function.update_of_ne hq]
  refine ⟨hfreed.sizes.1, hfreed.sizes.2, ?_, ?_, ?_, ?_⟩
  · rintro ⟨q, j⟩ ⟨hvalid, hj, hclear⟩ hne
    have hq : q ≠ .heap addr := by
      rintro rfl
      -- Freeing needs every slot unused, and only the slot of `e` became so.
      have hall := (releaseSlot_toFree hinv.toSizeOk hfreed.toFree).2 j hj
      have hslot : j ≠ e.slot := by
        rintro rfl
        exact hne (by rw [hown])
      simp only at hclear hj
      rw [hindex, getLsbD_released (by omega) (by omega), hclear] at hall
      exact hslot (by simpa using hall)
    refine ⟨?_, by rw [hfreed.sizes.2]; exact hj, ?_⟩
    · rw [hfreed.valid_iff hinv.heapNodup]
      exact ⟨hvalid, hq⟩
    · rw [(hmem q hq).1]
      exact hclear
  · rintro ⟨q, j⟩ ⟨hvalid, hj, hclear⟩
    rw [hfreed.valid_iff hinv.heapNodup] at hvalid
    rw [hfreed.sizes.2] at hj
    rw [(hmem q hvalid.2).1] at hclear
    exact ⟨hvalid.1, hj, hclear⟩
  · intro e' hvalid
    have hboth := (hfreed.valid_iff hinv.heapNodup e'.bucket).mp hvalid
    rw [content_of_valid hvalid, content_of_valid hboth.1]
    simp only [FlowTable.entry, (hmem _ hboth.2).2]
  · intro q hq
    rw [hfreed.valid_iff hinv.heapNodup] at hq
    exact ⟨hq.1, hfreed.parent q⟩

theorem Removed.refl (t : FlowTable) (e : EntryPtr) : Removed t t e :=
  ⟨rfl, rfl, fun _ h _ => h, fun _ h => h, fun _ _ => rfl,
    fun _ h => ⟨h, rfl⟩⟩

section Remove

theorem ftRemove_removed (hinv : TableInv t) (hslots : SlotsOk t)
    (hremove : t.ftRemove e = some t') : Removed t t' e := by
  rcases ftRemove_cases hremove with ⟨p, -, -, rfl⟩ | ⟨p, hreleased⟩ |
    ⟨addr, hfreed⟩
  · exact Removed.refl _ e
  · exact hreleased.removed hinv.toSizeOk hslots
  · exact hfreed.removed hinv hslots

theorem ftRemove_tableInv (hinv : TableInv t)
    (hremove : t.ftRemove e = some t') : TableInv t' := by
  rcases ftRemove_cases hremove with ⟨p, -, -, rfl⟩ | ⟨p, hreleased⟩ |
    ⟨addr, hfreed⟩
  · exact hinv
  · exact hreleased.sameLinks.tableInv hinv
  · exact hfreed.tableInv hinv

theorem ftRemove_whole (hinv : TableInv t) (hwhole : Whole t)
    (hremove : t.ftRemove e = some t') : Whole t' := by
  rcases ftRemove_cases hremove with ⟨p, -, -, rfl⟩ | ⟨p, hreleased⟩ |
    ⟨addr, hfreed⟩
  · exact hwhole
  · exact hreleased.sameLinks.whole hwhole
  · exact hfreed.whole hinv hwhole

end Remove

theorem Removed.slotsOk (hremoved : Removed t t' e) (hslots : SlotsOk t) :
    SlotsOk t' := by
  intro e'
  rw [hremoved.bucketSize]
  by_cases hvalid : t'.valid e'.bucket = true
  · rw [hremoved.kept e' hvalid]
    exact hslots e'
  · left
    rw [content, if_neg hvalid]
    rfl

end FlowTable

end Ntnetflow

end NtapiExamples
