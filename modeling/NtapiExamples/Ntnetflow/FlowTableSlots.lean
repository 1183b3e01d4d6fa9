/-
The occupancy mask of a bucket: which slots `ft_add` can take, what a claim and
a release change, and in which order `ft_visit` reads the used slots.
-/
import NtapiExamples.Ntnetflow.FlowTableSpec

namespace NtapiExamples

namespace Ntnetflow

namespace FlowTable

variable {t t' : FlowTable}

/-- The bucket sizes `main` accepts are powers of two in this range. -/
structure SizeOk (t : FlowTable) : Prop where
  table : 0 < t.tableSize
  pos : 0 < t.bucketSize
  le : t.bucketSize ≤ 32

/-- A slot of an allocated bucket that is marked as taken. -/
def Used (t : FlowTable) (e : EntryPtr) : Prop :=
  t.valid e.bucket = true ∧ e.slot < t.bucketSize ∧
    (t.mem e.bucket).unused.getLsbD e.slot = false

instance (t : FlowTable) (e : EntryPtr) : Decidable (t.Used e) :=
  inferInstanceAs (Decidable (_ ∧ _ ∧ _))

theorem getLsbD_bucketMask (hsize : SizeOk t) (i : Nat) :
    t.bucketMask.getLsbD i = decide (i < t.bucketSize) :=
  getLsbD_lowMask (by have := hsize.le; omega) i

/-- The slot `ft_add` takes from a bucket with an unused slot: the lowest one,
inside the bucket. -/
theorem lowest_of_hasUnused (hsize : SizeOk t) {b : FlowBucket}
    (hunused : t.hasUnused b = true) :
    ctz (b.unused.setWidth 32) < t.bucketSize ∧
      b.unused.getLsbD (ctz (b.unused.setWidth 32)) = true ∧
      ∀ j, j < ctz (b.unused.setWidth 32) → b.unused.getLsbD j = false := by
  simp only [hasUnused, Bool.and_eq_true, test_eq_true_iff] at hunused
  obtain ⟨-, i, -, hbit, hmask⟩ := hunused
  rw [getLsbD_bucketMask hsize, decide_eq_true_iff] at hmask
  have hle := hsize.le
  obtain ⟨hctz, hset, hlow⟩ := ctz_setWidth_spec (by omega) hbit
  exact ⟨by omega, hset, hlow⟩

/-- After a claim exactly the claimed slot is no longer unused. -/
theorem getLsbD_claimed (hsize : SizeOk t) {b : FlowBucket}
    (hunused : t.hasUnused b = true) (j : Nat) :
    (b.unused &&& (b.unused - 1#64)).getLsbD j =
      (b.unused.getLsbD j &&
        decide (j ≠ ctz (b.unused.setWidth 32))) := by
  obtain ⟨-, hset, hlow⟩ := lowest_of_hasUnused hsize hunused
  exact getLsbD_and_pred hset hlow j

/-- The shift is done in 32 bits, so that slot 31 stands for all bits above. -/
theorem getLsbD_slotMask {index : Nat} (hindex : index < 32) (j : Nat) :
    (slotMask index).getLsbD j =
      (decide (j = index) || decide (index = 31 ∧ 31 ≤ j ∧ j < 64)) := by
  have hshift : ∀ i, (1#32 <<< index).getLsbD i = decide (i = index) := by
    intro i
    rw [BitVec.getLsbD_shiftLeft, BitVec.getLsbD_one, Bool.eq_iff_iff]
    simp only [Bool.and_eq_true, Bool.not_eq_true', decide_eq_true_iff,
      decide_eq_false_iff_not]
    omega
  rw [slotMask, BitVec.getLsbD_signExtend, BitVec.msb_eq_getLsbD_last,
    hshift, hshift, Bool.eq_iff_iff]
  by_cases hj : j < 32
  · simp only [hj, if_true, Bool.and_eq_true, Bool.or_eq_true,
      decide_eq_true_iff]
    omega
  · simp only [hj, if_false, Bool.and_eq_true, Bool.or_eq_true,
      decide_eq_true_iff]
    omega

theorem getLsbD_slotMask_of_lt {index j : Nat} (hindex : index < 32)
    (hj : j < 32) : (slotMask index).getLsbD j = decide (j = index) := by
  rw [getLsbD_slotMask hindex, Bool.eq_iff_iff]
  simp only [Bool.or_eq_true, decide_eq_true_iff]
  omega

/-- Inside the bucket a release changes the released slot only. -/
theorem getLsbD_released {b : FlowBucket} {index j : Nat}
    (hindex : index < 32) (hj : j < 32) :
    (t.releaseSlot b index).1.unused.getLsbD j =
      (b.unused.getLsbD j || decide (j = index)) := by
  change (b.unused ||| slotMask index).getLsbD j = _
  rw [BitVec.getLsbD_or, getLsbD_slotMask_of_lt hindex hj]

theorem releaseSlot_unused {b : FlowBucket} {index j : Nat}
    (hset : b.unused.getLsbD j = true) :
    (t.releaseSlot b index).1.unused.getLsbD j = true := by
  change (b.unused ||| slotMask index).getLsbD j = true
  rw [BitVec.getLsbD_or, hset, Bool.true_or]

/-- Below slot 31 the test of `ft_remove` reads the bit of the slot. -/
theorem alreadyUnused_of_lt {b : FlowBucket} {index : Nat}
    (hindex : index < 31) :
    alreadyUnused b index = b.unused.getLsbD index := by
  rw [Bool.eq_iff_iff, alreadyUnused, test_eq_true_iff]
  constructor
  · rintro ⟨i, -, hbit, hmask⟩
    rw [getLsbD_slotMask (by omega)] at hmask
    simp only [Bool.or_eq_true, decide_eq_true_iff] at hmask
    have heq : i = index := by omega
    rwa [← heq]
  · intro hbit
    refine ⟨index, by omega, hbit, ?_⟩
    rw [getLsbD_slotMask (by omega)]
    simp

theorem alreadyUnused_of_unused {b : FlowBucket} {index : Nat}
    (hindex : index < 32) (hunused : b.unused.getLsbD index = true) :
    alreadyUnused b index = true := by
  rw [alreadyUnused, test_eq_true_iff]
  refine ⟨index, by omega, hunused, ?_⟩
  rw [getLsbD_slotMask hindex]
  simp

/-- For slot 31 the test reads bit 32 as well. -/
theorem alreadyUnused_last {b : FlowBucket}
    (hhigh : b.unused.getLsbD 32 = true) : alreadyUnused b 31 = true := by
  rw [alreadyUnused, test_eq_true_iff]
  refine ⟨32, by decide, hhigh, ?_⟩
  rw [getLsbD_slotMask (by decide)]
  simp

/-- A bucket is only freed when it is dynamic and has no used slot left. -/
theorem releaseSlot_toFree (hsize : SizeOk t) {b : FlowBucket} {index : Nat}
    (hfree : (t.releaseSlot b index).2 = true) :
    b.flags.getLsbD 0 = true ∧ ∀ j, j < t.bucketSize →
      (t.releaseSlot b index).1.unused.getLsbD j = true := by
  simp only [releaseSlot, Bool.and_eq_true, Bool.not_eq_true',
    BUCKET_DYNAMIC, test_bit] at hfree
  refine ⟨hfree.1, ?_⟩
  intro j hj
  by_contra hclear
  have hle := hsize.le
  have htest : test (~~~(b.unused ||| slotMask index)) t.bucketMask = true := by
    rw [test_eq_true_iff]
    refine ⟨j, by omega, ?_, ?_⟩
    · have hj64 : j < 64 := by omega
      simp only [releaseSlot, Bool.not_eq_true] at hclear
      rw [BitVec.getLsbD_not, hclear, decide_eq_true hj64]
      rfl
    · rw [getLsbD_bucketMask hsize]
      simpa using hj
  rw [hfree.2] at htest
  contradiction

theorem releaseSlot_keep_flags {b : FlowBucket} {index : Nat}
    (hkeep : (t.releaseSlot b index).2 = false) :
    (t.releaseSlot b index).1.flags = b.flags := by
  change (if (t.releaseSlot b index).2 = true then _ else b.flags) = _
  rw [hkeep]
  rfl

/-- The inner loop of `ft_visit` reads the set bits in ascending order.  Below
`start` all bits are cleared already. -/
theorem visitUsed_eq (visitor : FlowEntry → Bool) (entries : Nat → FlowEntry)
    {fuel start : Nat} {used : BitVec 64}
    (hhigh : ∀ i, 32 ≤ i → used.getLsbD i = false)
    (hlow : ∀ i, i < start → used.getLsbD i = false)
    (hfuel : 32 ≤ start + fuel) :
    visitUsed visitor entries fuel used =
      (List.range 32).find? fun i => used.getLsbD i && visitor (entries i) := by
  induction fuel generalizing used start with
  | zero =>
      rw [visitUsed, eq_comm, List.find?_range_eq_none]
      intro i hi
      simp [hlow i (by omega)]
  | succ fuel ih =>
      by_cases hzero : used = 0#64
      · rw [visitUsed, if_pos hzero, eq_comm, List.find?_range_eq_none]
        intro i _
        simp [hzero]
      · have hbit : ∃ i, i < 32 ∧ used.getLsbD i = true := by
          by_contra hnone
          apply hzero
          apply BitVec.eq_of_getLsbD_eq
          intro i hi
          rw [BitVec.getLsbD_zero]
          by_cases hi32 : i < 32
          · by_contra hset
            exact hnone ⟨i, hi32, by simpa using hset⟩
          · exact hhigh i (by omega)
        obtain ⟨i, hi, hset⟩ := hbit
        obtain ⟨hle, hctz, hbelow⟩ := ctz_setWidth_spec hi hset
        let index := ctz (used.setWidth 32)
        have hrest := getLsbD_and_pred hctz hbelow
        have hstart : start ≤ index := by
          by_contra hlt
          rw [hlow index (by omega)] at hctz
          contradiction
        by_cases hvisit : visitor (entries index) = true
        · rw [visitUsed, if_neg hzero]
          simp only [index] at hvisit
          rw [if_pos hvisit, eq_comm, List.find?_range_eq_some]
          refine ⟨by rw [hctz, hvisit]; rfl, List.mem_range.mpr (by omega), ?_⟩
          intro j hj
          simp [hbelow j hj]
        · rw [visitUsed, if_neg hzero]
          simp only [index] at hvisit
          rw [if_neg hvisit]
          rw [@ih (index + 1)]
          · congr 1
            funext j
            rw [hrest]
            by_cases hj : j = index
            · simp only [index] at hj
              simp [hj, hvisit]
            · simp only [index] at hj
              simp [hj]
          · intro j hj
            rw [hrest, hhigh j hj]
            rfl
          · intro j hj
            rw [hrest]
            by_cases hji : j < index
            · rw [hbelow j hji]
              rfl
            · have hje : j = ctz (used.setWidth 32) := by
                simp only [index] at hj hji
                omega
              simp [hje]
          · omega

/-- One bucket of `ft_visit`: the first used slot the visitor accepts. -/
theorem visitBucket_eq (hsize : SizeOk t) (visitor : FlowEntry → Bool)
    (b : FlowBucket) :
    t.visitBucket visitor b = (List.range 32).find? fun i =>
      decide (i < t.bucketSize) && !b.unused.getLsbD i &&
        visitor (b.entries i) := by
  have hle := hsize.le
  have hused : ∀ i, (~~~b.unused &&& t.bucketMask).getLsbD i =
      (decide (i < t.bucketSize) && !b.unused.getLsbD i) := by
    intro i
    rw [BitVec.getLsbD_and, BitVec.getLsbD_not, getLsbD_bucketMask hsize]
    by_cases hi : i < t.bucketSize
    · have hi64 : i < 64 := by omega
      simp [hi, hi64]
    · simp [hi]
  rw [visitBucket, @visitUsed_eq visitor b.entries 64 0]
  · simp only [hused]
  · intro i hi
    rw [hused]
    simp [show ¬ i < t.bucketSize by omega]
  · intro i hi
    omega
  · omega

theorem visitBucket_eq_some {visitor : FlowEntry → Bool} {b : FlowBucket}
    {slot : Nat} (hsize : SizeOk t)
    (hvisit : t.visitBucket visitor b = some slot) :
    slot < t.bucketSize ∧ b.unused.getLsbD slot = false ∧
      visitor (b.entries slot) = true := by
  rw [visitBucket_eq hsize] at hvisit
  have hfound := List.find?_some hvisit
  simp only [Bool.and_eq_true, decide_eq_true_iff, Bool.not_eq_true'] at hfound
  exact ⟨hfound.1.1, hfound.1.2, hfound.2⟩

theorem visitBucket_eq_none_iff {visitor : FlowEntry → Bool} {b : FlowBucket}
    (hsize : SizeOk t) :
    t.visitBucket visitor b = none ↔ ∀ slot, slot < t.bucketSize →
      b.unused.getLsbD slot = false → visitor (b.entries slot) = false := by
  have hle := hsize.le
  rw [visitBucket_eq hsize, List.find?_range_eq_none]
  constructor
  · intro hnone slot hslot hunused
    have hrejected := hnone slot (by omega)
    simpa [hslot, hunused] using hrejected
  · intro hall slot _
    by_cases hslot : slot < t.bucketSize
    · cases hunused : b.unused.getLsbD slot with
      | false => simp [hall slot hslot hunused]
      | true => simp
    · simp [hslot]

end FlowTable

end Ntnetflow

end NtapiExamples
