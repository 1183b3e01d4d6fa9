/-
The fill levels that `bufferProfile` and `hbMonitor` take from a usage report.
They differ in the high-water mark, in the width of the levels, and in the
levels that are held at 100: in `hbMonitor` all but that of a host buffer.
-/
import NtapiExamples.Ntapi.FillRange
import NtapiExamples.BufferProfile.StreamStats
import NtapiExamples.HbMonitor.StreamStats

namespace NtapiExamples

open Ntapi

namespace BufferProfile

/-- The levels of a host buffer. -/
def hbLevels (b : HostBuffer) : Option (BitVec 32 × BitVec 32) := do
  let obFill ← b.onboardFill
  let hbFill ← b.hostFill HB_HIGHWATER
  some (obFill.setWidth 32, hbFill)

/-- The levels of a stream. -/
def fillLevels (usage : Usage) : Option (Levels 32) :=
  Ntapi.fillLevels hbLevels id usage

/-- They are what `readStreamStats` stores. -/
theorem fillLevels_of_readStream {usage : Usage} {st st' : StreamStats}
    (hread : readStream usage st = some st') :
    fillLevels usage = some
      { hb := (List.range usage.numHostBufferUsed).map fun j =>
          ((st'.hb j).obFillLevel, (st'.hb j).hbFillLevel)
        aveOB := st'.aveOBFillLevel
        aveHB := st'.aveHBFillLevel } := by
  rw [readStream, Option.map_eq_some_iff] at hread
  obtain ⟨mid, hmid, rfl⟩ := hread
  have hstep : ∀ s s' j, readHb usage s j = some s' →
      ∃ l, hbLevels (usage.hb j) = some l ∧
        s'.aveOBFillLevel = s.aveOBFillLevel + l.1.setWidth 32 ∧
        s'.aveHBFillLevel = s.aveHBFillLevel + l.2.setWidth 32 ∧
        ((s'.hb j).obFillLevel, (s'.hb j).hbFillLevel) = l ∧
        ∀ i, i ≠ j → ((s'.hb i).obFillLevel, (s'.hb i).hbFillLevel) =
          ((s.hb i).obFillLevel, (s.hb i).hbFillLevel) := by
    intro s s' j hj
    simp only [readHb] at hj
    split at hj
    case isFalse => cases hj
    case isTrue =>
      simp only [Option.bind_eq_bind, Option.bind_eq_some_iff,
        Option.some.injEq] at hj
      obtain ⟨obFill, hob, hbFill, hhb, rfl⟩ := hj
      refine ⟨(obFill.setWidth 32, hbFill), ?_, ?_, ?_, ?_, fun i hi => ?_⟩
      · simp only [hbLevels, hob, hhb, Option.bind_eq_bind, Option.bind_some]
      · simp only [BitVec.setWidth_eq]
      · simp only [BitVec.setWidth_eq]
      · simp only [Function.update_self]
      · simp only [Function.update_of_ne hi]
  exact fillLevels_of_foldlM hstep id rfl rfl hmid

theorem hbLevels_iff {b : HostBuffer} (hb : b.IsReport) :
    (HB_HIGHWATER.toNat ≤ b.kilobytes ∧
      ∃ l, hbLevels b = some l ∧ l.1.toNat ≤ 100 ∧ l.2.toNat ≤ 100) ↔
        b.Fits HB_HIGHWATER := by
  apply HostBuffer.levels_iff hb
  · intro x
    rw [BitVec.toNat_setWidth]
    exact Nat.mod_le _ _
  · exact fun _ => rfl

/-- The levels of a report are in range exactly when its host buffers fit. -/
theorem fillLevels_fits {usage : Usage} (hlt : usage.numHostBufferUsed < 2 ^ 32)
    (hreport : ∀ j, j < usage.numHostBufferUsed → (usage.hb j).IsReport) :
    LevelsDefined HB_HIGHWATER usage (fillLevels usage) ↔
      ∀ j, j < usage.numHostBufferUsed → (usage.hb j).Fits HB_HIGHWATER :=
  levelsDefined_iff_fits (fun _ => Nat.le_refl _) hlt fun j hj =>
    hbLevels_iff (hreport j hj)

end BufferProfile

namespace HbMonitor

/-- The levels of a host buffer. -/
def hbLevels (b : HostBuffer) : Option (BitVec 64 × BitVec 64) := do
  let obFill ← b.onboardFill
  let hbFill ← b.hostFill HB_HIGHWATER
  some (atMost100 obFill, hbFill.setWidth 64)

/-- The levels of a stream. -/
def fillLevels (usage : Usage) : Option (Levels 64) :=
  Ntapi.fillLevels hbLevels atMost100 usage

/-- They are what `readStreamStats` stores. -/
theorem fillLevels_of_readStream {usage : Usage} {st st' : StreamStats}
    (hread : readStream usage st = some st') :
    fillLevels usage = some
      { hb := (List.range usage.numHostBufferUsed).map fun j =>
          ((st'.hb j).obFillLevel, (st'.hb j).hbFillLevel)
        aveOB := st'.aveOBFillLevel
        aveHB := st'.aveHBFillLevel } := by
  rw [readStream, Option.map_eq_some_iff] at hread
  obtain ⟨mid, hmid, rfl⟩ := hread
  have hstep : ∀ s s' j, readHb usage s j = some s' →
      ∃ l, hbLevels (usage.hb j) = some l ∧
        s'.aveOBFillLevel = s.aveOBFillLevel + l.1.setWidth 32 ∧
        s'.aveHBFillLevel = s.aveHBFillLevel + l.2.setWidth 32 ∧
        ((s'.hb j).obFillLevel, (s'.hb j).hbFillLevel) = l ∧
        ∀ i, i ≠ j → ((s'.hb i).obFillLevel, (s'.hb i).hbFillLevel) =
          ((s.hb i).obFillLevel, (s.hb i).hbFillLevel) := by
    intro s s' j hj
    simp only [readHb] at hj
    split at hj
    case isFalse => cases hj
    case isTrue =>
      simp only [Option.bind_eq_bind, Option.bind_eq_some_iff,
        Option.some.injEq] at hj
      obtain ⟨mask, _, obFill, hob, hbFill, hhb, rfl⟩ := hj
      refine ⟨(atMost100 obFill, hbFill.setWidth 64), ?_, ?_, ?_, ?_,
        fun i hi => ?_⟩
      · simp only [hbLevels, hob, hhb, Option.bind_eq_bind, Option.bind_some]
      · rfl
      · rfl
      · simp only [Function.update_self]
      · simp only [Function.update_of_ne hi]
  exact fillLevels_of_foldlM hstep atMost100 rfl rfl hmid

theorem atMost100_le {w : Nat} (x : BitVec w) :
    (atMost100 x).toNat ≤ x.toNat := by
  unfold atMost100
  split
  case isTrue hlt => exact Nat.le_of_lt hlt
  case isFalse => exact Nat.le_refl _

theorem hbLevels_iff {b : HostBuffer} (hb : b.IsReport) :
    (HB_HIGHWATER.toNat ≤ b.kilobytes ∧
      ∃ l, hbLevels b = some l ∧ l.1.toNat ≤ 100 ∧ l.2.toNat ≤ 100) ↔
        b.Fits HB_HIGHWATER := by
  apply HostBuffer.levels_iff hb atMost100_le
  exact fun _ => BitVec.toNat_setWidth_of_le (by decide)

/-- The levels of a report are in range exactly when its host buffers fit. -/
theorem fillLevels_fits {usage : Usage} (hlt : usage.numHostBufferUsed < 2 ^ 32)
    (hreport : ∀ j, j < usage.numHostBufferUsed → (usage.hb j).IsReport) :
    LevelsDefined HB_HIGHWATER usage (fillLevels usage) ↔
      ∀ j, j < usage.numHostBufferUsed → (usage.hb j).Fits HB_HIGHWATER :=
  levelsDefined_iff_fits atMost100_le hlt fun j hj =>
    hbLevels_iff (hreport j hj)

/-- A stream with one host buffer. -/
def oneBuffer (enQueuedAdapter deQueued : BitVec 64) : Usage where
  numHostBufferUsed := 1
  hb := fun _ => ⟨0, 0, 0, 1, enQueuedAdapter, deQueued, 0, 0, 0, 0⟩

theorem oneBuffer_isReport {enQueuedAdapter deQueued : BitVec 64} (j : Nat)
    (hleast : 2 ^ 20 ≤ enQueuedAdapter.toNat + deQueued.toNat)
    (hsize : enQueuedAdapter.toNat + deQueued.toNat < 2 ^ 64) :
    ((oneBuffer enQueuedAdapter deQueued).hb j).IsReport where
  onboard := Nat.one_pos
  used := Nat.zero_le 1
  atLeast := hleast
  size := hsize

/-- A full host buffer of 4 MB is shown at more than 100 per cent by both. -/
theorem fullBuffer_outside :
    (∀ j, j < (oneBuffer 0 0x400000).numHostBufferUsed →
      ((oneBuffer 0 0x400000).hb j).IsReport) ∧
    ¬ LevelsDefined BufferProfile.HB_HIGHWATER (oneBuffer 0 0x400000)
      (BufferProfile.fillLevels (oneBuffer 0 0x400000)) ∧
    ¬ LevelsDefined HB_HIGHWATER (oneBuffer 0 0x400000)
      (fillLevels (oneBuffer 0 0x400000)) := by
  have hreport : ∀ j, ((oneBuffer 0 0x400000).hb j).IsReport := fun j =>
    oneBuffer_isReport j (by decide) (by decide)
  refine ⟨fun j _ => hreport j, ?_, ?_⟩
  · rintro hdefined
    have hfits := (BufferProfile.fillLevels_fits (by decide) fun j _ =>
      hreport j).mp hdefined 0 Nat.one_pos
    revert hfits
    decide
  · rintro hdefined
    have hfits := (fillLevels_fits (by decide) fun j _ =>
      hreport j).mp hdefined 0 Nat.one_pos
    revert hfits
    decide

/-- In a report on real host buffers the levels of both programs are defined
and at most 100 exactly when the buffers are larger than the high-water mark and
not filled beyond what is left. -/
theorem levelsDefined_iff (usage : Usage)
    (hlt : usage.numHostBufferUsed < 2 ^ 32)
    (hreport : ∀ j, j < usage.numHostBufferUsed → (usage.hb j).IsReport) :
    (LevelsDefined BufferProfile.HB_HIGHWATER usage
        (BufferProfile.fillLevels usage) ↔
      ∀ j, j < usage.numHostBufferUsed →
        (usage.hb j).Fits BufferProfile.HB_HIGHWATER) ∧
    (LevelsDefined HB_HIGHWATER usage (fillLevels usage) ↔
      ∀ j, j < usage.numHostBufferUsed → (usage.hb j).Fits HB_HIGHWATER) :=
  ⟨BufferProfile.fillLevels_fits hlt hreport, fillLevels_fits hlt hreport⟩

/-- A host buffer of 4 MB that is filled to a fourth. -/
theorem levelsDefined_iff_quarter :
    (LevelsDefined BufferProfile.HB_HIGHWATER (oneBuffer 0x300000 0x100000)
        (BufferProfile.fillLevels (oneBuffer 0x300000 0x100000)) ↔
      ∀ j, j < 1 → ((oneBuffer 0x300000 0x100000).hb j).Fits
        BufferProfile.HB_HIGHWATER) ∧
    (LevelsDefined HB_HIGHWATER (oneBuffer 0x300000 0x100000)
        (fillLevels (oneBuffer 0x300000 0x100000)) ↔
      ∀ j, j < 1 →
        ((oneBuffer 0x300000 0x100000).hb j).Fits HB_HIGHWATER) :=
  levelsDefined_iff (oneBuffer 0x300000 0x100000) (by decide) fun j _ =>
    oneBuffer_isReport j (by decide) (by decide)

end HbMonitor

end NtapiExamples
