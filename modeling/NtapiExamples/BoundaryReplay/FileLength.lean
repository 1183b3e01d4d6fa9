/-
The check of the file length in `GetFileData`.  The first timestamp is brought
to ticks of 10 ns, the timestamps of the packets are not: a file in nanoseconds
is measured with two units.
-/
import NtapiExamples.BoundaryReplay.FileData

namespace NtapiExamples

namespace BoundaryReplay

/-- 10 ms in the unit of the timestamps of a file. -/
def tenMilliseconds : TimestampType → Nat
  | .unixNanotime => 10000000
  | _ => 1000000

/-- The timestamp lies between two times. -/
def Within (low high : Nat) (ts : BitVec 64) : Prop :=
  low ≤ ts.toNat ∧ ts.toNat ≤ high

/-- The counter has wrapped between the first packet and this one. -/
def Wrapped (first : Nat) (ts : BitVec 64) : Prop :=
  ts.toNat + 2 ^ 64 ≤ first + 1000000

/-- No packet lies before the first one or more than 10 ms behind it. -/
def ShortFile (file : CaptureFile) : Prop :=
  ∀ ts ∈ file.timestamps, Within file.firstTimestamp.toNat
    (file.firstTimestamp.toNat + tenMilliseconds file.tsType) ts

/-- `GetFileData` returns 0 for the short files and for no others. -/
def LengthJudged (file : CaptureFile) : Prop :=
  (getFileData file).1 = 0 ↔ ShortFile file

/-- In ticks of 10 ns: no packet has a counter that wrapped, or there is
another one out of range. -/
def NativeJudged (first : Nat) (timestamps : List (BitVec 64)) : Prop :=
  (∀ ts ∈ timestamps, ¬ Wrapped first ts) ∨
    ∃ ts ∈ timestamps, ¬ Within first (first + 1000000) ts ∧ ¬ Wrapped first ts

/-- In nanoseconds: the file is too long, unless the first packet is from the
first millisecond of the counter.  Then the packets lie in the range that is
checked and in the 10 ms, or some packet is outside of each. -/
def NanoJudged (first : Nat) (timestamps : List (BitVec 64)) : Prop :=
  if first ≤ 1111111 then
    (∀ ts ∈ timestamps, Within first (first / 10 + 1000000) ts) ∨
      ((∃ ts ∈ timestamps, ¬ Within (first / 10) (first / 10 + 1000000) ts) ∧
        ∃ ts ∈ timestamps, ¬ Within first (first + 10000000) ts)
  else ∃ ts ∈ timestamps, ¬ Within first (first + 10000000) ts

/-- The unsigned difference is small: the timestamp is in the window, or the
counter has wrapped. -/
theorem not_tooLong_iff (first ts : BitVec 64) :
    tooLong first ts = false ↔
      Within first.toNat (first.toNat + 1000000) ts ∨
        Wrapped first.toNat ts := by
  have hmax : (boundaryTime.setWidth 64).toNat = 1000000 := rfl
  have hts := ts.isLt
  have hfirst := first.isLt
  rw [tooLong, decide_eq_false_iff_not, BitVec.lt_def, hmax, BitVec.toNat_sub,
    Within, Wrapped]
  omega

/-- `firstPacketTS` as the packets are compared with it. -/
def comparedFirst (file : CaptureFile) : BitVec 64 :=
  if file.tsType = .unixNanotime then file.firstTimestamp / 10
  else file.firstTimestamp

/-- When `GetFileData` accepts a file with packets. -/
theorem getFileData_zero_iff {file : CaptureFile} (hne : file.timestamps ≠ []) :
    (getFileData file).1 = 0 ↔
      ∀ ts ∈ file.timestamps, tooLong (comparedFirst file) ts = false := by
  have hany : (file.segments.any fun s =>
      s.timestamps.any (tooLong (comparedFirst file))) =
        file.timestamps.any (tooLong (comparedFirst file)) := by
    rw [CaptureFile.timestamps, List.any_flatMap]
  have heq : (getFileData file).1 =
      if file.timestamps.any (tooLong (comparedFirst file)) then 2 else 0 := by
    rw [← hany]
    unfold getFileData comparedFirst
    cases hsegments : file.segments with
    | nil =>
        rw [CaptureFile.timestamps, hsegments] at hne
        exact absurd rfl hne
    | cons segment segments => simp only [apply_ite Prod.fst]
  have hfalse : file.timestamps.any (tooLong (comparedFirst file)) = false ↔
      ∀ ts ∈ file.timestamps, tooLong (comparedFirst file) ts = false := by
    simp
  rw [heq, ← hfalse]
  cases file.timestamps.any (tooLong (comparedFirst file)) <;> simp

/-- Two tests accept all of a list or refuse some of it alike. -/
theorem forall_iff_forall {α : Type} {l : List α} {p q : α → Prop} :
    ((∀ x ∈ l, p x) ↔ ∀ x ∈ l, q x) ↔
      (∀ x ∈ l, p x ∧ q x) ∨ (∃ x ∈ l, ¬ p x) ∧ ∃ x ∈ l, ¬ q x := by
  constructor
  · intro halike
    by_cases hall : ∀ x ∈ l, p x
    · exact Or.inl fun x hx => ⟨hall x hx, halike.mp hall x hx⟩
    · right
      have hnot : ¬ ∀ x ∈ l, q x := fun hq => hall (halike.mpr hq)
      simp only [not_forall] at hall hnot
      obtain ⟨x, hx, hpx⟩ := hall
      obtain ⟨y, hy, hqy⟩ := hnot
      exact ⟨⟨x, hx, hpx⟩, y, hy, hqy⟩
  · rintro (hboth | ⟨⟨x, hx, hpx⟩, y, hy, hqy⟩)
    · exact ⟨fun _ x hx => (hboth x hx).2, fun _ x hx => (hboth x hx).1⟩
    · exact ⟨fun hp => absurd (hp x hx) hpx, fun hq => absurd (hq y hy) hqy⟩

section Judged

variable {file : CaptureFile}

theorem nativeJudged_iff (hne : file.timestamps ≠ [])
    (hunit : file.tsType ≠ .unixNanotime) :
    LengthJudged file ↔
      NativeJudged file.firstTimestamp.toNat file.timestamps := by
  have hten : tenMilliseconds file.tsType = 1000000 := by
    cases htype : file.tsType <;> simp_all [tenMilliseconds]
  rw [LengthJudged, getFileData_zero_iff hne, ShortFile, hten, comparedFirst,
    if_neg hunit, NativeJudged, forall_iff_forall]
  simp only [not_tooLong_iff]
  have hexclusive : ∀ ts, Within file.firstTimestamp.toNat
      (file.firstTimestamp.toNat + 1000000) ts →
        ¬ Wrapped file.firstTimestamp.toNat ts := by
    have hfirst := file.firstTimestamp.isLt
    intro ts hwithin hwrapped
    unfold Within at hwithin
    unfold Wrapped at hwrapped
    omega
  constructor
  · rintro (hboth | ⟨⟨ts, hts, hout⟩, _⟩)
    · exact Or.inl fun ts hts => hexclusive ts (hboth ts hts).2
    · exact Or.inr ⟨ts, hts, not_or.mp hout⟩
  · rintro (hnone | ⟨ts, hts, hout⟩)
    · by_cases hall : ∀ ts ∈ file.timestamps, Within file.firstTimestamp.toNat
        (file.firstTimestamp.toNat + 1000000) ts
      · exact Or.inl fun ts hts => ⟨Or.inl (hall ts hts), hall ts hts⟩
      · simp only [not_forall] at hall
        obtain ⟨ts, hts, hout⟩ := hall
        exact Or.inr ⟨⟨ts, hts, not_or.mpr ⟨hout, hnone ts hts⟩⟩, ts, hts, hout⟩
    · exact Or.inr ⟨⟨ts, hts, not_or.mpr hout⟩, ts, hts, hout.1⟩

/-- A nanosecond file is checked against a tenth of its first timestamp. -/
theorem nano_not_tooLong_iff (first ts : BitVec 64) :
    tooLong (first / 10) ts = false ↔
      Within (first.toNat / 10) (first.toNat / 10 + 1000000) ts := by
  have htenth : (first / 10).toNat = first.toNat / 10 := by
    rw [BitVec.toNat_udiv]
    rfl
  have hfirst := first.isLt
  rw [not_tooLong_iff, htenth, or_iff_left]
  unfold Wrapped
  omega

theorem nanoJudged_iff
    (hfirst : file.timestamps.head? = some file.firstTimestamp)
    (hunit : file.tsType = .unixNanotime) :
    LengthJudged file ↔
      NanoJudged file.firstTimestamp.toNat file.timestamps := by
  have hmem : file.firstTimestamp ∈ file.timestamps :=
    List.mem_of_mem_head? hfirst
  have hten : tenMilliseconds file.tsType = 10000000 := by
    rw [hunit, tenMilliseconds]
  rw [LengthJudged, getFileData_zero_iff (List.ne_nil_of_mem hmem), ShortFile,
    hten, comparedFirst, if_pos hunit, NanoJudged, forall_iff_forall]
  simp only [nano_not_tooLong_iff]
  generalize hnat : file.firstTimestamp.toNat = first
  split
  case isTrue hearly =>
    apply or_congr_left
    apply forall_congr'
    intro ts
    apply imp_congr_right
    intro _
    unfold Within
    omega
  case isFalse hlate =>
    have hout : ¬ Within (first / 10) (first / 10 + 1000000)
        file.firstTimestamp := by
      unfold Within
      omega
    constructor
    · rintro (hboth | ⟨_, hlong⟩)
      · exact absurd (hboth _ hmem).1 hout
      · exact hlong
    · exact fun hlong => Or.inr ⟨⟨_, hmem, hout⟩, hlong⟩

end Judged

/-- One packet, from 2023, in nanoseconds. -/
def nanoFile : CaptureFile where
  tsType := .unixNanotime
  firstTimestamp := 1700000000000000000
  lastTimestamp := 1700000000000000000
  segments := [⟨1700000000000000000, []⟩]

/-- It is too long for `GetFileData`. -/
theorem nanoFile_refused :
    nanoFile.timestamps.head? = some nanoFile.firstTimestamp ∧
      ¬ LengthJudged nanoFile := by
  refine ⟨by decide, fun hjudged => ?_⟩
  have hshort : ShortFile nanoFile := by
    intro ts hts
    rw [show nanoFile.timestamps = [1700000000000000000] from rfl,
      List.mem_singleton] at hts
    subst hts
    unfold Within
    decide
  exact absurd (hjudged.mpr hshort) (by decide)

/-- The condition of a file by the unit of its timestamps. -/
def JudgedRight (file : CaptureFile) : Prop :=
  match file.tsType with
  | .unixNanotime => NanoJudged file.firstTimestamp.toNat file.timestamps
  | _ => NativeJudged file.firstTimestamp.toNat file.timestamps

/-- `GetFileData` judges the length of a file with packets right exactly when
the file meets the condition for the unit of its timestamps. -/
theorem lengthJudged_iff (file : CaptureFile)
    (hfirst : file.timestamps.head? = some file.firstTimestamp) :
    LengthJudged file ↔ JudgedRight file := by
  unfold JudgedRight
  split
  case h_1 hunit => exact nanoJudged_iff hfirst hunit
  case h_2 hunit =>
    exact nativeJudged_iff (List.ne_nil_of_mem (List.mem_of_mem_head? hfirst))
      hunit

/-- Two native packets 10 ms apart. -/
theorem lengthJudged_iff_native :
    LengthJudged ⟨.native, 500, 1000500, [⟨500, [1000500]⟩]⟩ := by
  refine (lengthJudged_iff ⟨.native, 500, 1000500, [⟨500, [1000500]⟩]⟩
    (by decide)).mpr (Or.inl ?_)
  intro ts _
  unfold Wrapped
  have hfirst : (500 : BitVec 64).toNat = 500 := rfl
  rw [hfirst]
  omega

end BoundaryReplay

end NtapiExamples
