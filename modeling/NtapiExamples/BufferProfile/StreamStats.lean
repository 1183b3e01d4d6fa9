/-
`readStreamStats` of `bufferProfile.cpp`: what it keeps of the host buffers of
the streams, and what it reports from one call to the next.
-/
import NtapiExamples.Lib.Run
import NtapiExamples.Ntapi.FillLevel

namespace NtapiExamples

namespace BufferProfile

open Ntapi

def HB_HIGHWATER : BitVec 64 := 991

/-- `struct hbStats_s`. -/
structure HbStats where
  adapterNo : BitVec 32
  obFillLevel : BitVec 32
  hbFillLevel : BitVec 32
  numaNode : BitVec 32
  rxPktsPrev : BitVec 64
  rxPktsTotal : BitVec 64
  dropPrev : BitVec 64
  dropTotal : BitVec 64
  rxBytesPrev : BitVec 64
  rxBytesTotal : BitVec 64

/-- `struct streamStats_s`; its array `hb` has two elements. -/
structure StreamStats where
  alert : Bool
  hb : Nat → HbStats
  dropCurr : BitVec 64
  rxPktsCurr : BitVec 64
  rxBytesCurr : BitVec 64
  aveOBFillLevel : BitVec 32
  aveHBFillLevel : BitVec 32

/-- The body of the loop over the host buffers of a stream. -/
def readHb (usage : Usage) (st : StreamStats) (hbCount : Nat) :
    Option StreamStats := do
  let b := usage.hb hbCount
  if hbCount < 2 then
    let obFill ← b.onboardFill
    let hbFill ← b.hostFill HB_HIGHWATER
    let old := st.hb hbCount
    let hb : HbStats :=
      { adapterNo := b.adapterNo
        numaNode := b.numaNode
        obFillLevel := obFill.setWidth 32
        hbFillLevel := hbFill
        rxPktsPrev := old.rxPktsTotal
        rxBytesPrev := old.rxBytesTotal
        rxPktsTotal := b.rxFrames
        rxBytesTotal := b.rxBytes
        dropPrev := old.dropTotal
        dropTotal := b.dropFrames }
    some
      { hb := Function.update st.hb hbCount hb
        alert := decide (0 < hb.dropTotal - hb.dropPrev)
        rxPktsCurr := hb.rxPktsTotal - hb.rxPktsPrev
        rxBytesCurr := hb.rxBytesTotal - hb.rxBytesPrev
        dropCurr := hb.dropTotal - hb.dropPrev
        aveOBFillLevel := st.aveOBFillLevel + hb.obFillLevel
        aveHBFillLevel := st.aveHBFillLevel + hb.hbFillLevel }
  else none

/-- The loop over the host buffers. -/
def readHbs (usage : Usage) (st : StreamStats) : Option StreamStats :=
  (List.range usage.numHostBufferUsed).foldlM (readHb usage) st

/-- What `readStreamStats` does for a stream. -/
def readStream (usage : Usage) (st : StreamStats) : Option StreamStats :=
  (readHbs usage { st with aveOBFillLevel := 0, aveHBFillLevel := 0 }).map
    fun st =>
      { st with
        aveOBFillLevel := st.aveOBFillLevel /
          BitVec.ofNat 32 usage.numHostBufferUsed
        aveHBFillLevel := st.aveHBFillLevel /
          BitVec.ofNat 32 usage.numHostBufferUsed }

/-- The body of the loop over the streams: the array and `*alert`. -/
def visitStream (firstTime : Bool) (s : (Nat → StreamStats) × Bool)
    (streamId : Nat) (usage : Usage) : Option ((Nat → StreamStats) × Bool) :=
  if streamId < MAX_STREAMS then
    (readStream usage (s.1 streamId)).map fun st =>
      (Function.update s.1 streamId st, s.2 || (!firstTime && st.alert))
  else none

/-- What is kept from one call to the next. -/
structure Memory where
  firstTime : Bool
  numStreams : Nat
  streamStats : Nat → StreamStats

/-- `readStreamStats`, and the store of its result. -/
def readStreamStats (m : Memory) (alert : Bool) (snap : Snapshot) :
    Option (Memory × Bool) :=
  (readStreams (fun s _ => some s) (visitStream m.firstTime) snap.usage
    snap.count (m.streamStats, alert) 0).map fun s =>
      ({ firstTime := false, numStreams := snap.count, streamStats := s.1 },
        s.2)

/-- The call of the main loop, with a fresh flag. -/
def readStep (m : Memory) (snap : Snapshot) : Option Memory :=
  (readStreamStats m false snap).map Prod.fst

/-- What the body of the loop sets when it gets through. -/
theorem readHb_spec {usage : Usage} {st st' : StreamStats} {j : Nat}
    (hread : readHb usage st j = some st') :
    (st'.alert = decide (0 < (usage.hb j).dropFrames - (st.hb j).dropTotal)) ∧
      st'.rxPktsCurr = (usage.hb j).rxFrames - (st.hb j).rxPktsTotal ∧
      st'.dropCurr = (usage.hb j).dropFrames - (st.hb j).dropTotal ∧
      (st'.hb j).rxPktsTotal = (usage.hb j).rxFrames ∧
      (st'.hb j).dropTotal = (usage.hb j).dropFrames ∧
      ∀ i, i ≠ j → st'.hb i = st.hb i := by
  simp only [readHb] at hread
  split at hread
  case isFalse => exact absurd hread nofun
  case isTrue =>
    simp only [Option.bind_eq_bind, Option.bind_eq_some_iff,
      Option.some.injEq] at hread
    obtain ⟨obFill, -, hbFill, -, rfl⟩ := hread
    refine ⟨rfl, rfl, rfl, ?_, ?_, fun i hi => Function.update_of_ne hi _ _⟩
    · simp only [Function.update_self]
    · simp only [Function.update_self]

theorem readHb_isSome_iff (usage : Usage) (st : StreamStats) (j : Nat) :
    (readHb usage st j).isSome ↔
      j < 2 ∧ (usage.hb j).FillDefined HB_HIGHWATER := by
  rw [← HostBuffer.fillLevels_isSome_iff]
  by_cases hj : j < 2
  · cases hob : (usage.hb j).onboardFill with
    | none => simp [readHb, hj, hob]
    | some obFill =>
        cases hhb : (usage.hb j).hostFill HB_HIGHWATER with
        | none => simp [readHb, hj, hob, hhb]
        | some hbFill => simp [readHb, hj, hob, hhb]
  · simp [readHb, hj]

/-- The results are those of the last host buffer. -/
theorem readHbs_spec {usage : Usage} {n : Nat} {st st' : StreamStats}
    (hread : (List.range n).foldlM (readHb usage) st = some st') :
    (∀ j, j < n → (st'.hb j).rxPktsTotal = (usage.hb j).rxFrames ∧
      (st'.hb j).dropTotal = (usage.hb j).dropFrames) ∧
    (∀ j, n ≤ j → st'.hb j = st.hb j) ∧
    ∀ last, n = last + 1 →
      st'.alert =
        decide (0 < (usage.hb last).dropFrames - (st.hb last).dropTotal) ∧
      st'.rxPktsCurr = (usage.hb last).rxFrames - (st.hb last).rxPktsTotal ∧
      st'.dropCurr = (usage.hb last).dropFrames - (st.hb last).dropTotal := by
  induction n generalizing st' with
  | zero =>
      cases hread
      exact ⟨nofun, fun _ _ => rfl, nofun⟩
  | succ n ih =>
      rw [List.range_succ, List.foldlM_append] at hread
      simp only [Option.bind_eq_bind, Option.bind_eq_some_iff,
        List.foldlM_cons, List.foldlM_nil, Option.pure_def,
        Option.some.injEq] at hread
      obtain ⟨mid, hmid, _, hlast, rfl⟩ := hread
      obtain ⟨hbelow, habove, -⟩ := ih hmid
      obtain ⟨halert, hrx, hdrop, hrxTotal, hdropTotal, hframe⟩ :=
        readHb_spec hlast
      rw [habove n (Nat.le_refl n)] at halert hrx hdrop
      refine ⟨fun j hj => ?_, fun j hj => ?_, fun last heq => ?_⟩
      · by_cases hjn : j = n
        · rw [hjn]
          exact ⟨hrxTotal, hdropTotal⟩
        · rw [hframe j hjn]
          exact hbelow j (by omega)
      · rw [hframe j (by omega)]
        exact habove j (by omega)
      · obtain rfl : n = last := by omega
        exact ⟨halert, hrx, hdrop⟩

/-- The results for a stream are those of its last host buffer. -/
theorem readStream_spec {usage : Usage} {st st' : StreamStats}
    (hread : readStream usage st = some st') :
    (∀ j, j < usage.numHostBufferUsed →
      (st'.hb j).rxPktsTotal = (usage.hb j).rxFrames ∧
        (st'.hb j).dropTotal = (usage.hb j).dropFrames) ∧
    ∀ last, usage.numHostBufferUsed = last + 1 →
      st'.alert =
        decide (0 < (usage.hb last).dropFrames - (st.hb last).dropTotal) ∧
      st'.rxPktsCurr = (usage.hb last).rxFrames - (st.hb last).rxPktsTotal ∧
      st'.dropCurr = (usage.hb last).dropFrames - (st.hb last).dropTotal := by
  rw [readStream, Option.map_eq_some_iff] at hread
  obtain ⟨mid, hmid, rfl⟩ := hread
  obtain ⟨htotals, -, hlast⟩ := readHbs_spec hmid
  exact ⟨htotals, hlast⟩

theorem readStream_isSome_iff (usage : Usage) (st : StreamStats) :
    (readStream usage st).isSome ↔ usage.numHostBufferUsed ≤ 2 ∧
      ∀ j, j < usage.numHostBufferUsed →
        (usage.hb j).FillDefined HB_HIGHWATER := by
  rw [readStream, Option.isSome_map, readHbs,
    foldlM_isSome_iff (readHb_isSome_iff usage)]
  constructor
  · intro hall
    refine ⟨?_, fun j hj => (hall j hj).2⟩
    by_contra hgt
    exact absurd (hall 2 (by omega)).1 (by decide)
  · rintro ⟨hle, hall⟩ j hj
    exact ⟨by omega, hall j hj⟩

/-- What happens to the entry of an id. -/
def readEntry (usage : Nat → Usage) (streamId : Nat) (st : StreamStats) :
    Option StreamStats :=
  if (usage (castId streamId)).numHostBufferUsed = 0 then some st
  else if streamId < MAX_STREAMS then readStream (usage (castId streamId)) st
  else none

theorem atStream_visitStream (firstTime : Bool) (usage : Nat → Usage)
    (s : (Nat → StreamStats) × Bool) (streamId : Nat) :
    atStream (fun s _ => some s) (visitStream firstTime) usage s streamId =
      (readEntry usage streamId (s.1 streamId)).map fun st =>
        (Function.update s.1 streamId st, s.2 ||
          (decide ((usage (castId streamId)).numHostBufferUsed ≠ 0) &&
            (!firstTime && st.alert))) := by
  by_cases hused : (usage (castId streamId)).numHostBufferUsed = 0
  · simp [atStream, readEntry, hused]
  · simp only [atStream, if_neg hused, readEntry, visitStream]
    split <;> simp [hused]

/-- On a snapshot with the right count, the streams in use are read, each from
its own usage data, and nothing else changes. -/
theorem readStreamStats_iff {m m' : Memory} {alert alert' : Bool}
    {snap : Snapshot} (hvalid : snap.Valid) :
    readStreamStats m alert snap = some (m', alert') ↔
      (∀ id ∈ snap.active, readStream (snap.usage id) (m.streamStats id) =
        some (m'.streamStats id)) ∧
      (∀ id, id ∉ snap.active → m'.streamStats id = m.streamStats id) ∧
      alert' = (alert || snap.active.any fun id =>
        !m.firstTime && (m'.streamStats id).alert) ∧
      m'.firstTime = false ∧ m'.numStreams = snap.count := by
  obtain ⟨stop, hstop, hmem, hread⟩ := Snapshot.readStreams_eq
    hvalid.count (fun s _ => some s) (visitStream m.firstTime)
  have hstep : atStream (fun s _ => some s) (visitStream m.firstTime)
      snap.usage = fun s id => (readEntry snap.usage id (s.1 id)).map fun st =>
        (Function.update s.1 id st, s.2 ||
          (decide ((snap.usage (castId id)).numHostBufferUsed ≠ 0) &&
            (!m.firstTime && st.alert))) :=
    funext₂ (atStream_visitStream m.firstTime snap.usage)
  have hany : ∀ stats : Nat → StreamStats,
      ((List.range stop).any fun id =>
        decide ((snap.usage (castId id)).numHostBufferUsed ≠ 0) &&
          (!m.firstTime && (stats id).alert)) =
      snap.active.any fun id => !m.firstTime && (stats id).alert := by
    intro stats
    rw [Bool.eq_iff_iff, List.any_eq_true, List.any_eq_true]
    refine exists_congr fun id => ?_
    rw [hmem, List.mem_range, Bool.and_eq_true, decide_eq_true_eq, and_assoc]
    refine and_congr_right fun hid => ?_
    rw [castId_of_lt (Nat.lt_of_lt_of_le hid hstop)]
  rw [readStreamStats, hread, hstep, foldlM_update_any, Option.map_map,
    Option.map_eq_some_iff]
  simp only [foldlM_update, hany, Function.comp_apply, Prod.mk.injEq]
  constructor
  · rintro ⟨stats, ⟨hbelow, habove⟩, rfl, rfl⟩
    refine ⟨fun id hid => ?_, fun id hid => ?_, rfl, rfl, rfl⟩
    · obtain ⟨hlt, hused⟩ := (hmem id).mp hid
      have hentry := hbelow id hlt
      have hmax := Nat.lt_of_lt_of_le hlt hstop
      rwa [readEntry, castId_of_lt hmax, if_neg hused, if_pos hmax] at hentry
    · by_cases hlt : id < stop
      · have hentry := hbelow id hlt
        have hfree : (snap.usage id).numHostBufferUsed = 0 := by
          by_contra hused
          exact hid ((hmem id).mpr ⟨hlt, hused⟩)
        rw [readEntry, castId_of_lt (Nat.lt_of_lt_of_le hlt hstop),
          if_pos hfree, Option.some.injEq] at hentry
        exact hentry.symm
      · exact habove id (by omega)
  · rintro ⟨hactive, hrest, rfl, hfirst, hnum⟩
    refine ⟨m'.streamStats, ⟨fun id hlt => ?_, fun id hge => ?_⟩, ?_, rfl⟩
    · have hmax := Nat.lt_of_lt_of_le hlt hstop
      rw [readEntry, castId_of_lt hmax]
      by_cases hfree : (snap.usage id).numHostBufferUsed = 0
      · rw [if_pos hfree, hrest id fun hid => ((hmem id).mp hid).2 hfree]
      · rw [if_neg hfree, if_pos hmax]
        exact hactive id ((hmem id).mpr ⟨hlt, hfree⟩)
    · exact hrest id fun hid => by
        have hlt := ((hmem id).mp hid).1
        omega
    · cases m' with
      | mk firstTime numStreams streamStats =>
          simp only at hfirst hnum
          rw [hfirst, hnum]

/-- The fill levels of all host buffers in use are defined. -/
def FillsDefined (snap : Snapshot) : Prop :=
  ∀ id ∈ snap.active, ∀ j, j < (snap.usage id).numHostBufferUsed →
    ((snap.usage id).hb j).FillDefined HB_HIGHWATER

theorem readStreamStats_isSome_iff (m : Memory) (alert : Bool) {snap : Snapshot}
    (hvalid : snap.Valid) :
    (readStreamStats m alert snap).isSome ↔ FillsDefined snap := by
  have hsome : ∀ id, (readStream (snap.usage id) (m.streamStats id)).isSome ↔
      ∀ j, j < (snap.usage id).numHostBufferUsed →
        ((snap.usage id).hb j).FillDefined HB_HIGHWATER := by
    intro id
    rw [readStream_isSome_iff, and_iff_right (hvalid.buffers id)]
  constructor
  · intro hread id hid
    obtain ⟨⟨m', alert'⟩, hread⟩ := Option.isSome_iff_exists.mp hread
    rw [← hsome, ((readStreamStats_iff hvalid).mp hread).1 id hid]
    rfl
  · intro hfills
    let stats : Nat → StreamStats := fun id =>
      if id ∈ snap.active then
        (readStream (snap.usage id) (m.streamStats id)).getD (m.streamStats id)
      else m.streamStats id
    have hactive : ∀ id ∈ snap.active,
        readStream (snap.usage id) (m.streamStats id) = some (stats id) := by
      intro id hid
      obtain ⟨st, hst⟩ := Option.isSome_iff_exists.mp
        ((hsome id).mpr (hfills id hid))
      simp only [stats, if_pos hid, hst, Option.getD_some]
    have hread : readStreamStats m alert snap = some (⟨false, snap.count, stats⟩,
        alert || snap.active.any fun id =>
          !m.firstTime && (stats id).alert) :=
      (readStreamStats_iff hvalid).mpr
        ⟨hactive, fun id hid => if_neg hid, rfl, rfl, rfl⟩
    rw [hread]
    rfl

end BufferProfile

end NtapiExamples
