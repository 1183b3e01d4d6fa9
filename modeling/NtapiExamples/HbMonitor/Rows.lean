/-
The rows that are shown after each snapshot: one for each stream in use, in the
order of the ids.
-/
import Mathlib.Data.List.Nodup
import NtapiExamples.HbMonitor.StreamStats

namespace NtapiExamples

namespace HbMonitor

open Ntapi

/-- The host buffer can be read: no fill level divides by zero, and its adapter
has a place in the mask. -/
def BufferDefined (b : HostBuffer) : Prop :=
  b.FillDefined HB_HIGHWATER ∧ b.adapterNo.toNat < 32

theorem bitMask_isSome_iff (n : BitVec 32) :
    (bitMask n).isSome ↔ n.toNat < 32 := by
  unfold bitMask
  split <;> simp [*]

theorem getLsbD_bitMask {n mask : BitVec 32} (hmask : bitMask n = some mask)
    (a : Nat) : mask.getLsbD a = true ↔ n.toNat = a := by
  unfold bitMask at hmask
  split at hmask
  case isFalse => exact absurd hmask nofun
  case isTrue hn =>
    cases hmask
    rw [getLsbD_bit, Bool.and_eq_true, decide_eq_true_eq, decide_eq_true_eq]
    exact and_iff_right hn

theorem readHb_spec {usage : Usage} {st st' : StreamStats} {j : Nat}
    (hread : readHb usage st j = some st') :
    st'.active = st.active ∧
      ∀ a, st'.adapterNo.getLsbD a = true ↔
        st.adapterNo.getLsbD a = true ∨ (usage.hb j).adapterNo.toNat = a := by
  simp only [readHb] at hread
  split at hread
  case isFalse => exact absurd hread nofun
  case isTrue =>
    simp only [Option.bind_eq_bind, Option.bind_eq_some_iff,
      Option.some.injEq] at hread
    obtain ⟨mask, hmask, obFill, -, hbFill, -, rfl⟩ := hread
    refine ⟨rfl, fun a => ?_⟩
    rw [BitVec.getLsbD_or, Bool.or_eq_true, getLsbD_bitMask hmask]

theorem readHb_isSome_iff (usage : Usage) (st : StreamStats) (j : Nat) :
    (readHb usage st j).isSome ↔ j < 2 ∧ BufferDefined (usage.hb j) := by
  rw [BufferDefined, ← HostBuffer.fillLevels_isSome_iff, ← bitMask_isSome_iff]
  by_cases hj : j < 2
  · cases hmask : bitMask (usage.hb j).adapterNo with
    | none => simp [readHb, hj, hmask]
    | some mask =>
        cases hob : (usage.hb j).onboardFill with
        | none => simp [readHb, hj, hmask, hob]
        | some obFill =>
            cases hhb : (usage.hb j).hostFill HB_HIGHWATER with
            | none => simp [readHb, hj, hmask, hob, hhb]
            | some hbFill => simp [readHb, hj, hmask, hob, hhb]
  · simp [readHb, hj]

/-- What the loop over the first `n` host buffers of a stream leaves: their counters,
those of the last of them against the ones before, and the sums of the levels. -/
structure ReadCounts (usage : Usage) (n : Nat) (st st' : StreamStats) : Prop where
  totals : ∀ j, (st'.hb j).pktsTotal =
      (if j < n then (usage.hb j).rxFrames else (st.hb j).pktsTotal) ∧
    (st'.hb j).dropTotal =
      if j < n then (usage.hb j).dropFrames else (st.hb j).dropTotal
  counted : ∀ last, n = last + 1 →
    st'.pktsCurr = (usage.hb last).rxFrames - (st.hb last).pktsTotal ∧
      st'.dropCurr = (usage.hb last).dropFrames - (st.hb last).dropTotal
  host : ∃ levels, levels.length = n ∧
    ((List.range n).mapM fun j => (usage.hb j).hostFill HB_HIGHWATER) =
      some levels ∧
    st'.aveHBFillLevel = levels.foldl (· + ·) st.aveHBFillLevel
  onboard : ∃ levels, levels.length = n ∧
    ((List.range n).mapM fun j => (usage.hb j).onboardFill) = some levels ∧
    st'.aveOBFillLevel = (levels.map fun level =>
      (atMost100 level).setWidth 32).foldl (· + ·) st.aveOBFillLevel

theorem ReadCounts.step {usage : Usage} {n : Nat} {st mid st' : StreamStats}
    (hcounts : ReadCounts usage n st mid) (hread : readHb usage mid n = some st') :
    ReadCounts usage (n + 1) st st' := by
  simp only [readHb] at hread
  split at hread
  case isFalse => exact absurd hread nofun
  case isTrue =>
    simp only [Option.bind_eq_bind, Option.bind_eq_some_iff,
      Option.some.injEq] at hread
    obtain ⟨_, -, obFill, hob, hbFill, hhb, rfl⟩ := hread
    obtain ⟨hpkts, hdrops⟩ := hcounts.totals n
    rw [if_neg (Nat.lt_irrefl n)] at hpkts hdrops
    refine ⟨fun j => ?_, ?_, ?_, ?_⟩
    · by_cases hj : j = n
      · subst hj
        simp only [Function.update_self, Nat.lt_succ_self, if_true, and_self]
      · have hlt : j < n + 1 ↔ j < n := by omega
        simp only [Function.update_of_ne hj, hlt]
        exact hcounts.totals j
    · intro last hlast
      obtain rfl : n = last := Nat.succ.inj hlast
      rw [← hpkts, ← hdrops]
      exact ⟨rfl, rfl⟩
    · obtain ⟨levels, hlength, hlevels, hsum⟩ := hcounts.host
      refine ⟨levels ++ [hbFill], by simp [hlength],
        mapM_range_succ _ hlevels hhb, ?_⟩
      rw [List.foldl_append, ← hsum]
      simp
    · obtain ⟨levels, hlength, hlevels, hsum⟩ := hcounts.onboard
      refine ⟨levels ++ [obFill], by simp [hlength],
        mapM_range_succ _ hlevels hob, ?_⟩
      rw [List.map_append, List.foldl_append, ← hsum]
      rfl

theorem readHbs_counts {usage : Usage} {n : Nat} {st st' : StreamStats}
    (hread : (List.range n).foldlM (readHb usage) st = some st') :
    ReadCounts usage n st st' := by
  induction n generalizing st' with
  | zero =>
      cases hread
      exact ⟨fun _ => ⟨rfl, rfl⟩, fun _ hlast => (by cases hlast),
        ⟨[], rfl, rfl, rfl⟩, ⟨[], rfl, rfl, rfl⟩⟩
  | succ n ih =>
      rw [List.range_succ, List.foldlM_append] at hread
      simp only [Option.bind_eq_bind, Option.bind_eq_some_iff,
        List.foldlM_cons, List.foldlM_nil, Option.pure_def,
        Option.some.injEq] at hread
      obtain ⟨mid, hmid, _, hlast, rfl⟩ := hread
      exact (ih hmid).step hlast

theorem readHbs_spec {usage : Usage} {n : Nat} {st st' : StreamStats}
    (hread : (List.range n).foldlM (readHb usage) st = some st') :
    st'.active = st.active ∧
      ∀ a, st'.adapterNo.getLsbD a = true ↔
        st.adapterNo.getLsbD a = true ∨
          ∃ j, j < n ∧ (usage.hb j).adapterNo.toNat = a := by
  induction n generalizing st' with
  | zero =>
      cases hread
      simp
  | succ n ih =>
      rw [List.range_succ, List.foldlM_append] at hread
      simp only [Option.bind_eq_bind, Option.bind_eq_some_iff,
        List.foldlM_cons, List.foldlM_nil, Option.pure_def,
        Option.some.injEq] at hread
      obtain ⟨mid, hmid, _, hlast, rfl⟩ := hread
      obtain ⟨hactive, hmask⟩ := ih hmid
      obtain ⟨hactive', hmask'⟩ := readHb_spec hlast
      refine ⟨hactive'.trans hactive, fun a => ?_⟩
      rw [hmask' a, hmask a]
      constructor
      · rintro ((hold | ⟨j, hj, ha⟩) | ha)
        · exact Or.inl hold
        · exact Or.inr ⟨j, by omega, ha⟩
        · exact Or.inr ⟨n, Nat.lt_succ_self n, ha⟩
      · rintro (hold | ⟨j, hj, ha⟩)
        · exact Or.inl (Or.inl hold)
        · by_cases hjn : j = n
          · exact Or.inr (hjn ▸ ha)
          · exact Or.inl (Or.inr ⟨j, by omega, ha⟩)

theorem readStream_spec {usage : Usage} {st st' : StreamStats}
    (hread : readStream usage st = some st') :
    st'.active = true ∧
      ∀ a, st'.adapterNo.getLsbD a = true ↔
        st.adapterNo.getLsbD a = true ∨
          ∃ j, j < usage.numHostBufferUsed ∧
            (usage.hb j).adapterNo.toNat = a := by
  rw [readStream, Option.map_eq_some_iff] at hread
  obtain ⟨mid, hmid, rfl⟩ := hread
  exact readHbs_spec hmid

/-- The usage data of a stream can be read: its host buffers fit into the array
of two, and each is defined. -/
def UsageDefined (usage : Usage) : Prop :=
  ∀ j, j < usage.numHostBufferUsed → j < 2 ∧ BufferDefined (usage.hb j)

theorem readStream_isSome_iff (usage : Usage) (st : StreamStats) :
    (readStream usage st).isSome ↔ UsageDefined usage := by
  rw [readStream, Option.isSome_map,
    foldlM_isSome_iff (readHb_isSome_iff usage), UsageDefined]

/-- What happens to the entry of an id. -/
def readEntry (usage : Nat → Usage) (streamId : Nat) (st : StreamStats) :
    Option StreamStats :=
  if streamId < MAX_STREAMS then
    if (usage (castId streamId)).numHostBufferUsed = 0 then
      some { st with active := false }
    else readStream (usage (castId streamId)) st
  else none

theorem atStream_eq (usage : Nat → Usage) (stats : Nat → StreamStats)
    (streamId : Nat) :
    atStream skipStream visitStream usage stats streamId =
      (readEntry usage streamId (stats streamId)).map
        (Function.update stats streamId) := by
  by_cases hused : (usage (castId streamId)).numHostBufferUsed = 0
  · rw [atStream_unused hused, skipStream, readEntry, if_pos hused]
    split <;> rfl
  · rw [atStream_used hused, visitStream, readEntry, if_neg hused]
    split <;> rfl

/-- On a snapshot with the right count, the streams in use are read, each from
its own usage data, and up to the last of them the flags are refreshed. -/
theorem readStreamStats_iff {snap : Snapshot}
    (hcount : snap.count = snap.active.length) :
    ∃ stop, stop ≤ MAX_STREAMS ∧
      (∀ id, id ∈ snap.active ↔
        id < stop ∧ (snap.usage id).numHostBufferUsed ≠ 0) ∧
      ∀ m m', readStreamStats m snap = some m' ↔
        m'.numStreams = snap.count ∧
        (∀ id ∈ snap.active, readStream (snap.usage id) (m.streamStats id) =
          some (m'.streamStats id)) ∧
        (∀ id, id < stop → (snap.usage id).numHostBufferUsed = 0 →
          m'.streamStats id = { m.streamStats id with active := false }) ∧
        ∀ id, stop ≤ id → m'.streamStats id = m.streamStats id := by
  obtain ⟨stop, hstop, hmem, hread⟩ :=
    Snapshot.readStreams_eq hcount skipStream visitStream
  refine ⟨stop, hstop, hmem, fun m m' => ?_⟩
  have hstep : atStream skipStream visitStream snap.usage = fun stats id =>
      (readEntry snap.usage id (stats id)).map (Function.update stats id) :=
    funext₂ (atStream_eq snap.usage)
  have hentry : ∀ id, id < stop → ∀ st, readEntry snap.usage id st =
      if (snap.usage id).numHostBufferUsed = 0 then
        some { st with active := false }
      else readStream (snap.usage id) st := by
    intro id hid st
    have hmax := Nat.lt_of_lt_of_le hid hstop
    rw [readEntry, if_pos hmax, castId_of_lt hmax]
  rw [readStreamStats, hread, hstep, Option.map_eq_some_iff]
  simp only [foldlM_update]
  constructor
  · rintro ⟨stats, ⟨hbelow, habove⟩, rfl⟩
    refine ⟨rfl, fun id hid => ?_, fun id hid hfree => ?_, habove⟩
    · obtain ⟨hlt, hused⟩ := (hmem id).mp hid
      have hnew := hbelow id hlt
      rwa [hentry id hlt, if_neg hused] at hnew
    · have hnew := hbelow id hid
      rw [hentry id hid, if_pos hfree, Option.some.injEq] at hnew
      exact hnew.symm
  · rintro ⟨hnum, hactive, hfree, habove⟩
    refine ⟨m'.streamStats, ⟨fun id hid => ?_, habove⟩, ?_⟩
    · rw [hentry id hid]
      by_cases hused : (snap.usage id).numHostBufferUsed = 0
      · rw [if_pos hused, hfree id hid hused]
      · rw [if_neg hused]
        exact hactive id ((hmem id).mpr ⟨hid, hused⟩)
    · rw [← hnum]

/-- The usage data of all streams in use can be read. -/
def UsagesDefined (snap : Snapshot) : Prop :=
  ∀ id ∈ snap.active, UsageDefined (snap.usage id)

theorem readStreamStats_isSome_iff (m : SysStats) {snap : Snapshot}
    (hcount : snap.count = snap.active.length) :
    (readStreamStats m snap).isSome ↔ UsagesDefined snap := by
  obtain ⟨stop, -, hmem, hiff⟩ := readStreamStats_iff hcount
  constructor
  · intro hread id hid
    obtain ⟨m', hread⟩ := Option.isSome_iff_exists.mp hread
    rw [← readStream_isSome_iff _ (m.streamStats id),
      ((hiff m m').mp hread).2.1 id hid]
    rfl
  · intro hdefined
    let stats : Nat → StreamStats := fun id =>
      if id < stop then
        if (snap.usage id).numHostBufferUsed = 0 then
          { m.streamStats id with active := false }
        else (readStream (snap.usage id) (m.streamStats id)).getD
          (m.streamStats id)
      else m.streamStats id
    have hread : readStreamStats m snap = some ⟨snap.count, stats⟩ := by
      refine (hiff m _).mpr ⟨rfl, fun id hid => ?_, fun id hid hfree => ?_,
        fun id hid => if_neg (Nat.not_lt.mpr hid)⟩
      · obtain ⟨hlt, hused⟩ := (hmem id).mp hid
        obtain ⟨st, hst⟩ := Option.isSome_iff_exists.mp
          ((readStream_isSome_iff _ (m.streamStats id)).mpr (hdefined id hid))
        simp only [stats, if_pos hlt, if_neg hused, hst, Option.getD_some]
      · simp only [stats, if_pos hid, if_pos hfree]
    rw [hread]
    rfl

/-- The flags up to the last stream in use give back the ids in use, and so the
rows are those of the streams in use. -/
theorem outputStats_eq {m m' : SysStats} {snap : Snapshot}
    (hcount : snap.count = snap.active.length)
    (hread : readStreamStats m snap = some m') :
    outputStats m' =
      some (snap.active.map fun id => row (m'.streamStats id) id) := by
  obtain ⟨stop, hstop, hmem, hiff⟩ := readStreamStats_iff hcount
  obtain ⟨hnum, hactive, hfree, -⟩ := (hiff m m').mp hread
  have hflag : ∀ id, id < stop → ((m'.streamStats id).active = true ↔
      (snap.usage id).numHostBufferUsed ≠ 0) := by
    intro id hid
    by_cases hused : (snap.usage id).numHostBufferUsed = 0
    · rw [hfree id hid hused]
      simp [hused]
    · rw [(readStream_spec (hactive id ((hmem id).mpr ⟨hid, hused⟩))).1]
      simp [hused]
  have hsame : ((List.range' 0 stop).filter fun i =>
      (m'.streamStats i).active) = snap.active := by
    rw [← List.range_eq_range']
    have hsorted : snap.active.Pairwise (· < ·) :=
      List.pairwise_lt_range.filter _
    have hsorted' : ((List.range stop).filter fun i =>
        (m'.streamStats i).active).Pairwise (· < ·) :=
      List.pairwise_lt_range.filter _
    refine List.Perm.eq_of_pairwise (fun a b _ _ hab hba =>
      absurd hab (Nat.lt_asymm hba)) hsorted' hsorted ?_
    rw [List.perm_ext_iff_of_nodup (hsorted'.imp Nat.ne_of_lt)
      (hsorted.imp Nat.ne_of_lt)]
    intro id
    rw [List.mem_filter, List.mem_range, hmem]
    exact and_congr_right (hflag id)
  rw [outputStats, hnum, hcount, ← hsame]
  exact outputRows_eq _ (by omega) rfl

theorem mem_shownAdapters (mask : BitVec 32) (a : Nat) :
    a ∈ shownAdapters mask ↔ a < 4 ∧ mask.getLsbD a = true := by
  rw [shownAdapters, List.mem_filter, List.mem_range, test_bit]

/-- The adapters that a stream uses in a snapshot, of those that are shown. -/
def usedAdapters (usage : Usage) : List Nat :=
  (List.range 4).filter fun a =>
    (List.range usage.numHostBufferUsed).any fun j =>
      (usage.hb j).adapterNo.toNat == a

/-- A counter of a host buffer, as it is or as it was when it was last read. -/
def nextCounter (counter : HostBuffer → BitVec 64) (id j : Nat)
    (last : BitVec 64) (snap : Snapshot) : BitVec 64 :=
  if j < (snap.usage id).numHostBufferUsed then counter ((snap.usage id).hb j)
  else last

/-- A counter of a host buffer when it was last read, and 0 before. -/
def lastCounter (counter : HostBuffer → BitVec 64) (before : List Snapshot)
    (id j : Nat) : BitVec 64 :=
  before.foldl (nextCounter counter id j) 0

/-- What the first `n` host buffers of a stream have counted since they were last
read. -/
def counted (counter : HostBuffer → BitVec 64) (before : List Snapshot)
    (cur : Snapshot) (id : Nat) : Nat → BitVec 64
  | 0 => 0
  | n + 1 => counted counter before cur id n +
      (counter ((cur.usage id).hb n) - lastCounter counter before id n)

/-- The average of the levels, at most 100. -/
def average (levels : List (BitVec 32)) : BitVec 32 :=
  atMost100 (levels.foldl (· + ·) 0 / BitVec.ofNat 32 levels.length)

/-- The row of a stream that is built from its usage data: the adapters of its host
buffers, what these have counted together since the stream was last read, and the
averages of their levels. -/
def expectedRow (before : List Snapshot) (cur : Snapshot) (id : Nat) :
    Option Row := do
  let usage := cur.usage id
  let buffers := List.range usage.numHostBufferUsed
  let host ← buffers.mapM fun j => (usage.hb j).hostFill HB_HIGHWATER
  let onboard ← buffers.mapM fun j => (usage.hb j).onboardFill
  some
    { adapters := usedAdapters usage
      pps := 2 * counted HostBuffer.rxFrames before cur id
        usage.numHostBufferUsed
      stream := id
      hostBuffer := average host
      onboard := average (onboard.map fun level =>
        (atMost100 level).setWidth 32)
      drops := counted HostBuffer.dropFrames before cur id
        usage.numHostBufferUsed }

/-- After the snapshot, the rows are those of the streams in use, in the order
of their ids, each built from the usage data of the snapshots. -/
def DisplaysActive (before : List Snapshot) (m : SysStats) (cur : Snapshot) :
    Prop :=
  ∃ m' rows, readStreamStats m cur = some m' ∧ outputStats m' = some rows ∧
    rows.map some = cur.active.map (expectedRow before cur)

/-- The adapters that the streams in use had in earlier snapshots are still in
use by them. -/
def AdaptersKept (before : List Snapshot) (cur : Snapshot) : Prop :=
  ∀ id ∈ cur.active, ∀ snap ∈ before, id ∈ snap.active →
    ∀ a ∈ usedAdapters (snap.usage id), a ∈ usedAdapters (cur.usage id)

/-- Of the host buffers of a stream in use only the last has counted packets and
drops since they were last read, up to what twice the number of packets, in 64 bits,
does not show. -/
def LastCounts (before : List Snapshot) (cur : Snapshot) : Prop :=
  ∀ id ∈ cur.active,
    2 * counted HostBuffer.rxFrames before cur id
        ((cur.usage id).numHostBufferUsed - 1) = 0 ∧
      counted HostBuffer.dropFrames before cur id
        ((cur.usage id).numHostBufferUsed - 1) = 0

theorem mem_usedAdapters (usage : Usage) (a : Nat) :
    a ∈ usedAdapters usage ↔ a < 4 ∧
      ∃ j, j < usage.numHostBufferUsed ∧ (usage.hb j).adapterNo.toNat = a := by
  simp [usedAdapters, List.mem_filter]

theorem mask_of_read {m m' : SysStats} {snap : Snapshot}
    (hcount : snap.count = snap.active.length)
    (hread : readStreamStats m snap = some m') (id a : Nat) :
    (m'.streamStats id).adapterNo.getLsbD a = true ↔
      (m.streamStats id).adapterNo.getLsbD a = true ∨
        id ∈ snap.active ∧
          ∃ j, j < (snap.usage id).numHostBufferUsed ∧
            ((snap.usage id).hb j).adapterNo.toNat = a := by
  obtain ⟨stop, -, hmem, hiff⟩ := readStreamStats_iff hcount
  obtain ⟨-, hactive, hfree, habove⟩ := (hiff m m').mp hread
  by_cases hid : id ∈ snap.active
  · rw [(readStream_spec (hactive id hid)).2 a, and_iff_right hid]
  · have hsame : (m'.streamStats id).adapterNo =
        (m.streamStats id).adapterNo := by
      by_cases hlt : id < stop
      · have hunused : (snap.usage id).numHostBufferUsed = 0 := by
          by_contra hused
          exact hid ((hmem id).mpr ⟨hlt, hused⟩)
        rw [hfree id hlt hunused]
      · rw [habove id (by omega)]
    rw [hsame]
    exact ⟨Or.inl, fun h => h.resolve_right fun h => hid h.1⟩

/-- The mask of a stream has the adapters of all snapshots so far. -/
theorem mask_of_exec {before : List Snapshot} {init m : SysStats}
    (hcount : ∀ snap ∈ before, snap.count = snap.active.length)
    (hrun : exec readStreamStats init before = some m) (id a : Nat) :
    (m.streamStats id).adapterNo.getLsbD a = true ↔
      (init.streamStats id).adapterNo.getLsbD a = true ∨
        ∃ snap ∈ before, id ∈ snap.active ∧
          ∃ j, j < (snap.usage id).numHostBufferUsed ∧
            ((snap.usage id).hb j).adapterNo.toNat = a := by
  induction before generalizing init with
  | nil =>
      cases hrun
      simp
  | cons snap before ih =>
      simp only [exec] at hrun
      cases hread : readStreamStats init snap with
      | none => simp [hread] at hrun
      | some next =>
          simp only [hread] at hrun
          rw [ih (fun s hs => hcount s (List.mem_cons_of_mem _ hs)) hrun,
            mask_of_read (hcount snap List.mem_cons_self) hread,
            List.exists_mem_cons_iff, or_assoc]

theorem totals_of_read {m m' : SysStats} {snap : Snapshot}
    (hcount : snap.count = snap.active.length)
    (hread : readStreamStats m snap = some m') {id : Nat} (hid : id < MAX_STREAMS)
    (j : Nat) :
    ((m'.streamStats id).hb j).pktsTotal = nextCounter HostBuffer.rxFrames id j
        ((m.streamStats id).hb j).pktsTotal snap ∧
      ((m'.streamStats id).hb j).dropTotal = nextCounter HostBuffer.dropFrames
        id j ((m.streamStats id).hb j).dropTotal snap := by
  obtain ⟨stop, -, hmem, hiff⟩ := readStreamStats_iff hcount
  obtain ⟨-, hactive, hfree, habove⟩ := (hiff m m').mp hread
  by_cases hused : (snap.usage id).numHostBufferUsed = 0
  · have hsame : (m'.streamStats id).hb = (m.streamStats id).hb := by
      by_cases hlt : id < stop
      · rw [hfree id hlt hused]
      · rw [habove id (by omega)]
    simp [nextCounter, hused, hsame]
  · have hnew := hactive id ((snap.mem_active id).mpr ⟨hid, hused⟩)
    rw [readStream, Option.map_eq_some_iff] at hnew
    obtain ⟨mid, hmid, hst⟩ := hnew
    rw [← hst]
    exact (readHbs_counts hmid).totals j

/-- The counters kept for a stream are those it had when it was last read. -/
theorem totals_of_exec {before : List Snapshot} {init m : SysStats}
    (hcount : ∀ snap ∈ before, snap.count = snap.active.length)
    (hrun : exec readStreamStats init before = some m) {id : Nat}
    (hid : id < MAX_STREAMS) (j : Nat) :
    ((m.streamStats id).hb j).pktsTotal =
        before.foldl (nextCounter HostBuffer.rxFrames id j)
          ((init.streamStats id).hb j).pktsTotal ∧
      ((m.streamStats id).hb j).dropTotal =
        before.foldl (nextCounter HostBuffer.dropFrames id j)
          ((init.streamStats id).hb j).dropTotal := by
  induction before generalizing init with
  | nil =>
      cases hrun
      exact ⟨rfl, rfl⟩
  | cons snap before ih =>
      simp only [exec] at hrun
      cases hread : readStreamStats init snap with
      | none => simp [hread] at hrun
      | some next =>
          simp only [hread] at hrun
          obtain ⟨hpkts, hdrops⟩ :=
            totals_of_read (hcount snap List.mem_cons_self) hread hid j
          rw [List.foldl_cons, List.foldl_cons, ← hpkts, ← hdrops]
          exact ih (fun s hs => hcount s (List.mem_cons_of_mem _ hs)) hrun

/-- The row shown for a stream in use, but for the adapters and for the host buffers
whose counters are overwritten. -/
theorem expectedRow_eq {before : List Snapshot} {m m' : SysStats} {cur : Snapshot}
    (hcount : ∀ snap ∈ before, snap.count = snap.active.length)
    (hrun : exec readStreamStats start before = some m)
    (hcur : cur.count = cur.active.length)
    (hread : readStreamStats m cur = some m') {id : Nat}
    (hid : id ∈ cur.active) :
    expectedRow before cur id = some { row (m'.streamStats id) id with
      adapters := usedAdapters (cur.usage id)
      pps := 2 * counted HostBuffer.rxFrames before cur id
          ((cur.usage id).numHostBufferUsed - 1) +
        (row (m'.streamStats id) id).pps
      drops := counted HostBuffer.dropFrames before cur id
          ((cur.usage id).numHostBufferUsed - 1) +
        (row (m'.streamStats id) id).drops } := by
  obtain ⟨stop, -, -, hiff⟩ := readStreamStats_iff hcur
  have hnew := ((hiff m m').mp hread).2.1 id hid
  obtain ⟨hmax, hused⟩ := (cur.mem_active id).mp hid
  obtain ⟨last, hlast⟩ := Nat.exists_eq_succ_of_ne_zero hused
  rw [readStream, Option.map_eq_some_iff] at hnew
  obtain ⟨mid, hmid, hst⟩ := hnew
  have hcounts := readHbs_counts hmid
  obtain ⟨hpkts, hdrops⟩ := hcounts.counted last hlast
  obtain ⟨hpkts', hdrops'⟩ : ((m.streamStats id).hb last).pktsTotal =
        lastCounter HostBuffer.rxFrames before id last ∧
      ((m.streamStats id).hb last).dropTotal =
        lastCounter HostBuffer.dropFrames before id last :=
    totals_of_exec hcount hrun hmax last
  obtain ⟨host, hhost, hhost', hhostSum⟩ := hcounts.host
  obtain ⟨onboard, honboard, honboard', honboardSum⟩ := hcounts.onboard
  have hrow : row (m'.streamStats id) id =
      { adapters := shownAdapters (m'.streamStats id).adapterNo
        pps := 2 * (((cur.usage id).hb last).rxFrames -
          lastCounter HostBuffer.rxFrames before id last)
        stream := id
        hostBuffer := average host
        onboard := average (onboard.map fun level =>
          (atMost100 level).setWidth 32)
        drops := ((cur.usage id).hb last).dropFrames -
          lastCounter HostBuffer.dropFrames before id last } := by
    rw [row, ← hst]
    simp only [average, List.length_map, hhost, honboard, hhostSum, honboardSum,
      hpkts, hdrops, hpkts', hdrops']
  rw [hrow, expectedRow, hhost', honboard']
  simp only [Option.bind_eq_bind, Option.bind_some, hlast, Nat.succ_eq_add_one,
    Nat.add_sub_cancel, counted, BitVec.mul_add]

/-- The adapters of a row are those of the snapshot exactly when it shows none of an
earlier one. -/
theorem adapters_eq_iff {before : List Snapshot} {m m' : SysStats} {cur : Snapshot}
    (hcount : ∀ snap ∈ before, snap.count = snap.active.length)
    (hrun : exec readStreamStats start before = some m)
    (hcur : cur.count = cur.active.length)
    (hread : readStreamStats m cur = some m') {id : Nat}
    (hid : id ∈ cur.active) :
    shownAdapters (m'.streamStats id).adapterNo = usedAdapters (cur.usage id) ↔
      ∀ snap ∈ before, id ∈ snap.active →
        ∀ a ∈ usedAdapters (snap.usage id), a ∈ usedAdapters (cur.usage id) := by
  have hmask : ∀ a, (m'.streamStats id).adapterNo.getLsbD a = true ↔
      (∃ snap ∈ before, id ∈ snap.active ∧
        ∃ j, j < (snap.usage id).numHostBufferUsed ∧
          ((snap.usage id).hb j).adapterNo.toNat = a) ∨
      ∃ j, j < (cur.usage id).numHostBufferUsed ∧
        ((cur.usage id).hb j).adapterNo.toNat = a := by
    intro a
    have hzero : (start.streamStats id).adapterNo.getLsbD a = false :=
      BitVec.getLsbD_zero
    rw [mask_of_read hcur hread, mask_of_exec hcount hrun, hzero,
      and_iff_right hid]
    simp
  have hused : ∀ a ∈ usedAdapters (cur.usage id),
      a ∈ shownAdapters (m'.streamStats id).adapterNo := by
    intro a ha
    rw [mem_usedAdapters] at ha
    rw [mem_shownAdapters, hmask]
    exact ⟨ha.1, Or.inr ha.2⟩
  have hlist : shownAdapters (m'.streamStats id).adapterNo =
      usedAdapters (cur.usage id) ↔
      ∀ a ∈ shownAdapters (m'.streamStats id).adapterNo,
        a ∈ usedAdapters (cur.usage id) := by
    refine ⟨fun heq a ha => heq ▸ ha, fun hsub => List.filter_congr ?_⟩
    intro a ha
    have hiff : a ∈ shownAdapters (m'.streamStats id).adapterNo ↔
        a ∈ usedAdapters (cur.usage id) := ⟨hsub a, hused a⟩
    rw [shownAdapters, usedAdapters, List.mem_filter, List.mem_filter,
      and_iff_right ha, and_iff_right ha] at hiff
    exact Bool.eq_iff_iff.mpr hiff
  rw [hlist]
  constructor
  · intro hsub snap hsnap hold a ha
    rw [mem_usedAdapters] at ha
    apply hsub
    rw [mem_shownAdapters, hmask]
    exact ⟨ha.1, Or.inl ⟨snap, hsnap, hold, ha.2⟩⟩
  · intro hkept a ha
    rw [mem_shownAdapters, hmask] at ha
    obtain ⟨hlt, ⟨snap, hsnap, hold, hj⟩ | hj⟩ := ha
    · exact hkept snap hsnap hold a ((mem_usedAdapters _ _).mpr ⟨hlt, hj⟩)
    · exact (mem_usedAdapters _ _).mpr ⟨hlt, hj⟩

theorem rows_eq_iff {before : List Snapshot} {m m' : SysStats} {cur : Snapshot}
    {rows : List Row}
    (hcount : ∀ snap ∈ before, snap.count = snap.active.length)
    (hrun : exec readStreamStats start before = some m)
    (hcur : cur.count = cur.active.length)
    (hread : readStreamStats m cur = some m')
    (hout : outputStats m' = some rows) :
    rows.map some = cur.active.map (expectedRow before cur) ↔
      AdaptersKept before cur ∧ LastCounts before cur := by
  rw [outputStats_eq hcur hread, Option.some.injEq] at hout
  rw [← hout, List.map_map, List.map_inj_left, AdaptersKept, LastCounts,
    ← forall₂_and]
  refine forall₂_congr fun id hid => ?_
  have hzero : ∀ {a b : BitVec 64}, b = a + b ↔ a = 0 := by
    intro a b
    constructor <;> intro h <;> bv_omega
  rw [Function.comp_apply, expectedRow_eq hcount hrun hcur hread hid,
    Option.some.injEq, ← adapters_eq_iff hcount hrun hcur hread hid, row,
    Row.mk.injEq]
  simp only [true_and, hzero]

/-- A host buffer of 8 MB on an adapter. -/
def buffer (adapterNo : BitVec 32) : HostBuffer where
  adapterNo := adapterNo
  numaNode := 0
  onboardUsed := 0
  onboardSize := 1024
  enQueuedAdapter := 8388608
  deQueued := 0
  enQueued := 0
  rxFrames := 0
  rxBytes := 0
  dropFrames := 0

/-- One stream, with a host buffer on an adapter. -/
def oneStream (id : Nat) (adapterNo : BitVec 32) : Snapshot where
  count := 1
  usage := fun i => ⟨if i = id then 1 else 0, fun _ => buffer adapterNo⟩

theorem active_oneStream {id : Nat} (hid : id < MAX_STREAMS)
    (adapterNo : BitVec 32) : (oneStream id adapterNo).active = [id] := by
  have hactive : (oneStream id adapterNo).isActive = (· == id) := by
    funext i
    by_cases hi : i = id <;> simp [Snapshot.isActive, oneStream, hi]
  rw [Snapshot.active, hactive, List.filter_beq,
    List.count_eq_one_of_mem List.nodup_range (List.mem_range.mpr hid)]
  rfl

theorem count_oneStream {id : Nat} (hid : id < MAX_STREAMS)
    (adapterNo : BitVec 32) : (oneStream id adapterNo).count =
      (oneStream id adapterNo).active.length := by
  rw [active_oneStream hid]
  rfl

end HbMonitor

end NtapiExamples
