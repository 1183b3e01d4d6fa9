/-
What `readStreamStats` reports of a snapshot: the alert, and the packets and
drops of each stream.
-/
import NtapiExamples.BufferProfile.StreamStats

namespace NtapiExamples

namespace BufferProfile

open Ntapi

/-- By how much a counter of a host buffer increased between two snapshots. -/
def increase (counter : HostBuffer → BitVec 64) (prev cur : Snapshot)
    (id j : Nat) : BitVec 64 :=
  counter ((cur.usage id).hb j) - counter ((prev.usage id).hb j)

/-- The sum over the first `n` host buffers of a stream. -/
def increases (counter : HostBuffer → BitVec 64) (prev cur : Snapshot)
    (id : Nat) : Nat → BitVec 64
  | 0 => 0
  | n + 1 => increases counter prev cur id n + increase counter prev cur id n

/-- The sum over all host buffers of a stream. -/
def streamIncrease (counter : HostBuffer → BitVec 64) (prev cur : Snapshot)
    (id : Nat) : BitVec 64 :=
  increases counter prev cur id (cur.usage id).numHostBufferUsed

/-- Some host buffer of a stream in use dropped packets. -/
def Dropped (prev cur : Snapshot) : Prop :=
  ∃ id ∈ cur.active, ∃ j, j < (cur.usage id).numHostBufferUsed ∧
    ((prev.usage id).hb j).dropFrames < ((cur.usage id).hb j).dropFrames

/-- The alert is raised exactly for drops, and the packets and drops of each
stream in use are those of all its host buffers. -/
structure Reported (prev cur : Snapshot) (m : Memory) (alert : Bool) : Prop
    where
  alert : alert = true ↔ Dropped prev cur
  rxPkts : ∀ id ∈ cur.active, (m.streamStats id).rxPktsCurr =
    streamIncrease HostBuffer.rxFrames prev cur id
  drops : ∀ id ∈ cur.active, (m.streamStats id).dropCurr =
    streamIncrease HostBuffer.dropFrames prev cur id

/-- What the host buffers of a stream before its last one counted is what the
stored counters of the last one lag behind the previous snapshot. -/
def KeptUp (m : Memory) (prev cur : Snapshot) (id : Nat) : Prop :=
  let last := (cur.usage id).numHostBufferUsed - 1
  increases HostBuffer.rxFrames prev cur id last =
      ((prev.usage id).hb last).rxFrames -
        ((m.streamStats id).hb last).rxPktsTotal ∧
    increases HostBuffer.dropFrames prev cur id last =
      ((prev.usage id).hb last).dropFrames -
        ((m.streamStats id).hb last).dropTotal

/-- The drops of some host buffer went up exactly when those of some stream did
not cancel out. -/
def DropsShow (prev cur : Snapshot) : Prop :=
  Dropped prev cur ↔
    ∃ id ∈ cur.active, streamIncrease HostBuffer.dropFrames prev cur id ≠ 0

/-- A sum is that of the last host buffer against the stored counter exactly
when the host buffers before it account for the difference. -/
theorem streamIncrease_eq_iff (counter : HostBuffer → BitVec 64)
    {prev cur : Snapshot} {id last : Nat} (stored : BitVec 64)
    (hlast : (cur.usage id).numHostBufferUsed = last + 1) :
    counter ((cur.usage id).hb last) - stored =
        streamIncrease counter prev cur id ↔
      increases counter prev cur id last =
        counter ((prev.usage id).hb last) - stored := by
  rw [streamIncrease, hlast, increases, increase]
  generalize increases counter prev cur id last = before
  bv_omega

theorem zero_lt_iff {x : BitVec 64} : 0 < x ↔ x ≠ 0 := by
  bv_omega

theorem last_of_exec {init m : Memory} {before : List Snapshot}
    {prev : Snapshot} (hrun : exec readStep init (before ++ [prev]) = some m) :
    ∃ s, readStep s prev = some m := by
  rw [exec_append, Option.bind_eq_some_iff] at hrun
  obtain ⟨s, -, hlast⟩ := hrun
  refine ⟨s, ?_⟩
  simp only [exec] at hlast
  cases hstep : readStep s prev with
  | none => simp [hstep] at hlast
  | some next => simpa only [hstep] using hlast

/-- After a snapshot, the next one is not the first. -/
theorem firstTime_of_exec {init m : Memory} {before : List Snapshot}
    {prev : Snapshot} (hrun : exec readStep init (before ++ [prev]) = some m) :
    m.firstTime = false := by
  obtain ⟨s, hstep⟩ := last_of_exec hrun
  rw [readStep, Option.map_eq_some_iff] at hstep
  obtain ⟨r, hread, rfl⟩ := hstep
  rw [readStreamStats, Option.map_eq_some_iff] at hread
  obtain ⟨s', -, rfl⟩ := hread
  rfl

/-- The stored counters of the host buffers in use are those of the snapshot. -/
theorem stored_of_exec {init m : Memory} {before : List Snapshot}
    {prev : Snapshot} (hprev : prev.Valid)
    (hrun : exec readStep init (before ++ [prev]) = some m) {id j : Nat}
    (hid : id ∈ prev.active) (hj : j < (prev.usage id).numHostBufferUsed) :
    ((m.streamStats id).hb j).rxPktsTotal =
        ((prev.usage id).hb j).rxFrames ∧
      ((m.streamStats id).hb j).dropTotal =
        ((prev.usage id).hb j).dropFrames := by
  obtain ⟨s, hstep⟩ := last_of_exec hrun
  rw [readStep, Option.map_eq_some_iff] at hstep
  obtain ⟨⟨m', alert⟩, hread, rfl⟩ := hstep
  exact (readStream_spec (((readStreamStats_iff hprev).mp hread).1 id hid)).1
    j hj

/-- A stream whose last host buffer was in use before is kept up with exactly
when the host buffers before that one counted nothing. -/
theorem keptUp_iff_of_exec {init m : Memory} {before : List Snapshot}
    {prev cur : Snapshot} (hprev : prev.Valid)
    (hrun : exec readStep init (before ++ [prev]) = some m) {id : Nat}
    (hid : id ∈ prev.active)
    (hlast : (cur.usage id).numHostBufferUsed - 1 <
      (prev.usage id).numHostBufferUsed) :
    KeptUp m prev cur id ↔
      increases HostBuffer.rxFrames prev cur id
          ((cur.usage id).numHostBufferUsed - 1) = 0 ∧
        increases HostBuffer.dropFrames prev cur id
          ((cur.usage id).numHostBufferUsed - 1) = 0 := by
  obtain ⟨hrx, hdrop⟩ := stored_of_exec hprev hrun hid hlast
  simp only [KeptUp, hrx, hdrop, BitVec.sub_self, BitVec.ofNat_eq_ofNat]

/-- What a call that gets through reports. -/
theorem reported_iff {m m' : Memory} {alert : Bool} {prev cur : Snapshot}
    (hfirst : m.firstTime = false) (hcur : cur.Valid)
    (hread : readStreamStats m false cur = some (m', alert)) :
    Reported prev cur m' alert ↔
      (∀ id ∈ cur.active, KeptUp m prev cur id) ∧ DropsShow prev cur := by
  obtain ⟨hstreams, -, halert, -, -⟩ := (readStreamStats_iff hcur).mp hread
  -- the last host buffer of each stream in use decides
  have hlast : ∀ id ∈ cur.active,
      (m'.streamStats id).alert =
        decide (0 < (m'.streamStats id).dropCurr) ∧
      ((m'.streamStats id).rxPktsCurr =
          streamIncrease HostBuffer.rxFrames prev cur id ∧
        (m'.streamStats id).dropCurr =
          streamIncrease HostBuffer.dropFrames prev cur id ↔
        KeptUp m prev cur id) := by
    intro id hid
    obtain ⟨last, hbuffers⟩ := Nat.exists_eq_succ_of_ne_zero
      ((cur.mem_active id).mp hid).2
    obtain ⟨hraise, hrx, hdrop⟩ :=
      (readStream_spec (hstreams id hid)).2 last hbuffers
    refine ⟨by rw [hraise, hdrop], ?_⟩
    rw [hrx, hdrop, streamIncrease_eq_iff _ _ hbuffers,
      streamIncrease_eq_iff _ _ hbuffers, KeptUp, hbuffers, Nat.succ_sub_one]
  have hflag : alert = true ↔
      ∃ id ∈ cur.active, (m'.streamStats id).dropCurr ≠ 0 := by
    rw [halert, hfirst, Bool.false_or, List.any_eq_true]
    refine exists_congr fun id => and_congr_right fun hid => ?_
    rw [(hlast id hid).1, Bool.not_false, Bool.true_and, decide_eq_true_eq,
      zero_lt_iff]
  constructor
  · rintro ⟨hshow, hrx, hdrop⟩
    refine ⟨fun id hid => (hlast id hid).2.mp ⟨hrx id hid, hdrop id hid⟩, ?_⟩
    rw [DropsShow, ← hshow, hflag]
    refine exists_congr fun id => and_congr_right fun hid => ?_
    rw [hdrop id hid]
  · rintro ⟨hkept, hshow⟩
    have hdrop : ∀ id ∈ cur.active, (m'.streamStats id).dropCurr =
        streamIncrease HostBuffer.dropFrames prev cur id :=
      fun id hid => ((hlast id hid).2.mpr (hkept id hid)).2
    refine ⟨?_, fun id hid => ((hlast id hid).2.mpr (hkept id hid)).1, hdrop⟩
    rw [hflag]
    refine Iff.trans (exists_congr fun id => and_congr_right fun hid => ?_)
      (Iff.symm hshow)
    rw [hdrop id hid]

/-- From the second snapshot on, the report is right exactly when the fill
levels are defined, the last host buffer of each stream stands for all of them,
and the drops show in their sums. -/
theorem readStreamStats_reported_iff (init : Memory) (before : List Snapshot)
    (prev cur : Snapshot) (m : Memory)
    (hrun : exec readStep init (before ++ [prev]) = some m)
    (hcur : cur.Valid) :
    (∃ m' alert, readStreamStats m false cur = some (m', alert) ∧
      Reported prev cur m' alert) ↔
      FillsDefined cur ∧ (∀ id ∈ cur.active, KeptUp m prev cur id) ∧
        DropsShow prev cur := by
  have hfirst := firstTime_of_exec hrun
  constructor
  · rintro ⟨m', alert, hread, hreported⟩
    refine ⟨?_, (reported_iff hfirst hcur hread).mp hreported⟩
    rw [← readStreamStats_isSome_iff m false hcur, hread]
    rfl
  · rintro ⟨hfills, hcond⟩
    obtain ⟨⟨m', alert⟩, hread⟩ := Option.isSome_iff_exists.mp
      ((readStreamStats_isSome_iff m false hcur).mpr hfills)
    exact ⟨m', alert, hread, (reported_iff hfirst hcur hread).mpr hcond⟩

/-- A host buffer of 4 MB with these counters. -/
def buffer (rxFrames dropFrames : BitVec 64) : HostBuffer where
  adapterNo := 0
  numaNode := 0
  onboardUsed := 0
  onboardSize := 1024
  enQueuedAdapter := 4194304
  deQueued := 0
  enQueued := 0
  rxFrames := rxFrames
  rxBytes := 0
  dropFrames := dropFrames

/-- Stream 0 alone, with two host buffers. -/
def twoBuffers (first second : HostBuffer) : Snapshot where
  count := 1
  usage := fun id =>
    ⟨if id = 0 then 2 else 0, fun j => if j = 0 then first else second⟩

def zeroMemory : Memory where
  firstTime := true
  numStreams := 0
  streamStats := fun _ => ⟨false, fun _ => ⟨0, 0, 0, 0, 0, 0, 0, 0, 0, 0⟩,
    0, 0, 0, 0, 0⟩

theorem active_twoBuffers (first second : HostBuffer) :
    (twoBuffers first second).active = [0] := by
  have hactive : (twoBuffers first second).isActive = fun id => id == 0 := by
    funext id
    by_cases hid : id = 0 <;> simp [Snapshot.isActive, twoBuffers, hid]
  rw [Snapshot.active, hactive]
  decide +kernel

theorem mem_active_twoBuffers (first second : HostBuffer) {id : Nat} :
    id ∈ (twoBuffers first second).active ↔ id = 0 := by
  rw [active_twoBuffers, List.mem_singleton]

theorem valid_twoBuffers (first second : HostBuffer) :
    (twoBuffers first second).Valid where
  count := by rw [active_twoBuffers]; rfl
  buffers := fun id => by
    by_cases hid : id = 0 <;> simp [twoBuffers, hid]

/-- Packets and drops on the second host buffer are reported. -/
theorem readStreamStats_reported_iff_second :
    ∃ m, exec readStep zeroMemory ([] ++ [twoBuffers (buffer 7 0)
        (buffer 10 0)]) = some m ∧
      ∃ m' alert, readStreamStats m false (twoBuffers (buffer 7 0)
          (buffer 25 3)) = some (m', alert) ∧
        Reported (twoBuffers (buffer 7 0) (buffer 10 0))
          (twoBuffers (buffer 7 0) (buffer 25 3)) m' alert := by
  refine ⟨_, rfl, (readStreamStats_reported_iff zeroMemory [] _ _ _ rfl
    (valid_twoBuffers _ _)).mpr ⟨?_, ?_, ?_⟩⟩
  · intro id hid j hj
    obtain rfl := (mem_active_twoBuffers _ _).mp hid
    change j < 2 at hj
    have hcases : j = 0 ∨ j = 1 := by omega
    rcases hcases with rfl | rfl <;> exact ⟨by decide, by decide⟩
  · intro id hid
    obtain rfl := (mem_active_twoBuffers _ _).mp hid
    exact ⟨by decide, by decide⟩
  · have hzero := (mem_active_twoBuffers (buffer 7 0) (buffer 25 3)).mpr rfl
    exact iff_of_true ⟨0, hzero, 1, by decide, by decide⟩
      ⟨0, hzero, by decide⟩

/-- Five packets dropped by the first host buffer raise no alert. -/
theorem readStreamStats_misses_drop :
    (twoBuffers (buffer 7 5) (buffer 10 0)).Valid ∧
    ∃ m, exec readStep zeroMemory ([] ++ [twoBuffers (buffer 7 0)
        (buffer 10 0)]) = some m ∧
      ¬ ∃ m' alert, readStreamStats m false (twoBuffers (buffer 7 5)
          (buffer 10 0)) = some (m', alert) ∧
        Reported (twoBuffers (buffer 7 0) (buffer 10 0))
          (twoBuffers (buffer 7 5) (buffer 10 0)) m' alert := by
  refine ⟨valid_twoBuffers _ _, _, rfl, ?_⟩
  rintro ⟨m', alert, hread, hreported⟩
  have hkept := ((reported_iff rfl (valid_twoBuffers _ _) hread).mp
    hreported).1 0 ((mem_active_twoBuffers _ _).mpr rfl)
  exact absurd hkept.2 (by decide)

end BufferProfile

end NtapiExamples
