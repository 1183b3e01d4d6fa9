/-
Where the search of `readStreamStats` ends, in `bufferProfile` and in
`hbMonitor`: the count it goes by was read before the usage data.
-/
import NtapiExamples.Ntapi.Scan
import NtapiExamples.BufferProfile.StreamStats
import NtapiExamples.HbMonitor.StreamStats

namespace NtapiExamples

open Ntapi

namespace BufferProfile

/-- The search of `readStreamStats`: an id that is passed over is no index. -/
def ScanInside (snap : Snapshot) : Prop := Ntapi.ScanInside false snap

/-- A call that comes back has scanned inside the array. -/
theorem scanInside_of_readStreamStats {m : Memory} {alert : Bool}
    {snap : Snapshot} (hread : (readStreamStats m alert snap).isSome) :
    ScanInside snap := by
  rw [readStreamStats, Option.isSome_map, Option.isSome_iff_exists] at hread
  obtain ⟨s, hs⟩ := hread
  refine readStreams_scan (fun _ _ _ _ hskips => by cases hskips) ?_ hs (by simp)
  intro s id u s' hvisit
  rw [visitStream] at hvisit
  split at hvisit
  case isTrue hlt => exact hlt
  case isFalse => cases hvisit

end BufferProfile

namespace HbMonitor

/-- The search of `readStreamStats`: the flag of an id that is passed over is
cleared. -/
def ScanInside (snap : Snapshot) : Prop := Ntapi.ScanInside true snap

theorem scanInside_of_readStreamStats {m : SysStats} {snap : Snapshot}
    (hread : (readStreamStats m snap).isSome) : ScanInside snap := by
  rw [readStreamStats, Option.isSome_map, Option.isSome_iff_exists] at hread
  obtain ⟨s, hs⟩ := hread
  refine readStreams_scan ?_ ?_ hs (by simp)
  · intro s id s' hskip _
    rw [skipStream] at hskip
    split at hskip
    case isTrue hlt => exact hlt
    case isFalse => cases hskip
  · intro s id u s' hvisit
    rw [visitStream] at hvisit
    split at hvisit
    case isTrue hlt => exact hlt
    case isFalse => cases hvisit

/-- Two streams were counted, and one of them is gone when the usage data are
read. -/
def oneGone : Snapshot where
  count := 2
  usage := fun id =>
    ⟨if id = 0 then 1 else 0, fun _ => ⟨0, 0, 0, 1, 0, 0, 0, 0, 0, 0⟩⟩

theorem oneGone_outside :
    ¬ ∀ snap : Snapshot, snap.count ≤ MAX_STREAMS →
      BufferProfile.ScanInside snap ∧ ScanInside snap := by
  intro hall
  have hcount := (scanInside_iff false oneGone).mp
    (hall oneGone (by decide)).1
  exact absurd hcount (by decide)

/-- Both searches end inside the array exactly when no fewer streams have host
buffers than were counted. -/
theorem scansInside_iff (snap : Snapshot) :
    (BufferProfile.ScanInside snap ↔ snap.count ≤ snap.active.length) ∧
      (ScanInside snap ↔ snap.count ≤ snap.active.length) :=
  ⟨scanInside_iff false snap, scanInside_iff true snap⟩

end HbMonitor

end NtapiExamples
