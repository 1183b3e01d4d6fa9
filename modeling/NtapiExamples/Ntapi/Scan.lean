/-
The indices that the search for the streams in use takes into the array
`streamStats`.  The count of streams and their usage data are read one after the
other, so that the one need not agree with the other.
-/
import NtapiExamples.Ntapi.Usage

namespace NtapiExamples

namespace Ntapi

/-- What a stream that is passed over adds to the indices: its own, if `skips`. -/
def scanSkip (skips : Bool) (ids : List Nat) (id : Nat) : Option (List Nat) :=
  some (if skips then ids ++ [id] else ids)

def scanVisit (ids : List Nat) (id : Nat) (_ : Usage) : Option (List Nat) :=
  some (ids ++ [id])

/-- The indices the loops use, in their order. -/
def scanIndices (skips : Bool) (snap : Snapshot) : Option (List Nat) :=
  readStreams (scanSkip skips) scanVisit snap.usage snap.count [] 0

/-- The loops end, and no index is beyond the array. -/
def ScanInside (skips : Bool) (snap : Snapshot) : Prop :=
  ∃ ids, scanIndices skips snap = some ids ∧ ∀ id ∈ ids, id < MAX_STREAMS

theorem indices_add {ids : List Nat} {id : Nat}
    (hids : ∀ i ∈ ids, i < MAX_STREAMS) (hid : id < MAX_STREAMS) :
    ∀ i ∈ ids ++ [id], i < MAX_STREAMS :=
  List.forall_mem_append.mpr ⟨hids, List.forall_mem_singleton.mpr hid⟩

section Loop

variable {σ : Type} {skip : σ → Nat → Option σ}
  {visit : σ → Nat → Usage → Option σ} {usage : Nat → Usage}

/-- The inner loop ends at an id in use. -/
theorem nextStream_used {fuel : Nat} {s s' : σ} {id id' : Nat}
    (hnext : nextStream skip usage fuel s id = some (s', id')) :
    id ≤ id' ∧ (usage (castId id')).numHostBufferUsed ≠ 0 := by
  induction fuel generalizing s id with
  | zero => cases hnext
  | succ fuel ih =>
      rw [nextStream] at hnext
      split at hnext
      case isTrue =>
        simp only [Option.bind_eq_bind, Option.bind_eq_some_iff] at hnext
        obtain ⟨mid, _, hrest⟩ := hnext
        obtain ⟨hle, hused⟩ := ih hrest
        exact ⟨by omega, hused⟩
      case isFalse hused =>
        cases hnext
        exact ⟨Nat.le_refl _, hused⟩

/-- A search that only keeps the indices extends the list it has. -/
theorem nextStream_indices {skips : Bool} {fuel : Nat} {ids ids' : List Nat}
    {id id' : Nat}
    (hnext : nextStream (scanSkip skips) usage fuel ids id =
      some (ids', id')) : ids ⊆ ids' := by
  induction fuel generalizing ids id with
  | zero => cases hnext
  | succ fuel ih =>
      rw [nextStream] at hnext
      split at hnext
      · have hrest := ih hnext
        intro i hi
        apply hrest
        split
        · exact List.mem_append_left _ hi
        · exact hi
      · cases hnext
        exact List.Subset.refl _

/-- The list the loops are given is part of their result. -/
theorem readStreams_indices {skips : Bool} {cnt id : Nat} {ids ids' : List Nat}
    (hread : readStreams (scanSkip skips) scanVisit usage cnt ids id = some ids') :
    ids ⊆ ids' := by
  induction cnt generalizing ids id with
  | zero =>
      cases hread
      exact List.Subset.refl _
  | succ cnt ih =>
      simp only [readStreams, scanVisit, Option.bind_eq_bind,
        Option.bind_eq_some_iff, Option.bind_some] at hread
      obtain ⟨⟨mid, id'⟩, hnext, hrest⟩ := hread
      exact fun i hi => ih hrest
        (List.mem_append_left _ (nextStream_indices hnext hi))

/-- The number of streams in use from an id on. -/
theorem length_used_of_le {id id' : Nat} (hle : id ≤ id')
    (hlt : id' < MAX_STREAMS)
    (hused : (usage (castId id')).numHostBufferUsed ≠ 0) :
    ((List.range' (id' + 1) (MAX_STREAMS - (id' + 1))).filter fun id =>
      decide ((usage (castId id)).numHostBufferUsed ≠ 0)).length + 1 ≤
    ((List.range' id (MAX_STREAMS - id)).filter fun id =>
      decide ((usage (castId id)).numHostBufferUsed ≠ 0)).length := by
  have hsplit : List.range' id (MAX_STREAMS - id) =
      List.range' id (id' - id) ++
        id' :: List.range' (id' + 1) (MAX_STREAMS - (id' + 1)) := by
    have hparts := @List.range'_append_1 id (id' - id) (MAX_STREAMS - id')
    rw [show id + (id' - id) = id' by omega,
      show id' - id + (MAX_STREAMS - id') = MAX_STREAMS - id by omega] at hparts
    rw [← hparts, show MAX_STREAMS - id' = MAX_STREAMS - (id' + 1) + 1 by omega,
      List.range'_succ]
  rw [hsplit, List.filter_append, List.length_append,
    List.filter_cons_of_pos (by simpa using hused), List.length_cons]
  omega

/-- Loops that stay inside the array have found as many streams as they were to
find. -/
theorem count_le_of_indices {skips : Bool} {cnt id : Nat} {ids ids' : List Nat}
    (hread : readStreams (scanSkip skips) scanVisit usage cnt ids id = some ids')
    (hinside : ∀ i ∈ ids', i < MAX_STREAMS) :
    cnt ≤ ((List.range' id (MAX_STREAMS - id)).filter fun id =>
      decide ((usage (castId id)).numHostBufferUsed ≠ 0)).length := by
  induction cnt generalizing ids id with
  | zero => exact Nat.zero_le _
  | succ cnt ih =>
      simp only [readStreams, scanVisit, Option.bind_eq_bind,
        Option.bind_eq_some_iff, Option.bind_some] at hread
      obtain ⟨⟨mid, id'⟩, hnext, hrest⟩ := hread
      obtain ⟨hle, hused⟩ := nextStream_used hnext
      have hmem : id' ∈ ids' := readStreams_indices hrest (by simp)
      have hbelow := length_used_of_le hle (hinside id' hmem) hused
      have hcnt := ih hrest
      dsimp only at hcnt
      omega

/-- A search that accesses the array only inside has the scan beside it. -/
theorem nextStream_scan {skips : Bool}
    (hskip : ∀ s id s', skip s id = some s' → skips = true → id < MAX_STREAMS)
    {fuel : Nat} {s s' : σ} {id id' : Nat}
    (hnext : nextStream skip usage fuel s id = some (s', id')) {ids : List Nat}
    (hids : ∀ i ∈ ids, i < MAX_STREAMS) :
    ∃ ids', nextStream (scanSkip skips) usage fuel ids id = some (ids', id') ∧
      ∀ i ∈ ids', i < MAX_STREAMS := by
  induction fuel generalizing s id ids with
  | zero => cases hnext
  | succ fuel ih =>
      rw [nextStream] at hnext ⊢
      by_cases hfree : (usage (castId id)).numHostBufferUsed = 0
      · rw [if_pos hfree] at hnext ⊢
        simp only [Option.bind_eq_bind, Option.bind_eq_some_iff] at hnext
        obtain ⟨mid, hmid, hrest⟩ := hnext
        apply ih hrest
        split
        case isTrue hskips =>
          exact indices_add hids (hskip s id mid hmid hskips)
        case isFalse => exact hids
      · rw [if_neg hfree] at hnext ⊢
        cases hnext
        exact ⟨ids, rfl, hids⟩

theorem readStreams_scan {skips : Bool}
    (hskip : ∀ s id s', skip s id = some s' → skips = true → id < MAX_STREAMS)
    (hvisit : ∀ s id u s', visit s id u = some s' → id < MAX_STREAMS)
    {cnt id : Nat} {s s' : σ}
    (hread : readStreams skip visit usage cnt s id = some s') {ids : List Nat}
    (hids : ∀ i ∈ ids, i < MAX_STREAMS) :
    ∃ ids', readStreams (scanSkip skips) scanVisit usage cnt ids id = some ids' ∧
      ∀ i ∈ ids', i < MAX_STREAMS := by
  induction cnt generalizing s id ids with
  | zero => exact ⟨ids, rfl, hids⟩
  | succ cnt ih =>
      simp only [readStreams, Option.bind_eq_bind, Option.bind_eq_some_iff] at hread
      obtain ⟨⟨mid, id'⟩, hnext, next, hnew, hrest⟩ := hread
      obtain ⟨ids₁, hscan, hids₁⟩ := nextStream_scan hskip hnext hids
      simp only [readStreams, hscan, scanVisit, Option.bind_eq_bind,
        Option.bind_some]
      exact ih hrest (indices_add hids₁ (hvisit mid id' _ next hnew))

/-- A pass over ids inside the array uses indices inside it. -/
theorem foldlM_scan (skips : Bool) (ids rest : List Nat)
    (hids : ∀ i ∈ ids, i < MAX_STREAMS) (hrest : ∀ i ∈ rest, i < MAX_STREAMS) :
    ∃ ids', rest.foldlM (atStream (scanSkip skips) scanVisit usage) ids =
        some ids' ∧ ∀ i ∈ ids', i < MAX_STREAMS := by
  induction rest generalizing ids with
  | nil => exact ⟨ids, rfl, hids⟩
  | cons id rest ih =>
      rw [List.forall_mem_cons] at hrest
      have hadd := indices_add hids hrest.1
      rw [List.foldlM_cons, atStream, scanSkip, scanVisit]
      by_cases hfree : (usage (castId id)).numHostBufferUsed = 0
      · cases skips with
        | true =>
            rw [if_pos hfree, if_pos rfl]
            exact ih (ids ++ [id]) hadd hrest.2
        | false =>
            rw [if_pos hfree, if_neg (by decide)]
            exact ih ids hids hrest.2
      · rw [if_neg hfree]
        exact ih (ids ++ [id]) hadd hrest.2

end Loop

/-- The scan stays inside the array exactly when the count is no higher than the
number of streams that have host buffers in the usage data. -/
theorem scanInside_iff (skips : Bool) (snap : Snapshot) :
    ScanInside skips snap ↔ snap.count ≤ snap.active.length := by
  have hused : ((List.range' 0 (MAX_STREAMS - 0)).filter fun id =>
      decide ((snap.usage (castId id)).numHostBufferUsed ≠ 0)) =
        snap.active := by
    rw [Nat.sub_zero, ← List.range_eq_range', Snapshot.active]
    apply List.filter_congr
    intro id hid
    rw [Snapshot.isActive, castId_of_lt (List.mem_range.mp hid)]
  rw [← hused]
  constructor
  · rintro ⟨ids, hscan, hinside⟩
    exact count_le_of_indices hscan hinside
  · intro hcount
    obtain ⟨stop, _, hstop, _, hread⟩ := readStreams_upTo (Nat.zero_le _) hcount
    rw [ScanInside, scanIndices, hread]
    apply foldlM_scan skips [] _ (by simp)
    intro i hi
    rw [List.mem_range'_1] at hi
    omega

end Ntapi

end NtapiExamples
