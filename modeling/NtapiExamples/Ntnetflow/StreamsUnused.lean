/-
Allocation of unused streams: the active stream ids are sorted and the gaps
between them are copied to the caller's array until it is full or the 256
ids of the adapter are used up.
-/
import Mathlib.Algebra.Group.Nat.Defs
import Mathlib.Data.List.Sort
import NtapiExamples.Lib.Gaps

namespace NtapiExamples.Ntnetflow

/-- `cmpid`. -/
def cmpid (a b : Int) : Int := a - b

/-- The order `qsort` is given. -/
def idLe (a b : Nat) : Bool := decide (cmpid a b ≤ 0)

/-- `qsort` of the ids by `cmpid`. -/
def qsort (ids : List Nat) : List Nat := ids.mergeSort idLe

theorem idLe_iff {a b : Nat} : idLe a b = true ↔ a ≤ b := by
  rw [idLe, decide_eq_true_eq, cmpid]
  omega

/-- `for (int i = ..; i < stop && j < max; ++i) out[j++] = i`, with `stop - i`
turns to go. -/
def fillGap (max : Nat) : Nat → Nat → Nat → (Nat → Nat) → Nat × (Nat → Nat)
  | 0, _, j, out => (j, out)
  | turns + 1, i, j, out =>
      if j < max then fillGap max turns (i + 1) (j + 1) (Function.update out j i)
      else (j, out)

/-- The loop over the sorted ids, `while (j < max && k < count)`, and what it
leaves in `last`, `j` and `out`. -/
def walkActive (max : Nat) : List Nat → Nat → Nat → (Nat → Nat) →
    Nat × Nat × (Nat → Nat)
  | [], last, j, out => (last, j, out)
  | id :: ids, last, j, out =>
      if j < max then
        let (j, out) := fillGap max (id - last) last j out
        walkActive max ids (id + 1) j out
      else (last, j, out)

/-- `256 - info.u.stream.data.count`, in 32 bits. -/
def streamsLeft (count : Nat) : Nat := (2 ^ 32 + 256 - count) % 2 ^ 32

/-- `info_streams_unused`: `read` is the list of active ids that
`info_read_streams` delivers, if it succeeds. -/
def infoStreamsUnused (read : Option (List Nat)) (max : Nat)
    (out : Nat → Nat) : Int × (Nat → Nat) :=
  match read with
  | none => (-1, out)
  | some streamIDList =>
      let max := min max (streamsLeft streamIDList.length)
      let (last, j, out) := walkActive max (qsort streamIDList) 0 0 out
      let (_, out) := fillGap max (256 - last) last j out
      (max, out)

/-- The ids an adapter has left: those below 256 that are not active. -/
def unusedIds (active : List Nat) : List Nat :=
  (List.range 256).filter fun id => id ∉ active

theorem mem_qsort {ids : List Nat} {id : Nat} : id ∈ qsort ids ↔ id ∈ ids :=
  List.mem_mergeSort

theorem length_qsort (ids : List Nat) : (qsort ids).length = ids.length :=
  List.length_mergeSort ids

/-- Distinct ids come out of the sort strictly increasing. -/
theorem qsort_pairwise_lt {ids : List Nat} (hnodup : ids.Nodup) :
    (qsort ids).Pairwise (· < ·) := by
  have hle : (qsort ids).Pairwise fun a b => idLe a b = true := by
    apply List.pairwise_mergeSort
    · intro a b c hab hbc
      rw [idLe_iff] at *
      exact hab.trans hbc
    · intro a b
      rw [Bool.or_eq_true, idLe_iff, idLe_iff]
      exact Nat.le_total a b
  have hne : (qsort ids).Nodup :=
    (List.mergeSort_perm ids _).nodup_iff.mpr hnodup
  refine (List.Pairwise.and hle hne).imp ?_
  intro a b hab
  exact Nat.lt_of_le_of_ne (idLe_iff.mp hab.1) hab.2

/-- One gap: as many of its ids as there is room for go behind those already
written. -/
theorem fillGap_overlay (max turns i : Nat) (orig : Nat → Nat)
    (written : List Nat) :
    fillGap max turns i written.length (overlay orig written) =
      ((written ++ (List.range' i turns).take (max - written.length)).length,
        overlay orig
          (written ++ (List.range' i turns).take (max - written.length))) := by
  induction turns generalizing i written with
  | zero => simp [fillGap]
  | succ turns ih =>
      by_cases hroom : written.length < max
      · rw [fillGap, if_pos hroom, overlay_update]
        have hnext := ih (i + 1) (written ++ [i])
        rw [List.length_append, List.length_singleton] at hnext
        rw [hnext, List.range'_succ,
          show max - written.length = (max - (written.length + 1)) + 1 by omega,
          List.take_succ_cons, List.append_assoc, List.singleton_append]
      · rw [fillGap, if_neg hroom, show max - written.length = 0 by omega]
        simp

/-- The walk and the last gap together copy the gaps of the sorted list. -/
theorem walkActive_overlay (max : Nat) (ids : List Nat) (last : Nat)
    (orig : Nat → Nat) (written : List Nat) :
    let walked := walkActive max ids last written.length (overlay orig written)
    (fillGap max (256 - walked.1) walked.1 walked.2.1 walked.2.2).2 =
      overlay orig
        (written ++ (gaps 256 last ids).take (max - written.length)) := by
  induction ids generalizing last written with
  | nil => simp only [walkActive, fillGap_overlay, gaps]
  | cons id ids ih =>
      by_cases hroom : written.length < max
      · have hgap : written ++ (gaps 256 last (id :: ids)).take
              (max - written.length) =
            let more := written ++
              (List.range' last (id - last)).take (max - written.length)
            more ++ (gaps 256 (id + 1) ids).take (max - more.length) := by
          simp only [gaps, List.take_append, List.append_assoc,
            List.length_append, List.length_take, List.length_range']
          congr 3
          omega
        rw [hgap]
        simp only [walkActive, if_pos hroom, fillGap_overlay]
        exact ih (id + 1) _
      · have hfull : max - written.length = 0 := by omega
        simp only [walkActive, if_neg hroom, fillGap_overlay, hfull,
          List.take_zero]

/-- The sorted ids leave out what the list of active ids leaves out. -/
theorem gaps_qsort {active : List Nat} (hnodup : active.Nodup)
    (hbelow : ∀ id ∈ active, id < 256) :
    gaps 256 0 (qsort active) = unusedIds active := by
  rw [gaps_eq_filter (qsort_pairwise_lt hnodup) (fun id _ => Nat.zero_le id)
    (fun id hmem => hbelow id (mem_qsort.mp hmem)), unusedIds,
    List.range_eq_range']
  apply List.filter_congr
  intro id _
  simp only [mem_qsort]

theorem length_unusedIds {active : List Nat} (hnodup : active.Nodup)
    (hbelow : ∀ id ∈ active, id < 256) :
    (unusedIds active).length + active.length = 256 := by
  have hlength := length_gaps (qsort_pairwise_lt hnodup)
    (fun id _ => Nat.zero_le id)
    (fun id hmem => hbelow id (mem_qsort.mp hmem))
  rwa [gaps_qsort hnodup hbelow, length_qsort] at hlength

/-- The array the call leaves behind: the caller's own, with the first unused
ids written over its first entries. -/
theorem infoStreamsUnused_eq {active : List Nat} (hnodup : active.Nodup)
    (hbelow : ∀ id ∈ active, id < 256) (max : Nat) (out : Nat → Nat) :
    infoStreamsUnused (some active) max out =
      (((min max (256 - active.length) : Nat) : Int),
        overlay out
          ((unusedIds active).take (min max (256 - active.length)))) := by
  have hlength := length_unusedIds hnodup hbelow
  have hleft : streamsLeft active.length = 256 - active.length := by
    unfold streamsLeft
    omega
  have hwalk := walkActive_overlay (min max (256 - active.length))
    (qsort active) 0 out []
  simp only [List.length_nil, overlay_nil, gaps_qsort hnodup hbelow,
    List.nil_append, Nat.sub_zero] at hwalk
  simp only [infoStreamsUnused, hleft, hwalk]

/-- `min(max, 256 - count)` ids are allocated, the smallest ones not active in
increasing order, and nothing is written beyond them. -/
theorem infoStreamsUnused_allocates {active : List Nat} (hnodup : active.Nodup)
    (hbelow : ∀ id ∈ active, id < 256) (max : Nat) (out : Nat → Nat) :
    ∃ (count : Nat) (filled : Nat → Nat),
      infoStreamsUnused (some active) max out = ((count : Int), filled) ∧
      count = min max (256 - active.length) ∧
      (List.range count).map filled = (unusedIds active).take count ∧
      (∀ i j, i < j → j < count → filled i < filled j) ∧
      ∀ i, count ≤ i → filled i = out i := by
  have hlength := length_unusedIds hnodup hbelow
  have htake : ((unusedIds active).take
      (min max (256 - active.length))).length =
        min max (256 - active.length) := by
    rw [List.length_take]
    omega
  refine ⟨_, _, infoStreamsUnused_eq hnodup hbelow max out, rfl, ?_, ?_, ?_⟩
  · have hmap := map_overlay out
      ((unusedIds active).take (min max (256 - active.length)))
    rwa [htake] at hmap
  · intro i j hij hj
    have hincreasing : ((unusedIds active).take
        (min max (256 - active.length))).Pairwise (· < ·) :=
      (List.pairwise_lt_range.filter _).sublist (List.take_sublist _ _)
    rw [overlay_of_lt (htake.symm ▸ hij.trans hj), overlay_of_lt (htake.symm ▸ hj)]
    exact List.pairwise_iff_getElem.mp hincreasing i j _ _ hij
  · intro i hi
    exact overlay_of_length_le (htake.symm ▸ hi)

/-- Three ids of an adapter on which streams 2, 0 and 255 are active. -/
theorem infoStreamsUnused_allocates_three :
    [2, 0, 255].Nodup ∧ (∀ id ∈ [2, 0, 255], id < 256) ∧
    ∃ (count : Nat) (filled : Nat → Nat),
      infoStreamsUnused (some [2, 0, 255]) 3 (fun _ => 7) =
        ((count : Int), filled) ∧
      count = min 3 (256 - [2, 0, 255].length) ∧
      (List.range count).map filled = (unusedIds [2, 0, 255]).take count ∧
      (∀ i j, i < j → j < count → filled i < filled j) ∧
      ∀ i, count ≤ i → filled i = 7 :=
  ⟨by decide, by decide,
    infoStreamsUnused_allocates (by decide) (by decide) 3 fun _ => 7⟩

end NtapiExamples.Ntnetflow
