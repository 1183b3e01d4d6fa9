/-
The numbers a sorted list leaves out, found by walking the list, and a buffer
the first entries of which have been written.
-/
import Mathlib.Data.List.Basic
import Mathlib.Logic.Function.Basic
import Mathlib.Order.Lattice

namespace NtapiExamples

universe u

section Overlay

variable {α : Type u}

/-- The buffer `out` after its first entries have been overwritten by `xs`. -/
def overlay (out : Nat → α) (xs : List α) : Nat → α :=
  fun n => xs[n]?.getD (out n)

@[simp] theorem overlay_nil (out : Nat → α) : overlay out [] = out := rfl

/-- Writing the entry after the last one written appends it. -/
theorem overlay_update (out : Nat → α) (xs : List α) (x : α) :
    Function.update (overlay out xs) xs.length x = overlay out (xs ++ [x]) := by
  funext n
  by_cases hn : n = xs.length
  · subst hn
    simp [overlay]
  · rw [Function.update_of_ne hn]
    unfold overlay
    by_cases hlt : n < xs.length
    · rw [List.getElem?_append_left hlt]
    · have hle : xs.length + 1 ≤ n := by omega
      rw [List.getElem?_eq_none (by omega),
        List.getElem?_eq_none (by simpa using hle)]

theorem overlay_of_length_le {out : Nat → α} {xs : List α} {n : Nat}
    (hle : xs.length ≤ n) : overlay out xs n = out n := by
  unfold overlay
  rw [List.getElem?_eq_none hle]
  rfl

theorem overlay_of_lt {out : Nat → α} {xs : List α} {n : Nat}
    (hlt : n < xs.length) : overlay out xs n = xs[n] := by
  unfold overlay
  rw [List.getElem?_eq_getElem hlt]
  rfl

/-- The entries written, read back. -/
theorem map_overlay (out : Nat → α) (xs : List α) :
    (List.range xs.length).map (overlay out xs) = xs := by
  apply List.ext_getElem
  · simp
  · intro n hleft hright
    simp [overlay_of_lt hright]

end Overlay

/-- The numbers from `last` up to `stop` that the sorted list leaves out. -/
def gaps (stop : Nat) : Nat → List Nat → List Nat
  | last, [] => List.range' last (stop - last)
  | last, id :: ids => List.range' last (id - last) ++ gaps stop (id + 1) ids

/-- The gaps and the list itself make up the range. -/
theorem length_gaps {stop last : Nat} {ids : List Nat}
    (hsorted : ids.Pairwise (· < ·)) (hlast : ∀ id ∈ ids, last ≤ id)
    (hstop : ∀ id ∈ ids, id < stop) :
    (gaps stop last ids).length + ids.length = stop - last := by
  induction ids generalizing last with
  | nil => simp [gaps]
  | cons id ids ih =>
      obtain ⟨hhead, htail⟩ := List.pairwise_cons.mp hsorted
      have hrest := @ih (id + 1) htail (fun other hmem => hhead other hmem)
        fun other hmem => hstop other (List.mem_cons_of_mem id hmem)
      have hge := hlast id List.mem_cons_self
      have hlt := hstop id List.mem_cons_self
      simp only [gaps, List.length_append, List.length_range',
        List.length_cons]
      omega

/-- Walking the gaps of a sorted list gives what is not in it. -/
theorem gaps_eq_filter {stop last : Nat} {ids : List Nat}
    (hsorted : ids.Pairwise (· < ·)) (hlast : ∀ id ∈ ids, last ≤ id)
    (hstop : ∀ id ∈ ids, id < stop) :
    gaps stop last ids =
      (List.range' last (stop - last)).filter fun n => n ∉ ids := by
  induction ids generalizing last with
  | nil => simp [gaps]
  | cons id ids ih =>
      obtain ⟨hhead, htail⟩ := List.pairwise_cons.mp hsorted
      have hge := hlast id List.mem_cons_self
      have hlt := hstop id List.mem_cons_self
      have hrest := @ih (id + 1) htail (fun other hmem => hhead other hmem)
        fun other hmem => hstop other (List.mem_cons_of_mem id hmem)
      have hsplit : List.range' last (stop - last) =
          List.range' last (id - last) ++
            id :: List.range' (id + 1) (stop - (id + 1)) := by
        rw [← List.range'_succ, show stop - (id + 1) + 1 = stop - id by omega]
        have := @List.range'_append_1 last (id - last) (stop - id)
        rw [show last + (id - last) = id by omega,
          show id - last + (stop - id) = stop - last by omega] at this
        exact this.symm
      have hbefore : (List.range' last (id - last)).filter
          (fun n => n ∉ id :: ids) = List.range' last (id - last) := by
        rw [List.filter_eq_self]
        intro n hmem
        rw [List.mem_range'_1] at hmem
        have hnot : n ∉ ids := fun hin => by
          have := hhead n hin
          omega
        have hne : n ≠ id := by omega
        simp [hnot, hne]
      have hafter : (List.range' (id + 1) (stop - (id + 1))).filter
          (fun n => n ∉ id :: ids) =
          (List.range' (id + 1) (stop - (id + 1))).filter fun n => n ∉ ids := by
        apply List.filter_congr
        intro n hmem
        rw [List.mem_range'_1] at hmem
        have hne : n ≠ id := by omega
        simp [hne]
      rw [hsplit, List.filter_append, hbefore, List.filter_cons, hafter, gaps,
        hrest]
      simp

end NtapiExamples
