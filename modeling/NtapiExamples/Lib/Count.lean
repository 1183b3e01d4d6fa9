/-
Counting the threads that are in some part of their program, as a shared
counter does that each thread increments on the way in and decrements on the
way out.
-/
import Mathlib.Data.Finset.Card

namespace NtapiExamples

universe u

variable {τ : Type u} {p p' : τ → Prop} {n : Nat}

/-- Exactly `n` threads satisfy `p`. -/
def Counts (p : τ → Prop) (n : Nat) : Prop :=
  ∃ threads : Finset τ, (∀ t, t ∈ threads ↔ p t) ∧ threads.card = n

theorem Counts.none (hnone : ∀ t, ¬ p t) : Counts p 0 :=
  ⟨∅, fun t => by simp [hnone t], rfl⟩

theorem Counts.congr (hcounts : Counts p n) (hiff : ∀ t, p' t ↔ p t) :
    Counts p' n := by
  obtain ⟨threads, hmem, hcard⟩ := hcounts
  exact ⟨threads, fun t => (hmem t).trans (hiff t).symm, hcard⟩

theorem Counts.pos (hcounts : Counts p n) {t : τ} (ht : p t) : 0 < n := by
  obtain ⟨threads, hmem, hcard⟩ := hcounts
  rw [← hcard]
  exact Finset.card_pos.mpr ⟨t, (hmem t).mpr ht⟩

/-- A thread enters. -/
theorem Counts.enter [DecidableEq τ] (hcounts : Counts p n) {t : τ}
    (hout : ¬ p t) (hiff : ∀ u, p' u ↔ u = t ∨ p u) : Counts p' (n + 1) := by
  obtain ⟨threads, hmem, hcard⟩ := hcounts
  refine ⟨insert t threads, ?_, ?_⟩
  · intro u
    rw [Finset.mem_insert, hmem, hiff]
  · rw [Finset.card_insert_of_notMem (fun h => hout ((hmem t).mp h)), hcard]

/-- A thread leaves. -/
theorem Counts.leave [DecidableEq τ] (hcounts : Counts p n) {t : τ}
    (hin : p t) (hiff : ∀ u, p' u ↔ u ≠ t ∧ p u) : Counts p' (n - 1) := by
  obtain ⟨threads, hmem, hcard⟩ := hcounts
  refine ⟨threads.erase t, ?_, ?_⟩
  · intro u
    rw [Finset.mem_erase, hmem, hiff]
  · rw [Finset.card_erase_of_mem ((hmem t).mpr hin), hcard]

end NtapiExamples
