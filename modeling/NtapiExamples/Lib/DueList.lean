/-
Lists ordered by the time their elements are due.  Elements only enter at the
end and with the latest time there is, so that the order holds without a sort
while the latest time moves on.
-/
import Mathlib.Data.List.Nodup
import Mathlib.Order.Basic

namespace NtapiExamples

universe u v

variable {E : Type u} {K : Type v} [Preorder K]

/-- The elements are in the order of their times, none of which is later than
`latest`. -/
structure DueSorted (due : E → K) (latest : K) (l : List E) : Prop where
  sorted : l.Pairwise fun a b => due a ≤ due b
  bounded : ∀ e ∈ l, due e ≤ latest

namespace DueSorted

variable {due due' : E → K} {latest latest' : K} {l : List E} {e : E}

theorem nil : DueSorted due latest [] :=
  ⟨List.Pairwise.nil, fun _ he => absurd he List.not_mem_nil⟩

/-- The latest time moves on. -/
theorem mono (hdue : DueSorted due latest l) (hle : latest ≤ latest') :
    DueSorted due latest' l :=
  ⟨hdue.sorted, fun e he => le_trans (hdue.bounded e he) hle⟩

/-- Only the times of the elements matter. -/
theorem congr (hdue : DueSorted due latest l) (hsame : ∀ e ∈ l, due' e = due e) :
    DueSorted due' latest l := by
  refine ⟨hdue.sorted.imp_of_mem fun ha hb hle => ?_, fun e he => ?_⟩
  · rw [hsame _ ha, hsame _ hb]
    exact hle
  · rw [hsame e he]
    exact hdue.bounded e he

theorem sublist {l' : List E} (hdue : DueSorted due latest l)
    (hsub : l'.Sublist l) : DueSorted due latest l' :=
  ⟨hdue.sorted.sublist hsub, fun e he => hdue.bounded e (hsub.subset he)⟩

/-- An element enters at the end with the latest time. -/
theorem append (hdue : DueSorted due latest l)
    (hsame : ∀ other ∈ l, due' other = due other) (hnew : due' e = latest) :
    DueSorted due' latest (l ++ [e]) := by
  have hold := hdue.congr hsame
  constructor
  · rw [List.pairwise_append]
    refine ⟨hold.sorted, List.pairwise_singleton _ _, ?_⟩
    intro a ha b hb
    rw [List.mem_singleton.mp hb, hnew]
    exact hold.bounded a ha
  · intro other hother
    rcases List.mem_append.mp hother with hmem | hlast
    · exact hold.bounded other hmem
    · rw [List.mem_singleton.mp hlast, hnew]

/-- The first element leaves and enters again at the end. -/
theorem requeue {head : E} {rest : List E}
    (hdue : DueSorted due latest (head :: rest)) (hnodup : (head :: rest).Nodup)
    (hsame : ∀ other, other ≠ head → due' other = due other)
    (hnew : due' head = latest) : DueSorted due' latest (rest ++ [head]) := by
  apply (hdue.sublist (List.sublist_cons_self head rest)).append
  · intro other hother
    apply hsame
    rintro rfl
    exact (List.nodup_cons.mp hnodup).1 hother
  · exact hnew

/-- Behind an element that is not due no element is. -/
theorem notDue {now : K} {head : E} {rest : List E}
    (hdue : DueSorted due latest (head :: rest)) (hhead : now < due head) :
    ∀ e ∈ head :: rest, now < due e := by
  intro e he
  rcases List.mem_cons.mp he with rfl | hrest
  · exact hhead
  · exact lt_of_lt_of_le hhead ((List.pairwise_cons.mp hdue.sorted).1 e hrest)

end DueSorted

end NtapiExamples
