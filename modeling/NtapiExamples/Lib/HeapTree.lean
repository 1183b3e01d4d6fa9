/-
Binary trees in a heap.  A `PlacedTree` is a tree with the address of each of its
nodes; `InHeap` says that a heap holds these nodes, and `Separate` that no two of
them are at one address.
-/
import Mathlib.Data.List.Nodup
import Mathlib.Logic.Function.Basic

namespace NtapiExamples

universe u v

/-- A node as the heap holds it. -/
structure HeapNode (A : Type u) (P : Type v) where
  payload : P
  left : Option A
  right : Option A

inductive PlacedTree (A : Type u) (P : Type v) where
  | nil
  | node (address : A) (payload : P) (left right : PlacedTree A P)

namespace PlacedTree

variable {A : Type u} {P : Type v}

/-- The pointer to the tree. -/
def ptr : PlacedTree A P → Option A
  | nil => none
  | node address _ _ _ => some address

def addresses : PlacedTree A P → List A
  | nil => []
  | node address _ left right => address :: (left.addresses ++ right.addresses)

def size : PlacedTree A P → Nat
  | nil => 0
  | node _ _ left right => left.size + right.size + 1

/-- The heap holds every node of the tree. -/
def InHeap (heap : A → Option (HeapNode A P)) : PlacedTree A P → Prop
  | nil => True
  | node address payload left right =>
      heap address = some ⟨payload, left.ptr, right.ptr⟩ ∧
        left.InHeap heap ∧ right.InHeap heap

/-- The nodes of the tree are at different addresses. -/
def Separate (t : PlacedTree A P) : Prop :=
  t.addresses.Nodup

/-- The heap without the nodes at some addresses. -/
def clear [DecidableEq A] (heap : A → Option (HeapNode A P))
    (freed : List A) : A → Option (HeapNode A P) :=
  fun address => if address ∈ freed then none else heap address

variable {heap heap' : A → Option (HeapNode A P)}
  {t t' left right : PlacedTree A P} {address : A} {payload : P}

/-- A tree is where the heap has its own nodes, whatever else the heap has. -/
theorem InHeap.congr (ht : t.InHeap heap)
    (hsame : ∀ a ∈ t.addresses, heap' a = heap a) : t.InHeap heap' := by
  induction t with
  | nil => trivial
  | node address payload left right ihl ihr =>
      obtain ⟨hnode, hleft, hright⟩ := ht
      refine ⟨?_, ihl hleft fun a ha => ?_, ihr hright fun a ha => ?_⟩
      · rw [hsame address List.mem_cons_self, hnode]
      · exact hsame a (List.mem_cons_of_mem _ (List.mem_append_left _ ha))
      · exact hsame a (List.mem_cons_of_mem _ (List.mem_append_right _ ha))

/-- Every node of the tree is allocated. -/
theorem InHeap.allocated (ht : t.InHeap heap) {a : A}
    (ha : a ∈ t.addresses) : heap a ≠ none := by
  induction t with
  | nil => simp [addresses] at ha
  | node address payload left right ihl ihr =>
      obtain ⟨hnode, hleft, hright⟩ := ht
      rcases List.mem_cons.mp ha with rfl | ha
      · rw [hnode]
        exact Option.some_ne_none _
      · rcases List.mem_append.mp ha with ha | ha
        · exact ihl hleft ha
        · exact ihr hright ha

theorem separate_node : (node address payload left right).Separate ↔
    address ∉ left.addresses ∧ address ∉ right.addresses ∧
      left.Separate ∧ right.Separate ∧
      List.Disjoint left.addresses right.addresses := by
  simp only [Separate, addresses, List.nodup_cons, List.mem_append, not_or,
    List.nodup_append']
  tauto

/-- `t'` is `t` with at most the node at `temp` added, and the heap has changed
in nothing else. -/
structure Grown (heap heap' : A → Option (HeapNode A P)) (temp : A)
    (t t' : PlacedTree A P) : Prop where
  inHeap : t'.InHeap heap'
  separate : t'.Separate
  addresses : ∀ a ∈ t'.addresses, a ∈ t.addresses ∨ a = temp
  kept : ∀ a ∈ t.addresses, a ∈ t'.addresses
  frame : ∀ a, a ∉ t'.addresses → heap' a = heap a

variable {temp : A} {left' right' : PlacedTree A P}

theorem Grown.refl (ht : t.InHeap heap) (hsep : t.Separate) :
    Grown heap heap temp t t :=
  ⟨ht, hsep, fun _ ha => Or.inl ha, fun _ ha => ha, fun _ _ => rfl⟩

/-- What is allocated outside of the tree stays outside. -/
theorem Grown.notMem (h : Grown heap heap' temp t t') {a : A}
    (ha : a ∉ t.addresses) (hne : a ≠ temp) : a ∉ t'.addresses := fun hmem =>
  (h.addresses a hmem).elim ha hne

section Grow

variable [DecidableEq A]

theorem Grown.leaf (payload : P) : Grown heap
    (Function.update heap temp (some ⟨payload, none, none⟩)) temp nil
    (node temp payload nil nil) := by
  refine ⟨⟨Function.update_self .., trivial, trivial⟩, ?_, fun a ha => ?_,
    fun a ha => ?_, fun a ha => ?_⟩
  · simp [Separate, PlacedTree.addresses]
  · exact Or.inr (by simpa [PlacedTree.addresses] using ha)
  · simp [PlacedTree.addresses] at ha
  · exact Function.update_of_ne (fun h => ha (by simp [h, PlacedTree.addresses])) _ _

/-- The left subtree grows, and its parent gets the new pointer. -/
theorem Grown.graftLeft (h : Grown heap heap' temp left left')
    (ht : (node address payload left right).InHeap heap)
    (hsep : (node address payload left right).Separate)
    (htemp : heap temp = none) :
    Grown heap (Function.update heap' address
      (some ⟨payload, left'.ptr, right.ptr⟩)) temp
      (node address payload left right) (node address payload left' right) := by
  obtain ⟨hnode, -, hright⟩ := ht
  obtain ⟨hl, hr, -, hsr, hdisjoint⟩ := separate_node.mp hsep
  have hne : ∀ a, heap a ≠ none → a ≠ temp := fun a ha heq =>
    ha (heq ▸ htemp)
  have haddress : address ∉ left'.addresses :=
    h.notMem hl (hne _ (by simp [hnode]))
  have hapart : ∀ a ∈ right.addresses, a ∉ left'.addresses := fun a ha =>
    h.notMem (fun hleft => hdisjoint hleft ha) (hne _ (hright.allocated ha))
  refine ⟨⟨Function.update_self .., ?_, ?_⟩, ?_, fun a ha => ?_,
    fun a ha => ?_, fun a ha => ?_⟩
  · exact h.inHeap.congr fun a ha =>
      Function.update_of_ne (ne_of_mem_of_not_mem ha haddress) _ _
  · apply hright.congr
    intro a ha
    rw [Function.update_of_ne (ne_of_mem_of_not_mem ha hr)]
    exact h.frame a (hapart a ha)
  · exact separate_node.mpr ⟨haddress, hr, h.separate, hsr,
      fun a hleft hright => hapart a hright hleft⟩
  · simp only [PlacedTree.addresses, List.mem_cons, List.mem_append] at ha ⊢
    rcases ha with ha | ha | ha
    · exact Or.inl (Or.inl ha)
    · exact (h.addresses a ha).imp_left fun ha => Or.inr (Or.inl ha)
    · exact Or.inl (Or.inr (Or.inr ha))
  · simp only [PlacedTree.addresses, List.mem_cons, List.mem_append] at ha ⊢
    exact ha.imp_right (Or.imp_left (h.kept a))
  · simp only [PlacedTree.addresses, List.mem_cons, List.mem_append,
      not_or] at ha
    rw [Function.update_of_ne ha.1]
    exact h.frame a ha.2.1

theorem Grown.graftRight (h : Grown heap heap' temp right right')
    (ht : (node address payload left right).InHeap heap)
    (hsep : (node address payload left right).Separate)
    (htemp : heap temp = none) :
    Grown heap (Function.update heap' address
      (some ⟨payload, left.ptr, right'.ptr⟩)) temp
      (node address payload left right) (node address payload left right') := by
  obtain ⟨hnode, hleft, -⟩ := ht
  obtain ⟨hl, hr, hsl, -, hdisjoint⟩ := separate_node.mp hsep
  have hne : ∀ a, heap a ≠ none → a ≠ temp := fun a ha heq =>
    ha (heq ▸ htemp)
  have haddress : address ∉ right'.addresses :=
    h.notMem hr (hne _ (by simp [hnode]))
  have hapart : ∀ a ∈ left.addresses, a ∉ right'.addresses := fun a ha =>
    h.notMem (fun hright => hdisjoint ha hright) (hne _ (hleft.allocated ha))
  refine ⟨⟨Function.update_self .., ?_, ?_⟩, ?_, fun a ha => ?_,
    fun a ha => ?_, fun a ha => ?_⟩
  · apply hleft.congr
    intro a ha
    rw [Function.update_of_ne (ne_of_mem_of_not_mem ha hl)]
    exact h.frame a (hapart a ha)
  · exact h.inHeap.congr fun a ha =>
      Function.update_of_ne (ne_of_mem_of_not_mem ha haddress) _ _
  · exact separate_node.mpr ⟨hl, haddress, hsl, h.separate,
      fun a hleft hright => hapart a hleft hright⟩
  · simp only [PlacedTree.addresses, List.mem_cons, List.mem_append] at ha ⊢
    rcases ha with ha | ha | ha
    · exact Or.inl (Or.inl ha)
    · exact Or.inl (Or.inr (Or.inl ha))
    · exact (h.addresses a ha).imp_left fun ha => Or.inr (Or.inr ha)
  · simp only [PlacedTree.addresses, List.mem_cons, List.mem_append] at ha ⊢
    exact ha.imp_right (Or.imp_right (h.kept a))
  · simp only [PlacedTree.addresses, List.mem_cons, List.mem_append,
      not_or] at ha
    rw [Function.update_of_ne ha.1]
    exact h.frame a ha.2.2

end Grow

section Clear

variable [DecidableEq A]

@[simp] theorem clear_nil : clear heap [] = heap := by
  funext a
  simp [clear]

theorem clear_of_mem {freed : List A} (h : address ∈ freed) :
    clear heap freed address = none :=
  if_pos h

theorem clear_of_notMem {freed : List A} (h : address ∉ freed) :
    clear heap freed address = heap address :=
  if_neg h

theorem clear_clear (freed freed' : List A) :
    clear (clear heap freed) freed' = clear heap (freed ++ freed') := by
  funext a
  simp only [clear, List.mem_append]
  split <;> split <;> simp_all

/-- What is freed apart from a tree does not concern it. -/
theorem InHeap.clear {freed : List A} (ht : t.InHeap heap)
    (hdisjoint : List.Disjoint freed t.addresses) :
    t.InHeap (PlacedTree.clear heap freed) :=
  ht.congr fun _ ha => clear_of_notMem fun hfreed => hdisjoint hfreed ha

end Clear

end PlacedTree

end NtapiExamples
