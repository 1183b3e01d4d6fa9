/-
Doubly linked segments over arbitrary nodes.  `Seg next prev before after l`
says that the pointers `next` and `prev` link the nodes of `l` in order, between
the node `before` that precedes the segment and the node `after` that follows
it.  A NULL-terminated list is a segment between `none` and `none`; a circular
list is a segment between its own last and its own first node.
-/
import Mathlib.Data.List.Nodup
import Mathlib.Logic.Function.Basic

namespace NtapiExamples

universe u

variable {A : Type u}

/-- The nodes of `l`, linked in order between `before` and `after`. -/
def Seg (next prev : A → Option A) : Option A → Option A → List A → Prop
  | _, _, [] => True
  | before, after, node :: rest =>
      prev node = before ∧ next node = rest.head?.or after ∧
        Seg next prev (some node) after rest

section Segments

variable {next prev next' prev' : A → Option A} {before after : Option A}

/-- A segment only reads the pointers of its own nodes. -/
theorem Seg.congr {l : List A} (hseg : Seg next prev before after l)
    (hnext : ∀ node ∈ l, next' node = next node)
    (hprev : ∀ node ∈ l, prev' node = prev node) :
    Seg next' prev' before after l := by
  induction l generalizing before with
  | nil => trivial
  | cons node rest ih =>
      obtain ⟨hp, hn, hrest⟩ := hseg
      refine ⟨?_, ?_, ?_⟩
      · rw [hprev node List.mem_cons_self, hp]
      · rw [hnext node List.mem_cons_self, hn]
      · exact ih hrest
          (fun other hother => hnext other (List.mem_cons_of_mem node hother))
          (fun other hother => hprev other (List.mem_cons_of_mem node hother))

theorem seg_append {l r : List A} :
    Seg next prev before after (l ++ r) ↔
      Seg next prev before (r.head?.or after) l ∧
        Seg next prev (l.getLast?.or before) after r := by
  induction l generalizing before with
  | nil => simp [Seg]
  | cons node rest ih =>
      simp only [List.cons_append, Seg, ih]
      have hhead : (rest ++ r).head?.or after =
          rest.head?.or (r.head?.or after) := by
        cases rest <;> simp
      have hlast : (node :: rest).getLast?.or before =
          rest.getLast?.or (some node) := by
        cases rest with
        | nil => simp
        | cons second tail => simp [List.getLast?_cons]
      rw [hhead, hlast]
      tauto

@[simp] theorem seg_singleton {node : A} :
    Seg next prev before after [node] ↔
      prev node = before ∧ next node = after := by
  simp [Seg]

/-- Inside a segment the successor of a node is the next listed node. -/
theorem Seg.next_of_split {l r : List A} {node : A}
    (hseg : Seg next prev before after (l ++ node :: r)) :
    next node = r.head?.or after := by
  rw [seg_append] at hseg
  exact hseg.2.2.1

theorem Seg.prev_of_split {l r : List A} {node : A}
    (hseg : Seg next prev before after (l ++ node :: r)) :
    prev node = l.getLast?.or before := by
  rw [seg_append] at hseg
  exact hseg.2.1

/-- A NULL-terminated list is determined by its first node. -/
theorem Seg.unique {before' : Option A} {l l' : List A}
    (hseg : Seg next prev before none l)
    (hseg' : Seg next prev before' none l') (hhead : l.head? = l'.head?) :
    l = l' := by
  induction l generalizing l' before before' with
  | nil => simpa [eq_comm] using hhead
  | cons node rest ih =>
      cases l' with
      | nil => simp at hhead
      | cons node' rest' =>
          simp only [List.head?_cons, Option.some.injEq] at hhead
          subst hhead
          obtain ⟨-, hnext, hrest⟩ := hseg
          obtain ⟨-, hnext', hrest'⟩ := hseg'
          rw [Option.or_none] at hnext hnext'
          rw [ih hrest hrest' (hnext.symm.trans hnext')]

/-- Redirect the last pointer of a segment to another follower. -/
theorem Seg.setAfter {after' : Option A} {l : List A}
    (hseg : Seg next prev before after l) (hnodup : l.Nodup)
    (hlast : ∀ node, l.getLast? = some node → next' node = after')
    (hnext : ∀ node ∈ l, l.getLast? ≠ some node → next' node = next node)
    (hprev : ∀ node ∈ l, prev' node = prev node) :
    Seg next' prev' before after' l := by
  induction l generalizing before with
  | nil => trivial
  | cons node rest ih =>
      obtain ⟨hp, hn, hrest⟩ := hseg
      obtain ⟨hfresh, hrestNodup⟩ := List.nodup_cons.mp hnodup
      cases rest with
      | nil =>
          refine ⟨?_, ?_, trivial⟩
          · rw [hprev node List.mem_cons_self, hp]
          · simpa using hlast node (by simp)
      | cons second tail =>
          have hlastEq : (node :: second :: tail).getLast? =
              (second :: tail).getLast? := by simp [List.getLast?_cons]
          have hne : (node :: second :: tail).getLast? ≠ some node := by
            rw [hlastEq]
            intro heq
            exact hfresh (List.mem_of_getLast? heq)
          refine ⟨?_, ?_, ?_⟩
          · rw [hprev node List.mem_cons_self, hp]
          · rw [hnext node List.mem_cons_self hne, hn]
            simp
          · apply ih hrest hrestNodup
            · intro other hother
              exact hlast other (hlastEq.trans hother)
            · intro other hother hotherLast
              apply hnext other (List.mem_cons_of_mem node hother)
              rwa [hlastEq]
            · intro other hother
              exact hprev other (List.mem_cons_of_mem node hother)

/-- Redirect the first pointer of a segment to another predecessor. -/
theorem Seg.setBefore {before' : Option A} {l : List A}
    (hseg : Seg next prev before after l) (hnodup : l.Nodup)
    (hhead : ∀ node, l.head? = some node → prev' node = before')
    (hprev : ∀ node ∈ l, l.head? ≠ some node → prev' node = prev node)
    (hnext : ∀ node ∈ l, next' node = next node) :
    Seg next' prev' before' after l := by
  cases l with
  | nil => trivial
  | cons node rest =>
      obtain ⟨-, hn, hrest⟩ := hseg
      obtain ⟨hfresh, -⟩ := List.nodup_cons.mp hnodup
      refine ⟨hhead node rfl, ?_, ?_⟩
      · rw [hnext node List.mem_cons_self, hn]
      · apply hrest.congr
        · exact fun other hother =>
            hnext other (List.mem_cons_of_mem node hother)
        · intro other hother
          apply hprev other (List.mem_cons_of_mem node hother)
          intro heq
          simp only [List.head?_cons, Option.some.injEq] at heq
          exact hfresh (heq ▸ hother)

/-- Append a node to a segment. -/
theorem Seg.appendNode {after' : Option A} {l : List A} {node : A}
    (hseg : Seg next prev before after l) (hnodup : l.Nodup)
    (hprevNode : prev' node = l.getLast?.or before)
    (hnextNode : next' node = after')
    (hlast : ∀ other, l.getLast? = some other → next' other = some node)
    (hnext : ∀ other ∈ l, l.getLast? ≠ some other → next' other = next other)
    (hprev : ∀ other ∈ l, prev' other = prev other) :
    Seg next' prev' before after' (l ++ [node]) := by
  rw [seg_append, seg_singleton]
  refine ⟨?_, hprevNode, hnextNode⟩
  exact hseg.setAfter hnodup (by simpa using hlast) hnext hprev

/-- Take a node out of a segment by joining its neighbours. -/
theorem Seg.unlink {l r : List A} {node : A}
    (hseg : Seg next prev before after (l ++ node :: r))
    (hnodup : (l ++ node :: r).Nodup)
    (hlast : ∀ other, l.getLast? = some other → next' other = next node)
    (hhead : ∀ other, r.head? = some other → prev' other = prev node)
    (hnext : ∀ other ∈ l ++ r, l.getLast? ≠ some other →
      next' other = next other)
    (hprev : ∀ other ∈ l ++ r, r.head? ≠ some other →
      prev' other = prev other) :
    Seg next' prev' before after (l ++ r) := by
  have hnode := hseg.next_of_split
  have hnodePrev := hseg.prev_of_split
  obtain ⟨hl, hnr, hdisj⟩ := List.nodup_append.mp hnodup
  obtain ⟨hnodeFresh, hr⟩ := List.nodup_cons.mp hnr
  rw [seg_append] at hseg
  obtain ⟨hsegL, -, -, hsegR⟩ := hseg
  rw [seg_append]
  constructor
  · apply hsegL.setAfter hl
    · intro other hother
      rw [hlast other hother, hnode]
    · exact fun other hother =>
        hnext other (List.mem_append_left r hother)
    · intro other hother
      apply hprev other (List.mem_append_left r hother)
      intro hheadOther
      exact hdisj other hother other
        (List.mem_cons_of_mem node (List.mem_of_head? hheadOther)) rfl
  · apply hsegR.setBefore hr
    · intro other hother
      rw [hhead other hother, hnodePrev]
    · exact fun other hother =>
        hprev other (List.mem_append_right l hother)
    · intro other hother
      apply hnext other (List.mem_append_right l hother)
      intro hlastOther
      exact hdisj other (List.mem_of_getLast? hlastOther) other
        (List.mem_cons_of_mem node hother) rfl

/-- The nodes of `l`, linked in a circle. -/
def Ring (next prev : A → Option A) (l : List A) : Prop :=
  Seg next prev l.getLast? l.head? l

theorem ring_nil : Ring next prev [] := trivial

theorem ring_singleton {node : A} (hnext : next node = some node)
    (hprev : prev node = some node) : Ring next prev [node] :=
  seg_singleton.mpr ⟨hprev, hnext⟩

/-- A circle can be read from any of its nodes. -/
theorem Ring.rotate {l r : List A} (hring : Ring next prev (l ++ r)) :
    Ring next prev (r ++ l) := by
  cases l with
  | nil => simpa using hring
  | cons a l =>
      cases r with
      | nil => simpa using hring
      | cons b r =>
          rw [Ring, seg_append] at hring ⊢
          simp only [List.getLast?_append, List.getLast?_cons,
            List.cons_append, List.head?_cons, Option.some_or] at hring ⊢
          exact ⟨hring.2, hring.1⟩

/-- Inside a circle every node has both neighbours, and they point back. -/
theorem Ring.neighbours {l : List A} (hring : Ring next prev l) {node : A}
    (hnode : node ∈ l) :
    ∃ after ∈ l, ∃ before ∈ l, next node = some after ∧
      prev node = some before ∧ prev after = some node ∧
      next before = some node := by
  obtain ⟨a, b, rfl⟩ := List.append_of_mem hnode
  have hrot := Ring.rotate hring
  rw [List.cons_append] at hrot
  -- Read the circle from `node` on.
  have hseg : Seg next prev (node :: (b ++ a)).getLast? (some node)
      (node :: (b ++ a)) := hrot
  obtain ⟨hprev, hnext, hrest⟩ := hseg
  cases hba : b ++ a with
  | nil =>
      rw [hba] at hprev hnext
      simp only [List.getLast?_singleton] at hprev
      simp only [List.head?_nil, Option.none_or] at hnext
      exact ⟨node, hnode, node, hnode, hnext, hprev, hprev, hnext⟩
  | cons first rest =>
      rw [hba] at hprev hnext hrest
      have hmem : ∀ other ∈ first :: rest, other ∈ a ++ node :: b := by
        intro other hother
        rw [← hba, List.mem_append] at hother
        rw [List.mem_append, List.mem_cons]
        tauto
      obtain ⟨init, last, hlast⟩ : ∃ init last,
          first :: rest = init ++ [last] :=
        ⟨_, _, (List.dropLast_append_getLast (List.cons_ne_nil _ _)).symm⟩
      have hbefore : next last = some node := by
        rw [hlast] at hrest
        simpa using hrest.next_of_split
      refine ⟨first, hmem first List.mem_cons_self, last,
        hmem last (by rw [hlast]; simp), ?_, ?_, hrest.1, hbefore⟩
      · simpa using hnext
      · rw [hprev, hlast]
        simp [List.getLast?_cons]

/-- Insert a node between the last and the first node of a circle. -/
theorem Ring.insert {h : A} {r : List A} {node : A}
    (hring : Ring next prev (h :: r)) (hnodup : (h :: r).Nodup)
    (hnextNode : next' node = some h)
    (hprevNode : prev' node = (h :: r).getLast?)
    (hlast : ∀ other, (h :: r).getLast? = some other →
      next' other = some node)
    (hhead : prev' h = some node)
    (hnext : ∀ other ∈ h :: r, (h :: r).getLast? ≠ some other →
      next' other = next other)
    (hprev : ∀ other ∈ h :: r, other ≠ h → prev' other = prev other) :
    Ring next' prev' (h :: r ++ [node]) := by
  have hbefore : (h :: r ++ [node]).getLast? = some node := by
    rw [List.getLast?_append]
    rfl
  rw [Ring, hbefore, List.cons_append, List.head?_cons, ← List.cons_append]
  have hseg : Seg next prev' (some node) (some h) (h :: r) := by
    apply Seg.setBefore hring hnodup
    · intro other hother
      simp only [List.head?_cons, Option.some.injEq] at hother
      rw [← hother, hhead]
    · intro other hother hne
      apply hprev other hother
      rintro rfl
      simp at hne
    · exact fun _ _ => rfl
  apply hseg.appendNode hnodup
  · rw [hprevNode]
    simp [List.getLast?_cons]
  · exact hnextNode
  · exact hlast
  · exact hnext
  · exact fun _ _ => rfl

/-- Take a node out of a circle by joining its neighbours. -/
theorem Ring.remove {l r : List A} {node : A}
    (hring : Ring next prev (l ++ node :: r))
    (hnodup : (l ++ node :: r).Nodup)
    (hlast : ∀ other, prev node = some other → other ≠ node →
      next' other = next node)
    (hhead : ∀ other, next node = some other → other ≠ node →
      prev' other = prev node)
    (hnext : ∀ other ∈ l ++ r, prev node ≠ some other →
      next' other = next other)
    (hprev : ∀ other ∈ l ++ r, next node ≠ some other →
      prev' other = prev other) :
    Ring next' prev' (l ++ r) := by
  apply Ring.rotate
  have hrot : Ring next prev (node :: (r ++ l)) := by
    simpa using Ring.rotate hring
  have hperm : (l ++ node :: r).Perm (node :: (r ++ l)) := by
    rw [← List.cons_append]
    exact List.perm_append_comm
  obtain ⟨hfresh, hrest⟩ := List.nodup_cons.mp (hperm.nodup_iff.mp hnodup)
  have hmem : ∀ other ∈ r ++ l, other ∈ l ++ r := by
    intro other hother
    rw [List.mem_append] at hother ⊢
    exact hother.symm
  have hseg : Seg next prev (node :: (r ++ l)).getLast? (some node)
      (node :: (r ++ l)) := hrot
  obtain ⟨hnodePrev, hnodeNext, hsegRest⟩ := hseg
  cases hrl : r ++ l with
  | nil => exact ring_nil
  | cons first rest =>
      rw [hrl] at hnodePrev hnodeNext hsegRest hfresh hrest hmem
      have hlastRest : prev node = (first :: rest).getLast? := by
        rw [hnodePrev]
        simp [List.getLast?_cons]
      have hnextRest : next node = some first := by simpa using hnodeNext
      have hne : ∀ other ∈ first :: rest, other ≠ node := by
        rintro other hother rfl
        exact hfresh hother
      have hafter : Seg next' prev (some node) (some first)
          (first :: rest) := by
        apply hsegRest.setAfter hrest
        · intro other hother
          rw [hlast other (hlastRest.trans hother)
            (hne other (List.mem_of_getLast? hother)), hnextRest]
        · intro other hother hnotLast
          apply hnext other (hmem other hother)
          rwa [hlastRest]
        · exact fun _ _ => rfl
      apply hafter.setBefore hrest
      · intro other hother
        simp only [List.head?_cons, Option.some.injEq] at hother
        subst hother
        rw [hhead first hnextRest (hne first List.mem_cons_self), hlastRest]
      · intro other hother hnotHead
        apply hprev other (hmem other hother)
        rw [hnextRest]
        exact hnotHead
      · exact fun _ _ => rfl

end Segments

end NtapiExamples
