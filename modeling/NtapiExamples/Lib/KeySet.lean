/-
Sets ordered by a key, as `std::set` keeps them with a comparison of its own:
two elements with the same key are one element of the set.  Insertion keeps the
element that is there already; difference and union are the merges of
`std::set_difference` and `std::set_union`.
-/
import Mathlib.Order.Lattice
import Mathlib.Data.List.Perm.Basic
import Mathlib.Data.List.Nodup

namespace NtapiExamples

universe u v

variable {α : Type u} {κ : Type v} [LinearOrder κ] {key : α → κ}

/-- In increasing order of the keys. -/
def KeySorted (key : α → κ) (l : List α) : Prop :=
  l.Pairwise fun a b => key a < key b

theorem KeySorted.nodup_keys {l : List α} (hl : KeySorted key l) :
    (l.map key).Nodup := by
  rw [List.nodup_iff_pairwise_ne, List.pairwise_map]
  exact hl.imp fun hlt => ne_of_lt hlt

theorem KeySorted.nodup {l : List α} (hl : KeySorted key l) : l.Nodup :=
  hl.nodup_keys.of_map

/-- The key determines the element. -/
theorem KeySorted.eq_of_key {l : List α} (hl : KeySorted key l) {a b : α}
    (ha : a ∈ l) (hb : b ∈ l) (hkey : key a = key b) : a = b :=
  List.inj_on_of_nodup_map hl.nodup_keys ha hb hkey

/-- A key below the first one is not in the list. -/
theorem KeySorted.notMem_keys {a b : α} {l : List α}
    (hl : KeySorted key (b :: l)) (hlt : key a < key b) :
    key a ∉ (b :: l).map key := by
  intro hmem
  obtain ⟨c, hc, heq⟩ := List.mem_map.mp hmem
  have hle : key b ≤ key c := by
    rcases List.mem_cons.mp hc with rfl | hc
    · exact le_refl _
    · exact le_of_lt ((List.pairwise_cons.mp hl).1 c hc)
  rw [heq] at hle
  exact absurd hlt (not_lt.mpr hle)

/-- `std::set::insert`. -/
def keyInsert (key : α → κ) (a : α) : List α → List α
  | [] => [a]
  | b :: l =>
      if key a < key b then a :: b :: l
      else if key b < key a then b :: keyInsert key a l
      else b :: l

theorem mem_keyInsert {a b : α} {l : List α} (hl : KeySorted key l) :
    b ∈ keyInsert key a l ↔ b ∈ l ∨ b = a ∧ key a ∉ l.map key := by
  induction l with
  | nil => simp [keyInsert]
  | cons c l ih =>
      have hsorted := hl
      obtain ⟨hc, hl⟩ := List.pairwise_cons.mp hl
      simp only [keyInsert]
      split
      case isTrue hlt =>
        simp only [hsorted.notMem_keys hlt, not_false_eq_true, and_true,
          List.mem_cons]
        exact or_comm
      case isFalse hle =>
        split
        case isTrue hlt =>
          have hne : key a ≠ key c := ne_of_gt hlt
          simp only [List.mem_cons, ih hl, List.map_cons, not_or, hne,
            not_false_eq_true, true_and, or_assoc]
        case isFalse hge =>
          have heq : key a = key c := le_antisymm (not_lt.mp hge) (not_lt.mp hle)
          simp [heq]

theorem KeySorted.keyInsert {a : α} {l : List α} (hl : KeySorted key l) :
    KeySorted key (keyInsert key a l) := by
  induction l with
  | nil => exact List.pairwise_singleton _ _
  | cons c l ih =>
      have hsorted := hl
      obtain ⟨hc, hl⟩ := List.pairwise_cons.mp hl
      simp only [NtapiExamples.keyInsert]
      split
      case isTrue hlt =>
        refine List.pairwise_cons.mpr ⟨fun d hd => ?_, hsorted⟩
        rcases List.mem_cons.mp hd with rfl | hd
        · exact hlt
        · exact lt_trans hlt (hc d hd)
      case isFalse =>
        split
        case isTrue hlt =>
          refine List.pairwise_cons.mpr ⟨fun d hd => ?_, ih hl⟩
          rcases (mem_keyInsert hl).mp hd with hd | ⟨rfl, -⟩
          · exact hc d hd
          · exact hlt
        case isFalse => exact hsorted

/-- One element of the first range in `std::set_difference`. -/
def keyDropBelow (key : α → κ) (a : α) (rest : List α → List α) :
    List α → List α
  | [] => a :: rest []
  | b :: m =>
      if key a < key b then a :: rest (b :: m)
      else if key b < key a then keyDropBelow key a rest m
      else rest m

/-- `std::set_difference`. -/
def keyDifference (key : α → κ) : List α → List α → List α
  | [], _ => []
  | a :: l, m => keyDropBelow key a (keyDifference key l) m

theorem mem_keyDifference {l m : List α} (hl : KeySorted key l)
    (hm : KeySorted key m) {c : α} :
    c ∈ keyDifference key l m ↔ c ∈ l ∧ key c ∉ m.map key := by
  induction l generalizing m with
  | nil => simp [keyDifference]
  | cons a l ih =>
      obtain ⟨ha, hl⟩ := List.pairwise_cons.mp hl
      rw [keyDifference]
      induction m with
      | nil => simp [keyDropBelow, ih hl List.Pairwise.nil]
      | cons b m ihm =>
          have hsorted := hm
          have hm := (List.pairwise_cons.mp hm).2
          simp only [keyDropBelow]
          split
          case isTrue hlt =>
            have hnew := hsorted.notMem_keys hlt
            rw [List.mem_cons, ih hl hsorted, List.mem_cons]
            constructor
            · rintro (rfl | ⟨hc, hnot⟩)
              · exact ⟨Or.inl rfl, hnew⟩
              · exact ⟨Or.inr hc, hnot⟩
            · rintro ⟨rfl | hc, hnot⟩
              · exact Or.inl rfl
              · exact Or.inr ⟨hc, hnot⟩
          case isFalse hle =>
            split
            case isTrue hlt =>
              rw [ihm hm]
              refine and_congr_right fun hc => not_congr ?_
              have hne : key c ≠ key b := by
                rcases List.mem_cons.mp hc with rfl | hc
                · exact ne_of_gt hlt
                · exact ne_of_gt (lt_trans hlt (ha c hc))
              simp [hne]
            case isFalse hge =>
              have heq : key a = key b :=
                le_antisymm (not_lt.mp hge) (not_lt.mp hle)
              rw [ih hl hm, List.mem_cons, List.map_cons, List.mem_cons, not_or]
              constructor
              · rintro ⟨hc, hnot⟩
                exact ⟨Or.inr hc, heq ▸ ne_of_gt (ha c hc), hnot⟩
              · rintro ⟨rfl | hc, hne, hnot⟩
                · exact absurd heq hne
                · exact ⟨hc, hnot⟩

theorem keyDifference_sublist (l m : List α) :
    (keyDifference key l m).Sublist l := by
  induction l generalizing m with
  | nil => exact List.Sublist.refl _
  | cons a l ih =>
      rw [keyDifference]
      induction m with
      | nil => exact (ih []).cons_cons a
      | cons b m ihm =>
          simp only [keyDropBelow]
          split
          · exact (ih (b :: m)).cons_cons a
          · split
            · exact ihm
            · exact (ih m).cons a

theorem KeySorted.keyDifference {l : List α} (hl : KeySorted key l)
    (m : List α) : KeySorted key (keyDifference key l m) :=
  hl.sublist (keyDifference_sublist l m)

/-- One element of the first range in `std::set_union`. -/
def keyMergeBelow (key : α → κ) (a : α) (rest : List α → List α) :
    List α → List α
  | [] => a :: rest []
  | b :: m =>
      if key a < key b then a :: rest (b :: m)
      else if key b < key a then b :: keyMergeBelow key a rest m
      else a :: rest m

/-- `std::set_union`. -/
def keyUnion (key : α → κ) : List α → List α → List α
  | [], m => m
  | a :: l, m => keyMergeBelow key a (keyUnion key l) m

theorem mem_keyUnion {l m : List α} (hl : KeySorted key l)
    (hm : KeySorted key m) {c : α} :
    c ∈ keyUnion key l m ↔ c ∈ l ∨ c ∈ m ∧ key c ∉ l.map key := by
  induction l generalizing m with
  | nil => simp [keyUnion]
  | cons a l ih =>
      have hsorted := hl
      obtain ⟨ha, hl⟩ := List.pairwise_cons.mp hl
      rw [keyUnion]
      induction m with
      | nil => simp [keyMergeBelow, ih hl List.Pairwise.nil]
      | cons b m ihm =>
          have hall := hm
          obtain ⟨hb, hm⟩ := List.pairwise_cons.mp hm
          simp only [keyMergeBelow]
          split
          case isTrue hlt =>
            rw [List.mem_cons, ih hl hall, @List.mem_cons _ a l c, or_assoc]
            refine or_congr_right (or_congr_right ?_)
            refine and_congr_right fun hc => not_congr ?_
            have hne : key c ≠ key a := fun heq =>
              hall.notMem_keys hlt (heq ▸ List.mem_map_of_mem hc)
            rw [List.map_cons, List.mem_cons]
            exact (or_iff_right hne).symm
          case isFalse hle =>
            split
            case isTrue hlt =>
              rw [List.mem_cons]
              refine (or_congr_right (ihm hm)).trans ?_
              rw [@List.mem_cons _ b m c]
              constructor
              · rintro (rfl | hc | ⟨hc, hnot⟩)
                · exact Or.inr ⟨Or.inl rfl, hsorted.notMem_keys hlt⟩
                · exact Or.inl hc
                · exact Or.inr ⟨Or.inr hc, hnot⟩
              · rintro (hc | ⟨rfl | hc, hnot⟩)
                · exact Or.inr (Or.inl hc)
                · exact Or.inl rfl
                · exact Or.inr (Or.inr ⟨hc, hnot⟩)
            case isFalse hge =>
              have heq : key a = key b :=
                le_antisymm (not_lt.mp hge) (not_lt.mp hle)
              rw [List.mem_cons, ih hl hm, List.mem_cons, List.mem_cons,
                List.map_cons, List.mem_cons, not_or]
              constructor
              · rintro (rfl | hc | ⟨hc, hnot⟩)
                · exact Or.inl (Or.inl rfl)
                · exact Or.inl (Or.inr hc)
                · exact Or.inr ⟨Or.inr hc, heq ▸ ne_of_gt (hb c hc), hnot⟩
              · rintro ((rfl | hc) | ⟨rfl | hc, hne, hnot⟩)
                · exact Or.inl rfl
                · exact Or.inr (Or.inl hc)
                · exact absurd heq.symm hne
                · exact Or.inr (Or.inr ⟨hc, hnot⟩)

theorem KeySorted.keyUnion {l m : List α} (hl : KeySorted key l)
    (hm : KeySorted key m) : KeySorted key (keyUnion key l m) := by
  induction l generalizing m with
  | nil => exact hm
  | cons a l ih =>
      obtain ⟨ha, hl⟩ := List.pairwise_cons.mp hl
      rw [NtapiExamples.keyUnion]
      induction m with
      | nil =>
          refine List.pairwise_cons.mpr ⟨fun c hc => ?_, ih hl hm⟩
          rcases (mem_keyUnion hl hm).mp hc with hc | ⟨hc, -⟩
          · exact ha c hc
          · simp at hc
      | cons b m ihm =>
          have hall := hm
          obtain ⟨hb, hm⟩ := List.pairwise_cons.mp hm
          simp only [keyMergeBelow]
          split
          case isTrue hlt =>
            refine List.pairwise_cons.mpr ⟨fun c hc => ?_, ih hl hall⟩
            rcases (mem_keyUnion hl hall).mp hc with hc | ⟨hc, -⟩
            · exact ha c hc
            · rcases List.mem_cons.mp hc with rfl | hc
              · exact hlt
              · exact lt_trans hlt (hb c hc)
          case isFalse hle =>
            split
            case isTrue hlt =>
              refine List.pairwise_cons.mpr ⟨fun c hc => ?_, ihm hm⟩
              have hmerged : c ∈ NtapiExamples.keyUnion key (a :: l) m := hc
              rcases (mem_keyUnion (List.pairwise_cons.mpr ⟨ha, hl⟩)
                hm).mp hmerged with hc | ⟨hc, -⟩
              · rcases List.mem_cons.mp hc with rfl | hc
                · exact hlt
                · exact lt_trans hlt (ha c hc)
              · exact hb c hc
            case isFalse hge =>
              have heq : key a = key b :=
                le_antisymm (not_lt.mp hge) (not_lt.mp hle)
              refine List.pairwise_cons.mpr ⟨fun c hc => ?_, ih hl hm⟩
              rcases (mem_keyUnion hl hm).mp hc with hc | ⟨hc, -⟩
              · exact ha c hc
              · exact heq ▸ hb c hc

/-- A set of elements told apart by their keys. -/
structure KeySet (key : α → κ) where
  elems : List α
  sorted : KeySorted key elems

namespace KeySet

instance : Membership α (KeySet key) := ⟨fun s a => a ∈ s.elems⟩

/-- An element of the set has this key. -/
def HasKey (s : KeySet key) (k : κ) : Prop := ∃ a ∈ s, key a = k

theorem hasKey_iff (s : KeySet key) (k : κ) :
    k ∈ s.elems.map key ↔ s.HasKey k := by
  exact List.mem_map

def empty : KeySet key := ⟨[], List.Pairwise.nil⟩

def insert (s : KeySet key) (a : α) : KeySet key :=
  ⟨keyInsert key a s.elems, s.sorted.keyInsert⟩

def diff (s t : KeySet key) : KeySet key :=
  ⟨keyDifference key s.elems t.elems, s.sorted.keyDifference t.elems⟩

def union (s t : KeySet key) : KeySet key :=
  ⟨keyUnion key s.elems t.elems, s.sorted.keyUnion t.sorted⟩

variable {s t : KeySet key} {a b : α}

theorem eq_of_key (ha : a ∈ s) (hb : b ∈ s) (hkey : key a = key b) : a = b :=
  s.sorted.eq_of_key ha hb hkey

theorem not_mem_empty : ¬ a ∈ (empty : KeySet key) := by
  exact List.not_mem_nil

theorem mem_insert : b ∈ s.insert a ↔ b ∈ s ∨ b = a ∧ ¬ s.HasKey (key a) := by
  rw [← hasKey_iff]
  exact mem_keyInsert s.sorted

theorem mem_diff : a ∈ s.diff t ↔ a ∈ s ∧ ¬ t.HasKey (key a) := by
  rw [← hasKey_iff]
  exact mem_keyDifference s.sorted t.sorted

theorem mem_union : a ∈ s.union t ↔ a ∈ s ∨ a ∈ t ∧ ¬ s.HasKey (key a) := by
  rw [← hasKey_iff]
  exact mem_keyUnion s.sorted t.sorted

theorem not_hasKey_empty (k : κ) : ¬ (empty : KeySet key).HasKey k := by
  rintro ⟨a, ha, -⟩
  exact not_mem_empty ha

theorem hasKey_insert {k : κ} :
    (s.insert a).HasKey k ↔ s.HasKey k ∨ k = key a := by
  constructor
  · rintro ⟨b, hb, rfl⟩
    rcases mem_insert.mp hb with hb | ⟨rfl, -⟩
    · exact Or.inl ⟨b, hb, rfl⟩
    · exact Or.inr rfl
  · rintro (⟨b, hb, rfl⟩ | rfl)
    · exact ⟨b, mem_insert.mpr (Or.inl hb), rfl⟩
    · by_cases hkey : s.HasKey (key a)
      · obtain ⟨b, hb, heq⟩ := hkey
        exact ⟨b, mem_insert.mpr (Or.inl hb), heq⟩
      · exact ⟨a, mem_insert.mpr (Or.inr ⟨rfl, hkey⟩), rfl⟩

/-- The elements of a list, inserted one after the other. -/
def ofList (key : α → κ) (l : List α) : KeySet key := l.foldl insert empty

theorem mem_foldl_insert {l : List α} (ha : a ∈ l.foldl insert s) :
    a ∈ s ∨ a ∈ l := by
  induction l generalizing s with
  | nil => exact Or.inl ha
  | cons b l ih =>
      rcases ih ha with ha | ha
      · rcases mem_insert.mp ha with ha | ⟨rfl, -⟩
        · exact Or.inl ha
        · exact Or.inr List.mem_cons_self
      · exact Or.inr (List.mem_cons_of_mem b ha)

theorem hasKey_foldl_insert {l : List α} {k : κ} :
    (l.foldl insert s).HasKey k ↔ s.HasKey k ∨ k ∈ l.map key := by
  induction l generalizing s with
  | nil => simp
  | cons b l ih =>
      rw [List.foldl_cons, ih, hasKey_insert, List.map_cons, List.mem_cons,
        or_assoc]

theorem mem_of_mem_ofList {l : List α} (ha : a ∈ ofList key l) : a ∈ l := by
  rcases mem_foldl_insert ha with ha | ha
  · exact absurd ha not_mem_empty
  · exact ha

theorem hasKey_ofList {l : List α} {k : κ} :
    (ofList key l).HasKey k ↔ k ∈ l.map key := by
  rw [ofList, hasKey_foldl_insert]
  exact or_iff_right (not_hasKey_empty k)

/-- A set is its difference with another one and what that leaves. -/
theorem diff_perm (s t : KeySet key) :
    ((s.diff t).elems ++ (s.diff (s.diff t)).elems).Perm s.elems := by
  have hdisjoint : ∀ a ∈ (s.diff t).elems,
      a ∉ (s.diff (s.diff t)).elems := fun a ha hrest =>
    (mem_diff.mp hrest).2 ⟨a, ha, rfl⟩
  refine (List.perm_ext_iff_of_nodup ?_ s.sorted.nodup).mpr fun a => ?_
  · exact List.Nodup.append (s.diff t).sorted.nodup
      (s.diff (s.diff t)).sorted.nodup hdisjoint
  · rw [List.mem_append]
    constructor
    · rintro (ha | ha)
      · exact (mem_diff.mp ha).1
      · exact (mem_diff.mp ha).1
    · intro ha
      by_cases hkey : (s.diff t).HasKey (key a)
      · obtain ⟨b, hb, heq⟩ := hkey
        have hsame : b = a := eq_of_key (mem_diff.mp hb).1 ha heq
        exact Or.inl (hsame ▸ hb)
      · exact Or.inr (mem_diff.mpr ⟨ha, hkey⟩)

/-- The union of two sets without a common key. -/
theorem union_perm (hdisjoint : ∀ a ∈ t, ¬ s.HasKey (key a)) :
    (s.union t).elems.Perm (s.elems ++ t.elems) := by
  refine (List.perm_ext_iff_of_nodup (s.union t).sorted.nodup ?_).mpr
    fun a => ?_
  · refine List.Nodup.append s.sorted.nodup t.sorted.nodup ?_
    exact fun a ha ht => hdisjoint a ht ⟨a, ha, rfl⟩
  · rw [List.mem_append]
    constructor
    · intro ha
      rcases mem_union.mp ha with ha | ⟨ha, -⟩
      · exact Or.inl ha
      · exact Or.inr ha
    · rintro (ha | ha)
      · exact mem_union.mpr (Or.inl ha)
      · exact mem_union.mpr (Or.inr ⟨ha, hdisjoint a ha⟩)

end KeySet

end NtapiExamples
