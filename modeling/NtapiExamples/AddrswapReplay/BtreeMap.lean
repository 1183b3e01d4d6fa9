/-
The tree as a map.  A node never moves and an insertion only adds a leaf, so the
tree stays ordered, and of several insertions for a key the first one is found.
-/
import NtapiExamples.AddrswapReplay.Btree

namespace NtapiExamples

namespace AddrswapReplay

namespace Tree

/-- The keys in the order of `print_inorder`. -/
def keys : Tree → List (BitVec 32)
  | nil => []
  | node k _ left right => left.keys ++ k :: right.keys

/-- A search tree over the signed order of the keys. -/
def Ordered : Tree → Prop
  | nil => True
  | node k _ left right =>
      (∀ key ∈ left.keys, key.toInt < k.toInt) ∧
        (∀ key ∈ right.keys, k.toInt < key.toInt) ∧ left.Ordered ∧ right.Ordered

/-- `search` comes to the branch that prints "SHOULD NOT GET HERE". -/
def reportsError (val : BitVec 32) : Tree → Bool
  | nil => false
  | node k _ left right =>
      if val.slt k then reportsError val left
      else if k.slt val then reportsError val right
      else if val = k then false
      else true

/-- Where the recursion of `search` ends: at the null pointer, or at a node on whose
sides the value is not. -/
def searchEnd (val : BitVec 32) : Tree → Tree
  | nil => nil
  | node k d left right =>
      if val.slt k then searchEnd val left
      else if k.slt val then searchEnd val right
      else node k d left right

/-- The tree after a sequence of calls `insert(&root, key, data)`. -/
def insertAll (root : Tree) (calls : List (BitVec 32 × BitVec 32)) : Tree :=
  calls.foldl (fun root call => root.insert call.1 call.2) root

/-- The data of the first call for a key. -/
def firstData (calls : List (BitVec 32 × BitVec 32)) (key : BitVec 32) :
    Option (BitVec 32) :=
  (calls.find? fun call => call.1 = key).map Prod.snd

/-- A node with this key and these data, or the null pointer. -/
def IsResult (val : BitVec 32) (found : Tree) : Option (BitVec 32) → Prop
  | some data => ∃ left right, found = node val data left right
  | none => found = nil

variable {t : Tree} {key data : BitVec 32}

/-- The message is printed where the recursion ends at a node and `search` returns
none. -/
theorem reportsError_iff (val : BitVec 32) (t : Tree) :
    reportsError val t = true ↔ searchEnd val t ≠ nil ∧ search val t = nil := by
  induction t with
  | nil => simp [reportsError, searchEnd]
  | node k d left right ihl ihr =>
      rw [reportsError, searchEnd, search]
      split
      · exact ihl
      · split
        · exact ihr
        · by_cases heq : val = k <;> simp [heq]

/-- One of the comparisons holds at every node. -/
theorem search_eq_searchEnd (val : BitVec 32) (t : Tree) :
    search val t = searchEnd val t := by
  induction t with
  | nil => rfl
  | node k d left right ihl ihr =>
      rw [search, searchEnd, ihl, ihr]
      split
      · rfl
      · split
        · rfl
        · rename_i hlt hgt
          exact if_pos (eq_of_not_slt hlt hgt)

theorem reportsError_eq_false (val : BitVec 32) (t : Tree) :
    reportsError val t = false := by
  rw [← Bool.not_eq_true, reportsError_iff, search_eq_searchEnd]
  exact fun h => h.1 h.2

/-- An insertion adds no key but its own. -/
theorem mem_keys_insert {k : BitVec 32} (hk : k ∈ (t.insert key data).keys) :
    k ∈ t.keys ∨ k = key := by
  induction t with
  | nil => exact Or.inr (List.mem_singleton.mp hk)
  | node k' d left right ihl ihr =>
      rw [insert] at hk
      split at hk
      · simp only [keys, List.mem_append, List.mem_cons] at hk ⊢
        rcases hk with hk | hk
        · rcases ihl hk with hk | hk
          · exact Or.inl (Or.inl hk)
          · exact Or.inr hk
        · exact Or.inl (Or.inr hk)
      · split at hk
        · simp only [keys, List.mem_append, List.mem_cons] at hk ⊢
          rcases hk with hk | hk | hk
          · exact Or.inl (Or.inl hk)
          · exact Or.inl (Or.inr (Or.inl hk))
          · rcases ihr hk with hk | hk
            · exact Or.inl (Or.inr (Or.inr hk))
            · exact Or.inr hk
        · exact Or.inl hk

theorem Ordered.insert (ht : t.Ordered) : (t.insert key data).Ordered := by
  induction t with
  | nil =>
      refine ⟨?_, ?_, trivial, trivial⟩ <;> intro k hk <;> cases hk
  | node k d left right ihl ihr =>
      obtain ⟨hleft, hright, hl, hr⟩ := ht
      rw [Tree.insert]
      split
      case isTrue hlt =>
        refine ⟨fun k' hk' => ?_, hright, ihl hl, hr⟩
        rcases mem_keys_insert hk' with hk' | rfl
        · exact hleft k' hk'
        · exact BitVec.slt_iff_toInt_lt.mp hlt
      case isFalse =>
        split
        case isTrue hgt =>
          refine ⟨hleft, fun k' hk' => ?_, hl, ihr hr⟩
          rcases mem_keys_insert hk' with hk' | rfl
          · exact hright k' hk'
          · exact BitVec.slt_iff_toInt_lt.mp hgt
        case isFalse => exact ⟨hleft, hright, hl, hr⟩

/-- The keys of a search tree increase from left to right. -/
theorem Ordered.keys_increase (ht : t.Ordered) :
    t.keys.Pairwise fun k k' => k.toInt < k'.toInt := by
  induction t with
  | nil => exact List.Pairwise.nil
  | node k d left right ihl ihr =>
      obtain ⟨hleft, hright, hl, hr⟩ := ht
      rw [keys, List.pairwise_append, List.pairwise_cons]
      refine ⟨ihl hl, ⟨hright, ihr hr⟩, fun a ha b hb => ?_⟩
      have hak := hleft a ha
      rcases List.mem_cons.mp hb with rfl | hb
      · exact hak
      · exact Int.lt_trans hak (hright b hb)

theorem Ordered.keys_nodup (ht : t.Ordered) : t.keys.Nodup :=
  ht.keys_increase.imp fun hlt heq => by
    rw [heq] at hlt
    exact Int.lt_irrefl _ hlt

/-- A node that is found carries the key that was searched for. -/
theorem search_isResult (val : BitVec 32) (t : Tree) :
    IsResult val (search val t) (lookup val t) := by
  induction t with
  | nil => rfl
  | node k d left right ihl ihr =>
      rw [lookup_node, search]
      by_cases hlt : val.slt k = true
      · rw [if_pos hlt, if_pos hlt]
        exact ihl
      · by_cases hgt : k.slt val = true
        · rw [if_neg hlt, if_pos hgt, if_neg hlt, if_pos hgt]
          exact ihr
        · have heq := eq_of_not_slt hlt hgt
          rw [if_neg hlt, if_neg hgt, if_neg hlt, if_neg hgt, if_pos heq, heq]
          exact ⟨left, right, rfl⟩

/-- What a sequence of calls adds to the map: the first data of each key that it
does not have yet. -/
theorem lookup_insertAll (val : BitVec 32)
    (calls : List (BitVec 32 × BitVec 32)) (root : Tree) :
    lookup val (root.insertAll calls) =
      (lookup val root).or (firstData calls val) := by
  induction calls generalizing root with
  | nil => simp [insertAll, firstData]
  | cons call calls ih =>
      have hstep : root.insertAll (call :: calls) =
          (root.insert call.1 call.2).insertAll calls := rfl
      rw [hstep, ih, lookup_insert, Option.or_assoc]
      congr 1
      by_cases hval : call.1 = val
      · simp [firstData, hval]
      · have hne : val ≠ call.1 := fun h => hval h.symm
        simp [firstData, hval, hne]

theorem Ordered.insertAll {root : Tree} (hroot : root.Ordered)
    (calls : List (BitVec 32 × BitVec 32)) : (root.insertAll calls).Ordered := by
  induction calls generalizing root with
  | nil => exact hroot
  | cons call calls ih => exact ih hroot.insert

/-- Every sequence of insertions gives a search tree without a key twice, in
which a search finds the first data of a key and never reports an error. -/
theorem insertAll_firstWins (calls : List (BitVec 32 × BitVec 32)) :
    (nil.insertAll calls).Ordered ∧ (nil.insertAll calls).keys.Nodup ∧
      ∀ val, reportsError val (nil.insertAll calls) = false ∧
        IsResult val (search val (nil.insertAll calls)) (firstData calls val) := by
  have hnil : nil.Ordered := trivial
  have hordered := hnil.insertAll calls
  refine ⟨hordered, hordered.keys_nodup, fun val => ⟨reportsError_eq_false val _, ?_⟩⟩
  have hfound := search_isResult val (nil.insertAll calls)
  rw [lookup_insertAll, lookup_nil, Option.none_or] at hfound
  exact hfound

end Tree

end AddrswapReplay

end NtapiExamples
