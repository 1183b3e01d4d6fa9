/-
`btree.c`: the binary tree of the address substitution, over signed 32-bit keys.
-/
import Mathlib.Data.BitVec

namespace NtapiExamples

namespace AddrswapReplay

/-- `struct bin_tree`; `nil` is the null pointer. -/
inductive Tree where
  | nil
  | node (key data : BitVec 32) (left right : Tree)

namespace Tree

/-- `insert`. -/
def insert (key data : BitVec 32) : Tree → Tree
  | nil => node key data nil nil
  | node k d left right =>
      if key.slt k then node k d (insert key data left) right
      else if k.slt key then node k d left (insert key data right)
      else node k d left right

/-- `search`; the last branch is the one that prints a message. -/
def search (val : BitVec 32) : Tree → Tree
  | nil => nil
  | node k d left right =>
      if val.slt k then search val left
      else if k.slt val then search val right
      else if val = k then node k d left right
      else nil

/-- The data of the node `search` returns. -/
def data? : Tree → Option (BitVec 32)
  | nil => none
  | node _ d _ _ => some d

def lookup (val : BitVec 32) (t : Tree) : Option (BitVec 32) :=
  (t.search val).data?

/-- The message of `search` is never printed. -/
theorem eq_of_not_slt {x y : BitVec 32} (hxy : ¬ x.slt y = true)
    (hyx : ¬ y.slt x = true) : x = y := by
  rw [BitVec.slt_iff_toInt_lt] at hxy hyx
  exact BitVec.eq_of_toInt_eq (by omega)

theorem not_slt_self (x : BitVec 32) : ¬ x.slt x = true := by
  rw [BitVec.slt_iff_toInt_lt]
  omega

@[simp] theorem lookup_nil (val : BitVec 32) : lookup val nil = none := rfl

theorem lookup_node (val k d : BitVec 32) (left right : Tree) :
    lookup val (node k d left right) =
      if val.slt k then lookup val left
      else if k.slt val then lookup val right
      else some d := by
  simp only [lookup, search]
  split
  · rfl
  · split
    · rfl
    · rename_i hlt hgt
      rw [if_pos (eq_of_not_slt hlt hgt)]
      rfl

/-- An insertion takes effect for its key, unless the key is there already. -/
theorem lookup_insert (val key data : BitVec 32) (t : Tree) :
    lookup val (t.insert key data) =
      (lookup val t).or (if val = key then some data else none) := by
  induction t with
  | nil =>
      rw [insert, lookup_node]
      by_cases hval : val = key
      · rw [hval]
        simp [not_slt_self]
      · rw [if_neg hval]
        by_cases hlt : val.slt key = true
        · simp [hlt]
        · have hgt : key.slt val = true := by
            by_contra hgt
            exact hval (eq_of_not_slt hlt hgt)
          simp [hlt, hgt]
  | node k d left right ihl ihr =>
      rw [insert, lookup_node]
      by_cases hkey : key.slt k = true
      · rw [if_pos hkey, lookup_node, ihl]
        by_cases hlt : val.slt k = true
        · simp [hlt]
        · have hne : val ≠ key := fun h => hlt (h ▸ hkey)
          simp [hlt, hne]
      · rw [if_neg hkey]
        by_cases hkey' : k.slt key = true
        · rw [if_pos hkey', lookup_node, ihr]
          by_cases hlt : val.slt k = true
          · have hne : val ≠ key := by
              rintro rfl
              exact hkey hlt
            simp [hlt, hne]
          · by_cases hgt : k.slt val = true
            · simp [hlt, hgt]
            · have hne : val ≠ key := fun h => hgt (h ▸ hkey')
              simp [hlt, hgt, hne]
        · rw [if_neg hkey', lookup_node]
          have hsame := eq_of_not_slt hkey hkey'
          by_cases hlt : val.slt k = true
          · have hne : val ≠ key := by
              rintro rfl
              exact hkey hlt
            simp [hlt, hne]
          · by_cases hgt : k.slt val = true
            · have hne : val ≠ key := by
                rintro rfl
                exact hkey' hgt
              simp [hlt, hgt, hne]
            · simp [hlt, hgt]

end Tree

end AddrswapReplay

end NtapiExamples
