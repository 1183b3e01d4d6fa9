/-
Where `std::string::find` finds a pattern in a string put together from parts
that do not contain it, and what is left when blanks are taken out.
-/
import NtapiExamples.Lib.Text

namespace NtapiExamples

namespace Text

/-- The search ends where the string starts with the pattern. -/
theorem find_of_starts {c : Char} {pattern s : Text}
    (hstarts : pattern <+: c :: s) : find pattern (c :: s) = some 0 := by
  rw [find, if_pos (List.isPrefixOf_iff_prefix.mpr hstarts)]

/-- It goes on behind a character where the pattern does not start. -/
theorem find_cons {c : Char} {pattern s : Text}
    (hstarts : ¬ pattern <+: c :: s) :
    find pattern (c :: s) = (find pattern s).map (· + 1) := by
  rw [find, if_neg (mt List.isPrefixOf_iff_prefix.mp hstarts)]

/-- A pattern is not in a string that lacks one of its characters. -/
theorem find_eq_none {c : Char} {pattern s : Text} (hpattern : c ∈ pattern)
    (hs : c ∉ s) : find pattern s = none := by
  induction s with
  | nil => simp [find, List.ne_nil_of_mem hpattern]
  | cons x s ih =>
      have hstarts : ¬ pattern <+: x :: s := fun hpre =>
        hs (hpre.mem hpattern)
      rw [find_cons hstarts, ih fun hmem => hs (List.mem_cons_of_mem x hmem)]
      rfl

/-- The search skips a part without the first character of the pattern. -/
theorem find_append {c : Char} {pattern part : Text} (hpart : c ∉ part)
    (rest : Text) :
    find (c :: pattern) (part ++ rest) =
      (find (c :: pattern) rest).map (· + part.length) := by
  induction part with
  | nil => simp
  | cons x part ih =>
      rw [List.mem_cons, not_or] at hpart
      have hstarts : ¬ c :: pattern <+: x :: (part ++ rest) := by
        rw [List.cons_prefix_cons]
        exact fun hpre => hpart.1 hpre.1
      rw [List.cons_append, find_cons hstarts, ih hpart.2, Option.map_map]
      congr 1

theorem find_self {pattern : Text} (hne : pattern ≠ []) (rest : Text) :
    find pattern (pattern ++ rest) = some 0 := by
  obtain ⟨c, tail, rfl⟩ := List.exists_cons_of_ne_nil hne
  exact find_of_starts (List.prefix_append (c :: tail) rest)

/-- The first occurrence stands behind a part without its first character. -/
theorem find_append_self {c : Char} {pattern part : Text} (hpart : c ∉ part)
    (rest : Text) :
    find (c :: pattern) (part ++ (c :: pattern ++ rest)) =
      some part.length := by
  rw [find_append hpart, find_self (List.cons_ne_nil c pattern)]
  simp

/-- A single character is found when it is there. -/
theorem find_singleton_isSome {c : Char} {s : Text} :
    (find [c] s).isSome = true ↔ c ∈ s := by
  constructor
  · intro hfound
    by_contra hmem
    rw [find_eq_none List.mem_cons_self hmem] at hfound
    cases hfound
  · intro hmem
    induction s with
    | nil => cases hmem
    | cons x s ih =>
        by_cases hstarts : [c] <+: x :: s
        · rw [find_of_starts hstarts]
          rfl
        · rw [find_cons hstarts, Option.isSome_map]
          rcases List.mem_cons.mp hmem with rfl | hmem
          · exact absurd (List.prefix_append [c] s) hstarts
          · exact ih hmem

theorem erase_append (part gone rest : Text) :
    erase (part ++ (gone ++ rest)) part.length gone.length = part ++ rest := by
  unfold erase
  rw [List.take_left', ← List.drop_drop, List.drop_left', List.drop_left']
  all_goals rfl

/-- A blank: a space or a tab. -/
def isBlank (c : Char) : Bool := c = ' ' || c = '\t'

/-- What is left of a string without its blanks. -/
def squeeze (s : Text) : Text := (s.filter (· ≠ ' ')).filter (· ≠ '\t')

@[simp] theorem squeeze_append (s t : Text) :
    squeeze (s ++ t) = squeeze s ++ squeeze t := by
  simp [squeeze]

theorem squeeze_eq_filter (s : Text) :
    squeeze s = s.filter fun c => !isBlank c := by
  unfold squeeze
  rw [List.filter_filter]
  apply List.filter_congr
  intro c _
  simp [isBlank, Bool.and_comm]

theorem squeeze_blank {s : Text} (hs : s.all isBlank = true) :
    squeeze s = [] := by
  rw [squeeze_eq_filter, List.filter_eq_nil_iff]
  intro c hc
  simp [List.all_eq_true.mp hs c hc]

theorem squeeze_eq_self {s : Text} (hs : s.all (fun c => !isBlank c) = true) :
    squeeze s = s := by
  rw [squeeze_eq_filter, List.filter_eq_self]
  exact List.all_eq_true.mp hs

end Text

end NtapiExamples
