/-
Replacing the occurrences of a pattern in a list, from left to right and
without overlaps.
-/
import Mathlib.Data.List.Infix

namespace NtapiExamples

universe u

variable {α : Type u}

/-- A prefix does not reach past an element it does not have. -/
theorem prefix_append_cons_iff {pattern : List α} {c : α} (hc : c ∉ pattern)
    (s r : List α) :
    pattern <+: s ++ c :: r ↔ pattern <+: s := by
  constructor
  · intro hprefix
    rcases List.prefix_or_prefix_of_prefix hprefix
      (List.prefix_append s (c :: r)) with hle | hlong
    · exact hle
    · obtain ⟨rest, rfl⟩ := hlong
      rw [List.prefix_append_right_inj] at hprefix
      cases rest with
      | nil => simp
      | cons d rest =>
          obtain rfl := (List.cons_prefix_cons.mp hprefix).1
          exact absurd (by simp) hc
  · exact fun hprefix => hprefix.trans (List.prefix_append _ _)

variable [DecidableEq α]

/-- The list behind its first `skip` elements, with the occurrences of `pattern`
replaced by `sub`. -/
def replaceFrom (pattern sub : List α) : Nat → List α → List α
  | _, [] => []
  | skip + 1, _ :: s => replaceFrom pattern sub skip s
  | 0, c :: s =>
      if pattern.isPrefixOf (c :: s) then
        sub ++ replaceFrom pattern sub (pattern.length - 1) s
      else c :: replaceFrom pattern sub 0 s

def replaceAll (pattern sub s : List α) : List α := replaceFrom pattern sub 0 s

/-- Where the replaced occurrences start in a list that starts at `pos`, behind
its first `skip` elements. -/
def occurrencesFrom (pattern : List α) : Nat → Nat → List α → List Nat
  | _, _, [] => []
  | skip + 1, pos, _ :: s => occurrencesFrom pattern skip (pos + 1) s
  | 0, pos, c :: s =>
      if pattern.isPrefixOf (c :: s) then
        pos :: occurrencesFrom pattern (pattern.length - 1) (pos + 1) s
      else occurrencesFrom pattern 0 (pos + 1) s

def occurrences (pattern : List α) (pos : Nat) (s : List α) : List Nat :=
  occurrencesFrom pattern 0 pos s

variable {pattern sub : List α}

/-- A list is empty, starts with the pattern, or starts with an element at which
the pattern does not stand. -/
theorem pattern_induction {motive : List α → Prop} (hne : pattern ≠ [])
    (nil : motive [])
    (hit : ∀ r, (∀ s, s.length ≤ r.length → motive s) → motive (pattern ++ r))
    (step : ∀ c s, ¬ pattern <+: c :: s → motive s → motive (c :: s))
    (s : List α) : motive s := by
  suffices hall : ∀ n (s : List α), s.length ≤ n → motive s from
    hall s.length s le_rfl
  intro n
  induction n with
  | zero =>
      intro s hs
      rw [List.eq_nil_of_length_eq_zero (Nat.le_zero.mp hs)]
      exact nil
  | succ n ih =>
      intro s hs
      cases s with
      | nil => exact nil
      | cons c s =>
          by_cases hprefix : pattern <+: c :: s
          · obtain ⟨r, hr⟩ := hprefix
            rw [← hr] at hs ⊢
            have hpos := List.length_pos_of_ne_nil hne
            rw [List.length_append] at hs
            exact hit r fun s hle => ih s (by omega)
          · exact step c s hprefix (ih s (by simpa using hs))

theorem replaceFrom_eq (skip : Nat) (s : List α) :
    replaceFrom pattern sub skip s = replaceAll pattern sub (s.drop skip) := by
  induction s generalizing skip with
  | nil => simp [replaceFrom, replaceAll]
  | cons c s ih =>
      cases skip with
      | zero => rfl
      | succ skip =>
          rw [replaceFrom, ih, List.drop_succ_cons]

theorem occurrencesFrom_eq (skip pos : Nat) (s : List α)
    (hskip : skip ≤ s.length) :
    occurrencesFrom pattern skip pos s =
      occurrences pattern (pos + skip) (s.drop skip) := by
  induction s generalizing skip pos with
  | nil => simp [occurrencesFrom, occurrences]
  | cons c s ih =>
      cases skip with
      | zero => rfl
      | succ skip =>
          rw [occurrencesFrom, ih _ _ (by simpa using hskip),
            List.drop_succ_cons, Nat.add_assoc, Nat.add_comm 1]

@[simp] theorem replaceAll_nil : replaceAll pattern sub [] = [] := rfl

@[simp] theorem occurrences_nil (pos : Nat) :
    occurrences pattern pos [] = [] := rfl

theorem replaceAll_cons {c : α} {s : List α} (hnot : ¬ pattern <+: c :: s) :
    replaceAll pattern sub (c :: s) = c :: replaceAll pattern sub s := by
  rw [replaceAll, replaceFrom, if_neg (by simpa using hnot)]
  rfl

theorem occurrences_cons {pos : Nat} {c : α} {s : List α}
    (hnot : ¬ pattern <+: c :: s) :
    occurrences pattern pos (c :: s) = occurrences pattern (pos + 1) s := by
  rw [occurrences, occurrencesFrom, if_neg (by simpa using hnot)]
  rfl

theorem replaceAll_hit (hne : pattern ≠ []) (r : List α) :
    replaceAll pattern sub (pattern ++ r) =
      sub ++ replaceAll pattern sub r := by
  obtain ⟨c, rest, rfl⟩ := List.exists_cons_of_ne_nil hne
  rw [replaceAll, List.cons_append, replaceFrom, if_pos (by simp),
    replaceFrom_eq]
  simp

theorem occurrences_hit (hne : pattern ≠ []) (pos : Nat) (r : List α) :
    occurrences pattern pos (pattern ++ r) =
      pos :: occurrences pattern (pos + pattern.length) r := by
  obtain ⟨c, rest, rfl⟩ := List.exists_cons_of_ne_nil hne
  rw [occurrences, List.cons_append, occurrencesFrom, if_pos (by simp),
    occurrencesFrom_eq _ _ _ (by simp)]
  simp [Nat.add_assoc, Nat.add_comm 1]

theorem le_of_mem_occurrences (hne : pattern ≠ []) {pos i : Nat} {s : List α}
    (hi : i ∈ occurrences pattern pos s) : pos ≤ i := by
  induction s using pattern_induction hne generalizing pos with
  | nil => simp at hi
  | hit r ih =>
      rw [occurrences_hit hne, List.mem_cons] at hi
      rcases hi with rfl | hi
      · exact le_rfl
      · exact (Nat.le_add_right _ _).trans (ih r le_rfl hi)
  | step c s hnot ih =>
      rw [occurrences_cons hnot] at hi
      exact (Nat.le_succ _).trans (ih hi)

theorem add_length_le_of_mem_occurrences (hne : pattern ≠ []) {pos i : Nat}
    {s : List α} (hi : i ∈ occurrences pattern pos s) :
    i + pattern.length ≤ pos + s.length := by
  induction s using pattern_induction hne generalizing pos with
  | nil => simp at hi
  | hit r ih =>
      rw [occurrences_hit hne, List.mem_cons] at hi
      rw [List.length_append]
      rcases hi with rfl | hi
      · omega
      · have hle := ih r le_rfl hi
        omega
  | step c s hnot ih =>
      rw [occurrences_cons hnot] at hi
      have hle := ih hi
      rw [List.length_cons]
      omega

/-- Without occurrences there is nothing to replace. -/
theorem replaceAll_of_occurrences_nil (hne : pattern ≠ []) {pos : Nat}
    {s : List α} (hnone : occurrences pattern pos s = []) :
    replaceAll pattern sub s = s := by
  induction s using pattern_induction hne generalizing pos with
  | nil => rfl
  | hit r ih =>
      rw [occurrences_hit hne] at hnone
      exact absurd hnone (List.cons_ne_nil _ _)
  | step c s hnot ih =>
      rw [occurrences_cons hnot] at hnone
      rw [replaceAll_cons hnot, ih hnone]

/-- The first occurrence splits the list. -/
theorem occurrences_first (hne : pattern ≠ []) {pos i : Nat} {s : List α}
    {rest : List Nat} (hfirst : occurrences pattern pos s = i :: rest) :
    ∃ u r, s = u ++ (pattern ++ r) ∧ i = pos + u.length ∧
      replaceAll pattern sub s = u ++ (sub ++ replaceAll pattern sub r) ∧
      rest = occurrences pattern (i + pattern.length) r := by
  induction s using pattern_induction hne generalizing pos with
  | nil => simp at hfirst
  | hit r ih =>
      rw [occurrences_hit hne, List.cons.injEq] at hfirst
      obtain ⟨rfl, rfl⟩ := hfirst
      exact ⟨[], r, rfl, rfl, replaceAll_hit hne r, rfl⟩
  | step c s hnot ih =>
      rw [occurrences_cons hnot] at hfirst
      obtain ⟨u, r, hs, hi, hreplace, hrest⟩ := ih hfirst
      refine ⟨c :: u, r, by rw [hs]; rfl, ?_, ?_, hrest⟩
      · rw [hi, List.length_cons]
        omega
      · rw [replaceAll_cons hnot, hreplace]
        rfl

/-- Elements before every occurrence are kept. -/
theorem occurrences_late (hne : pattern ≠ []) {n pos : Nat} {s : List α}
    (hlate : ∀ i ∈ occurrences pattern pos s, pos + n ≤ i) :
    replaceAll pattern sub s =
        s.take n ++ replaceAll pattern sub (s.drop n) ∧
      occurrences pattern pos s = occurrences pattern (pos + n) (s.drop n) := by
  induction n generalizing pos s with
  | zero => simp
  | succ n ih =>
      cases s with
      | nil => simp
      | cons c s =>
          have hnot : ¬ pattern <+: c :: s := by
            rintro ⟨r, hr⟩
            rw [← hr, occurrences_hit hne] at hlate
            have hle := hlate pos List.mem_cons_self
            omega
          rw [occurrences_cons hnot] at hlate ⊢
          obtain ⟨hreplace, hoccur⟩ := ih fun i hi => by
            have hle := hlate i hi
            omega
          rw [replaceAll_cons hnot, hreplace, hoccur]
          simp [Nat.add_assoc, Nat.add_comm 1]

/-- What stands at an occurrence, when nothing before it has moved. -/
theorem getElem?_of_mem_occurrences (hne : pattern ≠ [])
    (hlength : sub.length = pattern.length) {pos i : Nat} {s : List α}
    (hi : i ∈ occurrences pattern pos s) :
    (replaceAll pattern sub s)[i - pos]? = sub[0]? ∧
      s[i - pos]? = pattern[0]? := by
  have hpos := List.length_pos_of_ne_nil hne
  induction s using pattern_induction hne generalizing pos with
  | nil => simp at hi
  | hit r ih =>
      rw [occurrences_hit hne, List.mem_cons] at hi
      rw [replaceAll_hit hne]
      rcases hi with rfl | hi
      · rw [Nat.sub_self, List.getElem?_append_left (by omega),
          List.getElem?_append_left hpos]
        exact ⟨rfl, rfl⟩
      · have hle := le_of_mem_occurrences hne hi
        rw [List.getElem?_append_right (by omega),
          List.getElem?_append_right (by omega), hlength, Nat.sub_sub]
        exact ih r le_rfl hi
  | step c s hnot ih =>
      rw [occurrences_cons hnot] at hi
      have hle := le_of_mem_occurrences hne hi
      have hsub : i - pos = i - (pos + 1) + 1 := by omega
      rw [replaceAll_cons hnot, hsub, List.getElem?_cons_succ,
        List.getElem?_cons_succ]
      exact ih hi

theorem not_suffix_of_occurrences_nil (hne : pattern ≠ []) {pos : Nat}
    {s : List α} (hnone : occurrences pattern pos s = []) :
    ¬ pattern <:+ s := by
  induction s using pattern_induction hne generalizing pos with
  | nil => simpa using hne
  | hit r ih =>
      rw [occurrences_hit hne] at hnone
      exact absurd hnone (List.cons_ne_nil _ _)
  | step c s hnot ih =>
      rw [occurrences_cons hnot] at hnone
      intro hsuffix
      rcases List.suffix_cons_iff.mp hsuffix with heq | hsuffix
      · exact hnot (by rw [heq])
      · exact ih hnone hsuffix

theorem mem_replaceAll (hne : pattern ≠ []) {c : α} {s : List α}
    (hc : c ∈ replaceAll pattern sub s) : c ∈ s ∨ c ∈ sub := by
  induction s using pattern_induction hne with
  | nil => simp at hc
  | hit r ih =>
      rw [replaceAll_hit hne, List.mem_append] at hc
      rcases hc with hsub | hr
      · exact Or.inr hsub
      · exact (ih r le_rfl hr).imp_left (List.mem_append_right _)
  | step d s hnot ih =>
      rw [replaceAll_cons hnot, List.mem_cons] at hc
      rcases hc with rfl | hs
      · exact Or.inl List.mem_cons_self
      · exact (ih hs).imp_left (List.mem_cons_of_mem d)

/-- Such an element splits the list. -/
theorem replaceAll_append_cons {c : α} (hc : c ∉ pattern)
    (hne : pattern ≠ []) (s r : List α) :
    replaceAll pattern sub (s ++ c :: r) =
      replaceAll pattern sub s ++ c :: replaceAll pattern sub r := by
  induction s using pattern_induction hne with
  | nil =>
      rw [List.nil_append, replaceAll_cons, replaceAll_nil, List.nil_append]
      rw [← List.nil_append (c :: r), prefix_append_cons_iff hc,
        List.prefix_nil]
      exact hne
  | hit r' ih =>
      rw [List.append_assoc, replaceAll_hit hne, replaceAll_hit hne,
        ih r' le_rfl, List.append_assoc]
  | step d s hnot ih =>
      rw [replaceAll_cons hnot, List.cons_append, replaceAll_cons, ih,
        List.cons_append]
      rwa [← List.cons_append, prefix_append_cons_iff hc]

theorem replaceAll_append_free {mid : List α} (hmid : ∀ c ∈ mid, c ∉ pattern)
    (hne : pattern ≠ []) (hmidne : mid ≠ []) (s r : List α) :
    replaceAll pattern sub (s ++ mid ++ r) =
      replaceAll pattern sub s ++ mid ++ replaceAll pattern sub r := by
  induction mid generalizing s with
  | nil => exact absurd rfl hmidne
  | cons c mid ih =>
      rw [List.forall_mem_cons] at hmid
      rw [List.append_assoc, List.cons_append,
        replaceAll_append_cons hmid.1 hne]
      cases mid with
      | nil => simp
      | cons d mid =>
          have hrest := ih hmid.2 (List.cons_ne_nil _ _) []
          rw [List.nil_append, replaceAll_nil, List.nil_append] at hrest
          rw [hrest]
          simp

end NtapiExamples
