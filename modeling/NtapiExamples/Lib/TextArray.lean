/-
C string functions on an array that need not be terminated: a search and a
conversion either stop inside of the array or read beyond its end.
-/
import NtapiExamples.Lib.Text

namespace NtapiExamples

namespace Text

/-- Why a search in an array gives no place: the terminator comes first, or the
end of the array does. -/
inductive ReadError
  | notFound
  | pastEnd
deriving DecidableEq

/-- `strchr` in the characters of an array: those before and behind the first
`c`. -/
def strchrIn (c : Char) : Text → Except ReadError (Text × Text)
  | [] => .error .pastEnd
  | x :: s =>
      if x = c then .ok ([], s)
      else if x = '\x00' then .error .notFound
      else (strchrIn c s).map fun r => (x :: r.1, r.2)

/-- What `strtol` looks for digits in. -/
def strtolDigits (s : Text) : Text := (takeSign (s.dropWhile isspace)).2

/-- A conversion of `strtol` stops at a character of the array. -/
def strtolEnds (s : Text) : Prop :=
  ((strtolDigits s).dropWhile fun c => decide (isDigit c)) ≠ []

instance (s : Text) : Decidable (strtolEnds s) :=
  inferInstanceAs (Decidable (_ ≠ _))

section Search

variable {c : Char} {s rest before behind : Text}

theorem strchrIn_append (hc : c ∉ s) (hs : '\x00' ∉ s) (rest : Text) :
    strchrIn c (s ++ c :: rest) = .ok (s, rest) := by
  induction s with
  | nil => simp [strchrIn]
  | cons x s ih =>
      rw [List.mem_cons, not_or] at hc hs
      rw [List.cons_append, strchrIn, if_neg (Ne.symm hc.1),
        if_neg (Ne.symm hs.1), ih hc.2 hs.2]
      rfl

/-- A search that succeeds has split the array. -/
theorem eq_of_strchrIn (hfound : strchrIn c s = .ok (before, behind)) :
    s = before ++ c :: behind ∧ c ∉ before := by
  induction s generalizing before with
  | nil => cases hfound
  | cons x s ih =>
      rw [strchrIn] at hfound
      by_cases hx : x = c
      · rw [if_pos hx] at hfound
        cases hfound
        exact ⟨by rw [hx, List.nil_append], List.not_mem_nil⟩
      · rw [if_neg hx] at hfound
        by_cases hend : x = '\x00'
        · rw [if_pos hend] at hfound
          cases hfound
        · rw [if_neg hend] at hfound
          cases hrest : strchrIn c s with
          | error e =>
              rw [hrest] at hfound
              cases hfound
          | ok r =>
              rw [hrest] at hfound
              cases hfound
              obtain ⟨hsplit, hnot⟩ := ih hrest
              refine ⟨by rw [hsplit, List.cons_append], ?_⟩
              rw [List.mem_cons, not_or]
              exact ⟨Ne.symm hx, hnot⟩

/-- A search does not get beyond a terminator. -/
theorem strchrIn_terminated (hc : c ≠ '\x00') (hs : '\x00' ∉ s)
    (hfound : strchrIn c (s ++ '\x00' :: rest) = .ok (before, behind)) :
    ∃ s', s = before ++ c :: s' ∧ behind = s' ++ '\x00' :: rest := by
  induction s generalizing before with
  | nil =>
      rw [List.nil_append, strchrIn, if_neg (Ne.symm hc), if_pos rfl] at hfound
      cases hfound
  | cons x s ih =>
      rw [List.mem_cons, not_or] at hs
      rw [List.cons_append, strchrIn] at hfound
      by_cases hx : x = c
      · rw [if_pos hx] at hfound
        cases hfound
        exact ⟨s, by rw [hx, List.nil_append], rfl⟩
      · rw [if_neg hx, if_neg (Ne.symm hs.1)] at hfound
        cases hrest : strchrIn c (s ++ '\x00' :: rest) with
        | error e =>
            rw [hrest] at hfound
            cases hfound
        | ok r =>
            rw [hrest] at hfound
            cases hfound
            obtain ⟨s', hsplit, hbehind⟩ := ih hs.2 hrest
            exact ⟨s', by rw [hsplit, List.cons_append], hbehind⟩

end Search

section Conversion

variable {s : Text}

theorem takeSign_append (hs : s ≠ []) (t : Text) :
    takeSign (s ++ t) = ((takeSign s).1, (takeSign s).2 ++ t) := by
  obtain ⟨c, s, rfl⟩ := List.exists_cons_of_ne_nil hs
  unfold takeSign
  split
  · rename_i heq
    obtain ⟨rfl, rfl⟩ := List.cons.inj heq
    rfl
  · rename_i heq
    obtain ⟨rfl, rfl⟩ := List.cons.inj heq
    rfl
  · rename_i hminus hplus
    split
    · rename_i heq
      obtain ⟨rfl, rfl⟩ := List.cons.inj heq
      exact absurd rfl (hminus _)
    · rename_i heq
      obtain ⟨rfl, rfl⟩ := List.cons.inj heq
      exact absurd rfl (hplus _)
    · rfl

theorem strtolDigits_append (hne : s.dropWhile isspace ≠ []) (t : Text) :
    strtolDigits (s ++ t) = strtolDigits s ++ t := by
  rw [strtolDigits, List.dropWhile_append, if_neg (by simpa using hne),
    takeSign_append hne]
  rfl

theorem strtolEnds_ne_nil (hends : strtolEnds s) : s.dropWhile isspace ≠ [] := by
  intro hnil
  rw [strtolEnds, strtolDigits, hnil] at hends
  exact hends rfl

/-- More characters do not matter to a conversion that has stopped. -/
theorem strtolEnds_append (hends : strtolEnds s) (t : Text) :
    strtolEnds (s ++ t) := by
  have hne := strtolEnds_ne_nil hends
  rw [strtolEnds, strtolDigits_append hne, List.dropWhile_append,
    if_neg (by rwa [List.isEmpty_iff])]
  exact fun hnil => hends (List.append_eq_nil_iff.mp hnil).1

/-- A digit behind the array lets the conversion go on. -/
theorem strtolEnds_digit (hends : strtolEnds (s ++ ['0'])) : strtolEnds s := by
  intro hstop
  by_cases hnil : s.dropWhile isspace = []
  · have hzero : strtolDigits (s ++ ['0']) = ['0'] := by
      rw [strtolDigits, List.dropWhile_append, if_pos (by simp [hnil])]
      decide
    rw [strtolEnds, hzero] at hends
    exact hends (by decide)
  · rw [strtolEnds, strtolDigits_append hnil, List.dropWhile_append,
      if_pos (by rwa [List.isEmpty_iff])] at hends
    exact hends (by decide)

theorem mem_dropWhile {c : Char} {p : Char → Bool} (hp : p c = false)
    (hc : c ∈ s) : c ∈ s.dropWhile p := by
  rw [← List.takeWhile_append_dropWhile (p := p) (l := s), List.mem_append] at hc
  rcases hc with hc | hc
  · rw [List.mem_takeWhile_imp hc] at hp
    cases hp
  · exact hc

theorem mem_takeSign {c : Char} (hminus : c ≠ '-') (hplus : c ≠ '+')
    (hc : c ∈ s) : c ∈ (takeSign s).2 := by
  unfold takeSign
  split
  · exact (List.mem_cons.mp hc).resolve_left hminus
  · exact (List.mem_cons.mp hc).resolve_left hplus
  · exact hc

/-- A terminator ends every conversion. -/
theorem strtolEnds_of_terminated (hs : '\x00' ∈ s) : strtolEnds s := by
  have hspace := mem_dropWhile (show isspace '\x00' = false by decide) hs
  have hsign : '\x00' ∈ strtolDigits s :=
    mem_takeSign (by decide) (by decide) hspace
  exact List.ne_nil_of_mem (mem_dropWhile (by decide) hsign)

theorem digitValue_lt_iff (c : Char) : digitValue c < 10 ↔ isDigit c := by
  unfold digitValue isDigit
  split
  · rename_i hdigit
    have hlow : '0'.toNat ≤ c.toNat := hdigit.1
    have hhigh : c.toNat ≤ '9'.toNat := hdigit.2
    have hzero : '0'.toNat = 48 := rfl
    have hnine : '9'.toNat = 57 := rfl
    simp only [hdigit, and_self, iff_true]
    omega
  · rename_i hdigit
    simp only [hdigit, iff_false]
    split
    · omega
    · split <;> omega

/-- Only the digits up to the place where the conversion stops are read. -/
theorem number_append {s : Text}
    (hs : (s.dropWhile fun c => decide (isDigit c)) ≠ []) (t : Text) :
    number 10 (s ++ t) = number 10 s := by
  have hsame : ∀ s : Text, (s.takeWhile fun c => decide (digitValue c < 10)) =
      s.takeWhile fun c => decide (isDigit c) := by
    intro s
    simp only [digitValue_lt_iff]
  have hstop : ((s ++ t).takeWhile fun c => decide (isDigit c)) =
      s.takeWhile fun c => decide (isDigit c) := by
    rw [List.takeWhile_append, if_neg]
    intro hlength
    have hsplit := List.takeWhile_append_dropWhile
      (p := fun c => decide (isDigit c)) (l := s)
    have hadd := congrArg List.length hsplit
    rw [List.length_append, hlength] at hadd
    exact hs (List.eq_nil_of_length_eq_zero (by omega))
  rw [number, number, hsame, hsame, hstop]

theorem cstr_append (hs : '\x00' ∉ s) (t : Text) : cstr (s ++ t) = s ++ cstr t := by
  rw [cstr, List.takeWhile_append_of_pos]
  · rfl
  · intro c hc
    rw [decide_eq_true_eq]
    rintro rfl
    exact hs hc

theorem cstr_terminated (hs : '\x00' ∉ s) (t : Text) :
    cstr (s ++ '\x00' :: t) = s := by
  rw [cstr_append hs, cstr, List.takeWhile_cons_of_neg (by decide),
    List.append_nil]

/-- `strtol` on an array in which it stops. -/
theorem strtol_append (hends : strtolEnds s) (t : Text) :
    strtol (s ++ t) = strtol s := by
  by_cases hterm : '\x00' ∈ s
  · have hcstr : cstr (s ++ t) = cstr s := by
      obtain ⟨before, behind, rfl, hbefore⟩ := List.eq_append_cons_of_mem hterm
      rw [List.append_assoc, List.cons_append, cstr_terminated hbefore,
        cstr_terminated hbefore]
    rw [strtol, strtol, hcstr]
  · have hne := strtolEnds_ne_nil hends
    have hnumber : number 10 ((takeSign (s.dropWhile isspace)).2 ++ cstr t) =
        number 10 (takeSign (s.dropWhile isspace)).2 := number_append hends _
    have hdrop : (s ++ cstr t).dropWhile isspace =
        s.dropWhile isspace ++ cstr t := by
      rw [List.dropWhile_append, if_neg (by simpa using hne)]
    rw [strtol, strtol, cstr_append hterm, cstr_eq_self hterm, hdrop,
      takeSign_append hne]
    simp only [hnumber]

end Conversion

end Text

end NtapiExamples
