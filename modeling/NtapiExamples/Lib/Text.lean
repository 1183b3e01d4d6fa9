/-
Strings of C and C++ programs as lists of characters: the operations of
`std::string`, the characters up to the terminator, and the conversions of
`strtol` and `strtoul`.
-/
import Mathlib.Algebra.Group.Nat.Defs
import Mathlib.Algebra.Group.Int.Defs
import Mathlib.Data.List.TakeWhile

namespace NtapiExamples

abbrev Text := List Char

namespace Text

/-- `std::string::find`; `none` is `npos`. -/
def find (pattern : Text) : Text → Option Nat
  | [] => if pattern = [] then some 0 else none
  | c :: s =>
      if pattern.isPrefixOf (c :: s) then some 0
      else (find pattern s).map (· + 1)

/-- `std::string::erase`. -/
def erase (s : Text) (i n : Nat) : Text := s.take i ++ s.drop (i + n)

/-- The characters before the terminator, as `%s` and `strtoul` see them. -/
def cstr (s : Text) : Text := s.takeWhile fun c => c ≠ '\x00'

/-- `strchr`: what stands before and behind the first `c`. -/
def strchr (c : Char) : Text → Option (Text × Text)
  | [] => none
  | x :: s =>
      if x = c then some ([], s)
      else (strchr c s).map fun r => (x :: r.1, r.2)

/-- The lines `getline` delivers. -/
def getlines (content : Text) : List Text :=
  let lines := content.splitOn '\n'
  if lines.getLast? = some [] then lines.dropLast else lines

/-- `isspace` in the C locale. -/
def isspace (c : Char) : Bool :=
  c = ' ' ∨ c = '\t' ∨ c = '\n' ∨ c = '\x0b' ∨ c = '\x0c' ∨ c = '\r'

/-- The value of a digit, letters standing for 10 and more. -/
def digitValue (c : Char) : Nat :=
  if '0' ≤ c ∧ c ≤ '9' then c.toNat - '0'.toNat
  else if 'a' ≤ c ∧ c ≤ 'z' then c.toNat - 'a'.toNat + 10
  else if 'A' ≤ c ∧ c ≤ 'Z' then c.toNat - 'A'.toNat + 10
  else 36

/-- The number at the front of a string. -/
def number (base : Nat) (s : Text) : Nat :=
  (s.takeWhile fun c => digitValue c < base).foldl
    (fun n c => n * base + digitValue c) 0

/-- The sign, and what is behind it. -/
def takeSign : Text → Bool × Text
  | '-' :: s => (true, s)
  | '+' :: s => (false, s)
  | s => (false, s)

/-- The base that `strtoul` finds when it is called with 0, and the digits. -/
def takeBase : Text → Nat × Text
  | '0' :: 'x' :: c :: s =>
      if digitValue c < 16 then (16, c :: s) else (8, '0' :: 'x' :: c :: s)
  | '0' :: 'X' :: c :: s =>
      if digitValue c < 16 then (16, c :: s) else (8, '0' :: 'X' :: c :: s)
  | '0' :: s => (8, '0' :: s)
  | s => (10, s)

/-- `strtoul(s, NULL, 0)` with its 64-bit result. -/
def strtoul (s : Text) : BitVec 64 :=
  let (negative, digits) := takeSign ((cstr s).dropWhile isspace)
  let (base, digits) := takeBase digits
  let n := number base digits
  if 2 ^ 64 ≤ n then BitVec.allOnes 64
  else if negative then -BitVec.ofNat 64 n else BitVec.ofNat 64 n

/-- `strtol(s, NULL, 10)`. -/
def strtol (s : Text) : Int :=
  let (negative, digits) := takeSign ((cstr s).dropWhile isspace)
  let n : Int := number 10 digits
  if negative then max (-n) (-2 ^ 63) else min n (2 ^ 63 - 1)

def hexDigit (n : Nat) : Char := "0123456789abcdef".toList.getD n '?'

/-- `%02x` of a byte. -/
def hex2 (byte : Nat) : Text :=
  [hexDigit (byte / 16), hexDigit (byte % 16)]

theorem strchr_append {c : Char} {s : Text} (hs : c ∉ s) (rest : Text) :
    strchr c (s ++ c :: rest) = some (s, rest) := by
  induction s with
  | nil => simp [strchr]
  | cons x s ih =>
      rw [List.mem_cons, not_or] at hs
      rw [List.cons_append, strchr, if_neg (Ne.symm hs.1), ih hs.2]
      rfl

/-- A decimal digit. -/
def isDigit (c : Char) : Prop := '0' ≤ c ∧ c ≤ '9'

instance (c : Char) : Decidable (isDigit c) :=
  inferInstanceAs (Decidable (_ ∧ _))

theorem isDigit.ne {c d : Char} (hc : isDigit c) (hd : ¬ isDigit d) :
    c ≠ d := fun h => hd (h ▸ hc)

theorem isDigit.not_isspace {c : Char} (hc : isDigit c) :
    isspace c = false := by
  have h₁ := hc.ne (show ¬ isDigit ' ' by decide)
  have h₂ := hc.ne (show ¬ isDigit '\t' by decide)
  have h₃ := hc.ne (show ¬ isDigit '\n' by decide)
  have h₄ := hc.ne (show ¬ isDigit '\x0b' by decide)
  have h₅ := hc.ne (show ¬ isDigit '\x0c' by decide)
  have h₆ := hc.ne (show ¬ isDigit '\r' by decide)
  simp [isspace, h₁, h₂, h₃, h₄, h₅, h₆]

theorem cstr_eq_self {s : Text} (hs : '\x00' ∉ s) : cstr s = s := by
  rw [cstr, List.takeWhile_eq_self_iff]
  intro c hc
  have hne : c ≠ '\x00' := fun h => hs (h ▸ hc)
  simp [hne]

/-- A string that starts with a digit has no sign. -/
theorem takeSign_of_isDigit {c : Char} (hc : isDigit c) (s : Text) :
    takeSign (c :: s) = (false, c :: s) := by
  have hminus := hc.ne (show ¬ isDigit '-' by decide)
  have hplus := hc.ne (show ¬ isDigit '+' by decide)
  unfold takeSign
  split
  · rename_i heq
    exact absurd (List.cons.inj heq).1 hminus
  · rename_i heq
    exact absurd (List.cons.inj heq).1 hplus
  · rfl

/-- `strtol` on digits. -/
theorem strtol_of_digits {s : Text} (hne : s ≠ []) (hs : ∀ c ∈ s, isDigit c)
    (hlt : number 10 s < 2 ^ 63) : strtol s = number 10 s := by
  obtain ⟨c, rest, rfl⟩ := List.exists_cons_of_ne_nil hne
  have hc := hs c List.mem_cons_self
  have hcstr : cstr (c :: rest) = c :: rest := by
    apply cstr_eq_self
    exact fun hmem => absurd (hs _ hmem) (by decide)
  have hdrop : (c :: rest).dropWhile isspace = c :: rest := by
    rw [List.dropWhile_cons, hc.not_isspace]
    rfl
  simp only [strtol, hcstr, hdrop, takeSign_of_isDigit hc, Bool.false_eq_true,
    if_false]
  omega

end Text

end NtapiExamples
