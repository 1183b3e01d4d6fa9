/-
Texts written one behind the other into a buffer of a given size.  Each call
is told the size that is left and returns the length its text has, and the first
text that does not fit ends the run.
-/
import NtapiExamples.Lib.TextArray
import Mathlib.Logic.Function.Basic

namespace NtapiExamples

namespace Text

/-- The memory with a text stored from `start` on. -/
def put (buffer : Nat → Char) (start : Nat) : Text → Nat → Char
  | [] => buffer
  | c :: s => put (Function.update buffer start c) (start + 1) s

/-- What a buffer of `sz` characters takes of a text, with the terminator. -/
def terminated (sz : Nat) (s : Text) : Text :=
  if sz = 0 then [] else s.take (sz - 1) ++ ['\x00']

/-- `snprintf` for the text that the format and the arguments stand for, with
conversions that cannot fail. -/
def snprintf (buffer : Nat → Char) (str sz : Nat) (s : Text) :
    (Nat → Char) × Int :=
  (put buffer str (terminated sz s), s.length)

/-- The variables of a loop that prints with `snprintf`. -/
structure Printer where
  buffer : Nat → Char
  str : Nat
  sz : Nat
  total : Int

/-- The loop: the memory and the value it returns. -/
def printAll : List Text → Printer → (Nat → Char) × Int
  | [], p => (p.buffer, p.total)
  | s :: rest, p =>
      let (buffer, ret) := snprintf p.buffer p.str p.sz s
      if ret < 0 then (buffer, ret)
      else if p.sz ≤ ret then (buffer, p.total + ret)
      else
        printAll rest
          { buffer := buffer
            str := p.str + ret.toNat
            sz := p.sz - ret.toNat
            total := p.total + ret }

section Put

variable {buffer : Nat → Char}

theorem put_append (start : Nat) (s t : Text) :
    put buffer start (s ++ t) = put (put buffer start s) (start + s.length) t := by
  induction s generalizing buffer start with
  | nil => rfl
  | cons c s ih =>
      rw [List.cons_append, put, put, ih, List.length_cons,
        Nat.add_right_comm start 1, Nat.add_assoc start]

/-- The text that follows takes the place of the terminator. -/
theorem put_terminated (start : Nat) (s : Text) {t : Text} (ht : t ≠ []) :
    put (put buffer start (s ++ ['\x00'])) (start + s.length) t =
      put buffer start (s ++ t) := by
  rw [put_append, put_append]
  cases t with
  | nil => exact absurd rfl ht
  | cons c t => rw [put, put, put, put, Function.update_idem]

theorem put_of_lt {start i : Nat} (hi : i < start) (s : Text) :
    put buffer start s i = buffer i := by
  induction s generalizing buffer start with
  | nil => rfl
  | cons c s ih =>
      rw [put, ih (Nat.lt_succ_of_lt hi), Function.update_of_ne (Nat.ne_of_lt hi)]

/-- What was stored is read back. -/
theorem map_put (start : Nat) (s : Text) :
    (List.range' start s.length).map (put buffer start s) = s := by
  induction s generalizing buffer start with
  | nil => rfl
  | cons c s ih =>
      rw [List.length_cons, List.range'_succ, List.map_cons, put, ih,
        put_of_lt (Nat.lt_succ_self start), Function.update_self]

end Put

/-- A stored string is read up to its terminator. -/
theorem cstr_put {buffer : Nat → Char} {size : Nat} {s : Text}
    (hs : '\x00' ∉ s) (hsize : s.length < size) :
    cstr ((List.range size).map (put buffer 0 (s ++ ['\x00']))) = s := by
  obtain ⟨more, rfl⟩ := Nat.exists_eq_add_of_lt hsize
  have hsplit : List.range (s.length + more + 1) =
      List.range' 0 (s ++ ['\x00']).length ++
        List.range' (s.length + 1) more := by
    rw [List.length_append, List.length_singleton, List.range_eq_range',
      Nat.add_right_comm, ← List.range'_append_1, Nat.zero_add]
  rw [hsplit, List.map_append, map_put, List.append_assoc]
  exact cstr_terminated hs _

theorem terminated_ne_nil {sz : Nat} (hsz : 0 < sz) (s : Text) :
    terminated sz s ≠ [] := by
  rw [terminated, if_neg (Nat.ne_of_gt hsz)]
  exact List.append_ne_nil_of_right_ne_nil _ (List.cons_ne_nil _ _)

theorem terminated_of_lt {sz : Nat} {s : Text} (hfits : s.length < sz) :
    terminated sz s = s ++ ['\x00'] := by
  rw [terminated, if_neg (Nat.ne_zero_of_lt hfits),
    List.take_of_length_le (Nat.le_sub_one_of_lt hfits)]

/-- A text that fits, and what the rest of the buffer takes of the next. -/
theorem terminated_append {sz : Nat} {s : Text} (hfits : s.length < sz)
    (t : Text) :
    terminated sz (s ++ t) = s ++ terminated (sz - s.length) t := by
  have hleft : sz - s.length ≠ 0 := Nat.sub_ne_zero_of_lt hfits
  rw [terminated, terminated, if_neg (Nat.ne_zero_of_lt hfits), if_neg hleft,
    List.take_append, List.take_of_length_le (Nat.le_sub_one_of_lt hfits),
    List.append_assoc, Nat.sub_right_comm]

/-- A text that does not fit takes the whole of the buffer. -/
theorem terminated_append_of_le {sz : Nat} {s : Text} (hfull : sz ≤ s.length)
    (t : Text) : terminated sz (s ++ t) = terminated sz s := by
  rw [terminated, terminated, List.take_append_of_le_length
    (Nat.le_trans (Nat.sub_le sz 1) hfull)]

/-- The printer behind a text that fits. -/
def Printer.behind (p : Printer) (s : Text) : Printer where
  buffer := put p.buffer p.str (s ++ ['\x00'])
  str := p.str + s.length
  sz := p.sz - s.length
  total := p.total + s.length

section Loop

variable {s : Text} {p : Printer}

theorem printAll_cons_of_lt (hfits : s.length < p.sz) (rest : List Text) :
    printAll (s :: rest) p = printAll rest (p.behind s) := by
  have hlen : ¬ (p.sz : Int) ≤ s.length := by omega
  rw [printAll, snprintf, terminated_of_lt hfits]
  simp only [if_neg (Int.not_lt.mpr (Int.natCast_nonneg s.length)), if_neg hlen]
  rfl

theorem printAll_cons_of_le (hfull : p.sz ≤ s.length) (rest : List Text) :
    printAll (s :: rest) p =
      (put p.buffer p.str (terminated p.sz s), p.total + s.length) := by
  have hlen : (p.sz : Int) ≤ s.length := Int.ofNat_le.mpr hfull
  rw [printAll, snprintf]
  simp only [if_neg (Int.not_lt.mpr (Int.natCast_nonneg s.length)), if_pos hlen]

end Loop

/-- What the loop prints is what one call would print of all texts at once, and
the value it returns is the length of all texts when they fit and no less than
the size otherwise. -/
theorem printAll_spec (s : Text) (rest : List Text) (p : Printer) :
    (printAll (s :: rest) p).1 =
        put p.buffer p.str (terminated p.sz (s :: rest).flatten) ∧
      ((s :: rest).flatten.length < p.sz →
        (printAll (s :: rest) p).2 = p.total + (s :: rest).flatten.length) ∧
      (p.sz ≤ (s :: rest).flatten.length →
        p.total + p.sz ≤ (printAll (s :: rest) p).2) := by
  induction rest generalizing s p with
  | nil =>
      rw [List.flatten_cons, List.flatten_nil, List.append_nil]
      by_cases hfull : p.sz ≤ s.length
      · rw [printAll_cons_of_le hfull]
        exact ⟨rfl, fun _ => rfl, fun hle =>
          Int.add_le_add_left (Int.ofNat_le.mpr hle) _⟩
      · have hfits := Nat.lt_of_not_le hfull
        rw [printAll_cons_of_lt hfits, terminated_of_lt hfits]
        exact ⟨rfl, fun _ => rfl, fun hle => absurd hle hfull⟩
  | cons t rest ih =>
      rw [List.flatten_cons, List.length_append]
      by_cases hfull : p.sz ≤ s.length
      · rw [printAll_cons_of_le hfull, terminated_append_of_le hfull]
        refine ⟨rfl, fun hlt => ?_, fun _ =>
          Int.add_le_add_left (Int.ofNat_le.mpr hfull) _⟩
        exact absurd (Nat.lt_of_le_of_lt (Nat.le_add_right _ _) hlt)
          (Nat.not_lt.mpr hfull)
      · have hfits := Nat.lt_of_not_le hfull
        obtain ⟨hput, hwhole, hcut⟩ := ih t (p.behind s)
        have hleft : 0 < p.sz - s.length := Nat.sub_pos_of_lt hfits
        rw [printAll_cons_of_lt hfits, hput, terminated_append hfits,
          ← put_terminated p.str s (terminated_ne_nil hleft _)]
        refine ⟨rfl, fun hlt => ?_, fun hle => ?_⟩
        · rw [hwhole (Nat.lt_sub_of_add_lt (by rwa [Nat.add_comm]))]
          simp only [Printer.behind]
          omega
        · have hrest := hcut (Nat.sub_le_of_le_add (by rwa [Nat.add_comm]))
          simp only [Printer.behind] at hrest ⊢
          omega

end Text

end NtapiExamples
