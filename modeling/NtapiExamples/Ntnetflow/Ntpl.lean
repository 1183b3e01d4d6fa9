/-
`ntpl.c`: the rows of the configuration are written with XXXXX in the place of
the process id, which `ntpl_init` puts in, and `ntpl_common_macros` and
`ntpl_macros` define macros whose names hold the process id.
-/
import Mathlib.Data.Nat.Digits.Lemmas
import NtapiExamples.Lib.Replace
import NtapiExamples.Lib.Text

namespace NtapiExamples

namespace Ntnetflow

/-- `getpid` returns positive numbers below this one. -/
def PID_MAX_LIMIT : Nat := 2 ^ 22

structure Pid where
  val : Nat
  pos : 0 < val
  lt : val < PID_MAX_LIMIT

def hexUpper (digit : Nat) : Char := "0123456789ABCDEF".toList.getD digit '?'

/-- `%05X`. -/
def hex05X (n : Nat) : Text :=
  ((Nat.digits 16 n).reverse.map hexUpper).leftpad 5 '0'

/-- `pid_str`, which holds 7 characters and the terminator. -/
def pidStr (pid : Pid) : Text := (hex05X pid.val).take 7

/-- The literal `"XXXXX"`, with its terminator in memory. -/
def placeholder : Text := "XXXXX".toList

def placeholderMemory : Text := placeholder ++ ['\x00']

/-- `!memcmp(p, "XXXXX", nb)`; `none` when either side is too short. -/
def sameXxxxx (buffer : Text) (p nb : Nat) : Option Bool :=
  if p + nb ≤ buffer.length ∧ nb ≤ placeholderMemory.length then
    some ((buffer.drop p).take nb = placeholderMemory.take nb)
  else none

/-- `memcpy(p, xxxxx, nb)`. -/
def copyXxxxx (buffer : Text) (p : Nat) (xxxxx : Text) : Text :=
  buffer.take p ++ xxxxx ++ buffer.drop (p + xxxxx.length)

/-- The loop of `ntpl_replace_xxxxx`; `none` when it reads outside the buffer.
The condition reads `*p` before it looks at the bound. -/
def replaceLoop (sz : Nat) (xxxxx buffer : Text) (p : Nat) : Option Text :=
  match buffer[p]? with
  | none => none
  | some c =>
      if hgo : c ≠ '\x00' ∧ p < sz - xxxxx.length then
        if c = 'X' then
          match sameXxxxx buffer p xxxxx.length with
          | none => none
          | some true =>
              replaceLoop sz xxxxx (copyXxxxx buffer p xxxxx) (p + 7)
          | some false => replaceLoop sz xxxxx buffer (p + 1)
        else replaceLoop sz xxxxx buffer (p + 1)
      else some buffer
termination_by sz - p

def ntplReplaceXxxxx (buffer : Text) (sz : Nat) (xxxxx : Text) : Option Text :=
  replaceLoop sz xxxxx buffer 0

/-- A row of `ntpl_common_config` or `ntpl_config`, with room for `pid_str`.
What is behind the text is zero. -/
structure ConfigRow where
  sz : Nat
  large : 8 ≤ sz
  text : Text
  noNul : '\x00' ∉ text
  short : text.length < sz

def ConfigRow.buffer (row : ConfigRow) : Text :=
  row.text ++ List.replicate (row.sz - row.text.length) '\x00'

/-- What `ntpl_init` does to a row. -/
def ntplInitRow (pid : Pid) (row : ConfigRow) : Option Text :=
  ntplReplaceXxxxx row.buffer row.sz (pidStr pid)

/-- What the names of `ntpl_common_macros` and `ntpl_macros` end in. -/
def macroNames : List Text :=
  ["COLOR_UNHANDLED_UPSTREAM", "COLOR_UNHANDLED_DOWNSTREAM",
    "COLOR_MISS_UPSTREAM", "COLOR_MISS_DOWNSTREAM", "COLOR_IPV6", "COLOR_TCP",
    "COLOR_MONITOR", "COLOR_OTHER", "KEYSET_ID_BYPASS", "KEYSET_ID_MONITOR",
    "KEY_ID_IPV4", "KEY_ID_IPV6", "STREAMIDS", "UPSTREAM_PORT",
    "DOWNSTREAM_PORT"].map String.toList

def NTPL_PFX : Text := "NTNF".toList

/-- The name of a macro as it is defined: `NTPL_PFX "_%05X_%s"`. -/
def definedName (pid : Pid) (name : Text) : Text :=
  NTPL_PFX ++ '_' :: hex05X pid.val ++ '_' :: name

/-- The same name as the configuration has it. -/
def configName (name : Text) : Text :=
  NTPL_PFX ++ '_' :: placeholder ++ '_' :: name

theorem hexUpper_ne (digit : Nat) :
    hexUpper digit ≠ 'X' ∧ hexUpper digit ≠ '\x00' := by
  by_cases hdigit : digit < 16
  · have hall : ∀ i ∈ List.range 16, hexUpper i ≠ 'X' ∧ hexUpper i ≠ '\x00' :=
      by decide
    exact hall digit (List.mem_range.mpr hdigit)
  · have hnone : hexUpper digit = '?' := by
      rw [hexUpper, List.getD_eq_getElem?_getD,
        List.getElem?_eq_none (not_lt.mp hdigit)]
      rfl
    rw [hnone]
    decide

theorem hex05X_ne {n : Nat} {c : Char} (hc : c ∈ hex05X n) :
    c ≠ 'X' ∧ c ≠ '\x00' := by
  rw [hex05X, List.leftpad, List.mem_append] at hc
  rcases hc with hpad | hdigit
  · rw [List.eq_of_mem_replicate hpad]
    decide
  · obtain ⟨digit, -, rfl⟩ := List.mem_map.mp hdigit
    exact hexUpper_ne digit

theorem length_hex05X (n : Nat) :
    (hex05X n).length = max 5 (Nat.digits 16 n).length := by
  rw [hex05X, List.length_leftpad, List.length_map, List.length_reverse]

theorem length_hex05X_five {n : Nat} (hn : n < 16 ^ 5) :
    (hex05X n).length = 5 := by
  rw [length_hex05X]
  exact max_eq_left ((Nat.digits_length_le_iff (by decide) n).mpr hn)

theorem Pid.length_six {pid : Pid} (hpid : 16 ^ 5 ≤ pid.val) :
    (hex05X pid.val).length = 6 := by
  have hlower := (@Nat.digits_length_le_iff 16 5 (by decide) pid.val).not.mpr
    (not_lt.mpr hpid)
  have hupper := (@Nat.digits_length_le_iff 16 6 (by decide) pid.val).mpr
    (pid.lt.trans (by decide))
  rw [length_hex05X]
  omega

theorem pidStr_eq (pid : Pid) : pidStr pid = hex05X pid.val := by
  rw [pidStr, List.take_of_length_le]
  by_cases hpid : pid.val < 16 ^ 5
  · rw [length_hex05X_five hpid]
    decide
  · rw [Pid.length_six (not_lt.mp hpid)]
    decide

end Ntnetflow

end NtapiExamples
