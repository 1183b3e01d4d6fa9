/-
What the two copies of `argparse_getvalue` do with the variables: the values that
options stand for, apart from where on the command line they are found.
-/
import NtapiExamples.Argparse.Parse

namespace NtapiExamples

namespace Argparse

variable {V : Type}

/-- What the options mean for the variables, which texts are values, and which flags
may have another letter behind them. -/
structure Meaning (V : Type) where
  flag : ArgparseOption V → Bool → Values V → Values V
  value : ArgparseOption V → Text → Values V → Values V
  isValue : OptionType → Text → Prop
  joins : OptionType → Prop

/-- The option has a variable, and no callback. -/
def ArgparseOption.Stores (opt : ArgparseOption V) : Prop :=
  (∃ v, opt.value = some v) ∧ opt.callback = none

structure Copy.Means (copy : Copy V) (m : Meaning V) : Prop where
  flag : ∀ (opt : ArgparseOption V) (st : Argparse V) (unset longForm : Bool),
    opt.Stores → opt.type.isFlag = true →
    m.joins opt.type ∨ st.optvalue = none →
    copy.getvalue opt unset longForm st =
      .ok (0, { st with values := m.flag opt unset st.values })
  value : ∀ (opt : ArgparseOption V) (st : Argparse V) {st' : Argparse V}
    {text : Text} (unset longForm : Bool), opt.Stores → opt.type.isFlag = false →
    m.isValue opt.type text → st.takeValue = some (text, st') →
    copy.getvalue opt unset longForm st =
      .ok (0, { st' with values := m.value opt text st'.values })

section

variable [DecidableEq V]

/-- The flags, with what `data` stands for in a `uint64_t`. -/
def flagValues (mask64 : Nat → BitVec 64) (opt : ArgparseOption V)
    (unset : Bool) (values : Values V) : Values V :=
  match opt.value, opt.type with
  | some v, .boolean => values.setInt v (count unset (values.int v))
  | some v, .bit =>
      values.setInt v (setBit unset (bit 32 opt.data) (values.int v))
  | some v, .bit64 =>
      values.setUint64 v (setBit64 unset (mask64 opt.data) (values.uint64 v))
  | _, _ => values

def valueValues (int : Text → BitVec 32) (opt : ArgparseOption V) (text : Text)
    (values : Values V) : Values V :=
  match opt.value, opt.type with
  | some v, .string => values.setString v text
  | some v, .integer => values.setInt v (int text)
  | some v, .uint64 => values.setUint64 v (Text.strtoul text)
  | _, _ => values

/-- Numbers outside of the range of an `int` are cut, and bit 31 of a `uint64_t`
stands for the upper half too. -/
def Ntnetflow.meaning : Meaning V where
  flag := flagValues fun data => (bit 32 data).signExtend 64
  value := valueValues fun text => BitVec.ofInt 32 (strtol0 text)
  isValue type text := type = .string ∨ endptr text = []
  joins _ := True

/-- Bits do not go with a letter behind them. -/
def Replay.meaning : Meaning V where
  flag := flagValues (bit 64)
  value := valueValues fun text => BitVec.ofInt 32 (written text)
  isValue type text :=
    type = .string ∨ (endptr text = [] ∧
      (type = .integer → INT_MIN ≤ written text ∧ written text ≤ INT_MAX) ∧
      (type = .uint64 → (written text).natAbs < 2 ^ 64))
  joins type := type = .boolean

def Source.meaning : Source → Meaning V
  | .ntnetflow => Ntnetflow.meaning
  | .replay => Replay.meaning

omit [DecidableEq V] in
theorem runCallback_none {opt : ArgparseOption V} (h : opt.callback = none)
    (st : Argparse V) : runCallback opt st = .ok (0, st) := by
  rw [runCallback, h]

theorem Ntnetflow.copy_means :
    (Ntnetflow.copy (V := V)).Means Ntnetflow.meaning where
  flag := by
    intro opt st unset longForm hstores hflag _
    obtain ⟨⟨v, hv⟩, hcallback⟩ := hstores
    simp only [Ntnetflow.copy, Ntnetflow.argparseGetvalue, hv,
      runCallback_none hcallback, Ntnetflow.meaning, flagValues]
    cases htype : opt.type with
    | boolean => rfl
    | bit => rfl
    | bit64 => rfl
    | integer => rw [htype] at hflag; exact absurd hflag (by decide)
    | string => rw [htype] at hflag; exact absurd hflag (by decide)
    | uint64 => rw [htype] at hflag; exact absurd hflag (by decide)
  value := by
    intro opt st st' text unset longForm hstores hflag hvalue htake
    obtain ⟨⟨v, hv⟩, hcallback⟩ := hstores
    simp only [Ntnetflow.copy, Ntnetflow.argparseGetvalue, hv, htake,
      runCallback_none hcallback, Ntnetflow.meaning, valueValues]
    cases htype : opt.type with
    | boolean => rw [htype] at hflag; exact absurd hflag (by decide)
    | bit => rw [htype] at hflag; exact absurd hflag (by decide)
    | bit64 => rw [htype] at hflag; exact absurd hflag (by decide)
    | string => rfl
    | integer =>
        rw [htype] at hvalue
        have hend : endptr text = [] := hvalue.resolve_left (by simp)
        simp only [hend, ne_eq, not_true_eq_false, if_false]
        rfl
    | uint64 =>
        rw [htype] at hvalue
        have hend : endptr text = [] := hvalue.resolve_left (by simp)
        simp only [hend, ne_eq, not_true_eq_false, if_false]
        rfl

theorem strtol0_of_range {text : Text} (hmin : Replay.INT_MIN ≤ written text)
    (hmax : written text ≤ Replay.INT_MAX) : strtol0 text = written text := by
  rw [Replay.INT_MIN] at hmin
  rw [Replay.INT_MAX] at hmax
  rw [strtol0]
  omega

theorem Replay.copy_means :
    (Replay.copy (V := V)).Means Replay.meaning where
  flag := by
    intro opt st unset longForm hstores hflag hjoins
    obtain ⟨⟨v, hv⟩, hcallback⟩ := hstores
    simp only [Replay.copy, Replay.argparseGetvalue, hv,
      runCallback_none hcallback, Replay.meaning, flagValues]
    cases htype : opt.type with
    | boolean => rfl
    | bit =>
        rw [htype] at hjoins
        have hnone := hjoins.resolve_left (by simp [Replay.meaning])
        exact if_neg (not_not.mpr hnone)
    | bit64 =>
        rw [htype] at hjoins
        have hnone := hjoins.resolve_left (by simp [Replay.meaning])
        exact if_neg (not_not.mpr hnone)
    | integer => rw [htype] at hflag; exact absurd hflag (by decide)
    | string => rw [htype] at hflag; exact absurd hflag (by decide)
    | uint64 => rw [htype] at hflag; exact absurd hflag (by decide)
  value := by
    intro opt st st' text unset longForm hstores hflag hvalue htake
    obtain ⟨⟨v, hv⟩, hcallback⟩ := hstores
    simp only [Replay.copy, Replay.argparseGetvalue, hv, htake,
      runCallback_none hcallback, Replay.meaning, valueValues]
    cases htype : opt.type with
    | boolean => rw [htype] at hflag; exact absurd hflag (by decide)
    | bit => rw [htype] at hflag; exact absurd hflag (by decide)
    | bit64 => rw [htype] at hflag; exact absurd hflag (by decide)
    | string => rfl
    | integer =>
        rw [htype] at hvalue
        obtain ⟨hend, hrange, _⟩ := hvalue.resolve_left (by simp)
        obtain ⟨hmin, hmax⟩ := hrange rfl
        have hin : ¬ (INT_MAX < written text ∨ written text < INT_MIN) := by
          omega
        simp only [hend, hin, ne_eq, not_true_eq_false, if_false,
          strtol0_of_range hmin hmax]
        rfl
    | uint64 =>
        rw [htype] at hvalue
        obtain ⟨hend, _, hrange⟩ := hvalue.resolve_left (by simp)
        have hin := Nat.not_le.mpr (hrange rfl)
        simp only [hend, hin, ne_eq, not_true_eq_false, if_false]
        rfl

theorem Source.means (source : Source) :
    (source.copy (V := V)).Means source.meaning := by
  cases source with
  | ntnetflow => exact Ntnetflow.copy_means
  | replay => exact Replay.copy_means

end

end Argparse

end NtapiExamples
