/-
Waiting for a clock: a loop reads the time again and again and ends with the
first reading that has passed a given time.
-/
import Mathlib.Data.List.Basic

namespace NtapiExamples

/-- One turn of a waiting loop: it is interrupted, the clock cannot be read, or
it shows a time. -/
inductive ClockTurn
  | interrupted
  | failed
  | time (ts : BitVec 64)
deriving DecidableEq

/-- How far a waiting loop has come. -/
inductive WaitEnd
  | waiting
  | interrupted
  | failed
  | passed (ts : BitVec 64)
deriving DecidableEq

/-- The loop that waits until the clock has passed `stop`. -/
def waitPast (stop : BitVec 64) : List ClockTurn → WaitEnd
  | [] => .waiting
  | .interrupted :: _ => .interrupted
  | .failed :: _ => .failed
  | .time ts :: turns => if stop < ts then .passed ts else waitPast stop turns

/-- The reading `ts` is the first beyond `stop`, after readings only. -/
def FirstBeyond (stop : BitVec 64) (turns : List ClockTurn)
    (ts : BitVec 64) : Prop :=
  ∃ before later, turns = before ++ .time ts :: later ∧ stop < ts ∧
    ∀ turn ∈ before, ∃ early, turn = .time early ∧ early ≤ stop

/-- The loop ends with the first reading beyond its stop. -/
theorem waitPast_passed_iff {stop : BitVec 64} {turns : List ClockTurn}
    {ts : BitVec 64} :
    waitPast stop turns = .passed ts ↔ FirstBeyond stop turns ts := by
  induction turns with
  | nil => simp [waitPast, FirstBeyond]
  | cons turn turns ih =>
      constructor
      · intro hpassed
        cases turn with
        | interrupted => cases hpassed
        | failed => cases hpassed
        | time now =>
            rw [waitPast] at hpassed
            split at hpassed
            case isTrue hbeyond =>
              cases hpassed
              exact ⟨[], turns, rfl, hbeyond, fun _ hmem => by cases hmem⟩
            case isFalse hearly =>
              obtain ⟨before, later, rfl, hbeyond, hbefore⟩ := ih.mp hpassed
              refine ⟨.time now :: before, later, rfl, hbeyond, ?_⟩
              intro turn hmem
              rcases List.mem_cons.mp hmem with rfl | hmem
              · exact ⟨now, rfl, BitVec.not_lt.mp hearly⟩
              · exact hbefore turn hmem
      · rintro ⟨before, later, hturns, hbeyond, hbefore⟩
        cases before with
        | nil =>
            rw [List.nil_append, List.cons.injEq] at hturns
            obtain ⟨rfl, rfl⟩ := hturns
            rw [waitPast, if_pos hbeyond]
        | cons first before =>
            rw [List.cons_append, List.cons.injEq] at hturns
            obtain ⟨rfl, rfl⟩ := hturns
            obtain ⟨early, rfl, hearly⟩ := hbefore turn List.mem_cons_self
            rw [waitPast, if_neg (BitVec.not_lt.mpr hearly), ih]
            exact ⟨before, later, rfl, hbeyond, fun turn hmem =>
              hbefore turn (List.mem_cons_of_mem _ hmem)⟩

/-- A loop that still waits has waited all the time. -/
theorem waitPast_waiting_of_append {stop : BitVec 64}
    {before later : List ClockTurn}
    (h : waitPast stop (before ++ later) = .waiting) :
    waitPast stop before = .waiting := by
  induction before with
  | nil => rfl
  | cons turn before ih =>
      cases turn with
      | interrupted => cases h
      | failed => cases h
      | time now =>
          rw [List.cons_append, waitPast] at h
          rw [waitPast]
          split at h
          case isTrue hbeyond => cases h
          case isFalse hearly =>
            rw [if_neg hearly]
            exact ih h

/-- Whatever the clock shows, waiting for `stop` is waiting for `due` exactly
when `due` is not later, or no reading is beyond `stop`. -/
theorem waitPast_covers_iff (stop due : BitVec 64) :
    (∀ turns ts, waitPast stop turns = .passed ts → due < ts) ↔
      due ≤ stop ∨ stop = BitVec.allOnes 64 := by
  constructor
  · intro hcovers
    by_cases hmax : stop = BitVec.allOnes 64
    · exact Or.inr hmax
    · have hlt : stop < stop + 1 := by
        have hne : stop.toNat ≠ (BitVec.allOnes 64).toNat :=
          fun heq => hmax (BitVec.eq_of_toNat_eq heq)
        rw [BitVec.toNat_allOnes] at hne
        bv_omega
      have hpassed : waitPast stop [.time (stop + 1)] = .passed (stop + 1) := by
        rw [waitPast, if_pos hlt]
      have hdue := hcovers _ _ hpassed
      left
      bv_omega
  · rintro (hle | rfl) turns ts hpassed
    · obtain ⟨_, _, _, hbeyond, _⟩ := waitPast_passed_iff.mp hpassed
      bv_omega
    · obtain ⟨_, _, _, hbeyond, _⟩ := waitPast_passed_iff.mp hpassed
      rw [BitVec.lt_def, BitVec.toNat_allOnes] at hbeyond
      have hts := ts.isLt
      omega

end NtapiExamples
