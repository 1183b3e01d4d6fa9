/-
The start time `CalcStartTS` computes, as the least solution of what it is
asked for: a multiple of the factor, a second or more behind the next whole
second of the adapter.
-/
import Mathlib.Algebra.Order.Group.Nat
import Mathlib.Order.Bounds.Basic
import NtapiExamples.BoundaryReplay.FileData

namespace NtapiExamples

namespace BoundaryReplay

/-- A second in ticks of 10 ns. -/
def ticksPerSecond : Nat := 100000000

/-- Rounding up to a multiple gives the least one that is large enough. -/
theorem isLeast_roundUp {m : Nat} (hm : 0 < m) (n : Nat) :
    IsLeast {k | m ∣ k ∧ n ≤ k} ((n + (m - 1)) / m * m) := by
  constructor
  · refine ⟨Nat.dvd_mul_left m _, ?_⟩
    have hrem := Nat.mod_lt (n + (m - 1)) hm
    have hdiv := Nat.div_add_mod' (n + (m - 1)) m
    omega
  · rintro k ⟨⟨q, rfl⟩, hle⟩
    have hlt : (n + (m - 1)) / m < q + 1 := by
      rw [Nat.div_lt_iff_lt_mul hm, Nat.add_mul, Nat.mul_comm q m]
      omega
    rw [Nat.mul_comm m q]
    exact Nat.mul_le_mul_right m (Nat.le_of_lt_succ hlt)

/-- The seconds `CalcStartTS` rounds to the factor, without a width. -/
def startSeconds (ts : Nat) : Nat :=
  (ts + ticksPerSecond - 1) / ticksPerSecond + 1

/-- The values of the expressions of `CalcStartTS` in turn, without a width. -/
def calcStartValues (ts modFac : Nat) : List Nat :=
  let rounded := (startSeconds ts + (modFac - 1)) / modFac
  [ts + ticksPerSecond, ts + ticksPerSecond - 1,
    (ts + ticksPerSecond - 1) / ticksPerSecond, startSeconds ts, modFac - 1,
    startSeconds ts + (modFac - 1), rounded, rounded * modFac,
    rounded * modFac * ticksPerSecond]

/-- None of them needs more than 64 bits. -/
theorem calcStartValues_lt {ts modFac : Nat} (hts : ts < 2 ^ 63)
    (hmod : modFac < 2 ^ 32) :
    ∀ value ∈ calcStartValues ts modFac, value < 2 ^ 64 := by
  have hseconds : startSeconds ts ≤ 92233720370 := by
    unfold startSeconds ticksPerSecond
    omega
  have hrounded := Nat.div_le_self (startSeconds ts + (modFac - 1)) modFac
  have hproduct := Nat.div_mul_le_self (startSeconds ts + (modFac - 1)) modFac
  simp only [calcStartValues, List.mem_cons, List.not_mem_nil, or_false]
  generalize (startSeconds ts + (modFac - 1)) / modFac = rounded at *
  generalize rounded * modFac = product at *
  unfold ticksPerSecond
  rintro value (rfl | rfl | rfl | rfl | rfl | rfl | rfl | rfl | rfl) <;> omega

theorem toNat_startSeconds {ts : BitVec 64} (hts : ts.toNat < 2 ^ 63) :
    ((ts + 100000000 - 1) / 100000000 + 1).toNat = startSeconds ts.toNat := by
  have hround : (ts + 100000000 - 1).toNat = ts.toNat + 99999999 := by
    bv_omega
  have hdiv : ((ts + 100000000 - 1) / 100000000).toNat =
      (ts.toNat + 99999999) / 100000000 := by
    rw [BitVec.toNat_udiv, hround]
    rfl
  rw [BitVec.toNat_add, hdiv, startSeconds, ticksPerSecond]
  change (_ + 1) % 2 ^ 64 = _
  omega

/-- In 64 bits `CalcStartTS` computes the same number. -/
theorem toNat_calcStartTS {ts : BitVec 64} {modFac : BitVec 32}
    (hts : ts.toNat < 2 ^ 63) (hmod : 0 < modFac.toNat) :
    (calcStartTS ts modFac).toNat =
      (startSeconds ts.toNat + (modFac.toNat - 1)) / modFac.toNat *
        modFac.toNat * ticksPerSecond := by
  have hvalues := calcStartValues_lt hts modFac.isLt
  simp only [calcStartValues, List.mem_cons, List.not_mem_nil, or_false,
    forall_eq_or_imp, forall_eq] at hvalues
  obtain ⟨_, _, _, _, _, hsum, _, hproduct, hticks⟩ := hvalues
  have hpred : ((modFac - 1).setWidth 64).toNat = modFac.toNat - 1 := by
    bv_omega
  have hfactor : (modFac.setWidth 64).toNat = modFac.toNat := by
    bv_omega
  have hseconds := toNat_startSeconds hts
  unfold calcStartTS
  generalize (ts + 100000000 - 1) / 100000000 + 1 = seconds at *
  have hadd : (seconds + (modFac - 1).setWidth 64).toNat =
      startSeconds ts.toNat + (modFac.toNat - 1) := by
    rw [BitVec.toNat_add_of_lt (by rw [hseconds, hpred]; exact hsum), hseconds,
      hpred]
  have hmul : ((seconds + (modFac - 1).setWidth 64) / modFac.setWidth 64 *
      modFac.setWidth 64).toNat =
        (startSeconds ts.toNat + (modFac.toNat - 1)) / modFac.toNat *
          modFac.toNat := by
    rw [BitVec.toNat_mul_of_lt
      (by rw [BitVec.toNat_udiv, hadd, hfactor]; exact hproduct),
      BitVec.toNat_udiv, hadd, hfactor]
  have htick : (100000000 : BitVec 64).toNat = ticksPerSecond := rfl
  rw [BitVec.toNat_mul_of_lt (by rw [hmul, htick]; exact hticks), hmul, htick]

/-- Whole seconds: the least solution in seconds is the one in ticks. -/
theorem isLeast_ticks {m n k : Nat} (hk : IsLeast {k | m ∣ k ∧ n ≤ k} k) :
    IsLeast {t | m * ticksPerSecond ∣ t ∧ n * ticksPerSecond ≤ t}
      (k * ticksPerSecond) := by
  obtain ⟨⟨hdvd, hle⟩, hleast⟩ := hk
  constructor
  · exact ⟨Nat.mul_dvd_mul_right hdvd _, Nat.mul_le_mul_right _ hle⟩
  · rintro t ⟨⟨q, rfl⟩, hle'⟩
    rw [show m * ticksPerSecond * q = m * q * ticksPerSecond by
      rw [Nat.mul_assoc, Nat.mul_comm ticksPerSecond, ← Nat.mul_assoc]] at hle' ⊢
    have hlower := hleast ⟨Nat.dvd_mul_right m q,
      Nat.le_of_mul_le_mul_right hle' (by decide)⟩
    exact Nat.mul_le_mul_right _ hlower

/-- Without an absolute start time the first packet leaves at the least multiple
of the factor that is a second or more behind the next whole second `whole` of
the adapter, and no value on the way there overflows: those without a width are
below 2^64 and end in what the code computes. -/
theorem startTime_isLeast (adapterTS : BitVec 64) (modFactor : BitVec 32)
    (firstPacketTS : BitVec 64) (hts : adapterTS.toNat < 2 ^ 63)
    (hmod : 1 ≤ modFactor.toNat) :
    (∀ value ∈ calcStartValues adapterTS.toNat modFactor.toNat,
      value < 2 ^ 64) ∧
    (calcStartValues adapterTS.toNat modFactor.toNat).getLast? =
      some (calcStartTS adapterTS modFactor).toNat ∧
    ∃ whole, IsLeast {t | ticksPerSecond ∣ t ∧ adapterTS.toNat ≤ t} whole ∧
      IsLeast {t | modFactor.toNat * ticksPerSecond ∣ t ∧
        whole + ticksPerSecond ≤ t}
        (firstPacketTS + calculateOffset none modFactor firstPacketTS
          adapterTS).toNat := by
  refine ⟨calcStartValues_lt hts modFactor.isLt, ?_, _,
    isLeast_roundUp (by decide) adapterTS.toNat, ?_⟩
  · rw [toNat_calcStartTS hts hmod]
    rfl
  have hstart : firstPacketTS + calculateOffset none modFactor firstPacketTS
      adapterTS = calcStartTS adapterTS modFactor := by
    rw [calculateOffset, calcBeginTS, BitVec.add_comm, BitVec.sub_add_cancel]
  have hbehind : (adapterTS.toNat + (ticksPerSecond - 1)) / ticksPerSecond *
      ticksPerSecond + ticksPerSecond =
        startSeconds adapterTS.toNat * ticksPerSecond := by
    rw [startSeconds, Nat.add_mul, Nat.one_mul,
      Nat.add_sub_assoc (show 1 ≤ ticksPerSecond by decide)]
  rw [hstart, toNat_calcStartTS hts hmod, hbehind]
  exact isLeast_ticks (isLeast_roundUp hmod _)

/-- An adapter time on a multiple of the factor. -/
theorem startTime_isLeast_thirty :
    (3000000000 : BitVec 64).toNat < 2 ^ 63 ∧ 1 ≤ (15 : BitVec 32).toNat ∧
    (∀ value ∈ calcStartValues (3000000000 : BitVec 64).toNat
        (15 : BitVec 32).toNat, value < 2 ^ 64) ∧
    (calcStartValues (3000000000 : BitVec 64).toNat
      (15 : BitVec 32).toNat).getLast? =
        some (calcStartTS 3000000000 15).toNat ∧
    ∃ whole,
      IsLeast {t | ticksPerSecond ∣ t ∧ (3000000000 : BitVec 64).toNat ≤ t}
        whole ∧
      IsLeast {t | (15 : BitVec 32).toNat * ticksPerSecond ∣ t ∧
        whole + ticksPerSecond ≤ t}
        ((7 : BitVec 64) + calculateOffset none 15 7 3000000000).toNat :=
  ⟨by decide, by decide,
    startTime_isLeast 3000000000 15 7 (by decide) (by decide)⟩

end BoundaryReplay

end NtapiExamples
