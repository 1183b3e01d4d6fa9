/-
A tick over a ring of elements with due times.  Each turn tests the head,
sets its due time to `later`, moves the head on and acts on the new head, which
may leave the ring.
-/
import Mathlib.Data.List.Nodup
import Mathlib.Data.List.Perm.Basic
import Mathlib.Order.Basic
import Mathlib.Order.Lattice

namespace NtapiExamples

universe u v

variable {E : Type u} {K : Type v} [DecidableEq E] [LinearOrder K]

/-- The elements a tick acts on, read from the head of the ring; `leaves n`
says whether the one of turn `n` leaves the ring, and `none` is a tick that
needs more turns. -/
def ringTick (now later : K) (leaves : Nat → Bool) :
    Nat → Nat → List E → (E → K) → Option (List E)
  | 0, _, _, _ => none
  | fuel + 1, n, ring, due =>
      match ring with
      | [] => some []
      | head :: rest =>
          if now < due head then some []
          else
            match rest ++ [head] with
            | [] => none
            | next :: others =>
                (ringTick now later leaves fuel (n + 1)
                  (if leaves n then others else next :: others)
                  (Function.update due head later)).map (next :: ·)

/-- The tick acts on the due elements and on no others, once each. -/
def TickExact (now later : K) (leaves : Nat → Bool) (ring : List E)
    (due : E → K) : Prop :=
  ∃ fuel acted, ringTick now later leaves fuel 0 ring due = some acted ∧
    acted.Nodup ∧ ∀ e, e ∈ acted ↔ e ∈ ring ∧ due e ≤ now

/-- When such a tick is exact: nothing is due; or everything is due and later
is not, and no element but the last one leaves; or everything is due and stays
due, and every element leaves. -/
def TickCond (now later : K) (leaves : Nat → Bool) (ring : List E)
    (due : E → K) : Prop :=
  (∀ e ∈ ring, now < due e) ∨
    (∀ e ∈ ring, due e ≤ now) ∧
      if now < later then ∀ i, i + 1 < ring.length → leaves i = false
      else ∀ i, i < ring.length → leaves i = true

variable {now later : K} {leaves : Nat → Bool} {due : E → K}

/-- A turn that finds its head not due is the last one. -/
theorem ringTick_later {fuel n : Nat} {head : E} {rest : List E}
    (hlater : now < due head) :
    ringTick now later leaves (fuel + 1) n (head :: rest) due = some [] := by
  simp only [ringTick, if_pos hlater]

/-- A turn on a ring of one element acts on the element it tested. -/
theorem ringTick_single {fuel n : Nat} {head : E} (hdue : due head ≤ now) :
    ringTick now later leaves (fuel + 1) n [head] due =
      (ringTick now later leaves fuel (n + 1)
        (if leaves n then [] else [head])
        (Function.update due head later)).map (head :: ·) := by
  simp only [ringTick, if_neg (not_lt.mpr hdue), List.nil_append]

/-- Any other turn acts on the element behind the one it tested. -/
theorem ringTick_cons {fuel n : Nat} {head next : E} {rest : List E}
    (hdue : due head ≤ now) :
    ringTick now later leaves (fuel + 1) n (head :: next :: rest) due =
      (ringTick now later leaves fuel (n + 1)
        (if leaves n then rest ++ [head] else next :: rest ++ [head])
        (Function.update due head later)).map (next :: ·) := by
  simp only [ringTick, if_neg (not_lt.mpr hdue), List.cons_append]

/-- To reach an element that is not in front of one that is not due, other than
the head, the tick acts on that one first. -/
theorem ringTick_passes {fuel n : Nat} {front behind acted : List E}
    {late target : E} (htick : ringTick now later leaves fuel n
      (front ++ late :: behind) due = some acted)
    (hlate : now < due late) (hnodup : (front ++ late :: behind).Nodup)
    (hfront : target ∉ front.tail) (hacted : target ∈ acted) :
    late ∈ acted := by
  induction fuel generalizing n front behind due acted with
  | zero => simp [ringTick] at htick
  | succ fuel ih =>
      cases front with
      | nil =>
          rw [List.nil_append, ringTick_later hlate, Option.some.injEq] at htick
          rw [← htick] at hacted
          simp at hacted
      | cons head front =>
          have hheadLate : late ≠ head := by
            rintro rfl
            simp at hnodup
          have hlate' : now < Function.update due head later late := by
            rwa [Function.update_of_ne hheadLate]
          by_cases hhead : now < due head
          · rw [List.cons_append, ringTick_later hhead,
              Option.some.injEq] at htick
            rw [← htick] at hacted
            simp at hacted
          · rw [not_lt] at hhead
            simp only [List.tail_cons] at hfront
            cases front with
            | nil =>
                simp only [List.cons_append, List.nil_append,
                  ringTick_cons hhead, Option.map_eq_some_iff] at htick
                obtain ⟨rest, -, rfl⟩ := htick
                exact List.mem_cons_self
            | cons next front =>
                simp only [List.cons_append, ringTick_cons hhead,
                  Option.map_eq_some_iff] at htick
                obtain ⟨rest, htick, rfl⟩ := htick
                simp only [List.mem_cons, not_or] at hfront
                have htarget : target ∈ rest :=
                  (List.mem_cons.mp hacted).resolve_left hfront.1
                -- the tested head goes behind the late element
                have hrot : (head :: next :: front ++ late :: behind).Perm
                    (next :: front ++ late :: (behind ++ [head])) := by
                  have hperm := @List.perm_append_singleton E head
                    (next :: front ++ late :: behind)
                  simpa using hperm.symm
                have hnodup' := hrot.nodup_iff.mp hnodup
                refine List.mem_cons_of_mem next ?_
                split at htick
                · refine @ih _ (n + 1) front (behind ++ [head]) rest ?_ hlate'
                    ?_ (fun h => hfront.2 (List.mem_of_mem_tail h)) htarget
                  · simpa using htick
                  · simp only [List.cons_append, List.nodup_cons] at hnodup'
                    exact hnodup'.2
                · refine @ih _ (n + 1) (next :: front) (behind ++ [head]) rest
                    ?_ hlate' hnodup' hfront.2 htarget
                  simpa using htick

/-- A ring that is due in part is never ticked exactly: the first element
comes last, behind one that is not due. -/
theorem not_tickExact_mixed {head late : E} {rest : List E}
    (hnodup : (head :: rest).Nodup) (hdue : due head ≤ now)
    (hmem : late ∈ rest) (hlate : now < due late) :
    ¬ TickExact now later leaves (head :: rest) due := by
  rintro ⟨fuel, acted, htick, -, hacted⟩
  have hhead : head ∈ acted := (hacted head).mpr ⟨List.mem_cons_self, hdue⟩
  obtain ⟨hfresh, -⟩ := List.nodup_cons.mp hnodup
  obtain ⟨front, behind, rfl⟩ := List.append_of_mem hmem
  have hin : late ∈ acted := by
    refine @ringTick_passes E K _ _ now later leaves due fuel 0
      (head :: front) behind acted late head htick hlate hnodup ?_ hhead
    exact fun h => hfresh (List.mem_append_left _ h)
  exact absurd ((hacted late).mp hin).2 (not_le.mpr hlate)

/-- Nothing happens any more when the head is not due. -/
theorem ringTick_done {fuel n : Nat} {ring : List E}
    (hlater : ∀ e ∈ ring, now < due e) :
    ringTick now later leaves (fuel + 1) n ring due = some [] := by
  cases ring with
  | nil => rfl
  | cons head rest => exact ringTick_later (hlater head List.mem_cons_self)

theorem ringTick_late {fuel n : Nat} {ring acted : List E}
    (hlater : ∀ e ∈ ring, now < due e)
    (htick : ringTick now later leaves fuel n ring due = some acted) :
    acted = [] := by
  cases fuel with
  | zero => simp [ringTick] at htick
  | succ fuel =>
      rw [ringTick_done hlater, Option.some.injEq] at htick
      exact htick.symm

/-- The untested elements are due, the tested ones behind them are not: the tick
acts on the untested ones but the first, and then on the first tested one. -/
theorem ringTick_stay {fuel n : Nat} {untested tested : List E}
    {head first : E}
    (hdue : ∀ e ∈ head :: untested, due e ≤ now)
    (htested : ∀ e ∈ first :: tested, now < due e) (hlater : now < later)
    (hnodup : (head :: untested ++ first :: tested).Nodup)
    (hstay : ∀ i, i < untested.length → leaves (n + i) = false)
    (hfuel : untested.length + 2 ≤ fuel) :
    ringTick now later leaves fuel n (head :: untested ++ first :: tested)
      due = some (untested ++ [first]) := by
  induction untested generalizing head first tested n due fuel with
  | nil =>
      obtain ⟨fuel, rfl⟩ : ∃ k, fuel = k + 2 := ⟨fuel - 2, by omega⟩
      have hlate : ∀ e ∈ first :: tested ++ [head],
          now < Function.update due head later e := by
        intro e he
        by_cases heq : e = head
        · rw [heq, Function.update_self]
          exact hlater
        · rw [Function.update_of_ne heq]
          apply htested e
          simpa [heq] using he
      rw [List.cons_append, List.nil_append, ringTick_cons
        (hdue head List.mem_cons_self), ringTick_done]
      · rfl
      · intro e he
        apply hlate e
        split at he
        · exact List.mem_cons_of_mem first he
        · exact he
  | cons next untested ih =>
      obtain ⟨fuel, rfl⟩ : ∃ k, fuel = k + 1 := ⟨fuel - 1, by omega⟩
      have hfirst := hstay 0 (by simp)
      rw [Nat.add_zero] at hfirst
      have hrot : (head :: next :: untested ++ first :: tested).Perm
          (next :: untested ++ first :: (tested ++ [head])) := by
        have hperm := @List.perm_append_singleton E head
          (next :: untested ++ first :: tested)
        simpa using hperm.symm
      have hne : ∀ e ∈ next :: untested, e ≠ head := by
        rintro e he rfl
        exact (List.nodup_cons.mp hnodup).1 (List.mem_append_left _ he)
      have hrest := @ih (Function.update due head later) fuel (n + 1)
        (tested ++ [head]) next first
        (by
          intro e he
          rw [Function.update_of_ne (hne e he)]
          exact hdue e (List.mem_cons_of_mem head he))
        (by
          intro e he
          by_cases heq : e = head
          · rw [heq, Function.update_self]
            exact hlater
          · rw [Function.update_of_ne heq]
            apply htested e
            simpa [heq] using he)
        (hrot.nodup_iff.mp hnodup)
        (by
          intro i hi
          have hleave := hstay (i + 1) (by simpa using hi)
          rwa [Nat.add_comm i 1, ← Nat.add_assoc] at hleave)
        (by simpa using hfuel)
      simp only [List.cons_append, ringTick_cons
        (hdue head List.mem_cons_self), hfirst, Bool.false_eq_true, if_false]
      simp only [List.append_assoc, List.cons_append] at hrest ⊢
      rw [hrest]
      rfl

/-- Elements only act as often as heads are tested, and one that leaves before
the last turn is never tested. -/
theorem ringTick_length {fuel n : Nat} {untested tested acted : List E}
    (hdue : ∀ e ∈ untested, due e ≤ now)
    (htested : ∀ e ∈ tested, now < due e) (hlater : now < later)
    (hnodup : (untested ++ tested).Nodup)
    (htick : ringTick now later leaves fuel n (untested ++ tested) due =
      some acted) :
    acted.length ≤ untested.length ∧
      (acted.length = untested.length →
        ∀ i, i + 1 < untested.length → leaves (n + i) = false) := by
  induction fuel generalizing untested tested acted n due with
  | zero => simp [ringTick] at htick
  | succ fuel ih =>
      cases untested with
      | nil =>
          rw [List.nil_append, ringTick_done htested,
            Option.some.injEq] at htick
          rw [← htick]
          simp
      | cons head untested =>
          have hhead := hdue head List.mem_cons_self
          have hlate : ∀ e ∈ tested ++ [head],
              now < Function.update due head later e := by
            intro e he
            by_cases heq : e = head
            · rw [heq, Function.update_self]
              exact hlater
            · rw [Function.update_of_ne heq]
              apply htested e
              simpa [heq] using he
          have hne : ∀ e ∈ untested, e ≠ head := by
            rintro e he rfl
            exact (List.nodup_cons.mp hnodup).1 (List.mem_append_left _ he)
          have hdue' : ∀ e ∈ untested,
              Function.update due head later e ≤ now := by
            intro e he
            rw [Function.update_of_ne (hne e he)]
            exact hdue e (List.mem_cons_of_mem head he)
          have hrot : (head :: untested ++ tested).Perm
              (untested ++ (tested ++ [head])) := by
            have hperm := @List.perm_append_singleton E head
              (untested ++ tested)
            simpa using hperm.symm
          have hnodup' := hrot.nodup_iff.mp hnodup
          cases untested with
          | nil =>
              -- the last test: what follows finds nothing due
              have hend : acted.length = 1 := by
                cases tested with
                | nil =>
                    rw [List.cons_append, List.nil_append,
                      ringTick_single hhead, Option.map_eq_some_iff] at htick
                    obtain ⟨rest, htick, rfl⟩ := htick
                    have hnone := ringTick_late (by
                      intro e he
                      apply hlate e
                      split at he
                      · simp at he
                      · simpa using he) htick
                    rw [hnone]
                    rfl
                | cons first tested =>
                    rw [List.cons_append, List.nil_append,
                      ringTick_cons hhead, Option.map_eq_some_iff] at htick
                    obtain ⟨rest, htick, rfl⟩ := htick
                    have hnone := ringTick_late (by
                      intro e he
                      apply hlate e
                      split at he
                      · exact List.mem_cons_of_mem first he
                      · exact he) htick
                    rw [hnone]
                    rfl
              simp [hend]
          | cons next untested =>
              simp only [List.cons_append, ringTick_cons hhead,
                Option.map_eq_some_iff] at htick
              obtain ⟨rest, htick, rfl⟩ := htick
              simp only [List.length_cons]
              cases hleave : leaves n with
              | true =>
                  rw [hleave, if_pos rfl, List.append_assoc] at htick
                  obtain ⟨hle, -⟩ := ih
                    (fun e he => hdue' e (List.mem_cons_of_mem next he))
                    hlate (List.nodup_cons.mp hnodup').2 htick
                  exact ⟨by omega, fun heq => by omega⟩
              | false =>
                  rw [hleave] at htick
                  simp only [Bool.false_eq_true, if_false] at htick
                  obtain ⟨hle, hall⟩ := @ih _ (n + 1) (next :: untested)
                    (tested ++ [head]) rest hdue' hlate hnodup'
                    (by simpa using htick)
                  simp only [List.length_cons] at hle hall
                  refine ⟨by omega, fun heq i hi => ?_⟩
                  cases i with
                  | zero => exact hleave
                  | succ i =>
                      have hrest := hall (by omega) i (by omega)
                      rwa [Nat.add_assoc, Nat.add_comm 1 i] at hrest

/-- An element that stays due keeps the tick going as long as it is on the
ring: the tick ends when every element has left. -/
theorem ringTick_leave_length {fuel n : Nat} {ring acted : List E}
    (hdue : ∀ e ∈ ring, due e ≤ now) (hlater : later ≤ now)
    (htick : ringTick now later leaves fuel n ring due = some acted) :
    ring.length ≤ acted.length ∧
      (acted.length = ring.length →
        ∀ i, i < ring.length → leaves (n + i) = true) := by
  induction fuel generalizing ring acted n due with
  | zero => simp [ringTick] at htick
  | succ fuel ih =>
      cases ring with
      | nil => simp
      | cons head rest =>
          have hdue' : ∀ e ∈ head :: rest,
              Function.update due head later e ≤ now := by
            intro e he
            by_cases heq : e = head
            · rw [heq, Function.update_self]
              exact hlater
            · rw [Function.update_of_ne heq]
              exact hdue e he
          rw [ringTick, if_neg (not_lt.mpr (hdue head List.mem_cons_self))]
            at htick
          cases hrot : rest ++ [head] with
          | nil => simp at hrot
          | cons next others =>
              have hlength : others.length = rest.length := by
                have hcount := congrArg List.length hrot
                simpa using hcount.symm
              have hmem : ∀ e ∈ next :: others, e ∈ head :: rest := by
                intro e he
                rw [← hrot] at he
                simpa [or_comm] using he
              simp only [hrot, Option.map_eq_some_iff] at htick
              obtain ⟨acted', htick, rfl⟩ := htick
              simp only [List.length_cons]
              cases hleave : leaves n with
              | true =>
                  rw [hleave, if_pos rfl] at htick
                  obtain ⟨hle, hall⟩ := ih (fun e he =>
                    hdue' e (hmem e (List.mem_cons_of_mem next he))) htick
                  refine ⟨by omega, fun heq i hi => ?_⟩
                  cases i with
                  | zero => exact hleave
                  | succ i =>
                      have hrest := hall (by omega) i (by omega)
                      rwa [Nat.add_assoc, Nat.add_comm 1 i] at hrest
              | false =>
                  rw [hleave] at htick
                  simp only [Bool.false_eq_true, if_false] at htick
                  obtain ⟨hle, -⟩ := ih (fun e he => hdue' e (hmem e he)) htick
                  simp only [List.length_cons] at hle
                  exact ⟨by omega, fun heq => by omega⟩

/-- When everything leaves the tick acts on everything. -/
theorem ringTick_leave {fuel n : Nat} {ring : List E}
    (hdue : ∀ e ∈ ring, due e ≤ now) (hlater : later ≤ now)
    (hleave : ∀ i, i < ring.length → leaves (n + i) = true)
    (hfuel : ring.length < fuel) :
    ∃ acted, ringTick now later leaves fuel n ring due = some acted ∧
      acted.Perm ring := by
  induction fuel generalizing ring n due with
  | zero => omega
  | succ fuel ih =>
      cases ring with
      | nil => exact ⟨[], rfl, List.Perm.refl _⟩
      | cons head rest =>
          have hfirst := hleave 0 (by simp)
          rw [Nat.add_zero] at hfirst
          cases hrot : rest ++ [head] with
          | nil => simp at hrot
          | cons next others =>
              have hperm : (next :: others).Perm (head :: rest) := by
                rw [← hrot]
                exact List.perm_append_singleton head rest
              have hlength : others.length = rest.length := by
                simpa using hperm.length_eq
              obtain ⟨acted, htick, hacted⟩ := @ih
                (Function.update due head later) (n + 1) others
                (by
                  intro e he
                  by_cases heq : e = head
                  · rw [heq, Function.update_self]
                    exact hlater
                  · rw [Function.update_of_ne heq]
                    exact hdue e (hperm.mem_iff.mp
                      (List.mem_cons_of_mem next he)))
                (by
                  intro i hi
                  have hrest := hleave (i + 1) (by simpa [← hlength] using hi)
                  rwa [Nat.add_comm i 1, ← Nat.add_assoc] at hrest)
                (by simp only [List.length_cons] at hfuel; omega)
              refine ⟨next :: acted, ?_, (hacted.cons next).trans hperm⟩
              rw [ringTick, if_neg (not_lt.mpr (hdue head List.mem_cons_self))]
              simp only [hrot, hfirst, if_true, htick, Option.map_some]

/-- Exact ticks of a ring that is due as a whole list the ring. -/
theorem tickExact_perm {ring : List E} (hnodup : ring.Nodup)
    (hdue : ∀ e ∈ ring, due e ≤ now) :
    TickExact now later leaves ring due ↔ ∃ fuel acted,
      ringTick now later leaves fuel 0 ring due = some acted ∧
        acted.Perm ring := by
  constructor
  · rintro ⟨fuel, acted, htick, hdistinct, hacted⟩
    refine ⟨fuel, acted, htick, ?_⟩
    rw [List.perm_ext_iff_of_nodup hdistinct hnodup]
    intro e
    rw [hacted]
    exact and_iff_left_of_imp (hdue e)
  · rintro ⟨fuel, acted, htick, hperm⟩
    refine ⟨fuel, acted, htick, hperm.nodup_iff.mpr hnodup, fun e => ?_⟩
    rw [hperm.mem_iff]
    exact (and_iff_left_of_imp (hdue e)).symm

theorem tickExact_iff_all {ring : List E} (hnodup : ring.Nodup)
    (hdue : ∀ e ∈ ring, due e ≤ now) :
    TickExact now later leaves ring due ↔
      if now < later then ∀ i, i + 1 < ring.length → leaves i = false
      else ∀ i, i < ring.length → leaves i = true := by
  rw [tickExact_perm hnodup hdue]
  by_cases hlater : now < later
  · rw [if_pos hlater]
    constructor
    · rintro ⟨fuel, acted, htick, hperm⟩ i hi
      have hbound := @ringTick_length E K _ _ now later leaves due fuel 0 ring
        [] acted hdue (by simp) hlater (by simpa using hnodup)
        (by simpa using htick)
      simpa using hbound.2 hperm.length_eq i hi
    · intro hstay
      cases ring with
      | nil => exact ⟨1, [], rfl, List.Perm.refl _⟩
      | cons head rest =>
          have hhead := hdue head List.mem_cons_self
          have hlate : now < Function.update due head later head := by
            rwa [Function.update_self]
          cases rest with
          | nil =>
              refine ⟨2, [head], ?_, List.Perm.refl _⟩
              rw [ringTick_single hhead, ringTick_done]
              · rfl
              · intro e he
                split at he
                · simp at he
                · rw [List.mem_singleton.mp he]
                  exact hlate
          | cons next rest =>
              have hfirst := hstay 0 (by simp)
              have hrot : (head :: next :: rest).Perm
                  (next :: rest ++ [head]) :=
                (List.perm_append_singleton head (next :: rest)).symm
              have hne : ∀ e ∈ next :: rest, e ≠ head := by
                rintro e he rfl
                exact (List.nodup_cons.mp hnodup).1 he
              have hrest := @ringTick_stay E K _ _ now later leaves
                (Function.update due head later) (rest.length + 2) 1 rest []
                next head
                (by
                  intro e he
                  rw [Function.update_of_ne (hne e he)]
                  exact hdue e (List.mem_cons_of_mem head he))
                (by
                  intro e he
                  rw [List.mem_singleton.mp he]
                  exact hlate)
                hlater (hrot.nodup_iff.mp hnodup)
                (by
                  intro i hi
                  rw [Nat.add_comm]
                  exact hstay (i + 1) (by simp only [List.length_cons]; omega))
                le_rfl
              refine ⟨rest.length + 3, next :: (rest ++ [head]), ?_, ?_⟩
              · rw [ringTick_cons hhead, hfirst, if_neg Bool.false_ne_true,
                  hrest]
                rfl
              · exact hrot.symm
  · rw [if_neg hlater]
    rw [not_lt] at hlater
    constructor
    · rintro ⟨fuel, acted, htick, hperm⟩ i hi
      have hbound := ringTick_leave_length hdue hlater htick
      simpa using hbound.2 hperm.length_eq i hi
    · intro hleave
      obtain ⟨acted, htick, hperm⟩ := @ringTick_leave E K _ _ now later
        leaves due (ring.length + 1) 0 ring hdue hlater
        (fun i hi => by simpa using hleave i hi) (Nat.lt_succ_self _)
      exact ⟨_, acted, htick, hperm⟩

/-- On a sorted ring the tick is exact under `TickCond` and not otherwise. -/
theorem tickExact_iff {ring : List E} (hnodup : ring.Nodup)
    (hsorted : ring.Pairwise fun a b => due a ≤ due b) :
    TickExact now later leaves ring due ↔
      TickCond now later leaves ring due := by
  cases ring with
  | nil =>
      exact iff_of_true ⟨1, [], rfl, List.nodup_nil, by simp⟩
        (Or.inl (by simp))
  | cons head rest =>
      obtain ⟨hhead, -⟩ := List.pairwise_cons.mp hsorted
      by_cases hlate : now < due head
      · have hall : ∀ e ∈ head :: rest, now < due e := by
          intro e he
          rcases List.mem_cons.mp he with rfl | he
          · exact hlate
          · exact lt_of_lt_of_le hlate (hhead e he)
        refine iff_of_true ⟨1, [], ringTick_later hlate, List.nodup_nil, ?_⟩
          (Or.inl hall)
        intro e
        refine iff_of_false List.not_mem_nil ?_
        rintro ⟨he, hdue⟩
        exact absurd (hall e he) (not_lt.mpr hdue)
      · have hdueHead : due head ≤ now := not_lt.mp hlate
        by_cases hall : ∀ e ∈ head :: rest, due e ≤ now
        · rw [tickExact_iff_all hnodup hall]
          constructor
          · exact fun h => Or.inr ⟨hall, h⟩
          · rintro (hnone | ⟨-, h⟩)
            · exact absurd (hnone head List.mem_cons_self) hlate
            · exact h
        · obtain ⟨late, hmem, hlate'⟩ : ∃ e ∈ head :: rest, now < due e := by
            by_contra hnone
            apply hall
            intro e he
            by_contra hdue
            exact hnone ⟨e, he, not_le.mp hdue⟩
          have hrest : late ∈ rest := by
            rcases List.mem_cons.mp hmem with rfl | hrest
            · exact absurd hlate' hlate
            · exact hrest
          refine iff_of_false
            (not_tickExact_mixed hnodup hdueHead hrest hlate') ?_
          rintro (hnone | ⟨hall', -⟩)
          · exact hlate (hnone head List.mem_cons_self)
          · exact hall hall'

end NtapiExamples
