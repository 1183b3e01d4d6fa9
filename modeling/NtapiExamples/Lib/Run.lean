/-
Labelled machines and their runs.  A machine is a partial step function; a run
may be restricted to steps that meet a condition on the state they are taken
from, which is how a property that holds only away from a defect is stated.
-/
import Mathlib.Logic.Basic

namespace NtapiExamples

universe u v

variable {σ : Type u} {α : Type v}

/-- `Run step ok start state`: `state` is reached from `start` by steps that are
all enabled and that each meet `ok` in the state they are taken from. -/
inductive Run (step : σ → α → Option σ) (ok : σ → α → Prop) (start : σ) :
    σ → Prop
  | refl : Run step ok start start
  | tail {state next : σ} (action : α) : Run step ok start state →
      ok state action → step state action = some next → Run step ok start next

/-- No condition on the steps: plain reachability. -/
def anyStep : σ → α → Prop := fun _ _ => True

/-- Execute a list of actions; `none` as soon as one of them is not enabled. -/
def exec (step : σ → α → Option σ) : σ → List α → Option σ
  | state, [] => some state
  | state, action :: actions =>
      match step state action with
      | none => none
      | some next => exec step next actions

theorem exec_append (step : σ → α → Option σ) (start : σ)
    (first second : List α) :
    exec step start (first ++ second) =
      (exec step start first).bind fun state => exec step state second := by
  induction first generalizing start with
  | nil => rfl
  | cons action first ih =>
      simp only [List.cons_append, exec]
      cases step start action with
      | none => rfl
      | some next => exact ih next

/-- Execute a list of actions, each of which has to pass a check. -/
def execOk (step : σ → α → Option σ) (ok : σ → α → Bool) :
    σ → List α → Option σ
  | state, [] => some state
  | state, action :: actions =>
      if ok state action then
        match step state action with
        | none => none
        | some next => execOk step ok next actions
      else none

section Invariants

variable {step : σ → α → Option σ} {ok : σ → α → Prop} {start state : σ}

/-- The invariant rule: what holds at the start and is kept by every step of
the run holds in every state the run reaches. -/
theorem Run.invariant {inv : σ → Prop} (hrun : Run step ok start state)
    (hstart : inv start)
    (hstep : ∀ {s action s'}, inv s → ok s action → step s action = some s' →
      inv s') : inv state := by
  induction hrun with
  | refl => exact hstart
  | tail action _ hok hnext ih => exact hstep ih hok hnext

/-- A run under a stronger condition is a run under a weaker one. -/
theorem Run.mono {ok' : σ → α → Prop} (hrun : Run step ok start state)
    (himp : ∀ s action, ok s action → ok' s action) :
    Run step ok' start state := by
  induction hrun with
  | refl => exact Run.refl
  | tail action _ hok hnext ih =>
      exact Run.tail action ih (himp _ _ hok) hnext

theorem Run.trans {middle : σ} (hfirst : Run step ok start middle)
    (hsecond : Run step ok middle state) : Run step ok start state := by
  induction hsecond with
  | refl => exact hfirst
  | tail action _ hok hnext ih => exact Run.tail action ih hok hnext

/-- A checked execution is a run under the condition it checks. -/
theorem run_of_execOk {check : σ → α → Bool} (actions : List α) {start : σ}
    (hexec : execOk step check start actions = some state) :
    Run step (fun s action => check s action = true) start state := by
  induction actions generalizing start with
  | nil =>
      simp only [execOk, Option.some.injEq] at hexec
      rw [hexec]
      exact Run.refl
  | cons action actions ih =>
      simp only [execOk] at hexec
      split at hexec
      case isTrue hcheck =>
        cases hnext : step start action with
        | none => simp [hnext] at hexec
        | some next =>
            simp only [hnext] at hexec
            exact Run.trans (Run.tail action Run.refl hcheck hnext) (ih hexec)
      case isFalse => simp at hexec

/-- An executed list of actions is a run of these actions. -/
theorem run_of_exec_mem (actions : List α) {start : σ}
    (hexec : exec step start actions = some state) :
    Run step (fun _ action => action ∈ actions) start state := by
  induction actions generalizing start with
  | nil =>
      simp only [exec, Option.some.injEq] at hexec
      rw [hexec]
      exact Run.refl
  | cons action actions ih =>
      simp only [exec] at hexec
      cases hnext : step start action with
      | none => simp [hnext] at hexec
      | some next =>
          simp only [hnext] at hexec
          exact Run.trans (Run.tail action Run.refl List.mem_cons_self hnext)
            ((ih hexec).mono fun _ _ hmem => List.mem_cons_of_mem action hmem)

/-- An executed list of actions is a run. -/
theorem run_of_exec (actions : List α) {start : σ}
    (hexec : exec step start actions = some state) :
    Run step anyStep start state :=
  (run_of_exec_mem actions hexec).mono fun _ _ _ => trivial

end Invariants

end NtapiExamples
