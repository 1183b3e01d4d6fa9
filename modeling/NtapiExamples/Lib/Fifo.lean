/-
A bounded first-in first-out queue as a machine, and what its histories look
like.  A history is the list of the operations in the order in which they took
effect.
-/
import Mathlib.Data.List.Infix
import Mathlib.Order.Lattice
import NtapiExamples.Lib.Run

namespace NtapiExamples

universe u

variable {V : Type u}

/-- An element goes in, or comes out. -/
inductive FifoAct (V : Type u) where
  | push (value : V)
  | pull (value : V)
deriving DecidableEq

/-- Push to a queue that is not full; pull the element in front. -/
def fifoStep [DecidableEq V] (capacity : Nat) (contents : List V) :
    FifoAct V → Option (List V)
  | .push value =>
      if contents.length < capacity then some (contents ++ [value]) else none
  | .pull value =>
      match contents with
      | [] => none
      | front :: rest => if front = value then some rest else none

/-- What a history pushed, in order. -/
def fifoPushes (history : List (FifoAct V)) : List V :=
  history.filterMap fun
    | .push value => some value
    | .pull _ => none

/-- What a history pulled, in order. -/
def fifoPulls (history : List (FifoAct V)) : List V :=
  history.filterMap fun
    | .push _ => none
    | .pull value => some value

/-- The history is one of a bounded queue that was empty at first. -/
def FifoHistory [DecidableEq V] (capacity : Nat) (history : List (FifoAct V))
    (contents : List V) : Prop :=
  exec (fifoStep capacity) [] history = some contents

@[simp] theorem fifoPushes_append (history more : List (FifoAct V)) :
    fifoPushes (history ++ more) = fifoPushes history ++ fifoPushes more :=
  List.filterMap_append

@[simp] theorem fifoPulls_append (history more : List (FifoAct V)) :
    fifoPulls (history ++ more) = fifoPulls history ++ fifoPulls more :=
  List.filterMap_append

@[simp] theorem fifoPushes_nil : fifoPushes ([] : List (FifoAct V)) = [] := rfl

@[simp] theorem fifoPulls_nil : fifoPulls ([] : List (FifoAct V)) = [] := rfl

@[simp] theorem fifoPushes_push (value : V) :
    fifoPushes [FifoAct.push value] = [value] := rfl

@[simp] theorem fifoPushes_pull (value : V) :
    fifoPushes [FifoAct.pull value] = [] := rfl

@[simp] theorem fifoPulls_push (value : V) :
    fifoPulls [FifoAct.push value] = [] := rfl

@[simp] theorem fifoPulls_pull (value : V) :
    fifoPulls [FifoAct.pull value] = [value] := rfl

section Histories

variable [DecidableEq V] {capacity : Nat} {history : List (FifoAct V)}
  {contents : List V}

theorem FifoHistory.nil : FifoHistory capacity ([] : List (FifoAct V)) [] := rfl

theorem FifoHistory.snoc {action : FifoAct V} {contents' : List V}
    (hhistory : FifoHistory capacity history contents)
    (hstep : fifoStep capacity contents action = some contents') :
    FifoHistory capacity (history ++ [action]) contents' := by
  rw [FifoHistory, exec_append, hhistory, Option.bind_some]
  simp only [exec, hstep]

theorem FifoHistory.push (hhistory : FifoHistory capacity history contents)
    (hroom : contents.length < capacity) (value : V) :
    FifoHistory capacity (history ++ [.push value]) (contents ++ [value]) := by
  apply hhistory.snoc
  simp only [fifoStep, if_pos hroom]

theorem FifoHistory.pull {value : V} {rest : List V}
    (hhistory : FifoHistory capacity history (value :: rest)) :
    FifoHistory capacity (history ++ [.pull value]) rest := by
  apply hhistory.snoc
  simp only [fifoStep, if_true]

/-- One operation keeps: pushed is pulled followed by what is still in. -/
theorem fifoStep_balance {action : FifoAct V} {contents contents' : List V}
    (hstep : fifoStep capacity contents action = some contents') :
    contents ++ fifoPushes [action] = fifoPulls [action] ++ contents' ∧
      (contents.length ≤ capacity → contents'.length ≤ capacity) := by
  cases action with
  | push value =>
      simp only [fifoStep, Option.ite_none_right_eq_some,
        Option.some.injEq] at hstep
      obtain ⟨hroom, rfl⟩ := hstep
      refine ⟨rfl, fun _ => ?_⟩
      rw [List.length_append]
      exact hroom
  | pull value =>
      cases contents with
      | nil => simp [fifoStep] at hstep
      | cons front rest =>
          simp only [fifoStep, Option.ite_none_right_eq_some,
            Option.some.injEq] at hstep
          obtain ⟨rfl, rfl⟩ := hstep
          refine ⟨by simp, fun hle => ?_⟩
          rw [List.length_cons] at hle
          exact Nat.le_of_succ_le hle

/-- What was pushed is what was pulled, followed by what is still in, and there
is never more in than the queue holds. -/
theorem FifoHistory.balance
    (hhistory : FifoHistory capacity history contents) :
    fifoPushes history = fifoPulls history ++ contents ∧
      contents.length ≤ capacity := by
  induction history using List.reverseRecOn generalizing contents with
  | nil =>
      simp only [FifoHistory, exec, Option.some.injEq] at hhistory
      rw [← hhistory]
      exact ⟨rfl, Nat.zero_le _⟩
  | append_singleton history action ih =>
      rw [FifoHistory, exec_append, Option.bind_eq_some_iff] at hhistory
      obtain ⟨before, hbefore, hstep⟩ := hhistory
      have hstep : fifoStep capacity before action = some contents := by
        cases hnext : fifoStep capacity before action with
        | none => simp [exec, hnext] at hstep
        | some next => simpa [exec, hnext] using hstep
      obtain ⟨hpushes, hle⟩ := ih hbefore
      obtain ⟨hkeep, hbound⟩ := fifoStep_balance hstep
      refine ⟨?_, hbound hle⟩
      rw [fifoPushes_append, fifoPulls_append, hpushes, List.append_assoc,
        hkeep, List.append_assoc]

/-- What is in is what was pushed without what was pulled. -/
theorem FifoHistory.contents_eq
    (hhistory : FifoHistory capacity history contents) :
    contents = (fifoPushes history).drop (fifoPulls history).length := by
  rw [hhistory.balance.1, List.drop_left]

end Histories

end NtapiExamples
