/-
What `fi_update` and `fi_increment` tell about the activity of a flow, and the
UNLEARN that `fl_record_main` derives from it.
-/
import Mathlib.Data.List.Induction
import NtapiExamples.Ntnetflow.FlowLearn

namespace NtapiExamples

namespace Ntnetflow

/-- A call on the counters of a flow. -/
inductive FlowCall where
  | update (other : NtFlowInfo)
  | increment (flags : BitVec 16) (ts : BitVec 64) (downstream : Bool)
deriving DecidableEq

namespace FlowCall

def ts : FlowCall → BitVec 64
  | update other => other.ts
  | increment _ ts _ => ts

def run (info : FlowInfo) : FlowCall → FlowInfo × Bool
  | update other => fiUpdate info other
  | increment flags ts downstream => fiIncrement info flags ts downstream

/-- Either call moves the timestamps on by one and compares with the one that
leaves. -/
theorem run_ts (info : FlowInfo) (call : FlowCall) :
    (call.run info).1.ts = call.ts ∧
      (call.run info).1.lastTs = info.ts ∧
      (call.run info).2 = (info.lastTs != call.ts) := by
  cases call with
  | update other => exact ⟨rfl, rfl, rfl⟩
  | increment flags ts downstream => exact ⟨rfl, rfl, rfl⟩

end FlowCall

/-- The counters after a sequence of calls. -/
def runCalls (info : FlowInfo) (calls : List FlowCall) : FlowInfo :=
  calls.foldl (fun info call => (call.run info).1) info

@[simp] theorem runCalls_append (info : FlowInfo) (calls : List FlowCall)
    (call : FlowCall) :
    runCalls info (calls ++ [call]) = (call.run (runCalls info calls)).1 := by
  rw [runCalls, List.foldl_append]
  rfl

/-- The timestamp `n` calls before the last one; 0 before the first call. -/
def tsBack (n : Nat) (calls : List FlowCall) : BitVec 64 :=
  (calls.reverse.map FlowCall.ts).getD n 0#64

@[simp] theorem tsBack_append_zero (calls : List FlowCall) (call : FlowCall) :
    tsBack 0 (calls ++ [call]) = call.ts := by
  simp [tsBack]

@[simp] theorem tsBack_append_succ (n : Nat) (calls : List FlowCall)
    (call : FlowCall) :
    tsBack (n + 1) (calls ++ [call]) = tsBack n calls := by
  simp [tsBack]

/-- `ts` and `last_ts` are the timestamps of the last two calls. -/
theorem runCalls_ts (calls : List FlowCall) :
    (runCalls fiInit calls).ts = tsBack 0 calls ∧
      (runCalls fiInit calls).lastTs = tsBack 1 calls := by
  induction calls using List.reverseRecOn with
  | nil => exact ⟨rfl, rfl⟩
  | append_singleton calls call ih =>
      obtain ⟨hts, hlast, -⟩ := call.run_ts (runCalls fiInit calls)
      rw [runCalls_append, hts, hlast, ih.1]
      simp

/-- A call sees a change when its timestamp is not the one two calls back. -/
theorem run_changed (calls : List FlowCall) (call : FlowCall) :
    (call.run (runCalls fiInit calls)).2 = true ↔
      call.ts ≠ tsBack 1 calls := by
  rw [(call.run_ts _).2.2, (runCalls_ts calls).2, bne_iff_ne, ne_comm]

/-- What a probe record makes `fl_record_main` do next. -/
theorem stepRecordUpdate_probe {cfg : FlConfig} {s s' : Sys} {e : EntryPtr}
    {info : NtFlowInfo} {flags : BitVec 32} (hcause : info.cause = 4#8)
    (hrecord : s.record = .update e info flags)
    (hstep : stepRecordUpdate cfg s = some s') :
    s'.record = .push e .unlearn ↔
      (fiUpdate (s.table.entry e).info info).2 = false := by
  simp only [stepRecordUpdate, hrecord, Option.bind_eq_bind,
    Option.bind_eq_some_iff, Option.some.injEq] at hstep
  obtain ⟨t, -, rfl⟩ := hstep
  simp only [recordNext, hcause]
  cases (fiUpdate (s.table.entry e).info info).2 <;> simp

/-- Every call tells whether its timestamp differs from the one before, and a
probe record is followed by UNLEARN exactly when it repeats that timestamp. -/
structure ActivityOk (calls : List FlowCall) : Prop where
  changed : ∀ first call rest, calls = first ++ call :: rest →
    ((call.run (runCalls fiInit first)).2 = true ↔ call.ts ≠ tsBack 0 first)
  unlearn : ∀ first info rest, calls = first ++ .update info :: rest →
    info.cause = 4#8 → ∀ cfg s s' e flags,
      s.record = .update e info flags →
      (s.table.entry e).info = runCalls fiInit first →
      stepRecordUpdate cfg s = some s' →
      (s'.record = .push e .unlearn ↔ info.ts = tsBack 0 first)

/-- Where the two timestamps before a call differ, the call has neither. -/
def TsTold (calls : List FlowCall) : Prop :=
  ∀ first call rest, calls = first ++ call :: rest →
    tsBack 1 first = tsBack 0 first ∨
      (call.ts ≠ tsBack 1 first ∧ call.ts ≠ tsBack 0 first)

/-- The comparison is with the timestamp two calls back, so it is right as long
as that one and the last one cannot be confused. -/
theorem activityOk_iff (calls : List FlowCall) :
    ActivityOk calls ↔ TsTold calls := by
  constructor
  · intro hok first call rest hcalls
    have hchanged := hok.changed first call rest hcalls
    rw [run_changed] at hchanged
    by_cases hsame : tsBack 1 first = tsBack 0 first
    · exact Or.inl hsame
    · right
      by_cases hback : call.ts = tsBack 1 first
      · have hlast := not_not.mp fun h => hchanged.mpr h hback
        exact absurd (hback.symm.trans hlast) hsame
      · exact ⟨hback, hchanged.mp hback⟩
  · intro htold
    have hback : ∀ first call rest, calls = first ++ call :: rest →
        (call.ts = tsBack 1 first ↔ call.ts = tsBack 0 first) := by
      intro first call rest hcalls
      rcases htold first call rest hcalls with hsame | ⟨hne₁, hne₀⟩
      · rw [hsame]
      · exact iff_of_false hne₁ hne₀
    refine ⟨fun first call rest hcalls => ?_, ?_⟩
    · rw [run_changed]
      exact not_congr (hback first call rest hcalls)
    · intro first info rest hcalls hcause cfg s s' e flags hrecord hinfo hstep
      have hchanged := run_changed first (.update info)
      rw [stepRecordUpdate_probe hcause hrecord hstep, hinfo,
        ← Bool.not_eq_true]
      exact (not_congr hchanged).trans
        (not_not.trans (hback first _ rest hcalls))

/-- A probe record with the timestamp of the first packet of a flow, so that
nothing arrived in between: it counts as activity. -/
def firstProbe : List FlowCall :=
  [.increment 0#16 5#64 false, .update ⟨0, 0, 0, 0, 0, 0, 5#64, 4#8⟩]

theorem activityOk_fails : ¬ ActivityOk firstProbe := by
  intro hok
  have hchanged := hok.changed [.increment 0#16 5#64 false]
    (.update ⟨0, 0, 0, 0, 0, 0, 5#64, 4#8⟩) [] rfl
  rw [run_changed] at hchanged
  exact hchanged.mp (by decide) (by decide)

end Ntnetflow

end NtapiExamples
