/-
Whether a missed flow is learnt.  `rx_process` asks for a learn only when it
creates the entry, so a packet whose entry is found adds nothing.
-/
import NtapiExamples.Ntnetflow.RefBalance

namespace NtapiExamples

namespace Ntnetflow

variable {cfg : FlConfig} {s s' : Sys} {action : SysAction} {e : EntryPtr}

/-- The branch of `rx_process` that adds an entry, if it is taken. -/
def rxAddStage (s : Sys) (thread : Nat) (alloc : Option Nat) : Option Sys :=
  match s.rx thread with
  | .add _ _ => stepRxAdd s thread alloc
  | _ => some s

/-- The call of `fl_program`, if it is made; the push succeeds. -/
def rxPushStage (s : Sys) (thread : Nat) : Option Sys :=
  match s.rx thread with
  | .learn _ _ => stepRxPush s thread true
  | _ => some s

def rxCountStage (s : Sys) (thread : Nat) : Option (Sys × EntryPtr) :=
  match s.rx thread with
  | .count e _ => (stepRxCount s thread).map fun s => (s, e)
  | _ => none

/-- `rx_process` of a packet on an idle thread, run to its end, with the entry
of the packet. -/
def rxHandle (s : Sys) (thread : Nat) (alloc : Option Nat)
    (streamId : BitVec 32) (packet : Packet) : Option (Sys × EntryPtr) := do
  let s ← stepRxLookup s thread streamId packet
  let s ← rxAddStage s thread alloc
  let s ← rxPushStage s thread
  rxCountStage s thread

/-- A flow is tracked, or will be when the queue is worked off. -/
def BeingLearnt (s : Sys) (e : EntryPtr) : Prop :=
  test (flagsOf s.table e) FLOW_FLAGS_TRACK = true ∨
    (FlOp.learn, e) ∈ s.queue

instance (s : Sys) (e : EntryPtr) : Decidable (BeingLearnt s e) :=
  inferInstanceAs (Decidable (_ ∨ _))

/-- Counting a packet changes neither flags nor queue. -/
theorem stepRxCount_beingLearnt {thread : Nat}
    (hstep : stepRxCount s thread = some s') (e : EntryPtr) :
    BeingLearnt s' e ↔ BeingLearnt s e := by
  simp only [stepRxCount] at hstep
  split at hstep
  · simp only [Option.bind_eq_bind, Option.bind_eq_some_iff,
      Option.some.injEq] at hstep
    obtain ⟨t', hcount, rfl⟩ := hstep
    simp only [rxCount] at hcount
    have hflags : flagsOf t' e = flagsOf s.table e :=
      modifyEntry_flags hcount (fun _ => rfl) (fun _ => rfl) (fun _ => rfl) e
    simp only [BeingLearnt, setRx, hflags]
  · simp at hstep

theorem setRx_self (s : Sys) (thread : Nat) (pc : RxPc) :
    (setRx s thread pc).rx thread = pc := by
  simp [setRx]

/-- A packet whose entry is found is only counted. -/
theorem rxHandle_found {thread : Nat} {alloc : Option Nat}
    {streamId : BitVec 32} {packet : Packet} {found : EntryPtr}
    (hidle : s.rx thread = .idle) (hhandled : packet.handled = true)
    (hlookup : rxLookup s.table packet = some (some found))
    (hrx : rxHandle s thread alloc streamId packet = some (s', e)) :
    e = found ∧ stepRxCount (setRx s thread (.count found packet)) thread =
      some s' := by
  simp only [rxHandle, stepRxLookup, hidle, hhandled, if_true, hlookup,
    Option.bind_eq_bind, Option.bind_some, rxAddStage, rxPushStage,
    rxCountStage, setRx_self, Option.map_eq_some_iff, Prod.mk.injEq] at hrx
  obtain ⟨s₁, hcount, rfl, rfl⟩ := hrx
  exact ⟨rfl, hcount⟩

/-- A missed packet without an entry gets one, and a LEARN is queued for it. -/
theorem rxHandle_missing {thread : Nat} {alloc : Option Nat}
    {streamId : BitVec 32} {packet : Packet}
    (hidle : s.rx thread = .idle) (hhandled : packet.handled = true)
    (hmiss : test packet.color FLOW_COLOR_MISS = true)
    (hlookup : rxLookup s.table packet = some none)
    (hrx : rxHandle s thread alloc streamId packet = some (s', e)) :
    (FlOp.learn, e) ∈ s'.queue := by
  simp only [rxHandle, stepRxLookup, hidle, hhandled, if_true, hlookup,
    Option.bind_eq_bind, Option.bind_some, Option.bind_eq_some_iff] at hrx
  obtain ⟨s₁, hadd, s₂, hpush, hcount⟩ := hrx
  simp only [rxAddStage, setRx_self, stepRxAdd, hmiss, if_true,
    Option.bind_eq_bind, Option.bind_eq_some_iff, Option.some.injEq] at hadd
  obtain ⟨⟨t₁, added⟩, -, rfl⟩ := hadd
  simp only [rxPushStage, setRx_self, stepRxPush, Option.bind_eq_bind,
    Option.bind_eq_some_iff, Option.some.injEq] at hpush
  obtain ⟨s₃, hprogram, rfl⟩ := hpush
  simp only [rxCountStage, setRx_self, stepRxCount, Option.bind_eq_bind,
    Option.map_eq_some_iff, Option.bind_eq_some_iff, Option.some.injEq,
    Prod.mk.injEq] at hcount
  obtain ⟨s₄, ⟨t₄, -, rfl⟩, rfl, rfl⟩ := hcount
  simp only [flProgram, Bool.not_true, Bool.false_eq_true,
    if_false] at hprogram
  split at hprogram
  · rw [Option.some.injEq] at hprogram
    subst hprogram
    simp [setRx]
  · simp at hprogram

/-- A thread is about to queue a LEARN for the entry or to set TRACK on it. -/
def Handed (s : Sys) (e : EntryPtr) : Prop :=
  (∃ thread packet, s.rx thread = .learn e packet) ∨
    ∃ op, s.program = .handle op e ∧ op ≠ .unlearn

/-- TRACK may be cleared: it is clear, or a LEARN is queued, or an operation
that sets it again is under way. -/
def untrackSafe (s : Sys) (e : EntryPtr) : Bool :=
  !test (flagsOf s.table e) FLOW_FLAGS_TRACK ||
    decide ((FlOp.learn, e) ∈ s.queue) ||
    match s.program with
    | .handle op e' => decide (op ≠ .unlearn) && decide (e' = e)
    | _ => false

/-- Entries are only created by missed packets whose LEARN is queued, and TRACK
is only cleared while it will be set again. -/
def learnSafe (s : Sys) (action : SysAction) : Bool :=
  match action with
  | .rxAdd thread _ =>
      match s.rx thread with
      | .add _ packet => test packet.color FLOW_COLOR_MISS
      | _ => true
  | .rxPush _ success => success
  | .statusFlags e .lfs => untrackSafe s e
  | .recordTrack =>
      match s.record with
      | .track e => untrackSafe s e
      | _ => true
  | _ => true

/-- Every entry in use is being learnt, or is in the hands of a thread that
sees to it. -/
def LearntInv (s : Sys) : Prop :=
  ∀ e, s.table.Used e → BeingLearnt s e ∨ Handed s e

/-- Of the status records only `learn failed` clears TRACK. -/
theorem statusClears_track {kind : FlowStatus} {mask : BitVec 32}
    (hclears : statusClears cfg kind = some mask) (hkind : kind ≠ .lfs) :
    mask.getLsbD 4 = false := by
  cases kind <;> simp only [statusClears, Option.some.injEq,
    reduceCtorEq] at hclears <;> subst hclears
  case lds => decide
  case lfs => exact absurd rfl hkind
  case uds => split <;> decide

/-- TRACK is kept by every step but a failed LEARN and the end of a flow. -/
theorem track_kept (hok : TableOk s.table)
    (hstep : sysStep cfg s action = some s') (hused : s.table.Used e)
    (hused' : s'.table.Used e)
    (htrack : test (flagsOf s.table e) FLOW_FLAGS_TRACK = true) :
    test (flagsOf s'.table e) FLOW_FLAGS_TRACK = true ∨
      action = .statusFlags e .lfs ∨
      action = .recordTrack ∧ s.record = .track e := by
  rcases (sysStep_flagged hok hstep).flags e with hflags | ⟨-, hnot⟩
  · rw [hflags]
    rw [FLOW_FLAGS_TRACK, test_bit] at htrack ⊢
    cases action <;> simp only [flagWrite, newFlags] <;>
      first
      | exact Or.inl htrack
      | skip
    case programFlags =>
      left
      cases hpc : s.program <;> grind
    case statusFlags e' kind =>
      cases hclears : statusClears cfg kind with
      | none => exact Or.inl htrack
      | some mask =>
          by_cases hlfs : e = e' ∧ kind = .lfs
          · rw [hlfs.1, hlfs.2]
            exact Or.inr (Or.inl rfl)
          · left
            simp only [Option.map_some]
            by_cases he : e = e'
            · have hmask := statusClears_track hclears
                fun hkind => hlfs ⟨he, hkind⟩
              rw [if_pos he, BitVec.getLsbD_and, htrack, BitVec.getLsbD_not,
                hmask]
              rfl
            · rw [if_neg he]
              exact htrack
    case recordFlags => left; grind
    case recordProbe =>
      left
      cases hpc : s.record <;> simp only [htrack]
      case probe e' =>
        split
        · rw [BitVec.getLsbD_and, htrack]
          decide
        · exact htrack
    case recordTrack =>
      cases hpc : s.record <;> simp only [htrack, true_or]
      case track e' =>
        by_cases he : e = e'
        · subst he
          exact Or.inr (Or.inr ⟨trivial, rfl⟩)
        · rw [if_neg he]
          exact Or.inl htrack
    case pollFlags =>
      left
      cases hpc : s.poller <;> simp only [htrack]
      case flags e' =>
        split
        · rw [BitVec.getLsbD_and, htrack]
          decide
        · exact htrack
  · exact absurd hused (hnot hused')

/-- A pending hand-over is carried out or still pending. -/
theorem Handed.step (hok : TableOk s.table) (hsafe : learnSafe s action = true)
    (hstep : sysStep cfg s action = some s') (hhanded : Handed s e)
    (hused : s.table.Used e) (hused' : s'.table.Used e) :
    BeingLearnt s' e ∨ Handed s' e := by
  rcases hhanded with ⟨thread, packet, hpc⟩ | ⟨op, hpc, hne⟩
  · rcases sysStep_rx hstep hpc with hpc' | rfl | hqueued
    · exact Or.inr (Or.inl ⟨thread, packet, hpc'⟩)
    · simp [learnSafe] at hsafe
    · exact Or.inl (Or.inr hqueued)
  · cases hprogram : action.isProgram with
    | false =>
        rw [← (sysStep_frame hstep).program hprogram] at hpc
        exact Or.inr (Or.inr ⟨op, hpc, hne⟩)
    | true =>
        cases sysStep_program hstep hprogram with
        | flags op' e' hpc' _ =>
            rw [hpc, ProgramPc.handle.injEq] at hpc'
            obtain ⟨rfl, rfl⟩ := hpc'
            left
            left
            rcases (sysStep_flagged hok hstep).flags e with hflags | ⟨-, hnot⟩
            · rw [hflags]
              simp only [flagWrite, hpc, newFlags, if_true]
              rw [FLOW_FLAGS_TRACK, test_bit, BitVec.getLsbD_or]
              cases op with
              | unlearn => exact absurd rfl hne
              | learn => simp [opFlags, FLOW_FLAGS_TRACK]
              | probe => simp [opFlags, FLOW_FLAGS_TRACK]
              | refresh => simp [opFlags, FLOW_FLAGS_TRACK]
            · exact absurd hused (hnot hused')
        | pull _ _ hpc' _ _ => simp [hpc] at hpc'
        | ref _ _ hpc' _ => simp [hpc] at hpc'
        | addPoll _ _ hpc' _ _ _ => simp [hpc] at hpc'
        | skip _ _ hpc' _ => simp [hpc] at hpc'
        | write _ _ hpc' _ _ => simp [hpc] at hpc'
        | fail _ _ hpc' _ _ => simp [hpc] at hpc'

/-- A queued LEARN stays queued or is pulled. -/
theorem queued_step (hstep : sysStep cfg s action = some s')
    (hqueued : (FlOp.learn, e) ∈ s.queue) :
    (FlOp.learn, e) ∈ s'.queue ∨
      action = .programPull ∧ s'.program = .handle .learn e := by
  rcases sysStep_queue hstep with ⟨rfl, item, hqueue⟩ | hmono
  · cases sysStep_program hstep rfl with
    | pull op e' _ hqueue' hpc' =>
        rw [hqueue'] at hqueued
        rcases List.mem_cons.mp hqueued with heq | hmem
        · rw [Prod.mk.injEq] at heq
          rw [hpc', ← heq.1, ← heq.2]
          exact Or.inr ⟨rfl, rfl⟩
        · exact Or.inl hmem
  · exact Or.inl (hmono _ hqueued)

/-- Where TRACK may be cleared, the flow is learnt again. -/
theorem untracked_step (hsafe : untrackSafe s e = true)
    (htrack : test (flagsOf s.table e) FLOW_FLAGS_TRACK = true)
    (hstep : sysStep cfg s action = some s')
    (hprogram : action.isProgram = false) :
    BeingLearnt s' e ∨ Handed s' e := by
  simp only [untrackSafe, htrack, Bool.not_true, Bool.false_or,
    Bool.or_eq_true, decide_eq_true_eq] at hsafe
  rcases hsafe with hqueued | hhandled
  · rcases queued_step hstep hqueued with hqueued' | ⟨rfl, -⟩
    · exact Or.inl (Or.inr hqueued')
    · simp [SysAction.isProgram] at hprogram
  · split at hhandled
    case h_1 op e' hpc =>
      simp only [Bool.and_eq_true, decide_eq_true_eq] at hhandled
      obtain ⟨hne, rfl⟩ := hhandled
      rw [← (sysStep_frame hstep).program hprogram] at hpc
      exact Or.inr (Or.inr ⟨op, hpc, hne⟩)
    case h_2 => simp at hhandled

theorem LearntInv.sysStep (hinv : LearntInv s) (hok : TableOk s.table)
    (hsafe : learnSafe s action = true)
    (hstep : sysStep cfg s action = some s') : LearntInv s' := by
  intro e hused'
  rcases (sysStep_flagged hok hstep).used e hused' with hused | hadded
  · rcases hinv e hused with (htrack | hqueued) | hhanded
    · rcases track_kept hok hstep hused hused' htrack with htrack' | rfl |
        ⟨rfl, hpc⟩
      · exact Or.inl (Or.inl htrack')
      · exact untracked_step (by simpa [learnSafe] using hsafe) htrack hstep
          rfl
      · exact untracked_step (by simpa [learnSafe, hpc] using hsafe) htrack
          hstep rfl
    · rcases queued_step hstep hqueued with hqueued' | ⟨-, hpc⟩
      · exact Or.inl (Or.inr hqueued')
      · exact Or.inr (Or.inr ⟨.learn, hpc, by simp⟩)
    · exact hhanded.step hok hsafe hstep hused hused'
  · right
    left
    cases action <;> simp only [addedEntryOf, reduceCtorEq] at hadded
    case rxAdd thread alloc =>
      simp only [Ntnetflow.sysStep, stepRxAdd] at hstep
      split at hstep
      case h_1 streamId packet hpc =>
        simp only [Option.bind_eq_bind, Option.bind_eq_some_iff,
          Option.some.injEq] at hstep
        obtain ⟨⟨t', e'⟩, -, rfl⟩ := hstep
        simp only [learnSafe, hpc] at hsafe
        simp only [setRx_self, hsafe, if_true, RxPc.entry,
          Option.some.injEq] at hadded ⊢
        subst hadded
        exact ⟨thread, packet, by rw [setRx_self]⟩
      case h_2 => simp at hstep

theorem run_learntInv {start : Sys} (hstart : Started start)
    (hrun : Run (sysStep cfg) (fun s action => learnSafe s action = true)
      start s) : TableOk s.table ∧ LearntInv s := by
  apply hrun.invariant
  · obtain ⟨calloc, power2, chainSize, bucketSize, t, hinit, hle, rfl⟩ :=
      hstart
    refine ⟨(Started.inv ⟨_, _, _, _, t, hinit, hle, rfl⟩).ok, ?_⟩
    intro e he
    exact absurd he (FlowTable.ftInit_not_used hinit hle e)
  · intro s action s' hinv hsafe hstep
    exact ⟨(sysStep_flagged hinv.1 hstep).ok,
      hinv.2.sysStep hinv.1 hsafe hstep⟩

/-- A missed packet is being learnt exactly when its flow had no entry, or had
one that was being learnt already.  That is so in every state of a run of safe
steps, unless another thread is just handing the entry over. -/
theorem beingLearnt_iff {thread : Nat} {alloc : Option Nat}
    {streamId : BitVec 32} {packet : Packet}
    (hidle : s.rx thread = .idle)
    (hmiss : test packet.color FLOW_COLOR_MISS = true)
    (hrx : rxHandle s thread alloc streamId packet = some (s', e)) :
    (BeingLearnt s' e ↔ ∀ found, rxLookup s.table packet = some (some found) →
      BeingLearnt s found) ∧
    ∀ start, Started start →
      Run (sysStep cfg) (fun s action => learnSafe s action = true) start s →
      ¬ Handed s e → BeingLearnt s' e := by
  have hhandled : packet.handled = true := by
    rw [Packet.handled, test_or, hmiss, Bool.or_true]
  cases hlookup : rxLookup s.table packet with
  | none =>
      simp [rxHandle, stepRxLookup, hidle, hhandled, hlookup] at hrx
  | some result =>
      cases result with
      | none =>
          have hlearnt : BeingLearnt s' e :=
            Or.inr (rxHandle_missing hidle hhandled hmiss hlookup hrx)
          refine ⟨⟨?_, fun _ => hlearnt⟩, fun _ _ _ _ => hlearnt⟩
          rintro - found hfound
          simp at hfound
      | some found =>
          obtain ⟨rfl, hcount⟩ := rxHandle_found hidle hhandled hlookup hrx
          rw [stepRxCount_beingLearnt hcount e]
          refine ⟨⟨?_, fun hlearnt => hlearnt e rfl⟩, ?_⟩
          · rintro hlearnt found hfound
            simp only [Option.some.injEq] at hfound
            rw [← hfound]
            exact hlearnt
          · intro start hstart hrun hnot
            obtain ⟨hok, hinv⟩ := run_learntInv hstart hrun
            have hused := (FlowTable.ftLookup_eq_some hok.inv hlookup).1
            exact (hinv e hused).resolve_right hnot

/-- The law for the first packet of a flow. -/
theorem beingLearnt_iff_first : ∃ s s', Started s ∧
    rxHandle s 0 none 0#32 upstreamPacket.packet = some (s', smallEntry) ∧
    (BeingLearnt s' smallEntry ↔
      ∀ found, rxLookup s.table upstreamPacket.packet = some (some found) →
        BeingLearnt s found) ∧
    BeingLearnt s' smallEntry := by
  have hrun : ((FlowTable.ftInit (fun _ _ => none) 0 1 1).bind fun t =>
      (rxHandle (sysStart t) 0 none 0#32 upstreamPacket.packet).map
        Prod.snd) = some smallEntry := by
    decide +kernel
  simp only [Option.bind_eq_some_iff, Option.map_eq_some_iff] at hrun
  obtain ⟨t, hinit, ⟨s', e⟩, hrx, rfl⟩ := hrun
  have hstart : Started (sysStart t) :=
    ⟨_, _, _, _, t, hinit, by decide, rfl⟩
  have hnot : ¬ Handed (sysStart t) smallEntry := by
    rintro (⟨thread, packet, hpc⟩ | ⟨op, hpc, -⟩) <;> simp [sysStart] at hpc
  obtain ⟨hiff, hlearnt⟩ := @beingLearnt_iff smallConfig (sysStart t) s'
    smallEntry 0 none 0#32 upstreamPacket.packet rfl (by decide) hrx
  exact ⟨sysStart t, s', hstart, hrx, hiff,
    hlearnt (sysStart t) hstart Run.refl hnot⟩

def RxPc.isIdle : RxPc → Bool
  | .idle => true
  | _ => false

/-- The flow was learnt and retired, and one more packet of it is missed: it is
neither tracked nor learnt. -/
theorem beingLearnt_fails : ∃ start s s', Started start ∧
    Run (sysStep smallConfig) anyStep start s ∧ s.rx 0 = .idle ∧
    test upstreamPacket.packet.color FLOW_COLOR_MISS = true ∧
    rxHandle s 0 none 0#32 upstreamPacket.packet = some (s', smallEntry) ∧
    ¬ BeingLearnt s' smallEntry := by
  have hrun : (smallRun retireActions).bind (fun s =>
      (rxHandle s 0 none 0#32 upstreamPacket.packet).map fun r =>
        ((s.rx 0).isIdle, r.2, decide (BeingLearnt r.1 smallEntry))) =
          some (true, smallEntry, false) := by
    decide +kernel
  simp only [Option.bind_eq_some_iff, Option.map_eq_some_iff,
    Prod.mk.injEq] at hrun
  obtain ⟨s, hexec, ⟨s', e⟩, hrx, hidle, rfl, hnot⟩ := hrun
  obtain ⟨start, hstart, hreached⟩ := run_of_smallRun hexec
  refine ⟨start, s, s', hstart, hreached, ?_, by decide, hrx,
    of_decide_eq_false hnot⟩
  cases hpc : s.rx 0 <;> simp [hpc, RxPc.isIdle] at hidle
  rfl

end Ntnetflow

end NtapiExamples
