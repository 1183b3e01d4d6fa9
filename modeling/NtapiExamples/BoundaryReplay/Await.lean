/-
The end of `_ReplayData`: what the last packet of an uninterrupted replay is
due for, and what the thread waits for before it turns transmission off.
-/
import NtapiExamples.Lib.ClockWait
import NtapiExamples.BoundaryReplay.ReplayData

namespace NtapiExamples

namespace BoundaryReplay

/-- `AwaitPacketTransmission`. -/
def awaitPacketTransmission (lastPacketTS adapterTimeOffset : BitVec 64)
    (turns : List ClockTurn) : WaitEnd :=
  waitPast (lastPacketTS + adapterTimeOffset) turns

/-- The steps of a replay that nobody stops and in which no call fails. -/
def uninterrupted (_ : ReplayState) : ReplayAction → Prop
  | .segment => True
  | .endOfFile => True
  | .stop => False
  | .stopped => False
  | .fail => False

/-- A packet as the thread hands it on in a pass. -/
def sentIn (cfg : Setup) (pass : Nat) (ts : BitVec 64) : Sent :=
  ⟨pass, ts, replayTimestamp cfg.pathDelay (BitVec.ofNat 32 pass) ts⟩

/-- What an uninterrupted replay is at: in a pass, `done` are the segments sent
in it; at the end all passes have been made. -/
structure PassInv (cfg : Setup) (s : ReplayState) : Prop where
  running : s.appRunning = true
  iteration : s.finished = false → s.iteration = BitVec.ofNat 32 s.pass
  below : s.pass < cfg.loop.toNat
  sent : ∃ done, done ++ s.unread = cfg.file.segments ∧
    ∀ ts, (done.flatMap Segment.timestamps).getLast? = some ts →
      s.sent.getLast? = some (sentIn cfg s.pass ts)
  ended : s.finished = true → s.unread = [] ∧
    s.pass + 1 = cfg.loop.toNat ∧ s.lastPacketTS = cfg.file.lastTimestamp

theorem PassInv.start {cfg : Setup} (hloop : 1 ≤ cfg.loop.toNat) :
    PassInv cfg (replayStart cfg) where
  running := rfl
  iteration := fun _ => rfl
  below := hloop
  sent := ⟨[], rfl, fun ts hts => by cases hts⟩
  ended := fun hfinished => by cases hfinished

theorem Segment.getLast?_flatMap (done : List Segment) (segment : Segment) :
    ((done ++ [segment]).flatMap Segment.timestamps).getLast? =
      segment.timestamps.getLast? := by
  rw [List.flatMap_append, List.flatMap_singleton, List.getLast?_append]
  simp [Segment.timestamps, List.getLast?_cons]

section Steps

variable {cfg : Setup} {s s' : ReplayState}

theorem PassInv.segment (hinv : PassInv cfg s)
    (hstep : replayStep cfg s .segment = some s') : PassInv cfg s' := by
  simp only [replayStep] at hstep
  cases hunread : s.unread with
  | nil => simp [hunread] at hstep
  | cons segment rest =>
      simp only [hunread, Option.ite_none_right_eq_some,
        Option.some.injEq, Bool.and_eq_true, Bool.not_eq_true'] at hstep
      obtain ⟨⟨hrunning, hgoing⟩, rfl⟩ := hstep
      obtain ⟨done, hdone, _⟩ := hinv.sent
      refine ⟨hinv.running, hinv.iteration, hinv.below, ?_, ?_⟩
      · refine ⟨done ++ [segment], ?_, fun ts hts => ?_⟩
        · rw [List.append_assoc, List.singleton_append, ← hunread, hdone]
        · rw [Segment.getLast?_flatMap] at hts
          rw [List.getLast?_append, List.getLast?_map, hts,
            hinv.iteration hgoing]
          rfl
      · intro hfinished
        rw [hgoing] at hfinished
        cases hfinished

theorem PassInv.endOfFile (hinv : PassInv cfg s)
    (hstep : replayStep cfg s .endOfFile = some s') : PassInv cfg s' := by
  simp only [replayStep, Option.ite_none_right_eq_some, Option.some.injEq,
    Bool.and_eq_true, Bool.not_eq_true', List.isEmpty_iff] at hstep
  obtain ⟨⟨⟨hrunning, hgoing⟩, hunread⟩, rfl⟩ := hstep
  have hbelow := hinv.below
  have hbound := cfg.loop.isLt
  have hnext : s.iteration + 1 = BitVec.ofNat 32 (s.pass + 1) := by
    rw [hinv.iteration hgoing, BitVec.ofNat_add]
    rfl
  have hloop : cfg.loop ≠ 0 := by
    rintro hzero
    rw [hzero] at hbelow
    cases hbelow
  have hlater : s.iteration + 1 < cfg.loop ↔ s.pass + 1 < cfg.loop.toNat := by
    rw [hnext, BitVec.lt_def, BitVec.toNat_ofNat, Nat.mod_eq_of_lt (by omega)]
  have hgoes : goesOn s.appRunning cfg.loop (s.iteration + 1) =
      decide (s.pass + 1 < cfg.loop.toNat) := by
    rw [goesOn, hrunning, Bool.true_and, if_neg hloop, decide_eq_decide]
    exact hlater
  unfold endPass
  by_cases hmore : s.pass + 1 < cfg.loop.toNat
  · rw [if_pos (hgoes.trans (decide_eq_true hmore))]
    exact
      { running := hrunning
        iteration := fun _ => hnext
        below := hmore
        sent := ⟨[], rfl, fun ts hts => by cases hts⟩
        ended := fun hfinished => by
          change s.finished = true at hfinished
          rw [hgoing] at hfinished
          cases hfinished }
  · rw [if_neg (by rw [hgoes, decide_eq_true_eq]; exact hmore)]
    exact
      { running := hrunning
        iteration := fun hfinished => by cases hfinished
        below := hbelow
        sent := hinv.sent
        ended := fun _ => ⟨hunread, by change s.pass + 1 = _; omega, rfl⟩ }

theorem PassInv.step {a : ReplayAction} (hinv : PassInv cfg s)
    (hok : uninterrupted s a) (hstep : replayStep cfg s a = some s') :
    PassInv cfg s' := by
  cases a with
  | segment => exact hinv.segment hstep
  | endOfFile => exact hinv.endOfFile hstep
  | stop => exact hok.elim
  | stopped => exact hok.elim
  | fail => exact hok.elim

end Steps

theorem passInv_of_run {cfg : Setup} {s : ReplayState}
    (hloop : 1 ≤ cfg.loop.toNat)
    (hrun : Run (replayStep cfg) uninterrupted (replayStart cfg) s) :
    PassInv cfg s :=
  hrun.invariant (PassInv.start hloop) fun hinv hok hstep =>
    hinv.step hok hstep

/-- The last packet of a finished replay. -/
theorem PassInv.last_sent {cfg : Setup} {s : ReplayState}
    (hinv : PassInv cfg s) (hfinished : s.finished = true)
    (hlast : cfg.file.timestamps.getLast? = some cfg.file.lastTimestamp) :
    s.sent.getLast? =
      some (sentIn cfg (cfg.loop.toNat - 1) cfg.file.lastTimestamp) := by
  obtain ⟨hunread, hpass, _⟩ := hinv.ended hfinished
  obtain ⟨done, hdone, hsent⟩ := hinv.sent
  rw [hunread, List.append_nil] at hdone
  subst hdone
  rw [← hpass, Nat.add_sub_cancel]
  exact hsent _ hlast

section Progress

variable {cfg : Setup}

/-- A state of an uninterrupted replay. -/
abbrev Replaying (cfg : Setup) (s : ReplayState) : Prop :=
  Run (replayStep cfg) uninterrupted (replayStart cfg) s

theorem Replaying.sendAll {s : ReplayState} {segments : List Segment}
    (hloop : 1 ≤ cfg.loop.toNat) (hrun : Replaying cfg s)
    (hgoing : s.finished = false) (hunread : s.unread = segments) :
    ∃ s', Replaying cfg s' ∧ s'.finished = false ∧ s'.pass = s.pass ∧
      s'.unread = [] := by
  induction segments generalizing s with
  | nil => exact ⟨s, hrun, hgoing, rfl, hunread⟩
  | cons segment rest ih =>
      have hrunning := (passInv_of_run hloop hrun).running
      have hstep : replayStep cfg s .segment = some { s with
          unread := rest
          sent := s.sent ++ segment.timestamps.map fun ts =>
            ⟨s.pass, ts, replayTimestamp cfg.pathDelay s.iteration ts⟩ } := by
        simp [replayStep, hunread, hrunning, hgoing]
      have hrest := ih (Run.tail .segment hrun trivial hstep) hgoing rfl
      exact hrest

theorem Replaying.nextPass {s : ReplayState} (hloop : 1 ≤ cfg.loop.toNat)
    (hrun : Replaying cfg s) (hgoing : s.finished = false)
    (hunread : s.unread = []) :
    ∃ s', Replaying cfg s' ∧
      (s'.finished = true ∨ s'.finished = false ∧ s'.pass = s.pass + 1) := by
  have hrunning := (passInv_of_run hloop hrun).running
  have hstep : replayStep cfg s .endOfFile =
      some (endPass cfg { s with lastPacketTS := cfg.file.lastTimestamp }) := by
    simp [replayStep, hunread, hrunning, hgoing]
  refine ⟨_, Run.tail .endOfFile hrun trivial hstep, ?_⟩
  unfold endPass
  split
  · exact Or.inr ⟨hgoing, rfl⟩
  · exact Or.inl rfl

/-- With a loop count, an uninterrupted replay gets to its end. -/
theorem exists_finished (hloop : 1 ≤ cfg.loop.toNat) :
    ∃ s, Replaying cfg s ∧ s.finished = true := by
  have hfrom : ∀ left s, Replaying cfg s → s.finished = false →
      cfg.loop.toNat - s.pass = left →
      ∃ s', Replaying cfg s' ∧ s'.finished = true := by
    intro left
    induction left with
    | zero =>
        intro s hrun _ hleft
        have hbelow := (passInv_of_run hloop hrun).below
        omega
    | succ left ih =>
        intro s hrun hgoing hleft
        obtain ⟨s₁, hrun₁, hgoing₁, hpass₁, hunread₁⟩ :=
          hrun.sendAll hloop hgoing rfl
        obtain ⟨s₂, hrun₂, hfinished | ⟨hgoing₂, hpass₂⟩⟩ :=
          hrun₁.nextPass hloop hgoing₁ hunread₁
        · exact ⟨s₂, hrun₂, hfinished⟩
        · exact ih s₂ hrun₂ hgoing₂ (by omega)
  exact hfrom _ _ Run.refl rfl rfl

end Progress

/-- When the wait after the last pass is over, the transmit time of the last
packet sent has passed. -/
def AwaitsLast (cfg : Setup) : Prop :=
  ∀ s, Run (replayStep cfg) uninterrupted (replayStart cfg) s →
    s.finished = true → ∀ p, s.sent.getLast? = some p →
      ∀ turns ts, awaitPacketTransmission s.lastPacketTS cfg.adapterTimeOffset
        turns = .passed ts → p.written + cfg.adapterTimeOffset < ts

/-- The path delay makes up for the boundaries of all passes but the first,
unless the sum leaves the 64 bits. -/
def DelayCovers (cfg : Setup) : Prop :=
  let stop := (cfg.file.lastTimestamp + cfg.adapterTimeOffset).toNat
  let later := (cfg.loop.toNat - 1) * boundaryTime.toNat
  (later ≤ cfg.pathDelay.toNat ∧ cfg.pathDelay.toNat ≤ stop + later) ∨
    2 ^ 64 + cfg.pathDelay.toNat ≤ stop + later

/-- The transmit time of the last packet against the time that is waited for. -/
theorem transmitTime_le_iff (pathDelay iteration : BitVec 32)
    (lastPacketTS offset : BitVec 64) {later : Nat}
    (hlater : (iteration * boundaryTime).toNat = later) :
    (replayTimestamp pathDelay iteration lastPacketTS + offset ≤
        lastPacketTS + offset ∨ lastPacketTS + offset = BitVec.allOnes 64) ↔
      (later ≤ pathDelay.toNat ∧
        pathDelay.toNat ≤ (lastPacketTS + offset).toNat + later) ∨
      2 ^ 64 + pathDelay.toNat ≤ (lastPacketTS + offset).toNat + later := by
  have hdue : replayTimestamp pathDelay iteration lastPacketTS + offset =
      lastPacketTS + offset - pathDelay.setWidth 64 +
        (iteration * boundaryTime).setWidth 64 := by
    unfold replayTimestamp
    generalize (iteration * boundaryTime).setWidth 64 = shift
    generalize pathDelay.setWidth 64 = delay
    bv_omega
  rw [hdue, BitVec.le_def, BitVec.toNat_eq, BitVec.toNat_allOnes,
    BitVec.toNat_add, BitVec.toNat_sub, BitVec.toNat_setWidth,
    BitVec.toNat_setWidth, hlater]
  have hsmall : later < 2 ^ 32 := hlater ▸ (iteration * boundaryTime).isLt
  have hdelay := pathDelay.isLt
  have hstop := (lastPacketTS + offset).isLt
  generalize (lastPacketTS + offset).toNat = stop at *
  omega

/-- The product that is added in a pass, as long as it fits 32 bits. -/
theorem iteration_product {n : Nat} (hn : n * boundaryTime.toNat < 2 ^ 32) :
    (BitVec.ofNat 32 n * boundaryTime).toNat = n * boundaryTime.toNat := by
  rw [BitVec.toNat_mul, BitVec.toNat_ofNat, Nat.mod_mul_mod,
    Nat.mod_eq_of_lt hn]

section Finished

variable {cfg : Setup} (hloop : 1 ≤ cfg.loop.toNat)
  (hiteration : (cfg.loop.toNat - 1) * boundaryTime.toNat < 2 ^ 32)
  (hlast : cfg.file.timestamps.getLast? = some cfg.file.lastTimestamp)

include hiteration

/-- The condition says that no clock lets the wait end too early. -/
theorem delayCovers_iff :
    DelayCovers cfg ↔ ∀ turns ts,
      awaitPacketTransmission cfg.file.lastTimestamp cfg.adapterTimeOffset
        turns = .passed ts →
      (sentIn cfg (cfg.loop.toNat - 1) cfg.file.lastTimestamp).written +
        cfg.adapterTimeOffset < ts := by
  rw [DelayCovers, ← transmitTime_le_iff cfg.pathDelay
    (BitVec.ofNat 32 (cfg.loop.toNat - 1)) cfg.file.lastTimestamp
    cfg.adapterTimeOffset (iteration_product hiteration),
    ← waitPast_covers_iff]
  rfl

include hloop hlast

theorem AwaitsLast.of_covers (hcovers : DelayCovers cfg) : AwaitsLast cfg := by
  intro s hrun hfinished p hp turns ts hpassed
  have hinv := passInv_of_run hloop hrun
  obtain ⟨_, _, hlastTS⟩ := hinv.ended hfinished
  rw [hinv.last_sent hfinished hlast, Option.some.injEq] at hp
  rw [hlastTS] at hpassed
  rw [← hp]
  exact (delayCovers_iff hiteration).mp hcovers turns ts hpassed

theorem AwaitsLast.covers (hawaits : AwaitsLast cfg) : DelayCovers cfg := by
  obtain ⟨s, hrun, hfinished⟩ := exists_finished hloop
  have hinv := passInv_of_run hloop hrun
  obtain ⟨_, _, hlastTS⟩ := hinv.ended hfinished
  rw [delayCovers_iff hiteration, ← hlastTS]
  intro turns ts hpassed
  have hsent := hinv.last_sent hfinished hlast
  rw [← hlastTS] at hsent
  exact hawaits s hrun hfinished _ hsent turns ts hpassed

end Finished

/-- A file of one packet, replayed twice without a path delay. -/
def twoPasses : Setup :=
  { onePacket with pathDelay := 0, loop := 2 }

/-- The second pass of the file is sent 10 ms later than is waited for. -/
theorem twoPasses_not_awaited :
    1 ≤ twoPasses.loop.toNat ∧
    (twoPasses.loop.toNat - 1) * boundaryTime.toNat < 2 ^ 32 ∧
    twoPasses.file.timestamps.getLast? = some twoPasses.file.lastTimestamp ∧
    ¬ AwaitsLast twoPasses := by
  refine ⟨by decide, by decide, by decide, fun hawaits => ?_⟩
  have hcovers := hawaits.covers (by decide) (by decide) (by decide)
  unfold DelayCovers at hcovers
  exact absurd hcovers (by decide)

/-- An uninterrupted replay waits for its last packet, whatever the clock shows,
exactly when the path delay is as long as the boundaries of its passes. -/
theorem awaitsLastPass_iff (cfg : Setup) (hloop : 1 ≤ cfg.loop.toNat)
    (hiteration : (cfg.loop.toNat - 1) * boundaryTime.toNat < 2 ^ 32)
    (hlast : cfg.file.timestamps.getLast? = some cfg.file.lastTimestamp) :
    AwaitsLast cfg ↔ DelayCovers cfg :=
  ⟨fun hawaits => hawaits.covers hloop hiteration hlast,
    AwaitsLast.of_covers hloop hiteration hlast⟩

/-- A single pass with a path delay. -/
theorem awaitsLastPass_iff_single :
    AwaitsLast { onePacket with loop := 1 } :=
  (awaitsLastPass_iff { onePacket with loop := 1 } (by decide) (by decide)
    (by decide)).mpr (by unfold DelayCovers; decide)

end BoundaryReplay

end NtapiExamples
