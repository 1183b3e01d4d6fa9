/-
The loop of `_ReplayData`: the file is sent again and again, each time with
timestamps that lie `boundary_time` later.
-/
import NtapiExamples.Lib.Run
import NtapiExamples.BoundaryReplay.FileData

namespace NtapiExamples

namespace BoundaryReplay

/-- What is fixed before the loop starts. -/
structure Setup where
  file : CaptureFile
  pathDelay : BitVec 32
  loop : BitVec 32
  absoluteStartTime : Option (BitVec 64)
  modFactor : BitVec 32
  adapterTS : BitVec 64

namespace Setup

variable (cfg : Setup)

def firstPacketTS : BitVec 64 := (getFileData cfg.file).2

def beginTS : BitVec 64 :=
  calcBeginTS cfg.absoluteStartTime cfg.modFactor cfg.adapterTS

def adapterTimeOffset : BitVec 64 :=
  calculateOffset cfg.absoluteStartTime cfg.modFactor cfg.firstPacketTS
    cfg.adapterTS

end Setup

/-- A packet that was handed on: the pass over the file it was sent in, its
timestamp in the file and the one written. -/
structure Sent where
  pass : Nat
  fileTS : BitVec 64
  written : BitVec 64

/-- The thread in its loop.  `pass` counts the passes over the file as
`iteration` would without a width. -/
structure ReplayState where
  appRunning : Bool
  finished : Bool
  iteration : BitVec 32
  unread : List Segment
  lastPacketTS : BitVec 64
  pass : Nat
  sent : List Sent

/-- The timestamp written for a packet. -/
def replayTimestamp (pathDelay iteration : BitVec 32) (ts : BitVec 64) :
    BitVec 64 :=
  ts - pathDelay.setWidth 64 + (iteration * boundaryTime).setWidth 64

/-- The condition at the end of the outer loop. -/
def goesOn (appRunning : Bool) (loop iteration : BitVec 32) : Bool :=
  appRunning && (if loop = 0 then true else decide (iteration < loop))

/-- The end of a pass. -/
def endPass (cfg : Setup) (s : ReplayState) : ReplayState :=
  if goesOn s.appRunning cfg.loop (s.iteration + 1) then
    { s with
      iteration := s.iteration + 1
      pass := s.pass + 1
      unread := cfg.file.segments }
  else { s with iteration := s.iteration + 1, finished := true }

/-- What can happen next: a segment is sent, the file ends, the user stops the
program, the thread notices it, or a call of the library fails. -/
inductive ReplayAction where
  | segment
  | endOfFile
  | stop
  | stopped
  | fail

def replayStep (cfg : Setup) (s : ReplayState) :
    ReplayAction → Option ReplayState
  | .segment =>
      match s.unread with
      | [] => none
      | segment :: rest =>
          if s.appRunning && !s.finished then
            some { s with
              unread := rest
              sent := s.sent ++ segment.timestamps.map fun ts =>
                ⟨s.pass, ts, replayTimestamp cfg.pathDelay s.iteration ts⟩ }
          else none
  | .endOfFile =>
      if s.appRunning && !s.finished && s.unread.isEmpty then
        some (endPass cfg { s with lastPacketTS := cfg.file.lastTimestamp })
      else none
  | .stop => some { s with appRunning := false }
  | .stopped =>
      if !s.appRunning && !s.finished then some (endPass cfg s) else none
  | .fail =>
      if !s.finished then some { s with appRunning := false, finished := true }
      else none

def replayStart (cfg : Setup) : ReplayState where
  appRunning := true
  finished := false
  iteration := 0
  unread := cfg.file.segments
  lastPacketTS := 0
  pass := 0
  sent := []

/-- The packet is written for its place in the schedule: the timestamp of the
file less the path delay, later by `boundary_time` for each pass. -/
structure OnSchedule (cfg : Setup) (p : Sent) : Prop where
  written : p.written = p.fileTS - cfg.pathDelay.setWidth 64 +
    BitVec.ofNat 64 (p.pass * boundaryTime.toNat)
  scheduled : p.written + cfg.adapterTimeOffset =
    cfg.beginTS + (p.fileTS - cfg.firstPacketTS) -
      cfg.pathDelay.setWidth 64 + BitVec.ofNat 64 (p.pass * 1000000)

/-- The product agrees with the one of 64 bits as long as that is below 2^32. -/
theorem setWidth_product_iff (pass : Nat) :
    (BitVec.ofNat 32 pass * boundaryTime).setWidth 64 =
        BitVec.ofNat 64 (pass * boundaryTime.toNat) ↔
      pass * boundaryTime.toNat % 2 ^ 64 < 2 ^ 32 := by
  have hlow : ((BitVec.ofNat 32 pass * boundaryTime).setWidth 64).toNat =
      pass * boundaryTime.toNat % 2 ^ 32 := by
    rw [BitVec.toNat_setWidth, BitVec.toNat_mul, BitVec.toNat_ofNat,
      Nat.mod_mul_mod]
    exact Nat.mod_eq_of_lt (Nat.lt_trans (Nat.mod_lt _ (by decide))
      (by decide))
  rw [BitVec.toNat_eq, hlow, BitVec.toNat_ofNat]
  generalize pass * boundaryTime.toNat = product
  omega

theorem onSchedule_iff (cfg : Setup) {p : Sent}
    (hwritten : p.written = replayTimestamp cfg.pathDelay
      (BitVec.ofNat 32 p.pass) p.fileTS) :
    OnSchedule cfg p ↔ p.pass * boundaryTime.toNat % 2 ^ 64 < 2 ^ 32 := by
  rw [← setWidth_product_iff]
  constructor
  · intro honSchedule
    have heq := honSchedule.written
    rw [hwritten, replayTimestamp] at heq
    exact BitVec.add_right_inj _ |>.mp heq
  · intro hproduct
    have hplace : p.written = p.fileTS - cfg.pathDelay.setWidth 64 +
        BitVec.ofNat 64 (p.pass * boundaryTime.toNat) := by
      rw [hwritten, replayTimestamp, hproduct]
    refine ⟨hplace, ?_⟩
    have hboundary : boundaryTime.toNat = 1000000 := rfl
    rw [hplace, hboundary, Setup.adapterTimeOffset, calculateOffset,
      Setup.beginTS]
    generalize BitVec.ofNat 64 (p.pass * 1000000) = later
    generalize cfg.pathDelay.setWidth 64 = delay
    generalize cfg.firstPacketTS = first
    bv_omega

/-- `iteration` is the number of the pass, and each packet was written with that
of its own. -/
structure ReplayInv (cfg : Setup) (s : ReplayState) : Prop where
  iteration : s.finished = false → s.iteration = BitVec.ofNat 32 s.pass
  written : ∀ p ∈ s.sent, p.written =
    replayTimestamp cfg.pathDelay (BitVec.ofNat 32 p.pass) p.fileTS

theorem replayInv_start (cfg : Setup) : ReplayInv cfg (replayStart cfg) where
  iteration := fun _ => rfl
  written := fun _ hp => nomatch hp

theorem replayInv_endPass {cfg : Setup} {s : ReplayState}
    (hinv : ReplayInv cfg s) (hfinished : s.finished = false) :
    ReplayInv cfg (endPass cfg s) := by
  unfold endPass
  split
  · refine ⟨fun _ => ?_, hinv.written⟩
    have hnext : s.iteration + 1 = BitVec.ofNat 32 (s.pass + 1) := by
      rw [hinv.iteration hfinished, BitVec.ofNat_add]
      rfl
    exact hnext
  · exact ⟨fun h => Bool.noConfusion h, hinv.written⟩

theorem replayInv_step {cfg : Setup} {s s' : ReplayState} {a : ReplayAction}
    (hinv : ReplayInv cfg s) (hstep : replayStep cfg s a = some s') :
    ReplayInv cfg s' := by
  cases a with
  | segment =>
      simp only [replayStep] at hstep
      split at hstep
      case h_1 => exact absurd hstep nofun
      case h_2 segment rest hunread =>
        split at hstep
        case isFalse => exact absurd hstep nofun
        case isTrue hgo =>
          simp only [Bool.and_eq_true, Bool.not_eq_true'] at hgo
          cases hstep
          refine ⟨hinv.iteration, fun p hp => ?_⟩
          rcases List.mem_append.mp hp with hold | hnew
          · exact hinv.written p hold
          · obtain ⟨ts, -, rfl⟩ := List.mem_map.mp hnew
            rw [hinv.iteration hgo.2]
  | endOfFile =>
      simp only [replayStep] at hstep
      split at hstep
      case isFalse => exact absurd hstep nofun
      case isTrue hgo =>
        simp only [Bool.and_eq_true, Bool.not_eq_true'] at hgo
        cases hstep
        exact replayInv_endPass ⟨hinv.iteration, hinv.written⟩ hgo.1.2
  | stop =>
      cases hstep
      exact ⟨hinv.iteration, hinv.written⟩
  | stopped =>
      simp only [replayStep] at hstep
      split at hstep
      case isFalse => exact absurd hstep nofun
      case isTrue hgo =>
        simp only [Bool.and_eq_true, Bool.not_eq_true'] at hgo
        cases hstep
        exact replayInv_endPass hinv hgo.2
  | fail =>
      simp only [replayStep] at hstep
      split at hstep
      case isFalse => exact absurd hstep nofun
      case isTrue =>
        cases hstep
        exact ⟨fun h => Bool.noConfusion h, hinv.written⟩

theorem replayInv_of_run {cfg : Setup} {s : ReplayState}
    (hrun : Run (replayStep cfg) anyStep (replayStart cfg) s) :
    ReplayInv cfg s :=
  hrun.invariant (replayInv_start cfg) fun hinv _ hstep =>
    replayInv_step hinv hstep

/-- The thread is in a pass, with these segments still to send. -/
structure InPass (cfg : Setup) (n : Nat) (segments : List Segment)
    (s : ReplayState) : Prop where
  run : Run (replayStep cfg) anyStep (replayStart cfg) s
  running : s.appRunning = true
  going : s.finished = false
  pass : s.pass = n
  unread : s.unread = segments

theorem InPass.segment {cfg : Setup} {n : Nat} {segment : Segment}
    {rest : List Segment} {s : ReplayState}
    (hs : InPass cfg n (segment :: rest) s) :
    ∃ s', replayStep cfg s .segment = some s' ∧ InPass cfg n rest s' := by
  have hstep : replayStep cfg s .segment = some { s with
      unread := rest
      sent := s.sent ++ segment.timestamps.map fun ts =>
        ⟨s.pass, ts, replayTimestamp cfg.pathDelay s.iteration ts⟩ } := by
    simp [replayStep, hs.unread, hs.running, hs.going]
  exact ⟨_, hstep, Run.tail .segment hs.run trivial hstep, hs.running,
    hs.going, hs.pass, rfl⟩

theorem InPass.sendAll {cfg : Setup} {n : Nat} {segments : List Segment}
    {s : ReplayState} (hs : InPass cfg n segments s) :
    ∃ s', InPass cfg n [] s' := by
  induction segments generalizing s with
  | nil => exact ⟨s, hs⟩
  | cons segment rest ih =>
      obtain ⟨s', -, hs'⟩ := hs.segment
      exact ih hs'

theorem InPass.endOfFile {cfg : Setup} (hloop : cfg.loop = 0) {n : Nat}
    {s : ReplayState} (hs : InPass cfg n [] s) :
    ∃ s', InPass cfg (n + 1) cfg.file.segments s' := by
  have hstep : replayStep cfg s .endOfFile = some { s with
      lastPacketTS := cfg.file.lastTimestamp
      iteration := s.iteration + 1
      pass := s.pass + 1
      unread := cfg.file.segments } := by
    simp [replayStep, hs.unread, hs.running, hs.going, endPass, goesOn, hloop]
  exact ⟨_, Run.tail .endOfFile hs.run trivial hstep, hs.running, hs.going,
    congrArg (· + 1) hs.pass, rfl⟩

/-- Without a limit on the loop, every pass is reached. -/
theorem exists_inPass (cfg : Setup) (hloop : cfg.loop = 0) (n : Nat) :
    ∃ s, InPass cfg n cfg.file.segments s := by
  induction n with
  | zero => exact ⟨_, Run.refl, rfl, rfl, rfl, rfl⟩
  | succ n ih =>
      obtain ⟨s, hs⟩ := ih
      obtain ⟨s', hs'⟩ := hs.sendAll
      exact hs'.endOfFile hloop

/-- In every run, a packet is on schedule exactly when the boundaries up to its
pass, as a number of 64 bits, still fit into 32. -/
theorem onSchedule_of_run_iff (cfg : Setup) (s : ReplayState)
    (hrun : Run (replayStep cfg) anyStep (replayStart cfg) s) (p : Sent)
    (hp : p ∈ s.sent) :
    OnSchedule cfg p ↔ p.pass * boundaryTime.toNat % 2 ^ 64 < 2 ^ 32 :=
  onSchedule_iff cfg ((replayInv_of_run hrun).written p hp)

/-- A file of one packet, replayed without a limit. -/
def onePacket : Setup where
  file :=
    { tsType := .native
      firstTimestamp := 500
      lastTimestamp := 500
      segments := [⟨500, []⟩] }
  pathDelay := 20
  loop := 0
  absoluteStartTime := none
  modFactor := 15
  adapterTS := 7000000000

/-- The packet of the first pass. -/
theorem onSchedule_of_run_iff_first :
    OnSchedule onePacket ⟨0, 500, 480⟩ := by
  have hrun : Run (replayStep onePacket) anyStep (replayStart onePacket)
      { replayStart onePacket with unread := [], sent := [⟨0, 500, 480⟩] } :=
    Run.tail .segment Run.refl trivial rfl
  exact (onSchedule_of_run_iff onePacket _ hrun ⟨0, 500, 480⟩
    (List.mem_singleton.mpr rfl)).mpr (by decide)

/-- In pass 4295 the timestamps have jumped back. -/
theorem onSchedule_fails :
    (getFileData onePacket.file).1 = 0 ∧
      ∃ s, Run (replayStep onePacket) anyStep (replayStart onePacket) s ∧
        ∃ p ∈ s.sent, p.pass = 4295 ∧ ¬ OnSchedule onePacket p := by
  refine ⟨rfl, ?_⟩
  obtain ⟨s, hs⟩ := exists_inPass onePacket rfl 4295
  have hstep : ∃ s', replayStep onePacket s .segment = some s' ∧
      ∃ p ∈ s'.sent, p.pass = 4295 := by
    simp only [replayStep, hs.unread, onePacket, hs.running, hs.going]
    exact ⟨_, rfl, ⟨s.pass, 500, _⟩, List.mem_append_right _
      (List.mem_singleton.mpr rfl), hs.pass⟩
  obtain ⟨s', hstep, p, hp, hp4295⟩ := hstep
  have hrun' := Run.tail ReplayAction.segment hs.run trivial hstep
  refine ⟨s', hrun', p, hp, hp4295, fun honSchedule => ?_⟩
  have hfits := (onSchedule_iff onePacket
    ((replayInv_of_run hrun').written p hp)).mp honSchedule
  rw [hp4295] at hfits
  exact absurd hfits (by decide)

end BoundaryReplay

end NtapiExamples
