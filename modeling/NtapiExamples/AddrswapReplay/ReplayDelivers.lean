/-
What a run of `addrswap_replay` hands to the adapter.
-/
import NtapiExamples.AddrswapReplay.ReplaySteps

namespace NtapiExamples

namespace AddrswapReplay

/-- How many packets the loop sends.  One whose file buffer is not given back is
the last of them. -/
def sentCount (turns : Nat) : List Round → Nat
  | [] => 0
  | round :: rounds =>
      if round.sends turns then
        if round.fileRelease then sentCount turns rounds + 1 else 1
      else 0

/-- The frame is the packet of the file with its time, and only the addresses are
others. -/
structure Delivered (fcsPresentInFile : Bool) (optSubstitute : Option Tree)
    (pkt : FilePacket) (tx : TxBuffer) : Prop where
  timestamp : tx.descriptor.timestamp = pkt.timestamp
  frame : ∃ (buffer : TxBuffer) (dest : Packet) (found : Bool),
    buffer.l2.memcpy pkt.l2 (pktWirelen fcsPresentInFile pkt).toNat =
      some dest ∧
    substituteOpt optSubstitute dest = some (tx.l2, found)

theorem replayPacket_delivered {fcsPresentInFile : Bool}
    {optSubstitute : Option Tree} {c c' : Counters} {pkt : FilePacket}
    {tx tx' : TxBuffer}
    (h : replayPacket fcsPresentInFile optSubstitute c pkt tx =
      some (c', tx')) : Delivered fcsPresentInFile optSubstitute pkt tx' := by
  obtain ⟨dest, _, found, hcopy, _, _, hsubst⟩ :=
    (replayPacket_l2_iff fcsPresentInFile optSubstitute c pkt tx tx'.l2).mp
      ⟨c', tx', h, rfl⟩
  refine ⟨?_, tx, dest, found, hcopy, hsubst⟩
  simp only [replayPacket, Option.bind_eq_bind, Option.bind_eq_some_iff,
    Option.some.injEq, Prod.mk.injEq] at h
  obtain ⟨_, _, _, _, _, _, _, _, _, rfl⟩ := h
  rfl

/-- The globals behind the loop or in it, unless it accesses foreign memory. -/
def LoopEnd.state : LoopEnd → Option ReplayState
  | .left s => some s
  | .returned s => some s
  | .waits s => some s
  | .faults => none

/-- What has been sent between two states. -/
structure Sends (turns : Nat) (fcsPresentInFile : Bool)
    (optSubstitute : Option Tree) (file : List (FilePacket × Round))
    (s s' : ReplayState) : Prop where
  sent : ∃ frames, sentOf s'.calls = sentOf s.calls ++ frames ∧
    List.Forall₂ (Delivered fcsPresentInFile optSubstitute)
      ((file.map Prod.fst).take (sentCount turns (file.map Prod.snd))) frames
  ready : s'.threadReady = s.threadReady
  exitCode : s'.applExitCode = s.applExitCode

/-- A round that sends nothing is the last one. -/
theorem Sends.none {turns : Nat} {fcsPresentInFile : Bool}
    {optSubstitute : Option Tree} {file : List (FilePacket × Round)}
    {s s' : ReplayState} (hcount : sentCount turns (file.map Prod.snd) = 0)
    (hcalls : s'.calls = s.calls) (hready : s'.threadReady = s.threadReady)
    (hcode : s'.applExitCode = s.applExitCode) :
    Sends turns fcsPresentInFile optSubstitute file s s' := by
  refine ⟨⟨[], ?_, ?_⟩, hready, hcode⟩
  · rw [hcalls, List.append_nil]
  · rw [hcount]
    exact List.Forall₂.nil

/-- The loop sends the packets of the file from the first one on. -/
theorem replayLoop_sends {env : ReplayEnv} {turns : Nat}
    {fcsPresentInFile : Bool} {file : List (FilePacket × Round)}
    {s s' : ReplayState}
    (h : (replayLoop env turns fcsPresentInFile file s).state = some s') :
    Sends turns fcsPresentInFile env.optSubstitute file s s' := by
  induction file generalizing s with
  | nil =>
      rw [replayLoop] at h
      split at h
      · obtain rfl := Option.some.inj h
        exact Sends.none rfl rfl rfl rfl
      · split at h
        · obtain rfl := Option.some.inj h
          exact Sends.none rfl rfl rfl rfl
        · obtain rfl := Option.some.inj h
          exact Sends.none rfl rfl rfl rfl
  | cons packet file ih =>
      obtain ⟨pkt, round⟩ := packet
      cases hsends : round.sends turns with
      | false =>
          have hcount :
              sentCount turns (((pkt, round) :: file).map Prod.snd) = 0 := by
            simp [sentCount, hsends]
          have hstopped := replayLoop_stops hsends env fcsPresentInFile pkt
            file s
          generalize replayLoop env turns fcsPresentInFile
            ((pkt, round) :: file) s = stopped at h hstopped
          cases hstopped with
          | left =>
              obtain rfl := Option.some.inj h
              exact Sends.none hcount rfl rfl rfl
          | returned appRunning counters =>
              obtain rfl := Option.some.inj h
              exact Sends.none hcount rfl rfl rfl
          | waits =>
              obtain rfl := Option.some.inj h
              exact Sends.none hcount rfl rfl rfl
          | faults => cases h
      | true =>
          obtain ⟨buffer, -, hstep⟩ := replayLoop_step hsends env
            fcsPresentInFile pkt file s
          rw [hstep] at h
          cases hpacket : replayPacket fcsPresentInFile env.optSubstitute
              s.counters pkt buffer with
          | none =>
              rw [hpacket] at h
              cases h
          | some sent =>
              obtain ⟨counters, tx⟩ := sent
              rw [hpacket] at h
              have hdelivered := replayPacket_delivered hpacket
              have hcall : sentOf (s.calls ++ [.send tx]) =
                  sentOf s.calls ++ [tx] := by
                simp [sentOf]
              cases hfile : round.fileRelease with
              | false =>
                  rw [hfile] at h
                  obtain rfl := Option.some.inj h
                  refine ⟨⟨[tx], hcall, ?_⟩, rfl, rfl⟩
                  simpa [sentCount, hsends, hfile] using hdelivered
              | true =>
                  rw [hfile] at h
                  obtain ⟨⟨frames, hframes, hall⟩, hready, hcode⟩ := ih h
                  refine ⟨⟨tx :: frames, ?_, ?_⟩, hready, hcode⟩
                  · rw [hframes, ReplayState.call, hcall, List.append_assoc]
                    rfl
                  · simpa [sentCount, hsends, hfile] using ⟨hdelivered, hall⟩

/-- What has been sent when the thread is over. -/
structure ThreadSent (env : ReplayEnv) (turns : Nat) (s : ReplayState) :
    Prop where
  idle : s.threadReady = false → sentOf s.calls = []
  ready : s.threadReady = true → ∃ first fcsPresentInFile,
    env.file.head? = some first ∧ fcsPresent first.1 = some fcsPresentInFile ∧
      List.Forall₂ (Delivered fcsPresentInFile env.optSubstitute)
        ((env.file.map Prod.fst).take (sentCount turns (env.file.map Prod.snd)))
        (sentOf s.calls)

/-- Calls that send nothing. -/
theorem ThreadSent.congr {env : ReplayEnv} {turns : Nat} {s s' : ReplayState}
    (h : ThreadSent env turns s) (hcalls : sentOf s'.calls = sentOf s.calls)
    (hready : s'.threadReady = s.threadReady) : ThreadSent env turns s' := by
  constructor
  · intro hidle
    rw [hcalls]
    exact h.idle (hready ▸ hidle)
  · intro hready'
    rw [hcalls]
    exact h.ready (hready ▸ hready')

theorem threadSent_idle {env : ReplayEnv} {turns : Nat} {s : ReplayState}
    (hready : s.threadReady = false) (hsent : sentOf s.calls = []) :
    ThreadSent env turns s :=
  ⟨fun _ => hsent, fun h => absurd (hready.symm.trans h) (by simp)⟩

/-- The thread's globals when it is over, unless it accesses foreign memory. -/
def ThreadEnd.state : ThreadEnd → Option ReplayState
  | .returned s => some s
  | .waits s => some s
  | .faults => none

theorem finishReplay_sent {env : ReplayEnv} {turns : Nat}
    {firstPacketTS : BitVec 64} {s s' : ReplayState}
    (h : ThreadSent env turns s)
    (hend : (finishReplay env turns firstPacketTS s).state = some s') :
    ThreadSent env turns s' := by
  rcases finishReplay_cases env turns firstPacketTS s with
    ⟨-, hwaits⟩ | ⟨-, s₁, hreturned, hback⟩
  · rw [hwaits] at hend
    obtain rfl := Option.some.inj hend
    exact h.congr (sentOf_call s rfl) rfl
  · rw [hreturned] at hend
    obtain rfl := Option.some.inj hend
    exact h.congr hback.sent hback.ready

theorem threadSent_ready {env : ReplayEnv} {turns : Nat} {first : FilePacket}
    {fcsPresentInFile : Bool} {startTicks : BitVec 64}
    (hprepared : Prepared env first fcsPresentInFile startTicks)
    {s s' : ReplayState} (hready : Ready replayStart startTicks s)
    (hsends : Sends turns fcsPresentInFile env.optSubstitute env.file s s') :
    ThreadSent env turns s' := by
  obtain ⟨⟨frames, hframes, hall⟩, hthread, -⟩ := hsends
  obtain ⟨round, file, hfile⟩ := hprepared.head
  have hsent : sentOf s'.calls = frames := by
    rw [hframes, hready.sent]
    rfl
  constructor
  · intro hidle
    rw [hthread, hready.threadReady] at hidle
    cases hidle
  · intro _
    refine ⟨(first, round), fcsPresentInFile, by rw [hfile]; rfl,
      hprepared.fcs, ?_⟩
    rw [hsent]
    exact hall

theorem replay_sent {env : ReplayEnv} {turns : Nat} {s : ReplayState}
    (hend : (replay env turns replayStart).state = some s) :
    ThreadSent env turns s := by
  by_cases hnone : env.NoPacket
  · obtain ⟨calls, hsent, hreplay⟩ := replay_noPacket hnone replayStart
    rw [hreplay] at hend
    obtain rfl := Option.some.inj hend
    exact threadSent_idle rfl hsent
  by_cases hprepared : ∃ first fcsPresentInFile startTicks,
      Prepared env first fcsPresentInFile startTicks
  · obtain ⟨first, fcsPresentInFile, startTicks, hprepared⟩ := hprepared
    obtain ⟨s₁, hready, hreplay⟩ := replay_prepared hprepared
      (show replayStart.startTime = 0 from rfl)
    have hloop := fun s₂ =>
      @replayLoop_sends env turns fcsPresentInFile env.file s₁ s₂
    rw [hreplay] at hend
    cases hleft : replayLoop env turns fcsPresentInFile env.file s₁ with
    | faults =>
        rw [hleft] at hend
        cases hend
    | returned s₂ =>
        rw [hleft] at hend hloop
        obtain rfl := Option.some.inj hend
        exact threadSent_ready hprepared hready (hloop s₂ rfl)
    | waits s₂ =>
        rw [hleft] at hend hloop
        obtain rfl := Option.some.inj hend
        exact threadSent_ready hprepared hready (hloop s₂ rfl)
    | left s₂ =>
        rw [hleft] at hend hloop
        exact finishReplay_sent
          (threadSent_ready hprepared hready (hloop s₂ rfl)) hend
  · simp only [not_exists] at hprepared
    rcases replay_refused (s := replayStart) hnone hprepared with
      hfaults | ⟨s₁, hreturned, -, hready, -, hsent⟩
    · rw [hfaults] at hend
      cases hend
    · rw [hreturned] at hend
      obtain rfl := Option.some.inj hend
      exact threadSent_idle hready hsent

/-- The globals when the program is over or still waits. -/
def ProgramEnd.state : ProgramEnd → Option ReplayState
  | .exits _ s => some s
  | .runs s => some s
  | .faults => none

/-- The request is sent; the buffer for it comes at the second try. -/
def arpReplay : ReplayEnv where
  optFile := true
  optPort := true
  optSubstitute := some .nil
  ntInit := true
  version := some (3, 24)
  capabilities := ⟨true, true, true, [some false]⟩
  signals := true
  threadCreate := true
  firstOpen := true
  firstGet := true
  setup := ⟨true, true, true, true, true, true, false, true, true, true⟩
  fileOpen := true
  setPort := .done 1000
  file := [(arpRequest, ⟨true, true, true,
    Stream'.cons (.timeout true) (Stream'.const (.buffer emptyTx)), true, true⟩)]
  endRunning := true
  endOfFile := true
  clock := Stream'.cons (.time 1000) (Stream'.const (.time 1001))
  threadClear := .done
  stopped := false
  mainClear := .done

end AddrswapReplay

end NtapiExamples
