/-
How a run of `addrswap_replay` ends: when it does not end, what it leaves on the
port, and what its exit status says about the file.
-/
import NtapiExamples.AddrswapReplay.ReplayDelivers

namespace NtapiExamples

namespace AddrswapReplay

/-- Nothing fails in the round, and `NT_NetTxGet` gives this buffer, perhaps after
timeouts. -/
structure Round.Passes (round : Round) (buffer : TxBuffer) : Prop where
  running : round.running = true
  file : round.fileGet = true ∧ round.fileRead = true ∧
    round.fileRelease = true
  got : ∃ turns, txGet (round.txGets.take turns) = .got buffer
  txRelease : round.txRelease = true

/-- `NT_NetTxGet` times out for ever, and nobody stops the program. -/
structure Round.Starves (round : Round) : Prop where
  running : round.running = true
  file : round.fileGet = true ∧ round.fileRead = true
  txGets : ∀ k, round.txGets.get k = .timeout true

/-- The packets go out in these buffers, without a failure. -/
abbrev Passed : List (FilePacket × Round) → List (FilePacket × TxBuffer) → Prop :=
  List.Forall₂ fun packet sent => packet.1 = sent.1 ∧ packet.2.Passes sent.2

/-- The run replays its whole file as `r` does, and finds the end of the file while
it is to run. -/
structure Replays (env : ReplayEnv) (r : TimedReplay) : Prop where
  prepared : Prepared env r.firstPacket.1 r.fcsPresentInFile r.startTicks
  passed : Passed env.file (r.firstPacket :: r.packets)
  endRunning : env.endRunning = true
  endOfFile : env.endOfFile = true
  optSubstitute : r.optSubstitute = env.optSubstitute

/-- The packets of the file go out up to one for which there is never a buffer. -/
def StarvesAt (fcsPresentInFile : Bool) (optSubstitute : Option Tree)
    (c : Counters) (file : List (FilePacket × Round)) : Prop :=
  ∃ sent pkt round later given c', file = sent ++ (pkt, round) :: later ∧
    Passed sent given ∧
    replayFile fcsPresentInFile optSubstitute c given = some c' ∧ round.Starves

/-- The run comes to its loop, and to a packet for which there is never a buffer. -/
def Starved (env : ReplayEnv) : Prop :=
  ∃ first fcsPresentInFile startTicks,
    Prepared env first fcsPresentInFile startTicks ∧
      StarvesAt fcsPresentInFile env.optSubstitute TimedReplay.startCounters
        env.file

theorem txGet_take_timeouts {txGets : Stream' TxTurn}
    (hall : ∀ k, txGets.get k = .timeout true) (turns : Nat) :
    txGet (txGets.take turns) = .trying := by
  induction turns generalizing txGets with
  | zero => rfl
  | succ turns ih =>
      rw [Stream'.take_succ, show txGets.head = .timeout true from hall 0]
      exact ih fun k => hall (k + 1)

/-- Any other answer than a timeout of the running program ends the tries. -/
theorem txGet_cons_cases (turn : TxTurn) :
    turn = .timeout true ∨
      ∃ got, got ≠ .trying ∧ ∀ turns, txGet (turn :: turns) = got := by
  cases turn with
  | buffer buffer => exact Or.inr ⟨.got buffer, by simp, fun _ => rfl⟩
  | error => exact Or.inr ⟨.failed, by simp, fun _ => rfl⟩
  | timeout appRunning =>
      cases appRunning with
      | true => exact Or.inl rfl
      | false => exact Or.inr ⟨.stopped, by simp, fun _ => rfl⟩

/-- Either `NT_NetTxGet` times out for ever, or behind some turn it is known what it
has come to. -/
theorem txGet_take_settles (txGets : Stream' TxTurn) :
    (∀ k, txGets.get k = .timeout true) ∨
      ∃ k got, got ≠ .trying ∧ ∀ turns,
        txGet (txGets.take turns) = if turns ≤ k then .trying else got := by
  by_cases hall : ∀ k, txGets.get k = .timeout true
  · exact Or.inl hall
  right
  obtain ⟨k, hk⟩ := not_forall.mp hall
  clear hall
  -- induction on a turn that is no timeout
  induction k generalizing txGets with
  | zero =>
      rcases txGet_cons_cases txGets.head with hhead | ⟨got, hgot, hends⟩
      · exact absurd hhead hk
      · refine ⟨0, got, hgot, fun turns => ?_⟩
        cases turns with
        | zero => rfl
        | succ turns =>
            rw [Stream'.take_succ, hends, if_neg (Nat.not_succ_le_zero turns)]
  | succ k ih =>
      rcases txGet_cons_cases txGets.head with hhead | ⟨got, hgot, hends⟩
      · obtain ⟨k', got, hgot, htail⟩ := ih txGets.tail hk
        refine ⟨k' + 1, got, hgot, fun turns => ?_⟩
        cases turns with
        | zero => rfl
        | succ turns =>
            rw [Stream'.take_succ, hhead, txGet, htail]
            simp only [Nat.succ_le_succ_iff]
      · refine ⟨0, got, hgot, fun turns => ?_⟩
        cases turns with
        | zero => rfl
        | succ turns =>
            rw [Stream'.take_succ, hends, if_neg (Nat.not_succ_le_zero turns)]

/-- A round that passes still tries up to some turn, and sends behind it. -/
theorem Round.Passes.step {round : Round} {buffer : TxBuffer}
    (hpasses : round.Passes buffer) (env : ReplayEnv) (fcsPresentInFile : Bool)
    (pkt : FilePacket) (file : List (FilePacket × Round)) (s : ReplayState) :
    ∃ k, ∀ turns,
      replayLoop env turns fcsPresentInFile ((pkt, round) :: file) s =
        if turns ≤ k then .waits s
        else match replayPacket fcsPresentInFile env.optSubstitute s.counters pkt
            buffer with
          | none => .faults
          | some (counters, tx) =>
              replayLoop env turns fcsPresentInFile file
                ({ s with counters := counters }.call (.send tx)) := by
  obtain ⟨hrunning, ⟨hget, hread, hback⟩, ⟨n, hn⟩, hrelease⟩ := hpasses
  rcases txGet_take_settles round.txGets with hall | ⟨k, got, -, htake⟩
  · rw [txGet_take_timeouts hall] at hn
    cases hn
  have hgot : got = .got buffer := by
    rw [htake] at hn
    split at hn
    · cases hn
    · exact hn
  subst hgot
  refine ⟨k, fun turns => ?_⟩
  have hturns := htake turns
  split at hturns
  · rename_i hle
    simp [replayLoop, hrunning, hget, hread, hturns, if_pos hle]
  · rename_i hlt
    rw [if_neg hlt]
    cases hpacket : replayPacket fcsPresentInFile env.optSubstitute s.counters pkt
        buffer with
    | none => simp [replayLoop, hrunning, hget, hread, hturns, hpacket]
    | some sent =>
        simp [replayLoop, hrunning, hget, hread, hturns, hpacket, hrelease, hback]

/-- Behind some turn it is known how the loop has ended. -/
def Settles (env : ReplayEnv) (fcsPresentInFile : Bool)
    (file : List (FilePacket × Round)) (s : ReplayState) : Prop :=
  ∃ k ended, (∀ s', ended ≠ .waits s') ∧ ∀ turns, k < turns →
    replayLoop env turns fcsPresentInFile file s = ended

/-- A round starves, or it passes, or the loop ends in it. -/
theorem Round.settles (env : ReplayEnv) (fcsPresentInFile : Bool)
    (pkt : FilePacket) (round : Round) (file : List (FilePacket × Round))
    (s : ReplayState) :
    round.Starves ∨ (∃ buffer, round.Passes buffer) ∨
      Settles env fcsPresentInFile ((pkt, round) :: file) s := by
  by_cases hrunning : round.running = true
  swap
  · exact Or.inr (Or.inr ⟨0, .left { s with appRunning := false }, by simp,
      fun _ _ => by simp [replayLoop, hrunning]⟩)
  by_cases hfile : round.fileGet = true ∧ round.fileRead = true
  swap
  · refine Or.inr (Or.inr ⟨0, .returned s, by simp, fun _ _ => ?_⟩)
    simp only [Bool.not_eq_true, not_and_or] at hfile
    rcases hfile with h | h <;> simp [replayLoop, hrunning, h]
  rcases txGet_take_settles round.txGets with hstarves | ⟨k, got, hgot, htake⟩
  · exact Or.inl ⟨hrunning, hfile, hstarves⟩
  have hloop : ∀ turns, k < turns →
      txGet (round.txGets.take turns) = got := fun turns hlt => by
    rw [htake, if_neg (Nat.not_le.mpr hlt)]
  right
  cases got with
  | trying => exact absurd rfl hgot
  | stopped =>
      exact Or.inr ⟨k, .returned { s with appRunning := false }, by simp,
        fun turns hlt => by simp [replayLoop, hrunning, hfile, hloop turns hlt]⟩
  | failed =>
      exact Or.inr ⟨k, .returned s, by simp,
        fun turns hlt => by simp [replayLoop, hrunning, hfile, hloop turns hlt]⟩
  | got buffer =>
      cases hrelease : round.txRelease with
      | false =>
          cases hpacket : replayPacket fcsPresentInFile env.optSubstitute
              s.counters pkt buffer with
          | none =>
              exact Or.inr ⟨k, .faults, by simp, fun turns hlt => by
                simp [replayLoop, hrunning, hfile, hloop turns hlt, hpacket]⟩
          | some sent =>
              exact Or.inr ⟨k, .returned { s with counters := sent.1 }, by simp,
                fun turns hlt => by
                  simp [replayLoop, hrunning, hfile, hloop turns hlt, hpacket,
                    hrelease]⟩
      | true =>
          cases hback : round.fileRelease with
          | true =>
              exact Or.inl ⟨buffer, hrunning, ⟨hfile.1, hfile.2, hback⟩,
                ⟨k + 1, hloop _ (Nat.lt_succ_self k)⟩, hrelease⟩
          | false =>
              cases hpacket : replayPacket fcsPresentInFile env.optSubstitute
                  s.counters pkt buffer with
              | none =>
                  exact Or.inr ⟨k, .faults, by simp, fun turns hlt => by
                    simp [replayLoop, hrunning, hfile, hloop turns hlt, hpacket]⟩
              | some sent =>
                  exact Or.inr ⟨k, .returned
                    (({ s with counters := sent.1 }).call (.send sent.2)),
                    by simp, fun turns hlt => by
                      simp [replayLoop, hrunning, hfile, hloop turns hlt,
                        hpacket, hrelease, hback]⟩

/-- The loop comes to a packet for which there is never a buffer, or behind some
turn it is known how it has ended. -/
theorem replayLoop_settles (env : ReplayEnv) (fcsPresentInFile : Bool)
    (file : List (FilePacket × Round)) (s : ReplayState) :
    StarvesAt fcsPresentInFile env.optSubstitute s.counters file ∨
      Settles env fcsPresentInFile file s := by
  induction file generalizing s with
  | nil =>
      refine Or.inr ⟨0, replayLoop env 0 fcsPresentInFile [] s, ?_,
        fun _ _ => rfl⟩
      intro s' hwaits
      rw [replayLoop] at hwaits
      split at hwaits
      · cases hwaits
      · split at hwaits <;> cases hwaits
  | cons packet file ih =>
      obtain ⟨pkt, round⟩ := packet
      rcases round.settles env fcsPresentInFile pkt file s with
        hstarves | ⟨buffer, hpasses⟩ | hsettles
      · exact Or.inl ⟨[], pkt, round, file, [], s.counters, rfl, .nil, rfl,
          hstarves⟩
      · obtain ⟨k, hstep⟩ := hpasses.step env fcsPresentInFile pkt file s
        have hbehind : ∀ turns, k < turns → _ := fun turns hlt =>
          (hstep turns).trans (if_neg (Nat.not_le.mpr hlt))
        cases hpacket : replayPacket fcsPresentInFile env.optSubstitute
            s.counters pkt buffer with
        | none =>
            refine Or.inr ⟨k, .faults, by simp, fun turns hlt => ?_⟩
            rw [hbehind turns hlt, hpacket]
        | some sent =>
            obtain ⟨counters, tx⟩ := sent
            rcases ih ({ s with counters := counters }.call (.send tx)) with
              ⟨before, last, starved, later, given, c, rfl, hpassed, hsent,
                hstarves⟩ | ⟨k', ended, hended, hrest⟩
            · refine Or.inl ⟨(pkt, round) :: before, last, starved, later,
                (pkt, buffer) :: given, c, rfl, .cons ⟨rfl, hpasses⟩ hpassed, ?_,
                hstarves⟩
              rw [replayFile, hpacket]
              exact hsent
            · refine Or.inr ⟨max k k', ended, hended, fun turns hlt => ?_⟩
              rw [hbehind turns (by omega), hpacket]
              exact hrest turns (by omega)
      · exact Or.inr hsettles

theorem replayLoop_starves {env : ReplayEnv} {fcsPresentInFile : Bool}
    {file : List (FilePacket × Round)} {s : ReplayState}
    (hstarves : StarvesAt fcsPresentInFile env.optSubstitute s.counters file)
    (turns : Nat) :
    ∃ s', replayLoop env turns fcsPresentInFile file s = .waits s' := by
  obtain ⟨sent, pkt, round, later, given, c, rfl, hpassed, hsent, hround⟩ :=
    hstarves
  induction hpassed generalizing s with
  | nil =>
      refine ⟨s, ?_⟩
      simp [replayLoop, hround.running, hround.file,
        txGet_take_timeouts hround.txGets]
  | @cons packet sent file given hpacket _ ih =>
      obtain ⟨pkt', round'⟩ := packet
      obtain ⟨pkt'', buffer⟩ := sent
      obtain ⟨rfl, hpasses⟩ := hpacket
      rw [replayFile] at hsent
      obtain ⟨k, hstep⟩ := hpasses.step env fcsPresentInFile pkt'
        (file ++ (pkt, round) :: later) s
      rw [List.cons_append, hstep]
      split
      · exact ⟨s, rfl⟩
      · cases hreplayed : replayPacket fcsPresentInFile env.optSubstitute
            s.counters pkt' buffer with
        | none =>
            rw [hreplayed] at hsent
            cases hsent
        | some next =>
            rw [hreplayed] at hsent
            exact ih hsent

/-- The loop is left while the program runs only behind the whole file. -/
theorem replayLoop_left {env : ReplayEnv} {turns : Nat}
    {fcsPresentInFile : Bool} {file : List (FilePacket × Round)}
    {s s' : ReplayState}
    (h : replayLoop env turns fcsPresentInFile file s = .left s')
    (hrunning : s'.appRunning = true) :
    ∃ given, Passed file given ∧ env.endRunning = true ∧ env.endOfFile = true ∧
      replayFile fcsPresentInFile env.optSubstitute s.counters given =
        some s'.counters ∧ s'.startTime = s.startTime := by
  induction file generalizing s with
  | nil =>
      rw [replayLoop] at h
      cases hend : env.endRunning with
      | false =>
          rw [hend] at h
          obtain rfl := LoopEnd.left.inj h
          cases hrunning
      | true =>
          cases hfile : env.endOfFile with
          | false =>
              rw [hend, hfile] at h
              cases h
          | true =>
              rw [hend, hfile] at h
              obtain rfl := LoopEnd.left.inj h
              exact ⟨[], .nil, rfl, rfl, rfl, rfl⟩
  | cons packet file ih =>
      obtain ⟨pkt, round⟩ := packet
      cases hsends : round.sends turns with
      | false =>
          have hstopped := replayLoop_stops hsends env fcsPresentInFile pkt
            file s
          rw [h] at hstopped
          cases hstopped
          cases hrunning
      | true =>
          obtain ⟨buffer, hbuffer, hstep⟩ := replayLoop_step hsends env
            fcsPresentInFile pkt file s
          rw [hstep] at h
          cases hpacket : replayPacket fcsPresentInFile env.optSubstitute
              s.counters pkt buffer with
          | none =>
              rw [hpacket] at h
              cases h
          | some sent =>
              obtain ⟨counters, tx⟩ := sent
              rw [hpacket] at h
              cases hrelease : round.fileRelease with
              | false =>
                  rw [hrelease] at h
                  cases h
              | true =>
                  rw [hrelease] at h
                  obtain ⟨given, hpassed, hend, hfile, hsent, htime⟩ := ih h
                  simp only [Round.sends, Bool.and_eq_true] at hsends
                  obtain ⟨⟨⟨⟨hround, hget⟩, hread⟩, -⟩, htx⟩ := hsends
                  refine ⟨(pkt, buffer) :: given, .cons ⟨rfl, hround,
                    ⟨hget, hread, hrelease⟩, ⟨turns, hbuffer⟩, htx⟩ hpassed,
                    hend, hfile, ?_, htime⟩
                  rw [replayFile, hpacket]
                  exact hsent

/-- Without a failure the loop goes through the file, or still tries to get a
buffer. -/
theorem replayLoop_through {env : ReplayEnv} {fcsPresentInFile : Bool}
    {file : List (FilePacket × Round)} {given : List (FilePacket × TxBuffer)}
    {s : ReplayState} {c : Counters} (hpassed : Passed file given)
    (hend : env.endRunning = true) (hfile : env.endOfFile = true)
    (hsent : replayFile fcsPresentInFile env.optSubstitute s.counters given =
      some c) (turns : Nat) :
    (∃ s', replayLoop env turns fcsPresentInFile file s = .waits s') ∨
      ∃ calls, replayLoop env turns fcsPresentInFile file s =
        .left { s with calls := calls, counters := c } := by
  induction hpassed generalizing s with
  | nil =>
      obtain rfl := Option.some.inj hsent
      exact Or.inr ⟨s.calls, by simp [replayLoop, hend, hfile]⟩
  | @cons packet sent file given hpacket _ ih =>
      obtain ⟨pkt, round⟩ := packet
      obtain ⟨pkt', buffer⟩ := sent
      obtain ⟨rfl, hpasses⟩ := hpacket
      rw [replayFile] at hsent
      obtain ⟨k, hstep⟩ := hpasses.step env fcsPresentInFile pkt file s
      rw [hstep]
      split
      · exact Or.inl ⟨s, rfl⟩
      · cases hreplayed : replayPacket fcsPresentInFile env.optSubstitute
            s.counters pkt buffer with
        | none =>
            rw [hreplayed] at hsent
            cases hsent
        | some next =>
            rw [hreplayed] at hsent
            exact ih hsent

/-- Behind its loop the thread is ready. -/
theorem replayLoop_finish {env : ReplayEnv} {turns : Nat}
    {fcsPresentInFile : Bool} {firstPacketTS : BitVec 64}
    {file : List (FilePacket × Round)} {s s' : ReplayState}
    (h : (replayLoop env turns fcsPresentInFile file s).finish env turns
      firstPacketTS = .returned s') :
    s'.threadReady = s.threadReady ∧ (s'.applExitCode = s.applExitCode ∨
      s'.applExitCode = NT_APPL_ERROR_NTAPI ∧ env.threadClear ≠ .done) := by
  have hsends := fun s₁ =>
    @replayLoop_sends env turns fcsPresentInFile file s s₁
  cases hloop : replayLoop env turns fcsPresentInFile file s with
  | faults =>
      rw [hloop] at h
      cases h
  | waits s₁ =>
      rw [hloop] at h
      cases h
  | returned s₁ =>
      rw [hloop] at h hsends
      obtain rfl := ThreadEnd.returned.inj h
      obtain ⟨-, hready, hcode⟩ := hsends s₁ rfl
      exact ⟨hready, Or.inl hcode⟩
  | left s₁ =>
      rw [hloop] at h hsends
      obtain ⟨-, hready, hcode⟩ := hsends s₁ rfl
      rcases finishReplay_cases env turns firstPacketTS s₁ with
        ⟨-, hwaits⟩ | ⟨-, s₂, hreturned, hback⟩
      · rw [LoopEnd.finish, hwaits] at h
        cases h
      · rw [LoopEnd.finish, hreturned] at h
        obtain rfl := ThreadEnd.returned.inj h
        exact ⟨hback.ready.trans hready, hcode ▸ hback.exitCode⟩

/-- The run that leaves its loop while the program runs replays the file in time. -/
theorem replays_of_left {env : ReplayEnv} {turns : Nat} {first : FilePacket}
    {fcsPresentInFile : Bool} {startTicks : BitVec 64}
    (hprepared : Prepared env first fcsPresentInFile startTicks)
    {s s' : ReplayState} (hready : Ready replayStart startTicks s)
    (hleft : replayLoop env turns fcsPresentInFile env.file s = .left s')
    (hrunning : s'.appRunning = true) :
    ∃ r, Replays env r ∧ r.counters = some s'.counters ∧
      r.firstPacketTS = first.timestamp ∧ r.startTime = s'.startTime := by
  obtain ⟨given, hpassed, hend, hfile, hsent, htime⟩ :=
    replayLoop_left hleft hrunning
  obtain ⟨round, file, hcons⟩ := hprepared.head
  rw [hready.counters] at hsent
  cases given with
  | nil =>
      rw [hcons] at hpassed
      cases hpassed
  | cons packet packets =>
      have hfirst : first = packet.1 := by
        rw [hcons] at hpassed
        cases hpassed with
        | cons hpacket _ => exact hpacket.1
      subst hfirst
      refine ⟨⟨fcsPresentInFile, env.optSubstitute, packet, packets, startTicks⟩,
        ⟨hprepared, hpassed, hend, hfile, rfl⟩, hsent, rfl, ?_⟩
      rw [htime, hready.startTime]
      rfl

/-- The three ways in which the thread returns. -/
inductive Returns (env : ReplayEnv) (s : ReplayState) : Prop
  | noPacket (hnone : env.NoPacket) (hrunning : s.appRunning = true)
      (hready : s.threadReady = false)
      (hcode : s.applExitCode = NT_APPL_SUCCESS)
  | refused (hrunning : s.appRunning = false) (hready : s.threadReady = false)
      (hcode : s.applExitCode ≠ NT_APPL_SUCCESS)
  | replayed (hready : s.threadReady = true)
      (hcode : s.applExitCode = NT_APPL_SUCCESS ∨
        s.applExitCode = NT_APPL_ERROR_NTAPI ∧ env.threadClear ≠ .done)

theorem replay_returned {env : ReplayEnv} {turns : Nat} {s : ReplayState}
    (h : replay env turns replayStart = .returned s) : Returns env s := by
  by_cases hnone : env.NoPacket
  · obtain ⟨calls, -, hreplay⟩ := replay_noPacket hnone replayStart
    rw [hreplay] at h
    obtain rfl := ThreadEnd.returned.inj h
    exact .noPacket hnone rfl rfl rfl
  by_cases hprepared : ∃ first fcsPresentInFile startTicks,
      Prepared env first fcsPresentInFile startTicks
  · obtain ⟨first, fcsPresentInFile, startTicks, hprepared⟩ := hprepared
    obtain ⟨s₁, hready, hreplay⟩ := replay_prepared hprepared
      (show replayStart.startTime = 0 from rfl)
    rw [hreplay] at h
    obtain ⟨hthread, hcode⟩ := replayLoop_finish h
    rw [hready.threadReady] at hthread
    rw [hready.applExitCode] at hcode
    exact .replayed hthread hcode
  · simp only [not_exists] at hprepared
    rcases replay_refused (s := replayStart) hnone hprepared with
      hfaults | ⟨s₁, hreturned, hrunning, hready, hcode, -⟩
    · rw [hfaults] at h
      cases h
    · rw [hreturned] at h
      obtain rfl := ThreadEnd.returned.inj h
      exact .refused hrunning hready hcode

/-- The run waits for ever for a buffer or for the clock. -/
def WaitsForEver (env : ReplayEnv) : Prop :=
  Starved env ∨ ∃ r c, Replays env r ∧ r.counters = some c ∧
    ∀ turns, r.await c (env.clock.take turns) = .waiting

theorem waitsForEver_of_replay {env : ReplayEnv}
    (h : ∀ turns, ∃ s, replay env turns replayStart = .waits s) :
    WaitsForEver env := by
  by_cases hnone : env.NoPacket
  · obtain ⟨calls, -, hreplay⟩ := replay_noPacket hnone replayStart
    obtain ⟨s, hwaits⟩ := h 0
    rw [hreplay] at hwaits
    cases hwaits
  by_cases hprepared : ∃ first fcsPresentInFile startTicks,
      Prepared env first fcsPresentInFile startTicks
  · obtain ⟨first, fcsPresentInFile, startTicks, hprepared⟩ := hprepared
    obtain ⟨s₁, hready, hreplay⟩ := replay_prepared hprepared
      (show replayStart.startTime = 0 from rfl)
    rcases replayLoop_settles env fcsPresentInFile env.file s₁ with
      hstarves | ⟨k, ended, hended, hloop⟩
    · rw [hready.counters] at hstarves
      exact Or.inl ⟨first, fcsPresentInFile, startTicks, hprepared, hstarves⟩
    -- behind turn k the loop is left, and what is waited for is the clock
    have hfinish : ∀ turns, k < turns →
        ∃ s, ended.finish env turns first.timestamp = .waits s := by
      intro turns hlt
      obtain ⟨s, hwaits⟩ := h turns
      exact ⟨s, by rw [← hwaits, hreplay, hloop turns hlt]⟩
    cases ended with
    | waits s₂ => exact absurd rfl (hended s₂)
    | returned s₂ =>
        obtain ⟨s, hwaits⟩ := hfinish (k + 1) (Nat.lt_succ_self k)
        cases hwaits
    | faults =>
        obtain ⟨s, hwaits⟩ := hfinish (k + 1) (Nat.lt_succ_self k)
        cases hwaits
    | left s₂ =>
        have hclock : ∀ turns, k < turns →
            Waits env turns first.timestamp s₂ := by
          intro turns hlt
          obtain ⟨s, hwaits⟩ := hfinish turns hlt
          rcases finishReplay_cases env turns first.timestamp s₂ with
            ⟨hclock, -⟩ | ⟨-, s₃, hreturned, -⟩
          · exact hclock
          · rw [LoopEnd.finish, hreturned] at hwaits
            cases hwaits
        obtain ⟨hrunning, -⟩ := hclock (k + 1) (Nat.lt_succ_self k)
        obtain ⟨r, hreplays, hcounters, hfirst, hstart⟩ := replays_of_left
          hprepared hready (hloop (k + 1) (Nat.lt_succ_self k)) hrunning
        refine Or.inr ⟨r, s₂.counters, hreplays, hcounters, fun turns => ?_⟩
        obtain ⟨-, hwait⟩ := hclock (turns + (k + 1)) (by omega)
        rw [Stream'.take_add, awaitPacketTransmission, List.map_append] at hwait
        rw [TimedReplay.await, hfirst, hstart]
        exact waitPast_waiting_of_append hwait
  · simp only [not_exists] at hprepared
    obtain ⟨s, hwaits⟩ := h 0
    rcases replay_refused (s := replayStart) hnone hprepared with
      hfaults | ⟨s₁, hreturned, -⟩
    · rw [hfaults] at hwaits
      cases hwaits
    · rw [hreturned] at hwaits
      cases hwaits

theorem replay_of_waitsForEver {env : ReplayEnv} (h : WaitsForEver env)
    (turns : Nat) : ∃ s, replay env turns replayStart = .waits s := by
  rcases h with ⟨first, fcsPresentInFile, startTicks, hprepared, hstarves⟩ |
    ⟨r, c, hreplays, hsent, hwait⟩
  · obtain ⟨s, hready, hreplay⟩ := replay_prepared hprepared
      (show replayStart.startTime = 0 from rfl)
    have hstarves' : StarvesAt fcsPresentInFile env.optSubstitute s.counters
        env.file := hready.counters ▸ hstarves
    obtain ⟨s', hwaits⟩ := replayLoop_starves hstarves' turns
    exact ⟨s', by rw [hreplay, hwaits]; rfl⟩
  · obtain ⟨s, hready, hreplay⟩ := replay_prepared hreplays.prepared
      (show replayStart.startTime = 0 from rfl)
    have hfile : replayFile r.fcsPresentInFile env.optSubstitute s.counters
        (r.firstPacket :: r.packets) = some c := by
      rw [hready.counters, ← hreplays.optSubstitute]
      exact hsent
    rcases replayLoop_through hreplays.passed hreplays.endRunning
        hreplays.endOfFile hfile turns with ⟨s', hwaits⟩ | ⟨calls, hleft⟩
    · exact ⟨s', by rw [hreplay, hwaits]; rfl⟩
    · have hwaits : Waits env turns r.firstPacket.1.timestamp
          { s with calls := calls, counters := c } := by
        refine ⟨hready.appRunning, ?_⟩
        rw [hready.startTime]
        exact hwait turns
      rw [hreplay, hleft, LoopEnd.finish]
      rcases finishReplay_cases env turns r.firstPacket.1.timestamp
          { s with calls := calls, counters := c } with ⟨-, h⟩ | ⟨hnot, -⟩
      · exact ⟨_, h⟩
      · exact absurd hwaits hnot

/-- There is never a buffer for the request. -/
def starvedReplay : ReplayEnv :=
  { arpReplay with
    file := [(arpRequest,
      ⟨true, true, true, Stream'.const (.timeout true), true, true⟩)] }

/-- The port transmits by the timestamps behind these calls. -/
def onTimestamp (calls : List ReplayCall) : Bool :=
  calls.foldl (fun mode call =>
    match call with
    | .transmitOnTimestamp _ => true
    | .transmitAtOnce => false
    | _ => mode) false

theorem clearPort_onTimestamp {turn : ClearTurn} (hturn : turn ≠ .fails)
    (s : ReplayState) : onTimestamp (clearPort turn s).2.calls = false := by
  cases turn with
  | fails => exact absurd rfl hturn
  | closeFails => simp [clearPort, ReplayState.call, onTimestamp]
  | done => simp [clearPort, ReplayState.call, onTimestamp]

/-- What an end of the program tells. -/
structure ExitTells (env : ReplayEnv) (status : Int) (s : ReplayState) :
    Prop where
  /-- Only a failed call of `main` leaves the port as it was for the replay. -/
  port : onTimestamp s.calls = true → env.mainClear = .fails
  /-- Whatever fails in the loop is not told. -/
  ready : s.threadReady = true → status = NT_APPL_SUCCESS ∨
    status = NT_APPL_ERROR_NTAPI ∧ env.threadClear ≠ .done
  /-- Without a replay there is no success, unless the file was not opened or had no
  packet. -/
  idle : s.threadReady = false → status = NT_APPL_SUCCESS →
    env.NoPacket ∧ env.stopped = true

theorem exitTells_returned {env : ReplayEnv} {turns : Nat} {status : Int}
    {s s' : ReplayState} (hreplay : replay env turns replayStart = .returned s)
    (h : mainThread env turns = .exits status s') :
    ExitTells env status s' := by
  rw [mainThread_returned hreplay] at h
  split at h
  · cases h
  rename_i hstopped
  obtain ⟨rfl, rfl⟩ := ProgramEnd.exits.inj h
  obtain ⟨-, hthread⟩ := clearPort_sentOf env.mainClear s
  have hkeeps : (clearPort env.mainClear s).2.applExitCode = s.applExitCode := by
    cases env.mainClear <;> rfl
  have hport : onTimestamp (clearPort env.mainClear s).2.calls = true →
      env.mainClear = .fails := by
    intro hport
    by_contra hclear
    rw [clearPort_onTimestamp hclear] at hport
    cases hport
  refine ⟨hport, ?_, ?_⟩
  · rw [hthread, hkeeps]
    intro hready
    cases replay_returned hreplay with
    | noPacket _ _ hnot _ => exact absurd (hready.symm.trans hnot) (by simp)
    | refused _ hnot _ => exact absurd (hready.symm.trans hnot) (by simp)
    | replayed _ hcode => exact hcode
  · rw [hthread, hkeeps]
    intro hnot hsuccess
    cases replay_returned hreplay with
    | noPacket hnone hrunning _ _ =>
        exact ⟨hnone, by simpa [hnot, hrunning] using hstopped⟩
    | refused _ _ hcode => exact absurd hsuccess hcode
    | replayed hready _ => exact absurd (hnot.symm.trans hready) (by simp)

/-- The packet that is not given back ends the loop, and the status is 0. -/
def keptReplay : ReplayEnv :=
  { arpReplay with
    file := [(arpRequest,
      ⟨true, true, true, Stream'.const (.buffer emptyTx), true, false⟩)] }

end AddrswapReplay

end NtapiExamples
