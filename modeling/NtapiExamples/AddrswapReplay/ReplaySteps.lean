/-
What each function of `addrswap_replay` can do, up to `main`, for the results about
whole runs.
-/
import NtapiExamples.AddrswapReplay.ReplayMain

namespace NtapiExamples

namespace AddrswapReplay

/-- The frames that were handed to the adapter. -/
def sentOf (calls : List ReplayCall) : List TxBuffer :=
  calls.filterMap fun call =>
    match call with
    | .send buffer => some buffer
    | _ => none

theorem sentOf_call {call : ReplayCall} (s : ReplayState)
    (hcall : sentOf [call] = []) : sentOf (s.call call).calls = sentOf s.calls := by
  have hsplit : sentOf (s.call call).calls = sentOf s.calls ++ sentOf [call] :=
    List.filterMap_append
  rw [hsplit, hcall, List.append_nil]

theorem clearPort_sentOf (turn : ClearTurn) (s : ReplayState) :
    sentOf (clearPort turn s).2.calls = sentOf s.calls ∧
      (clearPort turn s).2.threadReady = s.threadReady := by
  cases turn <;> simp [clearPort, ReplayState.call, sentOf]

theorem setupTx_sentOf (env : ReplayEnv) (s : ReplayState) :
    sentOf (setupTx env s).2.calls = sentOf s.calls ∧
      (setupTx env s).2.threadReady = s.threadReady := by
  simp only [setupTx]
  split
  · exact ⟨rfl, rfl⟩
  · split
    · exact ⟨rfl, rfl⟩
    · split
      · exact ⟨rfl, rfl⟩
      · split
        · exact ⟨rfl, rfl⟩
        · exact ⟨sentOf_call s rfl, rfl⟩

/-- `GetFileData` fails: the file is not opened, or it has no packet. -/
def ReplayEnv.NoPacket (env : ReplayEnv) : Prop :=
  env.firstOpen = false ∨ env.file = []

/-- `setup_tx` succeeds. -/
structure TxSetup.Works (a : TxSetup) : Prop where
  attributes : a.descriptorMode = true ∧ a.posFrameType = true ∧
    a.posChecksumCmd = true ∧ a.posFcs = true
  port : a.infoOpen = true ∧ a.portRead = true ∧ a.rxOnly = false ∧
    a.checksums = true
  opened : a.adapterRead = true ∧ a.netTxOpen = true

/-- The thread comes to its loop.  `startTicks` is what the adapter shows then, and
0 when it is not read. -/
structure Prepared (env : ReplayEnv) (first : FilePacket)
    (fcsPresentInFile : Bool) (startTicks : BitVec 64) : Prop where
  firstOpen : env.firstOpen = true
  firstGet : env.firstGet = true
  head : ∃ round file, env.file = (first, round) :: file
  fcs : fcsPresent first = some fcsPresentInFile
  setup : env.setup.Works
  fileOpen : env.fileOpen = true
  setPort : env.setPort = .done startTicks ∨
    env.setPort = .readFails ∧ startTicks = 0

/-- What `_Replay` does with the end of its loop. -/
def LoopEnd.finish (env : ReplayEnv) (turns : Nat) (firstPacketTS : BitVec 64) :
    LoopEnd → ThreadEnd
  | .left s => finishReplay env turns firstPacketTS s
  | .returned s => .returned s
  | .waits s => .waits s
  | .faults => .faults

theorem replay_noPacket {env : ReplayEnv} (hnone : env.NoPacket)
    (s : ReplayState) :
    ∃ calls, sentOf calls = sentOf s.calls ∧
      ∀ turns, replay env turns s = .returned { s with calls := calls } := by
  rcases hnone with hopen | hfile
  · exact ⟨s.calls, rfl, by simp [replay, getFileData, hopen]⟩
  · cases hopen : env.firstOpen with
    | false => exact ⟨s.calls, rfl, by simp [replay, getFileData, hopen]⟩
    | true =>
        exact ⟨(s.call .fileOpen).calls, sentOf_call s rfl,
          by simp [replay, getFileData, hopen, hfile, ReplayState.call]⟩

/-- The globals at the start of the loop. -/
structure Ready (s : ReplayState) (startTicks : BitVec 64) (s' : ReplayState) :
    Prop where
  sent : sentOf s'.calls = sentOf s.calls
  counters : s'.counters = s.counters
  startTime : s'.startTime = adapterTimestamp startTicks
  appRunning : s'.appRunning = s.appRunning
  threadReady : s'.threadReady = true
  applExitCode : s'.applExitCode = s.applExitCode

theorem setupTx_works {env : ReplayEnv} (hsetup : env.setup.Works)
    (s : ReplayState) : setupTx env s = (true, s.call .txOpen) := by
  obtain ⟨⟨hmode, hframe, hcmd, hfcs⟩, ⟨hinfo, hport, hrx, hsums⟩,
    hadapter, htx⟩ := hsetup
  simp [setupTx, hmode, hframe, hcmd, hfcs, hinfo, hport, hrx, hsums, hadapter,
    htx]

theorem replay_prepared {env : ReplayEnv} {first : FilePacket}
    {fcsPresentInFile : Bool} {startTicks : BitVec 64}
    (hprepared : Prepared env first fcsPresentInFile startTicks)
    {s : ReplayState} (hstart : s.startTime = 0) :
    ∃ s', Ready s startTicks s' ∧ ∀ turns,
      replay env turns s = (replayLoop env turns fcsPresentInFile env.file
        s').finish env turns first.timestamp := by
  obtain ⟨round, file, hfile⟩ := hprepared.head
  have hdata : getFileData env s = (.found fcsPresentInFile first.timestamp,
      (s.call .fileOpen).call .fileClose) := by
    simp [getFileData, hprepared.firstOpen, hprepared.firstGet, hfile,
      hprepared.fcs]
  simp only [replay, hdata, setupTx_works hprepared.setup, hprepared.fileOpen,
    Bool.not_true, Bool.false_eq_true, if_false]
  rcases hprepared.setPort with hset | ⟨hset, rfl⟩
  · refine ⟨_, ?_, fun turns => by simp only [setPort, hset]; rfl⟩
    refine ⟨?_, rfl, rfl, rfl, rfl, rfl⟩
    simp [ReplayState.call, sentOf]
  · refine ⟨_, ?_, fun turns => by simp only [setPort, hset]; rfl⟩
    refine ⟨?_, rfl, hstart, rfl, rfl, rfl⟩
    simp [ReplayState.call, sentOf]

theorem setupTx_true {env : ReplayEnv} {s : ReplayState}
    (hsetup : (setupTx env s).1 = true) : env.setup.Works := by
  simp only [setupTx] at hsetup
  split at hsetup
  · cases hsetup
  rename_i hattributes
  split at hsetup
  · cases hsetup
  rename_i hport
  split at hsetup
  · cases hsetup
  rename_i hadapter
  split at hsetup
  · cases hsetup
  rename_i hopen
  constructor <;> simp_all

/-- With a packet, a thread that does not come to its loop clears `appRunning`, or
accesses memory that is not its own. -/
theorem replay_refused {env : ReplayEnv} {s : ReplayState}
    (hpacket : ¬ env.NoPacket)
    (hrefused : ∀ first fcsPresentInFile startTicks,
      ¬ Prepared env first fcsPresentInFile startTicks) :
    (∀ turns, replay env turns s = .faults) ∨
      ∃ s', (∀ turns, replay env turns s = .returned s') ∧
      s'.appRunning = false ∧ s'.threadReady = s.threadReady ∧
      s'.applExitCode ≠ NT_APPL_SUCCESS ∧
      sentOf s'.calls = sentOf s.calls := by
  have hopen : env.firstOpen = true := by
    cases hopen : env.firstOpen with
    | false => exact absurd (Or.inl hopen) hpacket
    | true => rfl
  rcases hfile : env.file with _ | ⟨⟨first, round⟩, file⟩
  · exact absurd (Or.inr hfile) hpacket
  cases hget : env.firstGet with
  | false => exact Or.inl (by simp [replay, getFileData, hopen, hfile, hget])
  | true =>
      cases hfcs : fcsPresent first with
      | none =>
          exact Or.inl (by simp [replay, getFileData, hopen, hfile, hget, hfcs])
      | some fcsPresentInFile =>
          have hdata : getFileData env s =
              (.found fcsPresentInFile first.timestamp,
                (s.call .fileOpen).call .fileClose) := by
            simp [getFileData, hopen, hget, hfile, hfcs]
          have hconfig : NT_APPL_ERROR_CONFIG ≠ NT_APPL_SUCCESS := by decide
          have hntapi : NT_APPL_ERROR_NTAPI ≠ NT_APPL_SUCCESS := by decide
          right
          simp only [replay, hdata]
          obtain ⟨hsent, hready⟩ := setupTx_sentOf env
            ((s.call .fileOpen).call .fileClose)
          rw [sentOf_call _ rfl, sentOf_call _ rfl] at hsent
          have hworks := @setupTx_true env ((s.call .fileOpen).call .fileClose)
          rcases hsetup : setupTx env ((s.call .fileOpen).call .fileClose) with
            ⟨ok, s₁⟩
          rw [hsetup] at hsent hready hworks
          simp only at hsent hready
          cases ok with
          | false => exact ⟨_, fun _ => rfl, rfl, hready, hconfig, hsent⟩
          | true =>
              simp only
              cases hfileOpen : env.fileOpen with
              | false => exact ⟨_, fun _ => rfl, rfl, hready, hntapi, hsent⟩
              | true =>
                  have hopened : sentOf (s₁.call .fileOpen).calls =
                      sentOf s.calls :=
                    (sentOf_call s₁ rfl).trans hsent
                  have hno : ∀ startTicks,
                      env.setPort = .done startTicks ∨
                        env.setPort = .readFails ∧ startTicks = 0 → False :=
                    fun startTicks hset => hrefused first fcsPresentInFile
                      startTicks ⟨hopen, hget, ⟨round, file, hfile⟩, hfcs,
                        hworks rfl, hfileOpen, hset⟩
                  cases hset : env.setPort with
                  | done ticks => exact (hno ticks (Or.inl hset)).elim
                  | readFails => exact (hno 0 (Or.inr ⟨hset, rfl⟩)).elim
                  | fails =>
                      simp only [setPort, hset]
                      exact ⟨_, fun _ => rfl, rfl, hready, hntapi, hopened⟩
                  | closeFails ticks =>
                      simp only [setPort, hset]
                      exact ⟨_, fun _ => rfl, rfl, hready, hntapi,
                        (sentOf_call _ rfl).trans hopened⟩

/-- The packet is sent: nothing before `NT_NetTxRelease` fails, nor does that, and
the buffer comes within so many `turns`. -/
def Round.sends (turns : Nat) (round : Round) : Bool :=
  round.running && round.fileGet && round.fileRead &&
    (match txGet (round.txGets.take turns) with
      | .got _ => true
      | _ => false) && round.txRelease

/-- How a round ends the loop when it does not send. -/
inductive Stopped (s : ReplayState) : LoopEnd → Prop
  | left : Stopped s (.left { s with appRunning := false })
  | returned (appRunning : Bool) (counters : Counters) :
      Stopped s (.returned
        { s with appRunning := appRunning, counters := counters })
  | waits : Stopped s (.waits s)
  | faults : Stopped s .faults

theorem replayLoop_stops {turns : Nat} {round : Round}
    (hstop : round.sends turns = false) (env : ReplayEnv)
    (fcsPresentInFile : Bool) (pkt : FilePacket)
    (file : List (FilePacket × Round)) (s : ReplayState) :
    Stopped s
      (replayLoop env turns fcsPresentInFile ((pkt, round) :: file) s) := by
  rw [replayLoop]
  split
  · exact .left
  rename_i hrunning
  split
  · exact .returned s.appRunning s.counters
  rename_i hfile
  split
  · exact .waits
  · exact .returned false s.counters
  · exact .returned s.appRunning s.counters
  rename_i buffer hbuffer
  split
  · exact .faults
  rename_i counters tx hpacket
  simp only
  split
  · exact .returned s.appRunning counters
  · simp_all [Round.sends]

/-- A round that sends, with the buffer it is given. -/
theorem replayLoop_step {turns : Nat} {round : Round}
    (hsends : round.sends turns = true) (env : ReplayEnv)
    (fcsPresentInFile : Bool) (pkt : FilePacket)
    (file : List (FilePacket × Round)) (s : ReplayState) :
    ∃ buffer, txGet (round.txGets.take turns) = .got buffer ∧
      replayLoop env turns fcsPresentInFile ((pkt, round) :: file) s =
        match replayPacket fcsPresentInFile env.optSubstitute s.counters pkt
            buffer with
        | none => .faults
        | some (counters, tx) =>
            let s := { s with counters := counters }.call (.send tx)
            if round.fileRelease then
              replayLoop env turns fcsPresentInFile file s
            else .returned s := by
  rw [Round.sends] at hsends
  simp only [Bool.and_eq_true] at hsends
  obtain ⟨⟨⟨⟨hrunning, hget⟩, hread⟩, hbuffer⟩, hrelease⟩ := hsends
  cases hgot : txGet (round.txGets.take turns) with
  | trying => simp [hgot] at hbuffer
  | stopped => simp [hgot] at hbuffer
  | failed => simp [hgot] at hbuffer
  | got buffer =>
      refine ⟨buffer, rfl, ?_⟩
      simp only [replayLoop, hrunning, hget, hread, hgot, hrelease,
        Bool.not_true, Bool.or_self, Bool.false_eq_true, if_false]
      cases hpacket : replayPacket fcsPresentInFile env.optSubstitute
          s.counters pkt buffer with
      | none => rfl
      | some sent =>
          cases hfile : round.fileRelease with
          | false => rfl
          | true => rfl

/-- Behind the loop the thread still waits, since so far the adapter's clock has not
come to the end of the file. -/
def Waits (env : ReplayEnv) (turns : Nat) (firstPacketTS : BitVec 64)
    (s : ReplayState) : Prop :=
  s.appRunning = true ∧
    awaitPacketTransmission s.counters.lastPacketTS firstPacketTS s.startTime
      (env.clock.take turns) = .waiting

/-- What the thread leaves when it returns from behind its loop. -/
structure GivenBack (env : ReplayEnv) (s s' : ReplayState) : Prop where
  sent : sentOf s'.calls = sentOf s.calls
  ready : s'.threadReady = s.threadReady
  exitCode : s'.applExitCode = s.applExitCode ∨
    s'.applExitCode = NT_APPL_ERROR_NTAPI ∧ env.threadClear ≠ .done

theorem finishReplay_cases (env : ReplayEnv) (turns : Nat)
    (firstPacketTS : BitVec 64) (s : ReplayState) :
    Waits env turns firstPacketTS s ∧
        finishReplay env turns firstPacketTS s = .waits (s.call .fileClose) ∨
      ¬ Waits env turns firstPacketTS s ∧
        ∃ s', finishReplay env turns firstPacketTS s = .returned s' ∧
          GivenBack env s s' := by
  simp only [finishReplay]
  by_cases hwaits : Waits env turns firstPacketTS s
  · left
    refine ⟨hwaits, ?_⟩
    obtain ⟨hrunning, hwait⟩ := hwaits
    rw [if_pos]
    rw [if_pos (show (s.call .fileClose).appRunning = true from hrunning)]
    exact hwait
  · right
    refine ⟨hwaits, ?_⟩
    rw [if_neg]
    · cases hclear : env.threadClear with
      | fails =>
          refine ⟨_, rfl, ?_, rfl, Or.inr ⟨rfl, by simp [hclear]⟩⟩
          simp [ReplayState.call, sentOf]
      | closeFails =>
          refine ⟨_, rfl, ?_, rfl, Or.inr ⟨rfl, by simp [hclear]⟩⟩
          simp [ReplayState.call, sentOf]
      | done =>
          refine ⟨_, rfl, ?_, rfl, Or.inl rfl⟩
          simp [ReplayState.call, sentOf]
    · intro hwait
      split at hwait
      · rename_i hrunning
        exact hwaits ⟨hrunning, hwait⟩
      · cases hwait

/-- `main` creates the thread. -/
structure Launches (env : ReplayEnv) : Prop where
  options : env.optFile = true ∧ env.optPort = true
  ntInit : env.ntInit = true
  version : checkDriverVersion env.version = true
  capabilities : checkCapabilities env.capabilities = (true, true)
  os : env.signals = true ∧ env.threadCreate = true

theorem replayMain_launched {env : ReplayEnv} (h : Launches env)
    (turns : Nat) : replayMain env turns = mainThread env turns := by
  simp [replayMain, h.options.1, h.options.2, h.ntInit, h.version,
    h.capabilities, h.os.1, h.os.2]

theorem replayMain_notLaunched {env : ReplayEnv} (h : ¬ Launches env) :
    ∃ status, status ≠ NT_APPL_SUCCESS ∧
      ∀ turns, replayMain env turns = .exits status replayStart := by
  simp only [replayMain]
  split
  · exact ⟨_, by decide, fun _ => rfl⟩
  rename_i hoptions
  split
  · exact ⟨_, by decide, fun _ => rfl⟩
  rename_i hinit
  split
  · exact ⟨_, by decide, fun _ => rfl⟩
  rename_i hversion
  split
  · exact ⟨_, by decide, fun _ => rfl⟩
  · exact ⟨_, by decide, fun _ => rfl⟩
  rename_i hcapabilities
  split
  · exact ⟨_, by decide, fun _ => rfl⟩
  rename_i hos
  refine absurd ?_ h
  constructor <;> simp_all

/-- What `main` does behind the thread. -/
theorem mainThread_returned {env : ReplayEnv} {turns : Nat} {s : ReplayState}
    (h : replay env turns replayStart = .returned s) :
    mainThread env turns =
      if s.appRunning && !s.threadReady && !env.stopped then .runs s
      else .exits (clearPort env.mainClear s).2.applExitCode
        (clearPort env.mainClear s).2 := by
  rw [mainThread, h]

end AddrswapReplay

end NtapiExamples
