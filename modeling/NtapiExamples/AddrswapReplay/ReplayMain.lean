/-
`main` and the thread `_Replay` of `addrswap_replay.c`: the file is opened twice, the
port is told to transmit by the timestamps, and the packets of the file are handed to
the adapter until something stops the loop.
-/
import Mathlib.Data.Stream.Init
import NtapiExamples.AddrswapReplay.TransmitTime

namespace NtapiExamples

namespace AddrswapReplay

def NT_APPL_SUCCESS : Int := 0
def NT_APPL_ERROR_OPT_ARG : Int := 2
def NT_APPL_ERROR_OPT_MISSING : Int := 4
def NT_APPL_ERROR_CONFIG : Int := 5
def NT_APPL_ERROR_NTAPI : Int := 6
def NT_APPL_ERROR_OS : Int := 7

/-- What the program does to the adapter and to the file. -/
inductive ReplayCall where
  | fileOpen
  | fileClose
  | txOpen
  | txClose
  | transmitOnTimestamp (timeDelta : BitVec 64)
  | transmitAtOnce
  | send (buffer : TxBuffer)

/-- The globals of the program, and what it has done so far. -/
structure ReplayState where
  calls : List ReplayCall
  counters : Counters
  startTime : BitVec 64
  appRunning : Bool
  threadReady : Bool
  applExitCode : Int

def ReplayState.call (s : ReplayState) (call : ReplayCall) : ReplayState :=
  { s with calls := s.calls ++ [call] }

/-- How far `SetPortTransmitOnTimestamp` comes: the port is not written, the clock
of the adapter is not read, or the port is written and the stream is closed or not. -/
inductive SetTurn where
  | fails
  | readFails
  | closeFails (nativeUnixTs : BitVec 64)
  | done (nativeUnixTs : BitVec 64)

/-- How far `ClearPortTransmitOnTimestamp` comes. -/
inductive ClearTurn where
  | fails | closeFails | done
deriving DecidableEq

/-- What a call of `NT_NetTxGet` gives: a buffer, an error, or a timeout, behind
which the program is to run on or not. -/
inductive TxTurn where
  | buffer (buffer : TxBuffer)
  | error
  | timeout (appRunning : Bool)

/-- How far the program has come with `NT_NetTxGet` for a packet. -/
inductive TxGet where
  | trying
  | stopped
  | failed
  | got (buffer : TxBuffer)

/-- The loop around `NT_NetTxGet`: it tries again as long as the call times out and
the program is to run. -/
def txGet : List TxTurn → TxGet
  | [] => .trying
  | .timeout true :: turns => txGet turns
  | .timeout false :: _ => .stopped
  | .error :: _ => .failed
  | .buffer buffer :: _ => .got buffer

/-- What is answered in a round of the loop.  `running` is `appRunning` when the
round starts, and `txGets` are the answers of `NT_NetTxGet`, as often as it is
called. -/
structure Round where
  running : Bool
  fileGet : Bool
  fileRead : Bool
  txGets : Stream' TxTurn
  txRelease : Bool
  fileRelease : Bool

/-- The answers to the calls of `setup_tx`. -/
structure TxSetup where
  descriptorMode : Bool
  posFrameType : Bool
  posChecksumCmd : Bool
  posFcs : Bool
  infoOpen : Bool
  portRead : Bool
  rxOnly : Bool
  checksums : Bool
  adapterRead : Bool
  netTxOpen : Bool

/-- The answers to the calls of `CheckCapabilities`; of a port it reads whether it can
only receive. -/
structure Capabilities where
  infoOpen : Bool
  portRead : Bool
  is4GA : Bool
  ports : List (Option Bool)

/-- A run of the program: its options, the file, and what every call gives; the
`clock` is read as often as the program waits for it. -/
structure ReplayEnv where
  optFile : Bool
  optPort : Bool
  optSubstitute : Option Tree
  ntInit : Bool
  version : Option (Nat × Nat)
  capabilities : Capabilities
  signals : Bool
  threadCreate : Bool
  firstOpen : Bool
  firstGet : Bool
  setup : TxSetup
  fileOpen : Bool
  setPort : SetTurn
  file : List (FilePacket × Round)
  endRunning : Bool
  endOfFile : Bool
  clock : Stream' ClockTurn
  threadClear : ClearTurn
  stopped : Bool
  mainClear : ClearTurn

/-- `ntohs(ip->ip_len)`. -/
def Packet.ipLen (p : Packet) (ip : Nat) : Option (BitVec 32) :=
  if ip + 4 ≤ p.size then
    some ((p.byte (ip + 2) ++ p.byte (ip + 3) : BitVec 16).setWidth 32)
  else none

/-- Whether the first packet of the file is longer than its IP header says. -/
def fcsPresent (pkt : FilePacket) : Option Bool := do
  let vlanSize ← pkt.l2.vlanSize
  let ipLen ← pkt.l2.ipLen (macHeaderSize + vlanSize)
  let pktSize := ipLen + BitVec.ofNat 32 macHeaderSize
  some (pktSize + BitVec.ofNat 32 vlanSize + FCS_LENGTH < pkt.wireLength)

/-- What `GetFileData` ends with: it fails, it finds out whether there is an FCS and
the timestamp of the first packet, or it reads memory that is not its own. -/
inductive FileData where
  | failed
  | found (fcsPresentInFile : Bool) (firstPacketTS : BitVec 64)
  | faults

def getFileData (env : ReplayEnv) (s : ReplayState) : FileData × ReplayState :=
  if !env.firstOpen then (.failed, s)
  else
    let s := s.call .fileOpen
    match env.file with
    | [] => (.failed, s)
    | (pkt, _) :: _ =>
        if !env.firstGet then (.faults, s)
        else
          match fcsPresent pkt with
          | none => (.faults, s)
          | some fcs => (.found fcs pkt.timestamp, s.call .fileClose)

/-- `setup_tx`. -/
def setupTx (env : ReplayEnv) (s : ReplayState) : Bool × ReplayState :=
  let a := env.setup
  if !a.descriptorMode || !a.posFrameType || !a.posChecksumCmd || !a.posFcs then
    (false, s)
  else if !a.infoOpen || !a.portRead || a.rxOnly || !a.checksums then (false, s)
  else if !a.adapterRead then (false, s)
  else if !a.netTxOpen then
    (false,
      { s with appRunning := false, applExitCode := NT_APPL_ERROR_NTAPI })
  else (true, s.call .txOpen)

/-- `SetPortTransmitOnTimestamp`; a clock that is not read is a success. -/
def setPort (env : ReplayEnv) (firstPacketTS : BitVec 64) (s : ReplayState) :
    Bool × ReplayState :=
  let write (ticks : BitVec 64) : ReplayState :=
    let (timeDelta, startTime) := setPortTransmitOnTimestamp ticks firstPacketTS
    { s.call (.transmitOnTimestamp timeDelta) with startTime := startTime }
  match env.setPort with
  | .fails => (false, s)
  | .readFails => (true, s)
  | .closeFails ticks => (false, write ticks)
  | .done ticks => (true, write ticks)

/-- `ClearPortTransmitOnTimestamp`. -/
def clearPort (turn : ClearTurn) (s : ReplayState) : Bool × ReplayState :=
  match turn with
  | .fails => (false, s)
  | .closeFails => (false, s.call .transmitAtOnce)
  | .done => (true, s.call .transmitAtOnce)

/-- How the loop of `_Replay` ends: it is left, the thread returns out of it, or it
accesses memory that is not its own; or it still tries to get a buffer. -/
inductive LoopEnd where
  | left (s : ReplayState)
  | returned (s : ReplayState)
  | waits (s : ReplayState)
  | faults

/-- The rounds of the loop, with up to so many `turns` of `NT_NetTxGet` in each. -/
def replayLoop (env : ReplayEnv) (turns : Nat) (fcsPresentInFile : Bool) :
    List (FilePacket × Round) → ReplayState → LoopEnd
  | [], s =>
      if !env.endRunning then .left { s with appRunning := false }
      else if env.endOfFile then .left s
      else .returned s
  | (pkt, round) :: file, s =>
      if !round.running then .left { s with appRunning := false }
      else if !round.fileGet || !round.fileRead then .returned s
      else
        match txGet (round.txGets.take turns) with
        | .trying => .waits s
        | .stopped => .returned { s with appRunning := false }
        | .failed => .returned s
        | .got buffer =>
            match replayPacket fcsPresentInFile env.optSubstitute s.counters pkt
                buffer with
            | none => .faults
            | some (counters, buffer) =>
                let s := { s with counters := counters }
                if !round.txRelease then .returned s
                else
                  let s := s.call (.send buffer)
                  if !round.fileRelease then .returned s
                  else replayLoop env turns fcsPresentInFile file s

/-- How a thread of the program ends: it returns, or it accesses memory that is not
its own; or it still waits. -/
inductive ThreadEnd where
  | returned (s : ReplayState)
  | waits (s : ReplayState)
  | faults

/-- `_Replay` behind its loop. -/
def finishReplay (env : ReplayEnv) (turns : Nat) (firstPacketTS : BitVec 64)
    (s : ReplayState) : ThreadEnd :=
  let s := s.call .fileClose
  let wait :=
    if s.appRunning then
      awaitPacketTransmission s.counters.lastPacketTS firstPacketTS s.startTime
        (env.clock.take turns)
    else .interrupted
  if wait = .waiting then .waits s
  else
    match clearPort env.threadClear s with
    | (false, s) =>
        .returned { s with
          appRunning := false
          applExitCode := NT_APPL_ERROR_NTAPI }
    | (true, s) => .returned { s.call .txClose with appRunning := false }

/-- `_Replay`, with up to so many `turns` of each of its waits. -/
def replay (env : ReplayEnv) (turns : Nat) (s : ReplayState) : ThreadEnd :=
  match getFileData env s with
  | (.failed, s) => .returned s
  | (.faults, _) => .faults
  | (.found fcsPresentInFile firstPacketTS, s) =>
      match setupTx env s with
      | (false, s) =>
          .returned { s with
            appRunning := false
            applExitCode := NT_APPL_ERROR_CONFIG }
      | (true, s) =>
          if !env.fileOpen then
            .returned { s with
              appRunning := false
              applExitCode := NT_APPL_ERROR_NTAPI }
          else
            match setPort env firstPacketTS (s.call .fileOpen) with
            | (false, s) =>
                .returned { s with
                  appRunning := false
                  applExitCode := NT_APPL_ERROR_NTAPI }
            | (true, s) =>
                match replayLoop env turns fcsPresentInFile env.file
                    { s with threadReady := true } with
                | .left s => finishReplay env turns firstPacketTS s
                | .returned s => .returned s
                | .waits s => .waits s
                | .faults => .faults

/-- `checkDriverVersion`: version 3.24 or a later one. -/
def checkDriverVersion (version : Option (Nat × Nat)) : Bool :=
  match version with
  | none => false
  | some (major, minor) => if major = 3 then 24 ≤ minor else 3 < major

/-- `CheckCapabilities`: whether it succeeds, and `checksPassed`. -/
def checkCapabilities (a : Capabilities) : Bool × Bool :=
  if !a.infoOpen || !a.portRead || !a.is4GA then (false, false)
  else
    let rec ports : List (Option Bool) → Bool × Bool
      | [] => (true, true)
      | none :: _ => (false, false)
      | some true :: _ => (true, false)
      | some false :: rest => ports rest
    ports a.ports

/-- How the program ends; `runs` when it has not ended. -/
inductive ProgramEnd where
  | exits (status : Int) (s : ReplayState)
  | runs (s : ReplayState)
  | faults

def replayStart : ReplayState :=
  ⟨[], TimedReplay.startCounters, 0, true, false, NT_APPL_SUCCESS⟩

/-- `main` from the creation of the thread on.  It first waits until the thread is
ready or `appRunning` is not set any more; `stopped` is whether a signal clears it
when the thread has not. -/
def mainThread (env : ReplayEnv) (turns : Nat) : ProgramEnd :=
  match replay env turns replayStart with
  | .faults => .faults
  | .waits s => .runs s
  | .returned s =>
      if s.appRunning && !s.threadReady && !env.stopped then .runs s
      else
        let s := (clearPort env.mainClear s).2
        .exits s.applExitCode s

/-- `main`, with up to so many `turns` of each wait of its thread. -/
def replayMain (env : ReplayEnv) (turns : Nat) : ProgramEnd :=
  let stop (status : Int) : ProgramEnd := .exits status replayStart
  if !env.optFile || !env.optPort then stop NT_APPL_ERROR_OPT_MISSING
  else if !env.ntInit then stop NT_APPL_ERROR_NTAPI
  else if !checkDriverVersion env.version then stop NT_APPL_ERROR_NTAPI
  else
    match checkCapabilities env.capabilities with
    | (false, _) => stop NT_APPL_ERROR_NTAPI
    | (true, false) => stop NT_APPL_ERROR_OPT_ARG
    | (true, true) =>
        if !env.signals || !env.threadCreate then stop NT_APPL_ERROR_OS
        else mainThread env turns

end AddrswapReplay

end NtapiExamples
