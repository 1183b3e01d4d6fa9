/-
`main` of `ntnetflow.c` with the functions that set the program up and take it down:
every call that acquires or releases something outside of the program, on all the
ways through the labels.
-/
import NtapiExamples.Ntnetflow.FlowLearn
import NtapiExamples.Ntnetflow.MpmcQueue
import NtapiExamples.Ntnetflow.NtplSession
import NtapiExamples.Ntnetflow.StreamsUnused

namespace NtapiExamples

namespace Ntnetflow

def VIRTUAL_MEM_BITS : Int := 48
def FT_POWER_LB : Int := 4
def FT_POWER_UB : Int := VIRTUAL_MEM_BITS - 1
def THREAD_FLOW_COUNT : Nat := 4

/-- What the program acquires and has to release. -/
inductive Resource where
  | ntapi
  | infoStream
  | statStream
  | eventFd
  | timer
  | configStream
  | flowTable
  | programQueue
  | flowStream
  | flThread (i : Nat)
  | rxStream (i : Nat)
  | rxThread (i : Nat)
deriving DecidableEq

inductive Event where
  | acquire (resource : Resource)
  | release (resource : Resource)
deriving DecidableEq

/-- The variables `main` reads after `argparse_parse`. -/
structure Options where
  stat : Bool
  csv : Bool
  emulateProbe : Bool
  upstream : Int
  downstream : Int
  pollInterval : BitVec 64
  power : Int
  streamCount : Int
  chainSize : Int
  bucketSize : Int

/-- What `NT_StatRead` gives for one version of the flow statistics. -/
inductive StatRead where
  | success | notSupported | failed
deriving DecidableEq

/-- Where `main` waits for something that may never come: the loop that prints the
statistics, the end of a thread, and the records that `fl_deinit` drains. -/
inductive Wait where
  | statsLoop
  | flJoin (i : Nat)
  | rxJoin (i : Nat)
  | flDrain
deriving DecidableEq

/-- What the calls of a run give.  Results are those of the C functions; where one
only succeeds or fails, true is success. -/
structure Env where
  vmembits : Int
  ntInit : Int
  infoOpen : Bool
  numPorts : Int
  /-- What `info_read_port` delivers at each call, when it does. -/
  portAdapter : Nat → Option (BitVec 32)
  statOpen : Bool
  statRead : Nat → StatRead
  property : Text → Option Int
  /-- `info_adapter_timestamp_type`, with the type that the number stands for. -/
  timestampType : Int
  timestamp : TimestampType
  /-- What `info_read_streams` delivers, and `streams` before that. -/
  activeStreams : Option (List Nat)
  streams : Nat → Nat
  sigaction : Nat → Bool
  eventfd : Int
  statsSigaction : Bool
  sigprocmask : Nat → Bool
  timerCreate : Bool
  timerSettime : Bool
  configOpen : Bool
  pid : BitVec 32
  ntpl : Nat → NtplAnswer
  common : List Text
  config : List Text
  stack : Nat → Char
  calloc : Nat → Nat → Option Nat
  memalign : Option (BitVec 32 → QueueCell)
  flowOpen : Bool
  flThread : Nat → Int
  rxOpen : Nat → Bool
  rxThread : Nat → Int
  /-- Which waits come to an end. -/
  ends : Wait → Bool

/-- Where `main` turns to its labels, or `finished`. -/
inductive Stop where
  | memBits | statAndCsv | ntInit | infoOpen | numPorts | upstream | downstream
  | adapters | statOpen | statRead | flowVersion | flowStatusRead
  | flowStatusDisabled | timestampRead | timestampType | streamCount | power
  | chainSize | bucketSize | streamsRead | fewStreams | signal | statsInit
  | statsStart | configOpen | ntplCommon | ntplApply | ftInit | programQueue
  | flowOpen | flThreads | rxOpen | rxThreads | finished
deriving DecidableEq

/-- What happened so far. -/
structure Shell where
  log : List Event
  ntpl : NtplState

/-- The end of `main`: its result, and the state it left the threads to, if it
started them. -/
structure MainEnd where
  stop : Stop
  status : Int
  shell : Shell
  started : Option (FlConfig × MpmcQueue × Sys)

def Shell.acquire (s : Shell) (resource : Resource) : Shell :=
  { s with log := s.log ++ [.acquire resource] }

def Shell.release (s : Shell) (resource : Resource) : Shell :=
  { s with log := s.log ++ [.release resource] }

/-- The result of `info_port_adapter_no` at a call, as `main` compares it: a read
that fails counts as an adapter too. -/
def Env.adapterNo (env : Env) (call : Nat) : BitVec 32 :=
  (env.portAdapter call).getD (-1)

/-- `fs_init` behind `NT_StatOpen`: the loop from `flowstat_version` down.  The
result of the loop and the version it ends with. -/
def fsDetect (env : Env) : Nat → Int × Int
  | 0 => (0, -1)
  | version + 1 =>
      match env.statRead version with
      | .success => (0, version)
      | .notSupported => fsDetect env version
      | .failed => (-1, version)

/-- `settings` of `info_adapter_flowstatus_enabled`, and whether the name has
"Probe" in it. -/
def flowStatusSettings : List (Text × Bool) :=
  [("FlowStatusLearnDone".toList, false), ("FlowStatusLearnFail".toList, false),
    ("FlowStatusLearnIgnore".toList, false),
    ("FlowStatusUnlearnDone".toList, false),
    ("FlowStatusUnlearnIgnore".toList, false),
    ("FlowStatusProbeDone".toList, true),
    ("FlowStatusProbeIgnore".toList, true)]

def flowStatusLoop (env : Env) (probeSupported : Bool) :
    List (Text × Bool) → Int → Int
  | [], enabled => enabled
  | (name, probe) :: rest, enabled =>
      if !probeSupported && probe then
        flowStatusLoop env probeSupported rest enabled
      else match env.property name with
        | none => -1
        | some i => flowStatusLoop env probeSupported rest
            (if enabled ≠ 0 ∧ i ≠ 0 then 1 else 0)

/-- `info_adapter_flowstatus_enabled`. -/
def infoAdapterFlowstatusEnabled (env : Env) (probeSupported : Bool) : Int :=
  flowStatusLoop env probeSupported flowStatusSettings 1

/-- `signal_init`. -/
def signalInit (env : Env) (s : Shell) : Shell × Int :=
  if env.sigaction 0 && env.sigaction 1 && env.sigaction 2 then
    (if 0 ≤ env.eventfd then s.acquire .eventFd else s, env.eventfd)
  else (s, -1)

/-- `stats_init`; `sigprocmask` is called once by it and once by `stats_start`. -/
def statsInit (env : Env) (s : Shell) : Shell × Bool :=
  if !env.statsSigaction then (s, false)
  else if !env.sigprocmask 0 then (s, false)
  else if !env.timerCreate then (s, false)
  else if !env.timerSettime then
    ((s.acquire .timer).release .timer, false)
  else (s.acquire .timer, true)

/-- The loop over `pthread_create` from thread `i` on; no error it returns is
negative, and then no thread is there. -/
def createLoop (create : Nat → Int) (thread : Nat → Resource) :
    Nat → Nat → Shell → Shell × Bool
  | 0, _, s => (s, true)
  | count + 1, i, s =>
      if create i < 0 then (s, false)
      else createLoop create thread count (i + 1)
        (if create i = 0 then s.acquire (thread i) else s)

/-- `fl_init`; what it has not released when it fails, it leaves. -/
def flInit (env : Env) (s : Shell) : Shell × Option Stop :=
  match mpmcQueueInit env.memalign (BitVec.ofNat 32 QUEUE_SIZE) with
  | none => (s, some .programQueue)
  | some _ =>
      let s := s.acquire .programQueue
      if !env.flowOpen then (s, some .flowOpen)
      else
        let s := s.acquire .flowStream
        match createLoop env.flThread .flThread THREAD_FLOW_COUNT 0 s with
        | (s, true) => (s, none)
        | (s, false) => (s.release .flowStream, some .flThreads)

/-- The first loop of `rx_init` from stream `i` on, with `rx_stream_count`. -/
def rxOpenLoop (env : Env) : Nat → Nat → Shell → Shell × Nat × Bool
  | 0, i, s => (s, i, true)
  | count + 1, i, s =>
      if !env.rxOpen i then (s, i, false)
      else rxOpenLoop env count (i + 1) (s.acquire (.rxStream i))

/-- A loop that releases the resources below `count`, the first one first. -/
def releaseEach (resource : Nat → Resource) (count : Nat) (s : Shell) : Shell :=
  (List.range count).foldl (fun s i => s.release (resource i)) s

/-- `rx_init`. -/
def rxInit (env : Env) (count : Nat) (s : Shell) : Shell × Option Stop :=
  match rxOpenLoop env count 0 s with
  | (s, opened, false) => (releaseEach .rxStream opened s, some .rxOpen)
  | (s, _, true) =>
      match createLoop env.rxThread .rxThread count 0 s with
      | (s, true) => (s, none)
      | (s, false) => (s, some .rxThreads)

/-- `fl_join` and `rx_join`: the threads below `count` are joined, whether they are
there or not. -/
def joinEach (env : Env) (wait : Nat → Wait) (thread : Nat → Resource)
    (count : Nat) (s : Shell) : Option Shell :=
  (List.range count).foldlM (fun s i =>
    if env.ends (wait i) then some (s.release (thread i)) else none) s

def labelDone (s : Shell) : Shell := s.release .ntapi

def labelDeinitInfo (s : Shell) : Shell := labelDone (s.release .infoStream)

/-- `stat_stream` is set when `main` comes here. -/
def labelDeinitFs (s : Shell) : Shell :=
  labelDeinitInfo (s.release .statStream)

def labelDeinitSignal (s : Shell) : Shell :=
  labelDeinitFs (s.release .eventFd)

/-- `stats_deinit` deletes the timer, whether there is one or not. -/
def labelDeinitStats (s : Shell) : Shell :=
  labelDeinitSignal (s.release .timer)

def labelDeinitNtpl (env : Env) (s : Shell) : Option Shell :=
  (ntplDeinit env.ntpl s.ntpl).map fun ntpl =>
    labelDeinitStats (Shell.release { s with ntpl := ntpl } .configStream)

/-- `deinit_fl`, and `deinit_ft`, which does not free the table. -/
def labelDeinitFl (env : Env) (s : Shell) : Option Shell :=
  let s := s.release .programQueue
  if env.ends .flDrain then labelDeinitNtpl env (s.release .flowStream)
  else none

/-- `main` from `ft_init` on. -/
def mainFlows (o : Options) (env : Env) (probe : Bool) (count : Nat)
    (s : Shell) : Option MainEnd :=
  match FlowTable.ftInit env.calloc o.power.toNat o.chainSize.toNat
      o.bucketSize.toNat with
  | none => (labelDeinitNtpl env s).map fun s =>
      ⟨.ftInit, env.timestampType, s, none⟩
  | some table =>
      let s := s.acquire .flowTable
      match flInit env s with
      | (s, some stop) => (labelDeinitNtpl env s).map fun s =>
          ⟨stop, env.timestampType, s, none⟩
      | (s, none) =>
          let flJoin := joinEach env .flJoin .flThread THREAD_FLOW_COUNT
          match rxInit env count s with
          | (s, some stop) => do
              let s ← labelDeinitFl env (← flJoin s)
              some ⟨stop, env.timestampType, s, none⟩
          | (s, none) =>
              if env.ends .statsLoop then do
                let s ← joinEach env .rxJoin .rxThread count (← flJoin s)
                let s ← labelDeinitFl env (releaseEach .rxStream count s)
                some ⟨.finished, 0, s,
                  (mpmcQueueInit env.memalign (BitVec.ofNat 32 QUEUE_SIZE)).map
                    fun queue => (⟨!o.emulateProbe && probe, o.pollInterval⟩,
                      queue, sysStart table)⟩
              else none

/-- The arguments of `ntpl_apply`. -/
def ntplArgs (o : Options) (env : Env) (streams : List (BitVec 32)) : NtplArgs :=
  ⟨env.pid, streams, BitVec.ofInt 32 o.upstream, BitVec.ofInt 32 o.downstream,
    env.stack⟩

/-- `main` from `ntpl_init` on. -/
def mainNtpl (o : Options) (env : Env) (probe : Bool)
    (streams : List (BitVec 32)) (s : Shell) : Option MainEnd :=
  let args := ntplArgs o env streams
  if !env.configOpen then
    some ⟨.configOpen, env.timestampType, labelDeinitStats s, none⟩
  else
    let s := s.acquire .configStream
    match ntplCommonApply env.ntpl args.pid env.common s.ntpl with
    | none => none
    | some (ntpl, status) =>
        let s := { s with ntpl := ntpl }
        if status < 0 then (labelDeinitNtpl env s).map fun s =>
          ⟨.ntplCommon, env.timestampType, s, none⟩
        else match ntplApply env.ntpl args env.config s.ntpl with
          | none => none
          | some (ntpl, status) =>
              let s := { s with ntpl := ntpl }
              if status < 0 then (labelDeinitNtpl env s).map fun s =>
                ⟨.ntplApply, env.timestampType, s, none⟩
              else mainFlows o env probe streams.length s

/-- `main` from `stats_init` on. -/
def mainStats (o : Options) (env : Env) (probe : Bool)
    (streams : List (BitVec 32)) (s : Shell) : Option MainEnd :=
  if o.stat || o.csv then
    match statsInit env s with
    | (s, false) =>
        some ⟨.statsInit, env.timestampType, labelDeinitSignal s, none⟩
    | (s, true) =>
        if !env.sigprocmask 1 then
          some ⟨.statsStart, env.timestampType, labelDeinitSignal s, none⟩
        else mainNtpl o env probe streams s
  else mainNtpl o env probe streams s

/-- `main` from the checks of the options on. -/
def mainOptions (o : Options) (env : Env) (probe : Bool) (s : Shell) :
    Option MainEnd :=
  let stop (stop : Stop) (s : Shell) : Option MainEnd :=
    some ⟨stop, env.timestampType, labelDeinitFs s, none⟩
  if o.streamCount < 1 ∨ 128 < o.streamCount then stop .streamCount s
  else if o.power < FT_POWER_LB ∨ FT_POWER_UB < o.power then stop .power s
  else if o.chainSize < 1 ∨ 32 < o.chainSize then stop .chainSize s
  else if o.bucketSize < 1 ∨ 32 < o.bucketSize ∨
      o.bucketSize.toNat &&& (o.bucketSize - 1).toNat ≠ 0 then
    stop .bucketSize s
  else
    let (count, streams) := infoStreamsUnused env.activeStreams
      o.streamCount.toNat env.streams
    if count < 0 then stop .streamsRead s
    else if count < o.streamCount then stop .fewStreams s
    else
      let (s, efd) := signalInit env s
      if efd < 0 then stop .signal s
      else
        mainStats o env probe
          ((List.range count.toNat).map fun i => BitVec.ofNat 32 (streams i)) s

/-- `main` from `fs_init` on. -/
def mainAdapter (o : Options) (env : Env) (s : Shell) : Option MainEnd :=
  if !env.statOpen then
    some ⟨.statOpen, env.numPorts, labelDeinitInfo s, none⟩
  else
    let s := s.acquire .statStream
    let (detected, flowstatVersion) := fsDetect env 3
    let probe : Bool := decide (2 ≤ flowstatVersion)
    let flowStatus := infoAdapterFlowstatusEnabled env probe
    let stop (stop : Stop) (status : Int) : Option MainEnd :=
      some ⟨stop, status, labelDeinitFs s, none⟩
    if detected < 0 then
      some ⟨.statRead, env.numPorts, labelDeinitInfo s, none⟩
    else if flowstatVersion < 0 then stop .flowVersion env.numPorts
    else if flowStatus < 0 then stop .flowStatusRead flowStatus
    else if flowStatus = 0 then stop .flowStatusDisabled 0
    else if env.timestampType < 0 then stop .timestampRead env.timestampType
    else if env.timestamp = .other then stop .timestampType env.timestampType
    else mainOptions o env probe s

/-- `main` with its options parsed; `none` when it waits for ever. -/
def main (o : Options) (env : Env) : Option MainEnd :=
  let s : Shell := ⟨[], ⟨[], []⟩⟩
  if env.vmembits ≠ VIRTUAL_MEM_BITS ∧ 0 ≤ env.vmembits then
    some ⟨.memBits, 1, s, none⟩
  else if o.stat && o.csv then some ⟨.statAndCsv, 1, s, none⟩
  else if env.ntInit ≠ 0 then some ⟨.ntInit, env.ntInit, s, none⟩
  else
    let s := s.acquire .ntapi
    if !env.infoOpen then some ⟨.infoOpen, 0, labelDone s, none⟩
    else
      let s := s.acquire .infoStream
      let stop (stop : Stop) : Option MainEnd :=
        some ⟨stop, env.numPorts, labelDeinitInfo s, none⟩
      if env.numPorts < 0 then stop .numPorts
      else if o.upstream < 0 ∨ env.numPorts - 1 < o.upstream then
        stop .upstream
      else if o.downstream < 0 ∨ env.numPorts - 1 < o.downstream then
        stop .downstream
      else if env.adapterNo 0 ≠ env.adapterNo 1 then
        stop .adapters
      else mainAdapter o env s

end Ntnetflow

end NtapiExamples
