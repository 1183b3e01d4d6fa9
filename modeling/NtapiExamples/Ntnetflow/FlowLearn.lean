/-
`flowlearn.c`: the threads that program the adapter, read its records and poll
the learnt flows, together with the receive threads of `rx.c`.  One step is one
atomic flag operation, one section under `poll_mutex`, one push or pull of the
program queue, one flow table call or one adapter call.  The build defines
NDEBUG, so no assertion is checked.  Threads may stop at any time, which needs
no step of its own.
-/
import NtapiExamples.Ntnetflow.Rx

namespace NtapiExamples

namespace Ntnetflow

def FLOW_FLAGS_UNLEARN : BitVec 32 := bit 32 0
def FLOW_FLAGS_LEARN : BitVec 32 := bit 32 1
def FLOW_FLAGS_REFRESH : BitVec 32 := bit 32 2
def FLOW_FLAGS_PROBE : BitVec 32 := bit 32 3
def FLOW_FLAGS_TRACK : BitVec 32 := bit 32 4
def FLOW_FLAGS_SOFTWARE : BitVec 32 := bit 32 7
def FLOW_FLAGS_UNLEARN_PENDING : BitVec 32 := bit 32 8
def FLOW_FLAGS_LEARN_PENDING : BitVec 32 := bit 32 9
def FLOW_FLAGS_REFRESH_PENDING : BitVec 32 := bit 32 10
def FLOW_FLAGS_PROBE_PENDING : BitVec 32 := bit 32 11

def FLOW_FLAGS_CLEAR : BitVec 32 :=
  ~~~(FLOW_FLAGS_UNLEARN ||| FLOW_FLAGS_LEARN ||| FLOW_FLAGS_REFRESH |||
    FLOW_FLAGS_PROBE ||| FLOW_FLAGS_UNLEARN_PENDING |||
    FLOW_FLAGS_LEARN_PENDING ||| FLOW_FLAGS_REFRESH_PENDING |||
    FLOW_FLAGS_PROBE_PENDING)

def QUEUE_SIZE : Nat := 2 ^ 24
def POLL_THROTTLE_MASK : BitVec 32 := 0xffffffff#32

/-- The operations `fl_program` queues (`FL_OP_*`). -/
inductive FlOp where
  | unlearn | learn | probe | refresh
deriving DecidableEq, Repr

/-- The `op` values of the commands written to the adapter: 0, 1 and 3. -/
inductive FlowCommand where
  | unlearn | learn | probe
deriving DecidableEq, Repr

/-- The flags of a status record (`NT_FLOW_STAT_*`). -/
inductive FlowStatus where
  | lds | lfs | lis | uds | uis | rds | ris | pds | pis | other
deriving DecidableEq, Repr

/-- The arguments of `fl_init` that the threads read. -/
structure FlConfig where
  hwProbe : Bool
  pollInterval : BitVec 64

/-- Where a receive thread stands in `rx_process`. -/
inductive RxPc where
  | idle
  | add (streamId : BitVec 32) (packet : Packet)
  | learn (e : EntryPtr) (packet : Packet)
  | count (e : EntryPtr) (packet : Packet)

/-- Where `fl_program_main` stands; `flags` is what its fetch-or returned. -/
inductive ProgramPc where
  | idle
  | handle (op : FlOp) (e : EntryPtr)
  | ref (e : EntryPtr) (flags : BitVec 32)
  | addPoll (e : EntryPtr) (flags : BitVec 32)
  | skip (e : EntryPtr) (flags : BitVec 32)
  | write (e : EntryPtr) (command : FlowCommand)
  | exited

inductive StatusPc where
  | idle
  | skip (e : EntryPtr) (count : Int)

inductive RecordPc where
  | idle
  | update (e : EntryPtr) (info : NtFlowInfo) (flags : BitVec 32)
  | probe (e : EntryPtr)
  | push (e : EntryPtr) (op : FlOp)
  | track (e : EntryPtr)

inductive PollPc where
  | asleep
  | next
  | skip (e : EntryPtr)
  | flags (e : EntryPtr)
  | push (e : EntryPtr) (op : FlOp)
  | remove (e : EntryPtr)
  | deref (e : EntryPtr)

/-- The variables under `poll_mutex`. -/
structure PollState where
  head : Option EntryPtr
  current : BitVec 64
  offset : BitVec 32
  opCount : BitVec 32

/-- What happened so far; no step reads it. -/
structure History where
  inserted : List EntryPtr
  members : List EntryPtr
  written : List (EntryPtr × FlowCommand)
  answered : List (EntryPtr × FlowCommand)

/-- The threads and what they share. -/
structure Sys where
  table : FlowTable
  poll : PollState
  queue : List (FlOp × EntryPtr)
  rx : Nat → RxPc
  program : ProgramPc
  status : StatusPc
  record : RecordPc
  poller : PollPc
  history : History

/-- `atomic_fetch_or_explicit(&entry->flags, mask)` with the old flags. -/
def fetchOr (t : FlowTable) (e : EntryPtr) (mask : BitVec 32) :
    Option (FlowTable × BitVec 32) :=
  (t.modifyEntry e fun entry =>
    { entry with flags := entry.flags ||| mask }).map fun t' =>
      (t', (t.entry e).flags)

/-- `atomic_fetch_and_explicit(&entry->flags, mask)` with the old flags. -/
def fetchAnd (t : FlowTable) (e : EntryPtr) (mask : BitVec 32) :
    Option (FlowTable × BitVec 32) :=
  (t.modifyEntry e fun entry =>
    { entry with flags := entry.flags &&& mask }).map fun t' =>
      (t', (t.entry e).flags)

/-- `atomic_fetch_add_explicit(&entry->poll.skip, count)`. -/
def skipAdd (t : FlowTable) (e : EntryPtr) (count : Int) : Option FlowTable :=
  t.modifyEntry e fun entry =>
    { entry with poll := { entry.poll with skip := entry.poll.skip + count } }

def setNext (t : FlowTable) (e : EntryPtr) (next : Option EntryPtr) :
    Option FlowTable :=
  t.modifyEntry e fun entry =>
    { entry with poll := { entry.poll with next := next } }

def setPrev (t : FlowTable) (e : EntryPtr) (prev : Option EntryPtr) :
    Option FlowTable :=
  t.modifyEntry e fun entry =>
    { entry with poll := { entry.poll with prev := prev } }

def setNextUpdate (t : FlowTable) (e : EntryPtr) (nextUpdate : BitVec 64) :
    Option FlowTable :=
  t.modifyEntry e fun entry =>
    { entry with poll := { entry.poll with nextUpdate := nextUpdate } }

/-- `fl_remove_poll`. -/
def flRemovePoll (t : FlowTable) (poll : PollState) (e : EntryPtr) :
    Option (FlowTable × PollState) := do
  let head := if poll.head = some e then
      if (t.entry e).poll.next = some e then none else (t.entry e).poll.next
    else poll.head
  let prev ← (t.entry e).poll.prev
  let t ← setNext t prev (t.entry e).poll.next
  let next ← (t.entry e).poll.next
  let t ← setPrev t next (t.entry e).poll.prev
  some (t, { poll with head := head, opCount := poll.opCount + 1#32 })

/-- The links `fl_add_poll` sets, with the new `poll_head`. -/
def linkPoll (t : FlowTable) (head : Option EntryPtr) (e : EntryPtr) :
    Option (FlowTable × Option EntryPtr) :=
  match head with
  | none => do
      let t ← setNext t e (some e)
      let t ← setPrev t e (some e)
      some (t, some e)
  | some h => do
      let t ← setNext t e (some h)
      let t ← setPrev t e (t.entry h).poll.prev
      let prev ← (t.entry e).poll.prev
      let t ← setNext t prev (some e)
      let t ← setPrev t h (some e)
      some (t, some h)

/-- `fl_add_poll`, whose two assertions on the links are not compiled in. -/
def flAddPoll (cfg : FlConfig) (t : FlowTable) (poll : PollState)
    (e : EntryPtr) : Option (FlowTable × PollState) := do
  let (t, head) ← linkPoll t poll.head e
  let opCount := poll.opCount + 1#32
  let offset := if opCount &&& POLL_THROTTLE_MASK = 0#32
    then poll.offset + 1#32 else poll.offset
  let t ← setNextUpdate t e
    (poll.current + cfg.pollInterval + offset.setWidth 64)
  some (t, { poll with head := head, offset := offset, opCount := opCount })

/-- `fl_program` with the answer of `mpmc_queue_push_wait`, which waits while
the queue is full and fails only on shutdown. -/
def flProgram (s : Sys) (e : EntryPtr) (op : FlOp) (success : Bool) :
    Option Sys :=
  if !success then some s
  else if s.queue.length < QUEUE_SIZE then
    some { s with
      queue := s.queue ++ [(op, e)]
      table := s.table.statsUpdate .queue 1 }
  else none

def setRx (s : Sys) (thread : Nat) (pc : RxPc) : Sys :=
  { s with rx := Function.update s.rx thread pc }

def stepRxLookup (s : Sys) (thread : Nat) (streamId : BitVec 32)
    (packet : Packet) : Option Sys :=
  match s.rx thread with
  | .idle =>
      if packet.handled then
        match rxLookup s.table packet with
        | none => none
        | some none => some (setRx s thread (.add streamId packet))
        | some (some e) => some (setRx s thread (.count e packet))
      else some s
  | _ => none

def stepRxAdd (s : Sys) (thread : Nat) (alloc : Option Nat) : Option Sys :=
  match s.rx thread with
  | .add streamId packet => do
      let (t, e) ← rxAdd s.table alloc streamId packet
      some (setRx { s with table := t } thread
        (if test packet.color FLOW_COLOR_MISS then .learn e packet
          else .count e packet))
  | _ => none

def stepRxPush (s : Sys) (thread : Nat) (success : Bool) : Option Sys :=
  match s.rx thread with
  | .learn e packet => do
      let s ← flProgram s e .learn success
      some (setRx s thread (.count e packet))
  | _ => none

def stepRxCount (s : Sys) (thread : Nat) : Option Sys :=
  match s.rx thread with
  | .count e packet => do
      let t ← rxCount s.table e packet
      some (setRx { s with table := t } thread .idle)
  | _ => none

def stepProgramPull (s : Sys) : Option Sys :=
  match s.program, s.queue with
  | .idle, (op, e) :: queue =>
      some { s with
        queue := queue
        program := .handle op e
        table := s.table.statsUpdate .queue (-1) }
  | _, _ => none

/-- The flags an operation sets. -/
def opFlags : FlOp → BitVec 32
  | .probe => FLOW_FLAGS_PROBE ||| FLOW_FLAGS_PROBE_PENDING ||| FLOW_FLAGS_TRACK
  | .unlearn => FLOW_FLAGS_UNLEARN ||| FLOW_FLAGS_UNLEARN_PENDING
  | .refresh =>
      FLOW_FLAGS_REFRESH ||| FLOW_FLAGS_REFRESH_PENDING ||| FLOW_FLAGS_TRACK
  | .learn => FLOW_FLAGS_LEARN ||| FLOW_FLAGS_LEARN_PENDING ||| FLOW_FLAGS_TRACK

/-- `sw_probe_flag`. -/
def swProbeFlag (cfg : FlConfig) : BitVec 32 :=
  if cfg.hwProbe then 0#32 else FLOW_FLAGS_PROBE

/-- An operation is dropped when the same one is already under way. -/
def opSkipped (cfg : FlConfig) (op : FlOp) (flags : BitVec 32) : Bool :=
  match op with
  | .probe => false
  | .unlearn => test flags (FLOW_FLAGS_UNLEARN ||| swProbeFlag cfg)
  | .refresh => test flags FLOW_FLAGS_REFRESH
  | .learn => test flags FLOW_FLAGS_LEARN

/-- What `fl_program_main` does after its fetch-or returned `flags`. -/
def programNext (cfg : FlConfig) (op : FlOp) (e : EntryPtr)
    (flags : BitVec 32) : ProgramPc :=
  if opSkipped cfg op flags then .idle
  else match op with
    | .probe => .write e (if cfg.hwProbe then .probe else .unlearn)
    | .unlearn => .write e .unlearn
    | .refresh => .write e .learn
    | .learn =>
        if test flags FLOW_FLAGS_TRACK then .skip e flags else .ref e flags

def stepProgramFlags (cfg : FlConfig) (s : Sys) : Option Sys :=
  match s.program with
  | .handle op e => do
      let (t, flags) ← fetchOr s.table e (opFlags op)
      some { s with table := t, program := programNext cfg op e flags }
  | _ => none

def stepProgramRef (s : Sys) : Option Sys :=
  match s.program with
  | .ref e flags => do
      let t ← s.table.ftRef e 1
      some { s with table := t, program := .addPoll e flags }
  | _ => none

def stepProgramAddPoll (cfg : FlConfig) (s : Sys) : Option Sys :=
  match s.program with
  | .addPoll e flags => do
      let (t, poll) ← flAddPoll cfg s.table s.poll e
      some { s with
        table := t
        poll := poll
        program := .skip e flags
        history := { s.history with
          inserted := e :: s.history.inserted
          members := e :: s.history.members } }
  | _ => none

def stepProgramSkip (s : Sys) : Option Sys :=
  match s.program with
  | .skip e flags => do
      let t ← if flags ≠ FLOW_FLAGS_LEARN_PENDING then skipAdd s.table e 1
        else some s.table
      some { s with table := t, program := .write e .learn }
  | _ => none

/-- `NT_FlowWrite`; the thread ends when it fails. -/
def stepProgramWrite (s : Sys) (success : Bool) : Option Sys :=
  match s.program with
  | .write e command =>
      if success then
        some { s with
          program := .idle
          history := { s.history with
            written := (e, command) :: s.history.written } }
      else some { s with program := .exited }
  | _ => none

/-- The kind of command a status record answers. -/
def FlowStatus.answers : FlowStatus → Option FlowCommand
  | .lds | .lfs | .lis => some .learn
  | .uds | .uis => some .unlearn
  | .pds | .pis => some .probe
  | .rds | .ris | .other => none

/-- The flags a status record clears; `none` for the records without effect. -/
def statusClears (cfg : FlConfig) : FlowStatus → Option (BitVec 32)
  | .lds => some (FLOW_FLAGS_SOFTWARE ||| FLOW_FLAGS_REFRESH |||
      FLOW_FLAGS_REFRESH_PENDING ||| FLOW_FLAGS_LEARN_PENDING)
  | .lfs => some (FLOW_FLAGS_TRACK ||| FLOW_FLAGS_REFRESH_PENDING |||
      FLOW_FLAGS_LEARN_PENDING)
  | .uds => some (FLOW_FLAGS_UNLEARN_PENDING |||
      if cfg.hwProbe then 0#32 else FLOW_FLAGS_PROBE_PENDING)
  | _ => none

/-- What a status record takes off `poll.skip`, given the old flags. -/
def statusSkip (kind : FlowStatus) (flags : BitVec 32) : Int :=
  match kind with
  | .lds => (if test flags FLOW_FLAGS_REFRESH_PENDING then 1 else 0) +
      (if test flags FLOW_FLAGS_LEARN_PENDING then 1 else 0)
  | _ => 1

/-- `LDS` counts a refresh when one was pending. -/
def statusStats (t : FlowTable) (kind : FlowStatus) (flags : BitVec 32) :
    FlowTable :=
  if kind = .lds ∧ test flags FLOW_FLAGS_REFRESH_PENDING then
    t.statsUpdate .refresh 1
  else t

/-- The adapter delivers a status record for an entry it was given. -/
def stepStatusFlags (cfg : FlConfig) (s : Sys) (e : EntryPtr)
    (kind : FlowStatus) : Option Sys :=
  match s.status with
  | .idle =>
      if e ∈ s.history.written.map Prod.fst then
        let history := { s.history with
          answered := (kind.answers.toList.map fun command => (e, command)) ++
            s.history.answered }
        match statusClears cfg kind with
        | none => some { s with history := history }
        | some mask => do
            let (t, flags) ← fetchAnd s.table e (~~~mask)
            some { s with
              table := statusStats t kind flags
              status := .skip e (statusSkip kind flags)
              history := history }
      else none
  | _ => none

def stepStatusSkip (s : Sys) : Option Sys :=
  match s.status with
  | .skip e count => do
      let t ← skipAdd s.table e (-count)
      some { s with table := t, status := .idle }
  | _ => none

/-- The adapter delivers an info record for an entry it was given. -/
def stepRecordFlags (s : Sys) (e : EntryPtr) (info : NtFlowInfo) : Option Sys :=
  match s.record with
  | .idle =>
      if e ∈ s.history.written.map Prod.fst then do
        let (t, flags) ← fetchOr s.table e FLOW_FLAGS_SOFTWARE
        some { s with table := t, record := .update e info flags }
      else none
  | _ => none

/-- `sw_probe` of an info record. -/
def recordSwProbe (cfg : FlConfig) (info : NtFlowInfo) (flags : BitVec 32) :
    Bool :=
  !cfg.hwProbe && info.cause == 0#8 && test flags FLOW_FLAGS_PROBE

/-- What `fl_record_main` does once the counters are updated. -/
def recordNext (cfg : FlConfig) (e : EntryPtr) (info : NtFlowInfo)
    (changed : Bool) (flags : BitVec 32) : RecordPc :=
  if info.cause = 0#8 then
    if recordSwProbe cfg info flags && !test flags FLOW_FLAGS_UNLEARN
    then .probe e else .track e
  else if info.cause = 4#8 then
    if !changed then .push e .unlearn else .idle
  else .track e

def stepRecordUpdate (cfg : FlConfig) (s : Sys) : Option Sys :=
  match s.record with
  | .update e info flags => do
      let changed := (fiUpdate (s.table.entry e).info info).2
      let t ← s.table.modifyEntry e fun entry =>
        { entry with info := (fiUpdate entry.info info).1 }
      let t := if recordSwProbe cfg info flags || info.cause == 4#8
        then t.statsUpdate .probe 1 else t
      some { s with table := t, record := recordNext cfg e info changed flags }
  | _ => none

def stepRecordProbe (s : Sys) : Option Sys :=
  match s.record with
  | .probe e => do
      let (t, _) ← fetchAnd s.table e (~~~FLOW_FLAGS_PROBE_PENDING)
      some { s with table := t, record := .push e .refresh }
  | _ => none

def stepRecordPush (s : Sys) (success : Bool) : Option Sys :=
  match s.record with
  | .push e op => do
      let s ← flProgram s e op success
      some { s with record := .idle }
  | _ => none

def stepRecordTrack (s : Sys) : Option Sys :=
  match s.record with
  | .track e => do
      let (t, _) ← fetchAnd s.table e (~~~FLOW_FLAGS_TRACK)
      some { s with table := t, record := .idle }
  | _ => none

def stepPollTick (s : Sys) : Option Sys :=
  match s.poller with
  | .asleep =>
      some { s with
        poll := { s.poll with current := s.poll.current + 1#64, opCount := 0#32 }
        poller := .next }
  | _ => none

/-- The section that moves `poll_head` on. -/
def stepPollNext (cfg : FlConfig) (s : Sys) : Option Sys :=
  match s.poller with
  | .next =>
      match s.poll.head with
      | none => some { s with poller := .asleep }
      | some head =>
          if s.table.valid head.bucket = false then none
          else if s.poll.current < (s.table.entry head).poll.nextUpdate then
            some { s with poller := .asleep }
          else do
            let t ← setNextUpdate s.table head
              (s.poll.current + cfg.pollInterval)
            let e ← (t.entry head).poll.next
            some { s with
              table := t
              poll := { s.poll with head := some e }
              poller := .skip e }
  | _ => none

/-- `atomic_exchange_explicit(&entry->poll.skip, 0) > 0`. -/
def stepPollSkip (s : Sys) : Option Sys :=
  match s.poller with
  | .skip e => do
      let t ← s.table.modifyEntry e fun entry =>
        { entry with poll := { entry.poll with skip := 0 } }
      some { s with
        table := t
        poller := if 0 < (s.table.entry e).poll.skip then .next else .flags e }
  | _ => none

/-- What `fl_poll_main` does with the old flags of an entry. -/
def pollNext (cfg : FlConfig) (e : EntryPtr) (flags : BitVec 32) : PollPc :=
  if test flags FLOW_FLAGS_LEARN_PENDING then .push e .learn
  else if test flags (FLOW_FLAGS_REFRESH_PENDING |||
      if cfg.hwProbe then 0#32 else FLOW_FLAGS_PROBE_PENDING)
    then .push e .refresh
  else if test flags FLOW_FLAGS_UNLEARN_PENDING then .push e .unlearn
  else if test flags FLOW_FLAGS_UNLEARN || !test flags FLOW_FLAGS_TRACK
    then .remove e
  else if test flags (FLOW_FLAGS_LEARN ||| FLOW_FLAGS_PROBE |||
      FLOW_FLAGS_REFRESH ||| FLOW_FLAGS_PROBE_PENDING)
    then .push e .probe
  else .next

def stepPollFlags (cfg : FlConfig) (s : Sys) : Option Sys :=
  match s.poller with
  | .flags e => do
      let (t, flags) ← fetchAnd s.table e FLOW_FLAGS_CLEAR
      some { s with table := t, poller := pollNext cfg e flags }
  | _ => none

def stepPollPush (s : Sys) (success : Bool) : Option Sys :=
  match s.poller with
  | .push e op => do
      let s ← flProgram s e op success
      some { s with poller := .next }
  | _ => none

def stepPollRemove (s : Sys) : Option Sys :=
  match s.poller with
  | .remove e => do
      let (t, poll) ← flRemovePoll s.table s.poll e
      some { s with
        table := t
        poll := poll
        poller := .deref e
        history := { s.history with members := s.history.members.erase e } }
  | _ => none

def stepPollDeref (s : Sys) : Option Sys :=
  match s.poller with
  | .deref e => do
      let t ← s.table.ftDeref e 1
      some { s with table := t, poller := .next }
  | _ => none

/-- One step of one thread; the arguments are what the step leaves open. -/
inductive SysAction where
  | rxLookup (thread : Nat) (streamId : BitVec 32) (packet : Packet)
  | rxAdd (thread : Nat) (alloc : Option Nat)
  | rxPush (thread : Nat) (success : Bool)
  | rxCount (thread : Nat)
  | programPull
  | programFlags
  | programRef
  | programAddPoll
  | programSkip
  | programWrite (success : Bool)
  | statusFlags (e : EntryPtr) (kind : FlowStatus)
  | statusSkip
  | recordFlags (e : EntryPtr) (info : NtFlowInfo)
  | recordUpdate
  | recordProbe
  | recordPush (success : Bool)
  | recordTrack
  | pollTick
  | pollNext
  | pollSkip
  | pollFlags
  | pollPush (success : Bool)
  | pollRemove
  | pollDeref

def sysStep (cfg : FlConfig) (s : Sys) : SysAction → Option Sys
  | .rxLookup thread streamId packet => stepRxLookup s thread streamId packet
  | .rxAdd thread alloc => stepRxAdd s thread alloc
  | .rxPush thread success => stepRxPush s thread success
  | .rxCount thread => stepRxCount s thread
  | .programPull => stepProgramPull s
  | .programFlags => stepProgramFlags cfg s
  | .programRef => stepProgramRef s
  | .programAddPoll => stepProgramAddPoll cfg s
  | .programSkip => stepProgramSkip s
  | .programWrite success => stepProgramWrite s success
  | .statusFlags e kind => stepStatusFlags cfg s e kind
  | .statusSkip => stepStatusSkip s
  | .recordFlags e info => stepRecordFlags s e info
  | .recordUpdate => stepRecordUpdate cfg s
  | .recordProbe => stepRecordProbe s
  | .recordPush success => stepRecordPush s success
  | .recordTrack => stepRecordTrack s
  | .pollTick => stepPollTick s
  | .pollNext => stepPollNext cfg s
  | .pollSkip => stepPollSkip s
  | .pollFlags => stepPollFlags cfg s
  | .pollPush success => stepPollPush s success
  | .pollRemove => stepPollRemove s
  | .pollDeref => stepPollDeref s

/-- The program right after `ft_init`, `fl_init` and `rx_init`. -/
def sysStart (t : FlowTable) : Sys :=
  { table := t
    poll := ⟨none, 0#64, 0#32, 0#32⟩
    queue := []
    rx := fun _ => .idle
    program := .idle
    status := .idle
    record := .idle
    poller := .asleep
    history := ⟨[], [], [], []⟩ }

/-- A start state of the program. -/
def Started (s : Sys) : Prop :=
  ∃ calloc power2 chainSize bucketSize t,
    FlowTable.ftInit calloc power2 chainSize bucketSize = some t ∧
      bucketSize ≤ 32 ∧ s = sysStart t

end Ntnetflow

end NtapiExamples
