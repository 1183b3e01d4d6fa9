/-
`flowinfo.c`: the traffic counters of one flow.  Every function is one section
under the mutex of the flow.
-/
import Mathlib.Logic.Function.Basic

namespace NtapiExamples

namespace Ntnetflow

structure FlowInfoStream where
  packets : BitVec 64
  octets : BitVec 64
  flags : BitVec 16
deriving DecidableEq, Inhabited

/-- `struct flow_info`; `stream[0]` counts upstream, `stream[1]` downstream. -/
structure FlowInfo where
  stream : Bool → FlowInfoStream
  ts : BitVec 64
  lastTs : BitVec 64
deriving Inhabited

/-- The fields of an adapter info record (`NtFlowInfo_t`) that are read here. -/
structure NtFlowInfo where
  packetsA : BitVec 64
  octetsA : BitVec 64
  flagsA : BitVec 16
  packetsB : BitVec 64
  octetsB : BitVec 64
  flagsB : BitVec 16
  ts : BitVec 64
  cause : BitVec 8
deriving DecidableEq, Inhabited

/-- `fi_init`. -/
def fiInit : FlowInfo := ⟨fun _ => ⟨0#64, 0#64, 0#16⟩, 0#64, 0#64⟩

/-- `fi_increment_stream`. -/
def fiIncrementStream (stream : FlowInfoStream) (packets octets : BitVec 64)
    (flags : BitVec 16) : FlowInfoStream :=
  { packets := stream.packets + packets
    octets := stream.octets + octets
    flags := stream.flags ||| flags }

/-- `fi_update`: the new state and `changed`. -/
def fiUpdate (info : FlowInfo) (other : NtFlowInfo) : FlowInfo × Bool :=
  let up := fiIncrementStream (info.stream false)
    other.packetsA other.octetsA other.flagsA
  let down := fiIncrementStream (info.stream true)
    other.packetsB other.octetsB other.flagsB
  ({ stream := fun downstream => if downstream then down else up
     ts := other.ts
     lastTs := info.ts }, info.lastTs != other.ts)

/-- `fi_increment`: one packet and one octet of a direction. -/
def fiIncrement (info : FlowInfo) (flags : BitVec 16) (ts : BitVec 64)
    (downstream : Bool) : FlowInfo × Bool :=
  ({ stream := Function.update info.stream downstream
       (fiIncrementStream (info.stream downstream) 1#64 1#64 flags)
     ts := ts
     lastTs := info.ts }, info.lastTs != ts)

end Ntnetflow

end NtapiExamples
