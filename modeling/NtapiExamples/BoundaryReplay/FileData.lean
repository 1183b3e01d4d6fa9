/-
What `boundary_replay.c` fixes before it transmits: the check of the capture
file and the offset between file time and adapter time.
-/
import Mathlib.Algebra.Group.Nat.Defs
import Mathlib.Data.List.Basic

namespace NtapiExamples

namespace BoundaryReplay

/-- `enum NtTimestampType_e`. -/
inductive TimestampType where
  | native
  | nativeNdis
  | nativeUnix
  | pcap
  | pcapNanotime
  | unixNanotime
deriving DecidableEq

/-- A segment of the file: the timestamps of its packets. -/
structure Segment where
  first : BitVec 64
  rest : List (BitVec 64)

def Segment.timestamps (s : Segment) : List (BitVec 64) := s.first :: s.rest

/-- What the file stream delivers of a capture file. -/
structure CaptureFile where
  tsType : TimestampType
  firstTimestamp : BitVec 64
  lastTimestamp : BitVec 64
  segments : List Segment

/-- The timestamps of the packets of a file, in its order. -/
def CaptureFile.timestamps (file : CaptureFile) : List (BitVec 64) :=
  file.segments.flatMap Segment.timestamps

/-- `boundary_time`: 10 ms in ticks of 10 ns. -/
def boundaryTime : BitVec 32 := 1000000

/-- A packet lies more than `boundary_time` behind the first one. -/
def tooLong (firstPacketTS timestamp : BitVec 64) : Bool :=
  boundaryTime.setWidth 64 < timestamp - firstPacketTS

/-- `GetFileData`: its result and `firstPacketTS`. -/
def getFileData (file : CaptureFile) : Nat × BitVec 64 :=
  match file.segments with
  | [] => (1, 0)
  | _ :: _ =>
      let firstPacketTS :=
        if file.tsType = .unixNanotime then file.firstTimestamp / 10
        else file.firstTimestamp
      if file.segments.any fun s => s.timestamps.any (tooLong firstPacketTS)
      then (2, firstPacketTS)
      else (0, firstPacketTS)

/-- `CalcStartTS`; `main` refuses a factor of zero. -/
def calcStartTS (ts : BitVec 64) (modFac : BitVec 32) : BitVec 64 :=
  let seconds := (ts + 100000000 - 1) / 100000000 + 1
  let seconds := (seconds + (modFac - 1).setWidth 64) / modFac.setWidth 64 *
    modFac.setWidth 64
  seconds * 100000000

/-- `beginTS` of `CalculateOffset`. -/
def calcBeginTS (absoluteStartTime : Option (BitVec 64)) (modFactor : BitVec 32)
    (adapterTS : BitVec 64) : BitVec 64 :=
  match absoluteStartTime with
  | some ts => ts
  | none => calcStartTS adapterTS modFactor

/-- `CalculateOffset`. -/
def calculateOffset (absoluteStartTime : Option (BitVec 64))
    (modFactor : BitVec 32) (firstPacketTS adapterTS : BitVec 64) : BitVec 64 :=
  calcBeginTS absoluteStartTime modFactor adapterTS - firstPacketTS

end BoundaryReplay

end NtapiExamples
