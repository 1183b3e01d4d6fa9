/-
When the packets of a replay leave the adapter, and how long the program waits
for the last of them.  The port is told to transmit a second late; the wait
does not know of that second.
-/
import NtapiExamples.Lib.ClockWait
import NtapiExamples.AddrswapReplay.Replay

namespace NtapiExamples

namespace AddrswapReplay

/-- `GetAdapterTimestamp`: ticks of 10 ns in nanoseconds. -/
def adapterTimestamp (nativeUnixTs : BitVec 64) : BitVec 64 := nativeUnixTs * 10

/-- The second of headroom, in nanoseconds. -/
def headroom : BitVec 64 := 1000000000

/-- `SetPortTransmitOnTimestamp`: `timeDelta` as written to the port, and
`startTime`. -/
def setPortTransmitOnTimestamp (nativeUnixTs firstPacketTS : BitVec 64) :
    BitVec 64 × BitVec 64 :=
  let adapterTS := adapterTimestamp nativeUnixTs
  (adapterTS - firstPacketTS + headroom, adapterTS)

/-- The readings of `GetAdapterTimestamp` for what the adapter delivers. -/
def adapterTurn : ClockTurn → ClockTurn
  | .time nativeUnixTs => .time (adapterTimestamp nativeUnixTs)
  | .interrupted => .interrupted
  | .failed => .failed

/-- `AwaitPacketTransmission`; the turns show what the adapter delivers. -/
def awaitPacketTransmission (lastPacketTS firstPacketTS startTime : BitVec 64)
    (turns : List ClockTurn) : WaitEnd :=
  let totalTime := lastPacketTS - firstPacketTS
  let stopTime := startTime + totalTime
  waitPast stopTime (turns.map adapterTurn)

/-- The loop of `_Replay` over the packets of the file, each with the TX buffer
it is given. -/
def replayFile (fcsPresentInFile : Bool) (optSubstitute : Option Tree) :
    Counters → List (FilePacket × TxBuffer) → Option Counters
  | c, [] => some c
  | c, (pkt, tx) :: packets =>
      match replayPacket fcsPresentInFile optSubstitute c pkt tx with
      | none => none
      | some (c, _) => replayFile fcsPresentInFile optSubstitute c packets

/-- A replay that is not interrupted: the file with its first packet and what
the adapter shows at the start. -/
structure TimedReplay where
  fcsPresentInFile : Bool
  optSubstitute : Option Tree
  firstPacket : FilePacket × TxBuffer
  packets : List (FilePacket × TxBuffer)
  startTicks : BitVec 64

namespace TimedReplay

variable (r : TimedReplay)

/-- `firstPacketTS`, which `GetFileData` reads from the first packet. -/
def firstPacketTS : BitVec 64 := r.firstPacket.1.timestamp

/-- The globals before the loop. -/
def startCounters : Counters := ⟨0, 0, 0, 0, 0, 0⟩

/-- The counters after the loop. -/
def counters : Option Counters :=
  replayFile r.fcsPresentInFile r.optSubstitute startCounters
    (r.firstPacket :: r.packets)

def timeDelta : BitVec 64 :=
  (setPortTransmitOnTimestamp r.startTicks r.firstPacketTS).1

def startTime : BitVec 64 :=
  (setPortTransmitOnTimestamp r.startTicks r.firstPacketTS).2

/-- What `_Replay` does after its loop, for what the adapter shows then. -/
def await (c : Counters) (turns : List ClockTurn) : WaitEnd :=
  awaitPacketTransmission c.lastPacketTS r.firstPacketTS r.startTime turns

/-- The timestamp of the last packet of the file. -/
def lastTimestamp : BitVec 64 :=
  ((r.firstPacket :: r.packets).map fun packet => packet.1.timestamp).getLastD 0

/-- Whatever the adapter shows: when the wait is over, the transmit time of the
last packet has passed. -/
def AwaitsLast : Prop :=
  ∀ c, r.counters = some c → ∀ turns ts, r.await c turns = .passed ts →
    c.lastPacketTS + r.timeDelta < ts

/-- The length of the file, counted from the start, and the second of headroom
leave the 64 bits of the adapter time. -/
def DueWraps : Prop :=
  2 ^ 64 ≤ (adapterTimestamp r.startTicks +
    (r.lastTimestamp - r.firstPacketTS)).toNat + headroom.toNat

end TimedReplay

theorem replayPacket_lastPacketTS {fcsPresentInFile : Bool}
    {optSubstitute : Option Tree} {c c' : Counters} {pkt : FilePacket}
    {tx tx' : TxBuffer}
    (hsent : replayPacket fcsPresentInFile optSubstitute c pkt tx =
      some (c', tx')) : c'.lastPacketTS = pkt.timestamp := by
  simp only [replayPacket, Option.bind_eq_bind, Option.bind_eq_some_iff,
    Option.some.injEq, Prod.mk.injEq] at hsent
  obtain ⟨_, _, _, _, _, _, _, _, rfl, _⟩ := hsent
  rfl

/-- After the loop `lastPacketTS` is the timestamp of the last packet. -/
theorem replayFile_lastPacketTS {fcsPresentInFile : Bool}
    {optSubstitute : Option Tree} {packets : List (FilePacket × TxBuffer)}
    {c c' : Counters}
    (hsent : replayFile fcsPresentInFile optSubstitute c packets = some c') :
    c'.lastPacketTS =
      (packets.map fun packet => packet.1.timestamp).getLastD c.lastPacketTS := by
  induction packets generalizing c with
  | nil =>
      simp only [replayFile, Option.some.injEq] at hsent
      rw [hsent]
      rfl
  | cons packet packets ih =>
      obtain ⟨pkt, tx⟩ := packet
      rw [replayFile] at hsent
      split at hsent
      · cases hsent
      case h_2 next tx' hpacket =>
        rw [ih hsent, replayPacket_lastPacketTS hpacket, List.map_cons,
          List.getLastD_cons]

/-- The transmit time of the last packet is a second behind the stop time. -/
theorem transmitTime_eq (startTicks firstPacketTS lastPacketTS : BitVec 64) :
    lastPacketTS + (setPortTransmitOnTimestamp startTicks firstPacketTS).1 =
      adapterTimestamp startTicks + (lastPacketTS - firstPacketTS) +
        headroom := by
  rw [setPortTransmitOnTimestamp]
  bv_omega

/-- Beyond any time but the last ten nanoseconds the adapter shows one that is at
most ten nanoseconds later. -/
theorem exists_adapterTimestamp {stop : BitVec 64}
    (hroom : stop.toNat + 10 < 2 ^ 64) :
    ∃ ticks : BitVec 64, stop < adapterTimestamp ticks ∧
      (adapterTimestamp ticks).toNat ≤ stop.toNat + 10 := by
  have hticks : (adapterTimestamp (BitVec.ofNat 64 (stop.toNat / 10 + 1))).toNat =
      (stop.toNat / 10 + 1) * 10 := by
    rw [adapterTimestamp, BitVec.toNat_mul, BitVec.toNat_ofNat,
      Nat.mod_eq_of_lt (by omega : stop.toNat / 10 + 1 < 2 ^ 64)]
    exact Nat.mod_eq_of_lt (by change (stop.toNat / 10 + 1) * 10 < _; omega)
  refine ⟨BitVec.ofNat 64 (stop.toNat / 10 + 1), ?_, ?_⟩
  · rw [BitVec.lt_def, hticks]
    omega
  · rw [hticks]
    omega

/-- A replay of one packet at tick 100. -/
def onePacket : TimedReplay where
  fcsPresentInFile := true
  optSubstitute := none
  firstPacket := (arpRequest, emptyTx)
  packets := []
  startTicks := 100

/-- The adapter is read again a tick later, and the wait is over before the
packet has left. -/
theorem onePacket_not_awaited : ¬ ∀ r : TimedReplay, r.AwaitsLast := by
  intro hall
  have hdue := hall onePacket ⟨0, 1, 60, 60, 0, 1⟩ rfl [.time 101] 1010
    (by decide)
  exact absurd hdue (by decide)

/-- The program waits for its last packet exactly when the time it is due at
leaves the 64 bits. -/
theorem awaitsLast_iff (r : TimedReplay) (c : Counters)
    (hsent : r.counters = some c) : r.AwaitsLast ↔ r.DueWraps := by
  have hlast : c.lastPacketTS = r.lastTimestamp := by
    rw [replayFile_lastPacketTS hsent]
    rfl
  have hdue : c.lastPacketTS + r.timeDelta = adapterTimestamp r.startTicks +
      (r.lastTimestamp - r.firstPacketTS) + headroom := by
    rw [← hlast]
    exact transmitTime_eq r.startTicks r.firstPacketTS c.lastPacketTS
  have hawait : ∀ turns, r.await c turns =
      waitPast (adapterTimestamp r.startTicks +
        (r.lastTimestamp - r.firstPacketTS)) (turns.map adapterTurn) := by
    intro turns
    rw [← hlast]
    rfl
  unfold TimedReplay.DueWraps
  generalize adapterTimestamp r.startTicks +
    (r.lastTimestamp - r.firstPacketTS) = stop at hdue hawait ⊢
  have hheadroom : headroom.toNat = 1000000000 := rfl
  constructor
  · intro hawaits
    by_contra hfits
    have hroom : stop.toNat + 10 < 2 ^ 64 := by omega
    obtain ⟨ticks, hbeyond, hnear⟩ := exists_adapterTimestamp hroom
    have hpassed : r.await c [.time ticks] = .passed (adapterTimestamp ticks) := by
      rw [hawait]
      exact if_pos hbeyond
    -- the first reading beyond the stop time is not yet a second beyond it
    have hlate := hawaits c hsent _ _ hpassed
    rw [hdue, BitVec.lt_def, BitVec.toNat_add,
      Nat.mod_eq_of_lt (by omega)] at hlate
    omega
  · intro hwraps c' hsent' turns ts hpassed
    cases hsent.symm.trans hsent'
    rw [hawait, waitPast_passed_iff] at hpassed
    obtain ⟨_, _, _, hbeyond, _⟩ := hpassed
    have hearly : (stop + headroom).toNat = stop.toNat + headroom.toNat - 2 ^ 64 := by
      have hstop := stop.isLt
      rw [BitVec.toNat_add]
      omega
    rw [hdue, BitVec.lt_def, hearly]
    rw [BitVec.lt_def] at hbeyond
    omega

theorem awaitsLast_iff_onePacket :
    onePacket.counters = some ⟨0, 1, 60, 60, 0, 1⟩ ∧
    (onePacket.AwaitsLast ↔ onePacket.DueWraps) :=
  ⟨rfl, awaitsLast_iff onePacket ⟨0, 1, 60, 60, 0, 1⟩ rfl⟩

end AddrswapReplay

end NtapiExamples
