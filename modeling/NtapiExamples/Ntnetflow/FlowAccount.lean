/-
What the counters of a flow add up to: the packets `rx_process` counts and the
info records `fl_record_main` reads, in whatever order the threads come to the
mutex of the flow.
-/
import Mathlib.Algebra.BigOperators.Group.List.Basic
import NtapiExamples.Ntnetflow.FlowActivity

namespace NtapiExamples

namespace Ntnetflow

/-- What a call adds to one direction. -/
def FlowCall.counts (downstream : Bool) : FlowCall → FlowInfoStream
  | .update other =>
      if downstream then ⟨other.packetsB, other.octetsB, other.flagsB⟩
      else ⟨other.packetsA, other.octetsA, other.flagsA⟩
  | .increment flags _ down =>
      if down = downstream then ⟨1#64, 1#64, flags⟩ else ⟨0#64, 0#64, 0#16⟩

theorem FlowCall.run_stream (info : FlowInfo) (call : FlowCall)
    (downstream : Bool) :
    (call.run info).1.stream downstream =
      fiIncrementStream (info.stream downstream)
        (call.counts downstream).packets (call.counts downstream).octets
        (call.counts downstream).flags := by
  cases call with
  | update other => cases downstream <;> rfl
  | increment flags ts down =>
      by_cases hdown : down = downstream
      · subst hdown
        simp [FlowCall.run, fiIncrement, FlowCall.counts]
      · simp [FlowCall.run, fiIncrement, FlowCall.counts, hdown,
          Function.update_of_ne (Ne.symm hdown), fiIncrementStream]

/-- A counter that the calls add to is the sum of what they add. -/
theorem runCalls_count {count : FlowInfoStream → BitVec 64}
    (hadd : ∀ stream packets octets flags,
      count (fiIncrementStream stream packets octets flags) =
        count stream + count ⟨packets, octets, flags⟩)
    (hzero : count ⟨0#64, 0#64, 0#16⟩ = 0#64) (calls : List FlowCall)
    (downstream : Bool) :
    (count ((runCalls fiInit calls).stream downstream)).toNat =
      (calls.map fun call => (count (call.counts downstream)).toNat).sum %
        2 ^ 64 := by
  induction calls using List.reverseRecOn with
  | nil =>
      change (count ⟨0#64, 0#64, 0#16⟩).toNat = 0
      rw [hzero]
      rfl
  | append_singleton calls call ih =>
      rw [runCalls_append, FlowCall.run_stream, hadd, BitVec.toNat_add, ih]
      simp [List.sum_append]

theorem runCalls_packets (calls : List FlowCall) (downstream : Bool) :
    ((runCalls fiInit calls).stream downstream).packets.toNat =
      (calls.map fun call => (call.counts downstream).packets.toNat).sum %
        2 ^ 64 :=
  runCalls_count (fun _ _ _ _ => rfl) rfl calls downstream

theorem runCalls_octets (calls : List FlowCall) (downstream : Bool) :
    ((runCalls fiInit calls).stream downstream).octets.toNat =
      (calls.map fun call => (call.counts downstream).octets.toNat).sum %
        2 ^ 64 :=
  runCalls_count (fun _ _ _ _ => rfl) rfl calls downstream

theorem runCalls_flags (calls : List FlowCall) (downstream : Bool) :
    ((runCalls fiInit calls).stream downstream).flags =
      orAll (calls.map fun call => (call.counts downstream).flags) := by
  induction calls using List.reverseRecOn with
  | nil => rfl
  | append_singleton calls call ih =>
      rw [runCalls_append, FlowCall.run_stream]
      simp [fiIncrementStream, ih]

/-- The calls commute. -/
theorem runCalls_perm {calls calls' : List FlowCall}
    (hperm : calls.Perm calls') :
    (runCalls fiInit calls).stream = (runCalls fiInit calls').stream := by
  funext downstream
  have hpackets := runCalls_packets calls downstream
  have hoctets := runCalls_octets calls downstream
  rw [(hperm.map _).sum_nat, ← runCalls_packets] at hpackets
  rw [(hperm.map _).sum_nat, ← runCalls_octets] at hoctets
  have hflags := runCalls_flags calls downstream
  rw [orAll_perm (hperm.map _), ← runCalls_flags] at hflags
  rw [FlowInfoStream.mk.injEq]
  exact ⟨BitVec.eq_of_toNat_eq hpackets, BitVec.eq_of_toNat_eq hoctets, hflags⟩

/-- A packet that `rx_process` counts, with its length. -/
structure SoftPacket where
  packet : Packet
  octets : Nat
  handled : packet.handled = true

namespace SoftPacket

variable (soft : SoftPacket)

def downstream : Bool := test soft.packet.color FLOW_COLOR_DOWNSTREAM

def tcp : Bool := test soft.packet.color FLOW_COLOR_TCP

/-- Byte 13 behind the second header: the flags, if that is a TCP header. -/
def flags : BitVec 16 := (soft.packet.l4 13).setWidth 16

/-- The call of `fi_increment` at the end of `rx_process`. -/
def call : FlowCall :=
  .increment soft.flags
    (if soft.packet.tsType = .nativeUnix then soft.packet.timestamp * 10#64
      else soft.packet.timestamp) soft.downstream

end SoftPacket

/-- What is counted on a flow. -/
inductive Traffic where
  | packet (soft : SoftPacket)
  | record (info : NtFlowInfo)

namespace Traffic

def call : Traffic → FlowCall
  | packet soft => soft.call
  | record info => .update info

/-- The packets of a direction that the traffic stands for. -/
def packets (downstream : Bool) : Traffic → Nat
  | packet soft => if soft.downstream = downstream then 1 else 0
  | record info =>
      (if downstream then info.packetsB else info.packetsA).toNat

def octets (downstream : Bool) : Traffic → Nat
  | packet soft => if soft.downstream = downstream then soft.octets else 0
  | record info => (if downstream then info.octetsB else info.octetsA).toNat

def tcpFlags (downstream : Bool) : Traffic → BitVec 16
  | packet soft =>
      if soft.downstream = downstream ∧ soft.tcp then soft.flags else 0#16
  | record info => if downstream then info.flagsB else info.flagsA

/-- The packets of a direction that software handled. -/
def softPackets (downstream : Bool) : Traffic → Nat
  | packet soft => if soft.downstream = downstream then 1 else 0
  | record _ => 0

def softOctets (downstream : Bool) : Traffic → Nat
  | packet soft => if soft.downstream = downstream then soft.octets else 0
  | record _ => 0

/-- The byte counted as the flags of a packet that is not TCP. -/
def strayFlags (downstream : Bool) : Traffic → BitVec 16
  | packet soft =>
      if soft.downstream = downstream ∧ !soft.tcp then soft.flags else 0#16
  | record _ => 0#16

variable (downstream : Bool) (traffic : Traffic)

theorem counts_packets :
    (traffic.call.counts downstream).packets.toNat =
      traffic.packets downstream := by
  cases traffic with
  | packet soft =>
      simp only [call, SoftPacket.call, FlowCall.counts, packets]
      split <;> rfl
  | record info => cases downstream <;> rfl

/-- A packet counts as one octet, whatever its length. -/
theorem counts_octets :
    (traffic.call.counts downstream).octets.toNat +
        traffic.softOctets downstream =
      traffic.octets downstream + traffic.softPackets downstream := by
  cases traffic with
  | packet soft =>
      simp only [call, SoftPacket.call, FlowCall.counts, octets, softOctets,
        softPackets]
      split
      · exact Nat.add_comm 1 soft.octets
      · rfl
  | record info => cases downstream <;> rfl

theorem counts_flags :
    (traffic.call.counts downstream).flags =
      traffic.tcpFlags downstream ||| traffic.strayFlags downstream := by
  cases traffic with
  | packet soft =>
      simp only [call, SoftPacket.call, FlowCall.counts, tcpFlags, strayFlags]
      cases soft.tcp <;> by_cases hdown : soft.downstream = downstream <;>
        simp [hdown]
  | record info =>
      cases downstream <;> simp [call, FlowCall.counts, tcpFlags, strayFlags]

end Traffic

/-- `rx_process` counts a packet on its entry by `SoftPacket.call`. -/
theorem rxCount_info {t t' : FlowTable} {e : EntryPtr} {soft : SoftPacket}
    (hcount : rxCount t e soft.packet = some t') :
    (t'.entry e).info = (soft.call.run (t.entry e).info).1 := by
  simp only [rxCount, FlowTable.modifyEntry_eq_some_iff] at hcount
  obtain ⟨-, rfl⟩ := hcount
  simp [SoftPacket.call, FlowCall.run, SoftPacket.flags,
    SoftPacket.downstream]

/-- `fl_record_main` counts a record on its entry by `fi_update`. -/
theorem stepRecordUpdate_info {cfg : FlConfig} {s s' : Sys} {e : EntryPtr}
    {info : NtFlowInfo} {flags : BitVec 32}
    (hrecord : s.record = .update e info flags)
    (hstep : stepRecordUpdate cfg s = some s') :
    (s'.table.entry e).info =
      ((Traffic.record info).call.run (s.table.entry e).info).1 := by
  simp only [stepRecordUpdate, hrecord, Option.bind_eq_bind,
    Option.bind_eq_some_iff, Option.some.injEq,
    FlowTable.modifyEntry_eq_some_iff] at hstep
  obtain ⟨t, ⟨-, rfl⟩, rfl⟩ := hstep
  have hstats : ∀ (t : FlowTable) stat value,
      (t.statsUpdate stat value).entry e = t.entry e := fun _ _ _ => rfl
  by_cases hprobe : (recordSwProbe cfg info flags || info.cause == 4#8) = true
  · rw [if_pos hprobe]
    simp [hstats, Traffic.call, FlowCall.run]
  · rw [if_neg hprobe]
    simp [Traffic.call, FlowCall.run]

/-- The counters of a flow after its traffic, in the order of the calls. -/
def account (traffic : List Traffic) : FlowInfo :=
  runCalls fiInit (traffic.map Traffic.call)

/-- The counters are the totals of the traffic, whatever the order. -/
structure AccountOk (traffic : List Traffic) : Prop where
  packets : ∀ order, order.Perm traffic → ∀ downstream,
    ((account order).stream downstream).packets.toNat =
      (traffic.map (Traffic.packets downstream)).sum % 2 ^ 64
  octets : ∀ order, order.Perm traffic → ∀ downstream,
    ((account order).stream downstream).octets.toNat =
      (traffic.map (Traffic.octets downstream)).sum % 2 ^ 64
  flags : ∀ order, order.Perm traffic → ∀ downstream,
    ((account order).stream downstream).flags =
      orAll (traffic.map (Traffic.tcpFlags downstream))
  order : ∀ order order', order.Perm traffic → order'.Perm traffic →
    (account order).stream = (account order').stream

/-- The packets of a direction have one octet each on average, and no packet
without TCP has a byte 13 with bits that are not among the TCP flags. -/
structure AccountCond (traffic : List Traffic) : Prop where
  octets : ∀ downstream,
    (traffic.map (Traffic.softOctets downstream)).sum % 2 ^ 64 =
      (traffic.map (Traffic.softPackets downstream)).sum % 2 ^ 64
  flags : ∀ downstream, ∀ stray ∈ traffic.map (Traffic.strayFlags downstream),
    orAll (traffic.map (Traffic.tcpFlags downstream)) ||| stray =
      orAll (traffic.map (Traffic.tcpFlags downstream))

section Totals

variable (traffic : List Traffic) (downstream : Bool)

theorem account_packets :
    ((account traffic).stream downstream).packets.toNat =
      (traffic.map (Traffic.packets downstream)).sum % 2 ^ 64 := by
  rw [account, runCalls_packets, List.map_map]
  congr 3
  funext x
  exact x.counts_packets downstream

/-- The octets counted, against those of the traffic. -/
theorem account_octets :
    ((account traffic).stream downstream).octets.toNat =
        (traffic.map (Traffic.octets downstream)).sum % 2 ^ 64 ↔
      (traffic.map (Traffic.softOctets downstream)).sum % 2 ^ 64 =
        (traffic.map (Traffic.softPackets downstream)).sum % 2 ^ 64 := by
  have hsum : (traffic.map fun x =>
        (x.call.counts downstream).octets.toNat).sum +
        (traffic.map (Traffic.softOctets downstream)).sum =
      (traffic.map (Traffic.octets downstream)).sum +
        (traffic.map (Traffic.softPackets downstream)).sum := by
    rw [← List.sum_map_add, ← List.sum_map_add]
    congr 2
    funext x
    exact x.counts_octets downstream
  rw [account, runCalls_octets, List.map_map]
  change (traffic.map fun x =>
    (x.call.counts downstream).octets.toNat).sum % 2 ^ 64 = _ ↔ _
  omega

theorem account_flags :
    ((account traffic).stream downstream).flags =
      orAll (traffic.map (Traffic.tcpFlags downstream)) |||
        orAll (traffic.map (Traffic.strayFlags downstream)) := by
  rw [account, runCalls_flags, List.map_map, ← orAll_map_or]
  congr 2
  funext x
  exact x.counts_flags downstream

theorem account_perm {order order' : List Traffic}
    (hperm : order.Perm order') :
    (account order).stream = (account order').stream :=
  runCalls_perm (hperm.map _)

end Totals

/-- Packets are always counted and the order never matters; octets and flags
are right exactly when the packets handled by software do not spoil them. -/
theorem accountOk_iff (traffic : List Traffic) :
    AccountOk traffic ↔ AccountCond traffic := by
  constructor
  · intro hok
    refine ⟨fun downstream => ?_, fun downstream => ?_⟩
    · exact (account_octets traffic downstream).mp
        (hok.octets traffic (List.Perm.refl _) downstream)
    · have hflags := hok.flags traffic (List.Perm.refl _) downstream
      rw [account_flags] at hflags
      exact (or_orAll_eq_iff _ _).mp hflags
  · intro hcond
    refine ⟨?_, ?_, ?_, ?_⟩
    · intro order hperm downstream
      rw [account_perm hperm, account_packets]
    · intro order hperm downstream
      rw [account_perm hperm]
      exact (account_octets traffic downstream).mpr (hcond.octets downstream)
    · intro order hperm downstream
      rw [account_perm hperm, account_flags]
      exact (or_orAll_eq_iff _ _).mpr (hcond.flags downstream)
    · intro order order' hperm hperm'
      exact account_perm (hperm.trans hperm'.symm)

/-- A TCP packet of 64 octets from upstream that the adapter missed. -/
def missedSyn : SoftPacket where
  packet :=
    { color1 := (ntplColor true false false true).setWidth 64
      tsType := .unixNanotime
      timestamp := 1#64
      l3 := fun _ => 0#8
      l4 := fun i => if i = 13 then 2#8 else 0#8 }
  octets := 64
  handled := by decide

theorem accountOk_fails : ¬ AccountOk [.packet missedSyn] := by
  intro hok
  have hoctets := (account_octets _ _).mp
    (hok.octets _ (List.Perm.refl _) false)
  exact absurd hoctets (by decide)

end Ntnetflow

end NtapiExamples
