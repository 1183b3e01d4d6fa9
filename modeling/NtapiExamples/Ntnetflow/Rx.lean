/-
`rx.c`: the packets that miss the flow table of the adapter, and which flow
entry they are counted on.  The colours are the ones `ntpl.c` configures.
-/
import NtapiExamples.Ntnetflow.FlowTableRuns

namespace NtapiExamples

namespace Ntnetflow

/-- The timestamp types `rx_process` tells apart. -/
inductive TimestampType where
  | unixNanotime | nativeUnix | other
deriving DecidableEq, Repr

/-- What `rx_process` reads of a packet: descriptor and header bytes. -/
structure Packet where
  color1 : BitVec 64
  tsType : TimestampType
  timestamp : BitVec 64
  l3 : Header
  l4 : Header

namespace Packet

/-- `dyn4->color1 & UINT_MAX`. -/
def color (packet : Packet) : BitVec 32 := packet.color1.setWidth 32

/-- `dyn4->color1 >> 32`. -/
def hash (packet : Packet) : BitVec 32 := (packet.color1 >>> 32).setWidth 32

/-- `color & USHRT_MAX`. -/
def flowColor (packet : Packet) : BitVec 16 := packet.color.setWidth 16

/-- `key_data` after `fk_create`. -/
def keyData (packet : Packet) : KeyData :=
  fkCreate (fun _ => 0#8) packet.l3 packet.l4 (packet.color.setWidth 8)

/-- The packets `rx_process` looks at. -/
def handled (packet : Packet) : Bool :=
  test packet.color (FLOW_COLOR_UNHANDLED ||| FLOW_COLOR_MISS)

end Packet

/-- The lookup of `rx_process`. -/
def rxLookup (t : FlowTable) (packet : Packet) : Option (Option EntryPtr) :=
  t.ftLookup packet.hash packet.keyData packet.flowColor

/-- `rx_process` adds an entry; a failed `ft_add` is a NULL dereference. -/
def rxAdd (t : FlowTable) (alloc : Option Nat) (streamId : BitVec 32)
    (packet : Packet) : Option (FlowTable × EntryPtr) := do
  let (t, added) ← t.ftAdd alloc packet.hash packet.keyData packet.flowColor
  let e ← added
  let t ← t.modifyEntry e fun entry =>
    { entry with streamId := streamId.setWidth 8 }
  some (t, e)

/-- `rx_process` counts the packet on its entry.  `config.mk` builds with
`-DNDEBUG`, so the assertion on the timestamp type is not there. -/
def rxCount (t : FlowTable) (e : EntryPtr) (packet : Packet) :
    Option FlowTable :=
  let ts := if packet.tsType = .nativeUnix then packet.timestamp * 10#64
    else packet.timestamp
  t.modifyEntry e fun entry =>
    { entry with
      info := (fiIncrement entry.info ((packet.l4 13).setWidth 16) ts
        (test packet.color FLOW_COLOR_DOWNSTREAM)).1 }

/-- `rx_process` finds the entry of a packet or adds it; the last component says
whether `fl_program(entry, FL_OP_LEARN)` is called. -/
def rxEntry (t : FlowTable) (alloc : Option Nat) (streamId : BitVec 32)
    (packet : Packet) : Option (FlowTable × EntryPtr × Bool) :=
  match rxLookup t packet with
  | none => none
  | some (some e) => some (t, e, false)
  | some none =>
      (rxAdd t alloc streamId packet).map fun (t, e) =>
        (t, e, test packet.color FLOW_COLOR_MISS)

/-- `rx_process`, run without interference. -/
def rxProcess (t : FlowTable) (alloc : Option Nat) (streamId : BitVec 32)
    (packet : Packet) : Option (FlowTable × Option EntryPtr × Bool) :=
  if packet.handled then do
    let (t, e, learn) ← rxEntry t alloc streamId packet
    let t ← rxCount t e packet
    some (t, some e, learn)
  else some (t, none, false)

/-- The outcomes of `rx_process`. -/
theorem rxProcess_cases {t t' : FlowTable} {alloc : Option Nat}
    {streamId : BitVec 32} {packet : Packet} {found : Option EntryPtr}
    {learn : Bool}
    (hrx : rxProcess t alloc streamId packet = some (t', found, learn)) :
    (packet.handled = false ∧ t' = t ∧ found = none ∧ learn = false) ∨
    ∃ e, packet.handled = true ∧ found = some e ∧
      ((rxLookup t packet = some (some e) ∧ learn = false ∧
          rxCount t e packet = some t') ∨
        ∃ t₁, rxLookup t packet = some none ∧
          rxAdd t alloc streamId packet = some (t₁, e) ∧
          learn = test packet.color FLOW_COLOR_MISS ∧
          rxCount t₁ e packet = some t') := by
  simp only [rxProcess] at hrx
  cases hhandled : packet.handled with
  | false =>
      simp only [hhandled, Bool.false_eq_true, if_false, Option.some.injEq,
        Prod.mk.injEq] at hrx
      obtain ⟨rfl, rfl, rfl⟩ := hrx
      exact Or.inl ⟨rfl, rfl, rfl, rfl⟩
  | true =>
      simp only [hhandled, if_true, Option.bind_eq_bind,
        Option.bind_eq_some_iff, Option.some.injEq, Prod.mk.injEq] at hrx
      obtain ⟨⟨t₁, e, learn'⟩, hentry, t₂, hcount, rfl, rfl, rfl⟩ := hrx
      right
      refine ⟨e, rfl, rfl, ?_⟩
      cases hlookup : rxLookup t packet with
      | none => simp [rxEntry, hlookup] at hentry
      | some found =>
          cases found with
          | some e' =>
              simp only [rxEntry, hlookup, Option.some.injEq,
                Prod.mk.injEq] at hentry
              obtain ⟨rfl, rfl, rfl⟩ := hentry
              exact Or.inl ⟨rfl, rfl, hcount⟩
          | none =>
              simp only [rxEntry, hlookup, Option.map_eq_some_iff,
                Prod.mk.injEq] at hentry
              obtain ⟨⟨t₃, e'⟩, hadd, rfl, rfl, rfl⟩ := hentry
              exact Or.inr ⟨t₃, rfl, hadd, rfl, hcount⟩

/-- The colour that the assignments of `config.ntpl` add up to, with the values
of `ntpl.c`.  A delivered packet is either missed or unhandled. -/
def ntplColor (miss downstream ipv6 tcp : Bool) : BitVec 32 :=
  (if miss then FLOW_COLOR_MISS else FLOW_COLOR_UNHANDLED) |||
  (if downstream then FLOW_COLOR_DOWNSTREAM else 0#32) |||
  (if ipv6 then FLOW_COLOR_IPV6 else 0#32) |||
  (if tcp then FLOW_COLOR_TCP else 0#32)

theorem ntplColor_flags (miss downstream ipv6 tcp : Bool) :
    let color := ntplColor miss downstream ipv6 tcp
    test color (FLOW_COLOR_UNHANDLED ||| FLOW_COLOR_MISS) = true ∧
      test color FLOW_COLOR_MISS = miss ∧
      test (color.setWidth 8) FLOW_COLOR_DOWNSTREAM = downstream ∧
      test (color.setWidth 8) FLOW_COLOR_IPV6 = ipv6 ∧
      test (color.setWidth 16) FLOW_COLOR_IPV6 = ipv6 := by
  revert miss downstream ipv6 tcp
  decide

/-- The bits `ft_compare` takes for the type of a flow include the direction. -/
theorem ntplColor_type (miss downstream ipv6 tcp : Bool) :
    (ntplColor miss downstream ipv6 tcp).setWidth 16 &&&
        FLOW_COLOR_TYPE_MASK =
      (if downstream then 1#16 else 0#16) ||| (if ipv6 then 2#16 else 0#16) |||
        (if tcp then 4#16 else 0#16) := by
  revert miss downstream ipv6 tcp
  decide

/-- A TCP or UDP packet on a port, with the adapter's verdict. -/
structure Wire where
  downstream : Bool
  ipv6 : Bool
  tcp : Bool
  miss : Bool
  hash : BitVec 32
  timestamp : BitVec 64
  l3 : Header
  l4 : Header

namespace Wire

def color (wire : Wire) : BitVec 32 :=
  ntplColor wire.miss wire.downstream wire.ipv6 wire.tcp

def packet (wire : Wire) : Packet :=
  { color1 := wire.hash ++ wire.color
    tsType := .unixNanotime
    timestamp := wire.timestamp
    l3 := wire.l3
    l4 := wire.l4 }

/-- Addresses and ports as seen from upstream. -/
def tuple (wire : Wire) : FlowTuple :=
  flowTuple wire.ipv6 wire.downstream wire.l3 wire.l4

/-- Two packets of one bidirectional flow. -/
def SameFlow (p q : Wire) : Prop :=
  p.ipv6 = q.ipv6 ∧ p.tcp = q.tcp ∧ p.tuple = q.tuple

instance (p q : Wire) : Decidable (SameFlow p q) :=
  inferInstanceAs (Decidable (_ ∧ _ ∧ _))

@[simp] theorem packet_color (wire : Wire) :
    wire.packet.color = wire.color := by
  apply BitVec.eq_of_getLsbD_eq
  intro i hi
  rw [Packet.color, packet, BitVec.getLsbD_setWidth, BitVec.getLsbD_append]
  simp [hi]

@[simp] theorem packet_hash (wire : Wire) :
    wire.packet.hash = wire.hash := by
  apply BitVec.eq_of_getLsbD_eq
  intro i hi
  rw [Packet.hash, packet, BitVec.getLsbD_setWidth,
    BitVec.getLsbD_ushiftRight, BitVec.getLsbD_append]
  simp [hi]

theorem flags_eq (wire : Wire) :
    wire.packet.handled = true ∧
      test (wire.color.setWidth 8) FLOW_COLOR_DOWNSTREAM = wire.downstream ∧
      test (wire.color.setWidth 8) FLOW_COLOR_IPV6 = wire.ipv6 ∧
      test wire.packet.flowColor FLOW_COLOR_IPV6 = wire.ipv6 := by
  rw [Packet.handled, Packet.flowColor, packet_color]
  obtain ⟨hhandled, -, hdown, hipv6, hflow⟩ :=
    ntplColor_flags wire.miss wire.downstream wire.ipv6 wire.tcp
  exact ⟨hhandled, hdown, hipv6, hflow⟩

theorem type_eq_iff (p q : Wire) :
    p.packet.flowColor &&& FLOW_COLOR_TYPE_MASK =
        q.packet.flowColor &&& FLOW_COLOR_TYPE_MASK ↔
      p.downstream = q.downstream ∧ p.ipv6 = q.ipv6 ∧ p.tcp = q.tcp := by
  rw [Packet.flowColor, Packet.flowColor, packet_color, packet_color, color,
    color, ntplColor_type, ntplColor_type]
  cases p.downstream <;> cases q.downstream <;> cases p.ipv6 <;>
    cases q.ipv6 <;> cases p.tcp <;> cases q.tcp <;> decide

theorem keyLen_eq (wire : Wire) :
    keyLen wire.packet.flowColor = keyLen (wire.color.setWidth 8) := by
  obtain ⟨-, -, hkey, hflow⟩ := wire.flags_eq
  rw [keyLen, keyLen, hkey, hflow]

/-- `fk_create` gives both directions of a flow the same key. -/
theorem key_eq_iff {p q : Wire} (hipv6 : p.ipv6 = q.ipv6) :
    keyEq (keyLen p.packet.flowColor) p.packet.keyData q.packet.keyData =
      true ↔ p.tuple = q.tuple := by
  obtain ⟨-, hpDown, hpIpv6, -⟩ := p.flags_eq
  obtain ⟨-, hqDown, hqIpv6, -⟩ := q.flags_eq
  rw [keyEq_eq_true_iff, keyLen_eq, Packet.keyData, Packet.keyData,
    packet_color, packet_color, fkCreate_eq_iff, hpDown, hpIpv6, hqDown]
  · rw [tuple, tuple, ← hipv6]
    rfl
  · rw [hpIpv6, hqIpv6, hipv6]

end Wire

/-- What the threads of the program do to the flow table. -/
inductive TableAction where
  | rx (addr : Nat) (streamId : BitVec 32) (packet : Packet)
  | ref (e : EntryPtr) (count : Nat)
  | deref (e : EntryPtr) (count : Nat)
  | write (e : EntryPtr) (flags : BitVec 32) (info : FlowInfo)
      (poll : FlowPollList)

/-- `write` stands for what `flowlearn.c` stores in an entry. -/
def tableStep (t : FlowTable) : TableAction → Option FlowTable
  | .rx addr streamId packet =>
      (rxProcess t (some addr) streamId packet).map fun result => result.1
  | .ref e count => t.ftRef e count
  | .deref e count => t.ftDeref e count
  | .write e flags info poll => t.modifyEntry e fun entry =>
      { entry with flags := flags, info := info, poll := poll }

/-- A table the program can have built. -/
def InUse (t : FlowTable) : Prop :=
  ∃ calloc power2 chainSize bucketSize t₀,
    FlowTable.ftInit calloc power2 chainSize bucketSize = some t₀ ∧
      bucketSize ≤ 32 ∧ Run tableStep anyStep t₀ t

/-- The order every table in use is in. -/
structure TableOk (t : FlowTable) : Prop where
  inv : t.TableInv
  slots : t.SlotsOk

namespace TableOk

variable {t t' : FlowTable} {e : EntryPtr}

/-- Writes that leave the place of an entry alone. -/
theorem modifyEntry (hok : TableOk t) {f : FlowEntry → FlowEntry}
    (hmodify : t.modifyEntry e f = some t')
    (hbucket : ∀ entry, (f entry).bucket = entry.bucket)
    (hindex : ∀ entry, (f entry).index = entry.index) : TableOk t' := by
  rw [FlowTable.modifyEntry_eq_some_iff] at hmodify
  obtain ⟨hvalid, rfl⟩ := hmodify
  exact ⟨(FlowTable.setEntry_sameLinks e _).tableInv hok.inv,
    FlowTable.setEntry_slotsOk hok.slots hvalid (hbucket _) (hindex _)⟩

theorem ftAdd (hok : TableOk t) {alloc : Option Nat} {hash : BitVec 32}
    {keyData : KeyData} {color : BitVec 16}
    (hadd : t.ftAdd alloc hash keyData color = some (t', some e)) :
    TableOk t' :=
  ⟨FlowTable.ftAdd_tableInv hok.inv hadd,
    (FlowTable.ftAdd_added hok.inv hadd).slotsOk hok.slots⟩

theorem ftRemove (hok : TableOk t) (hremove : t.ftRemove e = some t') :
    TableOk t' :=
  ⟨FlowTable.ftRemove_tableInv hok.inv hremove,
    (FlowTable.ftRemove_removed hok.inv hok.slots hremove).slotsOk hok.slots⟩

theorem ftDeref (hok : TableOk t) {count : Nat}
    (hderef : t.ftDeref e count = some t') : TableOk t' := by
  simp only [FlowTable.ftDeref, Option.bind_eq_bind,
    Option.bind_eq_some_iff] at hderef
  obtain ⟨t₁, hmodify, hderef⟩ := hderef
  have hok₁ : TableOk t₁ :=
    hok.modifyEntry hmodify (fun _ => rfl) (fun _ => rfl)
  split at hderef
  · exact hok₁.ftRemove hderef
  · rw [Option.some.injEq] at hderef
    rw [← hderef]
    exact hok₁

theorem rxAdd (hok : TableOk t) {alloc : Option Nat} {streamId : BitVec 32}
    {packet : Packet} (hadd : rxAdd t alloc streamId packet = some (t', e)) :
    TableOk t' := by
  simp only [Ntnetflow.rxAdd, Option.bind_eq_bind, Option.bind_eq_some_iff,
    Option.some.injEq, Prod.mk.injEq] at hadd
  obtain ⟨⟨t₁, added⟩, hadd, e', he, t₂, hstream, rfl, rfl⟩ := hadd
  simp only at he
  subst he
  exact (hok.ftAdd hadd).modifyEntry hstream (fun _ => rfl) (fun _ => rfl)

theorem rxCount (hok : TableOk t) {packet : Packet}
    (hcount : rxCount t e packet = some t') : TableOk t' := by
  simp only [Ntnetflow.rxCount] at hcount
  exact hok.modifyEntry hcount (fun _ => rfl) (fun _ => rfl)

theorem tableStep (hok : TableOk t) {action : TableAction}
    (hstep : tableStep t action = some t') : TableOk t' := by
  cases action with
  | rx addr streamId packet =>
      simp only [Ntnetflow.tableStep, Option.map_eq_some_iff] at hstep
      obtain ⟨⟨t₁, found, learn⟩, hrx, rfl⟩ := hstep
      rcases rxProcess_cases hrx with ⟨-, rfl, -, -⟩ |
        ⟨e, -, -, ⟨-, -, hcount⟩ | ⟨t₂, -, hadd, -, hcount⟩⟩
      · exact hok
      · exact hok.rxCount hcount
      · exact (hok.rxAdd hadd).rxCount hcount
  | ref e count =>
      simp only [Ntnetflow.tableStep, FlowTable.ftRef] at hstep
      exact hok.modifyEntry hstep (fun _ => rfl) (fun _ => rfl)
  | deref e count => exact hok.ftDeref hstep
  | write e flags info poll =>
      simp only [Ntnetflow.tableStep] at hstep
      exact hok.modifyEntry hstep (fun _ => rfl) (fun _ => rfl)

end TableOk

theorem InUse.tableOk {t : FlowTable} (huse : InUse t) : TableOk t := by
  obtain ⟨calloc, power2, chainSize, bucketSize, t₀, hinit, hle, hrun⟩ := huse
  apply hrun.invariant
  · exact ⟨FlowTable.ftInit_tableInv hinit hle,
      FlowTable.ftInit_slotsOk hinit⟩
  · intro s action s' hok _ hstep
    exact hok.tableStep hstep

section Identity

variable {t t' : FlowTable} {e : EntryPtr} {alloc : Option Nat}
  {streamId : BitVec 32} {learn : Bool}

theorem rxCount_lookup {packet other : Packet}
    (hcount : rxCount t e packet = some t') :
    rxLookup t' other = rxLookup t other := by
  simp only [rxCount] at hcount
  rw [FlowTable.modifyEntry_eq_some_iff] at hcount
  obtain ⟨-, rfl⟩ := hcount
  exact FlowTable.setEntry_ftLookup rfl rfl rfl

theorem rxAdd_lookup (hok : TableOk t) {packet : Packet}
    (hnone : rxLookup t packet = some none)
    (hadd : rxAdd t alloc streamId packet = some (t', e)) :
    rxLookup t' packet = some (some e) := by
  simp only [rxAdd, Option.bind_eq_bind, Option.bind_eq_some_iff,
    Option.some.injEq, Prod.mk.injEq] at hadd
  obtain ⟨⟨t₁, added⟩, hadd, e', he, t₂, hstream, rfl, rfl⟩ := hadd
  simp only at he
  subst he
  rw [FlowTable.modifyEntry_eq_some_iff] at hstream
  obtain ⟨-, rfl⟩ := hstream
  have hsame := @FlowTable.setEntry_ftLookup t₁ e' packet.hash packet.keyData
    packet.flowColor { t₁.entry e' with streamId := streamId.setWidth 8 }
    rfl rfl rfl
  exact hsame.trans (FlowTable.ftLookup_added hok.inv hnone hadd)

/-- Whatever it found or created, `rx_process` finds it again. -/
theorem rxProcess_lookup (hok : TableOk t) {packet : Packet}
    (hrx : rxProcess t alloc streamId packet = some (t', some e, learn)) :
    TableOk t' ∧ rxLookup t' packet = some (some e) := by
  rcases rxProcess_cases hrx with ⟨-, -, hnone, -⟩ |
    ⟨e', -, he, ⟨hlookup, -, hcount⟩ | ⟨t₁, hlookup, hadd, -, hcount⟩⟩
  · simp at hnone
  · rw [Option.some.injEq] at he
    subst he
    exact ⟨hok.rxCount hcount, (rxCount_lookup hcount).trans hlookup⟩
  · rw [Option.some.injEq] at he
    subst he
    exact ⟨(hok.rxAdd hadd).rxCount hcount,
      (rxCount_lookup hcount).trans (rxAdd_lookup hok hlookup hadd)⟩

/-- Two packets are looked up alike when they are of one flow and direction. -/
theorem Wire.lookup_eq {p q : Wire} (hflow : Wire.SameFlow p q)
    (hdir : p.downstream = q.downstream) (hhash : p.hash = q.hash) :
    rxLookup t q.packet = rxLookup t p.packet := by
  obtain ⟨hipv6, htcp, htuple⟩ := hflow
  rw [rxLookup, rxLookup, packet_hash, packet_hash, hhash]
  apply FlowTable.ftLookup_congr
  · rw [Wire.type_eq_iff]
    exact ⟨hdir.symm, hipv6.symm, htcp.symm⟩
  · obtain ⟨-, -, -, hp⟩ := p.flags_eq
    obtain ⟨-, -, -, hq⟩ := q.flags_eq
    rw [keyLen, keyLen, hp, hq, hipv6]
  · have hkey := (Wire.key_eq_iff hipv6).mpr htuple
    rw [keyEq_eq_true_iff] at hkey ⊢
    exact fun i hi => (hkey i hi).symm

/-- Packets that find the same entry are of one flow and one direction. -/
theorem Wire.sameFlow_of_lookup (hok : TableOk t) {p q : Wire}
    (hp : rxLookup t p.packet = some (some e))
    (hq : rxLookup t q.packet = some (some e)) :
    Wire.SameFlow p q ∧ p.downstream = q.downstream := by
  have hpMatch := (FlowTable.ftLookup_eq_some hok.inv hp).2
  have hqMatch := (FlowTable.ftLookup_eq_some hok.inv hq).2
  simp only [FlowTable.ftCompare, Bool.and_eq_true, beq_iff_eq]
    at hpMatch hqMatch
  obtain ⟨⟨-, hpType⟩, hpKey⟩ := hpMatch
  obtain ⟨⟨-, hqType⟩, hqKey⟩ := hqMatch
  obtain ⟨hdir, hipv6, htcp⟩ :=
    (Wire.type_eq_iff p q).mp (hpType.symm.trans hqType)
  refine ⟨⟨hipv6, htcp, (Wire.key_eq_iff hipv6).mp ?_⟩, hdir⟩
  have hlen : keyLen q.packet.flowColor = keyLen p.packet.flowColor := by
    obtain ⟨-, -, -, hp⟩ := p.flags_eq
    obtain ⟨-, -, -, hq⟩ := q.flags_eq
    rw [keyLen, keyLen, hp, hq, hipv6]
  rw [hlen] at hqKey
  rw [keyEq_eq_true_iff] at hpKey hqKey ⊢
  exact fun i hi => (hpKey i hi).symm.trans (hqKey i hi)

/-- After `rx_process(p)`, the lookup for `q` gives the entry of `p` exactly to
the packets of its flow if and only if `q` is not the other direction of it:
`FLOW_COLOR_TYPE_MASK` keeps the direction bit in the comparison. -/
theorem rxLookup_sameFlow_iff (huse : InUse t) (p q : Wire)
    (hhash : Wire.SameFlow p q → p.hash = q.hash)
    (hrx : rxProcess t alloc streamId p.packet = some (t', some e, learn)) :
    (rxLookup t' q.packet = some (some e) ↔ Wire.SameFlow p q) ↔
      (Wire.SameFlow p q → p.downstream = q.downstream) := by
  obtain ⟨hok, hfound⟩ := rxProcess_lookup huse.tableOk hrx
  constructor
  · intro hiff hflow
    exact (Wire.sameFlow_of_lookup hok hfound (hiff.mpr hflow)).2
  · intro hdir
    constructor
    · intro hlookup
      exact (Wire.sameFlow_of_lookup hok hfound hlookup).1
    · intro hflow
      rw [Wire.lookup_eq hflow (hdir hflow) (hhash hflow)]
      exact hfound

end Identity

/-- A TCP packet from 1.0.0.0 to 0.0.0.0 on the upstream port. -/
def upstreamPacket : Wire :=
  { downstream := false, ipv6 := false, tcp := true, miss := true
    hash := 0#32, timestamp := 0#64
    l3 := fun i => if i = 12 then 1#8 else 0#8
    l4 := fun _ => 0#8 }

/-- The reply to it on the downstream port. -/
def replyPacket : Wire :=
  { upstreamPacket with
    downstream := true
    l3 := fun i => if i = 16 then 1#8 else 0#8 }

theorem upstreamPacket_process : ∃ t t' e, InUse t ∧
    rxProcess t none 0#32 upstreamPacket.packet = some (t', some e, true) ∧
    rxLookup t' replyPacket.packet = some none := by
  have hrun : ((FlowTable.ftInit (fun _ _ => none) 0 1 1).bind fun t =>
      (rxProcess t none 0#32 upstreamPacket.packet).bind fun r =>
        (rxLookup r.1 replyPacket.packet).map fun found =>
          (r.2.1.isSome, r.2.2, found)) = some (true, true, none) := by
    decide
  simp only [Option.bind_eq_some_iff, Option.map_eq_some_iff,
    Prod.mk.injEq] at hrun
  obtain ⟨t, hinit, ⟨t', found, learn⟩, hrx, reply, hreply, hsome, hlearn,
    hnone⟩ := hrun
  obtain ⟨e, rfl⟩ := Option.isSome_iff_exists.mp hsome
  simp only at hlearn hreply
  rw [hlearn] at hrx
  rw [hnone] at hreply
  exact ⟨t, t', e, ⟨_, _, _, _, t, hinit, by decide, Run.refl⟩, hrx, hreply⟩

/-- The reply is of the same flow and has the same hash, but the entry is not
found for it. -/
theorem rxLookup_reply_fails : ∃ t t' e, InUse t ∧
    rxProcess t none 0#32 upstreamPacket.packet = some (t', some e, true) ∧
    upstreamPacket.hash = replyPacket.hash ∧
    ¬ (rxLookup t' replyPacket.packet = some (some e) ↔
      Wire.SameFlow upstreamPacket replyPacket) := by
  obtain ⟨t, t', e, huse, hrx, hnone⟩ := upstreamPacket_process
  refine ⟨t, t', e, huse, hrx, rfl, ?_⟩
  rw [hnone]
  have hflow : Wire.SameFlow upstreamPacket replyPacket := by decide
  simp [hflow]

/-- The law at a packet and its reply. -/
theorem rxLookup_sameFlow_reply : ∃ t t' e, InUse t ∧
    ((rxLookup t' replyPacket.packet = some (some e) ↔
        Wire.SameFlow upstreamPacket replyPacket) ↔
      (Wire.SameFlow upstreamPacket replyPacket →
        upstreamPacket.downstream = replyPacket.downstream)) := by
  obtain ⟨t, t', e, huse, hrx, -⟩ := upstreamPacket_process
  exact ⟨t, t', e, huse, rxLookup_sameFlow_iff huse upstreamPacket replyPacket
    (fun _ => rfl) hrx⟩

end Ntnetflow

end NtapiExamples
