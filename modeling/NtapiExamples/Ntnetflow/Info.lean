/-
The information queries of ntnetflow.  One cached structure serves the readers
of ports, adapters and the system: its command tells what it holds, and a
query for a port is answered from it when command and port number fit.  The
command is written before the read is attempted, so that after a failed read
the cache looks like that of a port whose data are all zero.
-/
import Mathlib.Logic.Basic

namespace NtapiExamples.Ntnetflow

/-- `NT_LINK_STATE_*`. -/
inductive LinkState
  | unknown
  | up
  | down
  | error
deriving DecidableEq, Repr

/-- The part of `u.port.data` the program looks at. -/
structure PortData where
  macAddress : BitVec 48
  maxTxPktSize : BitVec 32
  minTxPktSize : BitVec 32
  adapterNo : BitVec 8
  state : LinkState
deriving DecidableEq, Repr

/-- The part of `u.adapter_v6.data` the program looks at; `profileCapture` is
`profile == NT_PROFILE_TYPE_CAPTURE`. -/
structure AdapterData where
  profileCapture : Bool
  timestampType : Nat
deriving DecidableEq, Repr

/-- `u.system.data`. -/
structure SystemData where
  numPorts : BitVec 8
deriving DecidableEq, Repr

/-- What `memset` leaves of the data of a port. -/
def PortData.zero : PortData := ⟨0, 0, 0, 0, .unknown⟩

def AdapterData.zero : AdapterData := ⟨false, 0⟩

def SystemData.zero : SystemData := ⟨0⟩

/-- `struct NtInfo_s`: the command and the member of the union it stands for. -/
inductive NtInfo
  | readUnknown
  | readPort (portNo : BitVec 8) (data : PortData)
  | readAdapter (adapterNo : BitVec 8) (data : AdapterData)
  | readAdapterV6 (adapterNo : BitVec 8) (data : AdapterData)
  | readSystem (data : SystemData)
deriving DecidableEq, Repr

/-- The hit test of `info_read_port`. -/
def NtInfo.holdsPort (portNo : BitVec 8) : NtInfo → Bool
  | .readPort held _ => held == portNo
  | _ => false

/-- The hit test of `info_read_adapter`: it asks for `READ_ADAPTER`, a command
that is never written. -/
def NtInfo.holdsAdapter (adapterNo : BitVec 8) : NtInfo → Bool
  | .readAdapter held _ => held == adapterNo
  | _ => false

/-- `info->u.port.data`. -/
def NtInfo.portData : NtInfo → PortData
  | .readPort _ data => data
  | _ => PortData.zero

/-- `info->u.adapter_v6.data`. -/
def NtInfo.adapterData : NtInfo → AdapterData
  | .readAdapter _ data => data
  | .readAdapterV6 _ data => data
  | _ => AdapterData.zero

/-- `info->u.system.data`. -/
def NtInfo.systemData : NtInfo → SystemData
  | .readSystem data => data
  | _ => SystemData.zero

/-- `info_clear_cache`. -/
def infoClearCache (_cached : NtInfo) : NtInfo := .readUnknown

/-- `info_read_port`: `isCached` is `info == &cached`, and `read` is the outcome
of `NT_InfoRead`, which leaves the structure alone when it fails. -/
def infoReadPort (port : BitVec 32) (isCached : Bool) (read : Option PortData)
    (info : NtInfo) : NtInfo × Int :=
  if isCached && info.holdsPort (port.setWidth 8) then (info, 0)
  else
    match read with
    | some data => (.readPort (port.setWidth 8) data, 0)
    | none => (.readPort (port.setWidth 8) PortData.zero, -1)

/-- `info_read_adapter`. -/
def infoReadAdapter (adapter : BitVec 32) (isCached : Bool)
    (read : Option AdapterData) (info : NtInfo) : NtInfo × Int :=
  if isCached && info.holdsAdapter (adapter.setWidth 8) then (info, 0)
  else
    match read with
    | some data => (.readAdapterV6 (adapter.setWidth 8) data, 0)
    | none => (.readAdapterV6 (adapter.setWidth 8) AdapterData.zero, -1)

/-- `info_read_system`. -/
def infoReadSystem (read : Option SystemData) (_info : NtInfo) : NtInfo × Int :=
  match read with
  | some data => (.readSystem data, 0)
  | none => (.readSystem SystemData.zero, -1)

/-- What a query answers: the value it returns and, for the query of the MAC
address, the address it writes. -/
structure PortAnswer where
  value : Int
  addr : Option (BitVec 48)
deriving DecidableEq, Repr

/-- The queries for a port that use the cache. -/
inductive PortQuery
  | macAddress
  | maxTxPktSize
  | minTxPktSize
  | adapterNo
deriving DecidableEq, Repr

/-- The answer a query takes from the data of a port. -/
def PortQuery.field : PortQuery → PortData → PortAnswer
  | .macAddress, data => ⟨0, some data.macAddress⟩
  | .maxTxPktSize, data => ⟨data.maxTxPktSize.toInt, none⟩
  | .minTxPktSize, data => ⟨data.minTxPktSize.toInt, none⟩
  | .adapterNo, data => ⟨data.adapterNo.toNat, none⟩

/-- The four cached queries: read the port, then take one field. -/
def infoPort (query : PortQuery) (port : BitVec 32) (read : Option PortData)
    (cached : NtInfo) : NtInfo × PortAnswer :=
  let (cached, status) := infoReadPort port true read cached
  if status < 0 then (cached, ⟨-1, none⟩)
  else (cached, query.field cached.portData)

/-- `info_port_mac_address`. -/
def infoPortMacAddress := infoPort .macAddress

/-- `info_port_max_tx_pkt_size`. -/
def infoPortMaxTxPktSize := infoPort .maxTxPktSize

/-- `info_port_min_tx_pkt_size`. -/
def infoPortMinTxPktSize := infoPort .minTxPktSize

/-- `info_port_adapter_no`. -/
def infoPortAdapterNo := infoPort .adapterNo

/-- `info_port_link_up`, which has a structure of its own. -/
def infoPortLinkUp (port : BitVec 32) (read : Option PortData) (info : NtInfo) :
    NtInfo × Int :=
  let (info, status) := infoReadPort port false read info
  if status < 0 then (info, -1)
  else (info, if info.portData.state = .up then 1 else 0)

/-- `info_adapter_profile_capture`. -/
def infoAdapterProfileCapture (adapter : BitVec 32) (read : Option AdapterData)
    (cached : NtInfo) : NtInfo × Int :=
  let (cached, status) := infoReadAdapter adapter true read cached
  if status < 0 then (cached, -1)
  else (cached, if cached.adapterData.profileCapture then 1 else 0)

/-- `info_adapter_timestamp_type`. -/
def infoAdapterTimestampType (adapter : BitVec 32) (read : Option AdapterData)
    (cached : NtInfo) : NtInfo × Int :=
  let (cached, status) := infoReadAdapter adapter true read cached
  if status < 0 then (cached, -1)
  else (cached, cached.adapterData.timestampType)

/-- `info_system_num_ports`. -/
def infoSystemNumPorts (read : Option SystemData) (cached : NtInfo) :
    NtInfo × Int :=
  let (cached, status) := infoReadSystem read cached
  if status < 0 then (cached, -1)
  else (cached, cached.systemData.numPorts.toNat)

/-- The function that makes a query. -/
def PortQuery.call : PortQuery → BitVec 32 → Option PortData → NtInfo →
    NtInfo × PortAnswer
  | .macAddress => infoPortMacAddress
  | .maxTxPktSize => infoPortMaxTxPktSize
  | .minTxPktSize => infoPortMinTxPktSize
  | .adapterNo => infoPortAdapterNo

theorem PortQuery.call_eq (query : PortQuery) : query.call = infoPort query := by
  cases query <;> rfl

/-- The calls a program makes, with the queries of adapter properties as one:
these read into a structure of their own. -/
inductive InfoCall
  | port (query : PortQuery) (port : BitVec 32)
  | portLinkUp (port : BitVec 32)
  | adapterProfileCapture (adapter : BitVec 32)
  | adapterTimestampType (adapter : BitVec 32)
  | adapterProperty (adapter : BitVec 32)
  | systemNumPorts
  | clearCache
deriving DecidableEq, Repr

/-- What `NT_InfoRead` would deliver at one moment. -/
structure Delivery where
  port : PortData
  adapter : AdapterData
  system : SystemData
deriving DecidableEq, Repr

/-- The thread's cache and the structure of `info_port_link_up`, with the data
of ports that `NT_InfoRead` has delivered so far, under the port number it was
asked for. -/
structure InfoState where
  cached : NtInfo
  linkInfo : NtInfo
  delivered : List (BitVec 8 × PortData)
deriving DecidableEq, Repr

/-- Before the first call: both structures are zero. -/
def InfoState.initial : InfoState := ⟨.readUnknown, .readUnknown, []⟩

/-- What one read of a port into `info` delivers: nothing on a hit or a failure. -/
def deliveredPort (port : BitVec 32) (isCached : Bool) (read : Option PortData)
    (info : NtInfo) : List (BitVec 8 × PortData) :=
  if isCached && info.holdsPort (port.setWidth 8) then []
  else (read.map fun data => (port.setWidth 8, data)).toList

/-- A call whose read, if it makes one, succeeds with `now` or fails; the
answer is that of a query which uses the cached port. -/
def infoStep (now : Delivery) (ok : Bool) (state : InfoState) :
    InfoCall → InfoState × Option PortAnswer
  | .port query port =>
      let read := if ok then some now.port else none
      let (cached, answer) := query.call port read state.cached
      ({ state with
          cached := cached
          delivered := state.delivered ++
            deliveredPort port true read state.cached }, some answer)
  | .portLinkUp port =>
      let read := if ok then some now.port else none
      let (linkInfo, _) := infoPortLinkUp port read state.linkInfo
      ({ state with
          linkInfo := linkInfo
          delivered := state.delivered ++
            deliveredPort port false read state.linkInfo }, none)
  | .adapterProfileCapture adapter =>
      let read := if ok then some now.adapter else none
      let (cached, _) := infoAdapterProfileCapture adapter read state.cached
      ({ state with cached := cached }, none)
  | .adapterTimestampType adapter =>
      let read := if ok then some now.adapter else none
      let (cached, _) := infoAdapterTimestampType adapter read state.cached
      ({ state with cached := cached }, none)
  | .adapterProperty _ => (state, none)
  | .systemNumPorts =>
      let read := if ok then some now.system else none
      let (cached, _) := infoSystemNumPorts read state.cached
      ({ state with cached := cached }, none)
  | .clearCache =>
      ({ state with cached := infoClearCache state.cached }, none)

/-- A value other than -1 is a field of data delivered, up to and including
this call, for the port the query names: `NT_InfoRead` is asked for the low
byte of the port, so that is which port is meant. -/
def answerDelivered (call : InfoCall) (answer : Option PortAnswer)
    (delivered : List (BitVec 8 × PortData)) : Prop :=
  match call, answer with
  | .port query port, some answer =>
      answer.value ≠ -1 →
        ∃ data, (port.setWidth 8, data) ∈ delivered ∧ answer = query.field data
  | _, _ => True

/-- Every cached answer in a sequence of calls, `deliveries` being what the
reads of the calls would deliver in turn. -/
def AnswersDelivered (deliveries : Nat → Delivery) (time : Nat)
    (state : InfoState) : List (InfoCall × Bool) → Prop
  | [] => True
  | (call, ok) :: calls =>
      let (next, answer) := infoStep (deliveries time) ok state call
      answerDelivered call answer next.delivered ∧
        AnswersDelivered deliveries (time + 1) next calls

/-- What a query can tell of the cache: the port it is tagged with, and whether
the read that wrote the tag was a success. -/
abbrev PortTag := Option (BitVec 8 × Bool)

/-- What a call does to the tag. -/
def tagStep (tag : PortTag) : InfoCall × Bool → PortTag
  | (.port _ port, ok) =>
      if tag.map Prod.fst = some (port.setWidth 8) then tag
      else some (port.setWidth 8, ok)
  | (.portLinkUp _, _) => tag
  | (.adapterProfileCapture _, _) => none
  | (.adapterTimestampType _, _) => none
  | (.adapterProperty _, _) => tag
  | (.systemNumPorts, _) => none
  | (.clearCache, _) => none

/-- A query for a port whose own read was the last one into the cache, and
failed. -/
def askedAfterFailure (tag : PortTag) : InfoCall → Bool
  | .port _ port => tag == some (port.setWidth 8, false)
  | _ => false

/-- No query of the sequence follows a failed read for its port with no other
read into the cache, and no clearing, in between. -/
def NoQueryAfterFailure (tag : PortTag) : List (InfoCall × Bool) → Prop
  | [] => True
  | (call, ok) :: calls =>
      askedAfterFailure tag call = false ∧
        NoQueryAfterFailure (tagStep tag (call, ok)) calls

section Port

variable {query : PortQuery} {port : BitVec 32} {cached : NtInfo}

/-- A hit: the cache answers, whatever it was filled with. -/
theorem infoPort_hit (read : Option PortData)
    (hhit : cached.holdsPort (port.setWidth 8) = true) :
    infoPort query port read cached =
      (cached, query.field cached.portData) := by
  simp [infoPort, infoReadPort, hhit]

theorem infoPort_read (data : PortData)
    (hmiss : cached.holdsPort (port.setWidth 8) = false) :
    infoPort query port (some data) cached =
      (.readPort (port.setWidth 8) data, query.field data) := by
  simp [infoPort, infoReadPort, hmiss, NtInfo.portData]

theorem infoPort_failed
    (hmiss : cached.holdsPort (port.setWidth 8) = false) :
    infoPort query port none cached =
      (.readPort (port.setWidth 8) PortData.zero, ⟨-1, none⟩) := by
  simp [infoPort, infoReadPort, hmiss]

theorem holdsPort_iff {portNo : BitVec 8} :
    cached.holdsPort portNo = true ↔ ∃ data, cached = .readPort portNo data := by
  cases cached <;> simp [NtInfo.holdsPort]

end Port

/-- The cache is what its tag says: filled with data delivered for its port, or
zero after a failed read. -/
structure TagFits (tag : PortTag) (state : InfoState) : Prop where
  other : tag = none → ∀ portNo, state.cached.holdsPort portNo = false
  filled : ∀ portNo, tag = some (portNo, true) →
    ∃ data, state.cached = .readPort portNo data ∧
      (portNo, data) ∈ state.delivered
  failed : ∀ portNo, tag = some (portNo, false) →
    state.cached = .readPort portNo PortData.zero

theorem TagFits.initial : TagFits none InfoState.initial where
  other := fun _ _ => rfl
  filled := fun _ htag => by cases htag
  failed := fun _ htag => by cases htag

section Tags

variable {tag : PortTag} {state : InfoState}

/-- The hit test looks at the port of the tag, not at how it was filled. -/
theorem TagFits.holdsPort_iff (hfits : TagFits tag state)
    (portNo : BitVec 8) :
    state.cached.holdsPort portNo = true ↔ tag.map Prod.fst = some portNo := by
  cases htag : tag with
  | none => simp [hfits.other htag]
  | some entry =>
      obtain ⟨held, ok⟩ := entry
      cases ok with
      | true =>
          obtain ⟨data, hcached, _⟩ := hfits.filled held htag
          simp [hcached, NtInfo.holdsPort]
      | false => simp [hfits.failed held htag, NtInfo.holdsPort]

/-- A cache that holds no port fits the empty tag. -/
theorem TagFits.of_other
    (hother : ∀ portNo, state.cached.holdsPort portNo = false) :
    TagFits none state where
  other := fun _ => hother
  filled := fun _ htag => by cases htag
  failed := fun _ htag => by cases htag

/-- What was delivered stays delivered. -/
theorem TagFits.delivered_append (hfits : TagFits tag state)
    (linkInfo : NtInfo) (more : List (BitVec 8 × PortData)) :
    TagFits tag { state with
      linkInfo := linkInfo, delivered := state.delivered ++ more } where
  other := hfits.other
  filled := fun portNo htag => by
    obtain ⟨data, hcached, hmem⟩ := hfits.filled portNo htag
    exact ⟨data, hcached, List.mem_append_left _ hmem⟩
  failed := hfits.failed

/-- One query of the cached port: its three outcomes. -/
theorem infoStep_port (now : Delivery) (ok : Bool) (query : PortQuery)
    (port : BitVec 32) (hfits : TagFits tag state) :
    (tag.map Prod.fst = some (port.setWidth 8) ∧
      infoStep now ok state (.port query port) =
        (state, some (query.field state.cached.portData))) ∨
    (tag.map Prod.fst ≠ some (port.setWidth 8) ∧ ok = true ∧
      infoStep now ok state (.port query port) =
        ({ state with
            cached := .readPort (port.setWidth 8) now.port
            delivered := state.delivered ++ [(port.setWidth 8, now.port)] },
          some (query.field now.port))) ∨
    (tag.map Prod.fst ≠ some (port.setWidth 8) ∧ ok = false ∧
      infoStep now ok state (.port query port) =
        ({ state with cached := .readPort (port.setWidth 8) PortData.zero },
          some ⟨-1, none⟩)) := by
  by_cases htag : tag.map Prod.fst = some (port.setWidth 8)
  · have hhit := (hfits.holdsPort_iff _).mpr htag
    left
    refine ⟨htag, ?_⟩
    simp [infoStep, PortQuery.call_eq, infoPort_hit _ hhit, deliveredPort, hhit]
  · have hmiss : state.cached.holdsPort (port.setWidth 8) = false := by
      rw [← Bool.not_eq_true, hfits.holdsPort_iff]
      exact htag
    right
    cases ok with
    | true =>
        left
        refine ⟨htag, rfl, ?_⟩
        simp [infoStep, PortQuery.call_eq, infoPort_read _ hmiss,
          deliveredPort, hmiss]
    | false =>
        right
        refine ⟨htag, rfl, ?_⟩
        simp [infoStep, PortQuery.call_eq, infoPort_failed hmiss,
          deliveredPort, hmiss]

theorem infoAdapterProfileCapture_cached (adapter : BitVec 32)
    (read : Option AdapterData) (cached : NtInfo) :
    (infoAdapterProfileCapture adapter read cached).1 =
      (infoReadAdapter adapter true read cached).1 := by
  unfold infoAdapterProfileCapture
  split
  split <;> simp_all

theorem infoAdapterTimestampType_cached (adapter : BitVec 32)
    (read : Option AdapterData) (cached : NtInfo) :
    (infoAdapterTimestampType adapter read cached).1 =
      (infoReadAdapter adapter true read cached).1 := by
  unfold infoAdapterTimestampType
  split
  split <;> simp_all

/-- A query of the adapter leaves no port in the cache. -/
theorem infoReadAdapter_holdsPort (adapter : BitVec 32)
    (read : Option AdapterData) {cached : NtInfo} (portNo : BitVec 8) :
    (infoReadAdapter adapter true read cached).1.holdsPort portNo = false := by
  unfold infoReadAdapter
  split
  case isTrue hhit =>
    cases cached <;> simp_all [NtInfo.holdsAdapter, NtInfo.holdsPort]
  case isFalse => cases read <;> rfl

/-- Every call keeps the cache what its tag says. -/
theorem TagFits.step (hfits : TagFits tag state) (now : Delivery) (ok : Bool)
    (call : InfoCall) :
    TagFits (tagStep tag (call, ok)) (infoStep now ok state call).1 := by
  cases call with
  | port query port =>
      rcases infoStep_port now ok query port hfits with
        ⟨htag, hstep⟩ | ⟨htag, hok, hstep⟩ | ⟨htag, hok, hstep⟩
      · rw [hstep, tagStep, if_pos htag]
        exact hfits
      · rw [hstep, tagStep, if_neg htag, hok]
        exact
          { other := fun h => by cases h
            filled := fun portNo h => by
              cases h
              exact ⟨now.port, rfl, by simp⟩
            failed := fun portNo h => by cases h }
      · rw [hstep, tagStep, if_neg htag, hok]
        exact
          { other := fun h => by cases h
            filled := fun portNo h => by cases h
            failed := fun portNo h => by
              cases h
              rfl }
  | portLinkUp port => exact hfits.delivered_append _ _
  | adapterProfileCapture adapter =>
      apply TagFits.of_other
      intro portNo
      simp only [infoStep]
      rw [infoAdapterProfileCapture_cached]
      exact infoReadAdapter_holdsPort adapter _ portNo
  | adapterTimestampType adapter =>
      apply TagFits.of_other
      intro portNo
      simp only [infoStep]
      rw [infoAdapterTimestampType_cached]
      exact infoReadAdapter_holdsPort adapter _ portNo
  | adapterProperty adapter => exact hfits
  | systemNumPorts =>
      apply TagFits.of_other
      intro portNo
      cases ok <;> rfl
  | clearCache => exact TagFits.of_other fun portNo => rfl

/-- A query that does not follow a failure is answered from delivered data. -/
theorem answerDelivered_of_not_asked (hfits : TagFits tag state)
    (now : Delivery) (ok : Bool) (call : InfoCall)
    (hasked : askedAfterFailure tag call = false) :
    answerDelivered call (infoStep now ok state call).2
      (infoStep now ok state call).1.delivered := by
  cases call with
  | port query port =>
      rcases infoStep_port now ok query port hfits with
        ⟨htag, hstep⟩ | ⟨htag, hok, hstep⟩ | ⟨htag, hok, hstep⟩
      · rw [hstep]
        intro _
        obtain ⟨⟨held, filled⟩, hentry, hheld⟩ := Option.map_eq_some_iff.mp htag
        have hfilled : filled = true := by
          cases filled with
          | true => rfl
          | false => simp_all [askedAfterFailure]
        obtain ⟨data, hcached, hmem⟩ := hfits.filled held (by rw [hentry, hfilled])
        refine ⟨data, by rw [← hheld]; exact hmem, ?_⟩
        rw [hcached]
        rfl
      · rw [hstep]
        intro _
        exact ⟨now.port, by simp, rfl⟩
      · rw [hstep]
        intro hvalue
        exact absurd rfl hvalue
  | portLinkUp port => trivial
  | adapterProfileCapture adapter => trivial
  | adapterTimestampType adapter => trivial
  | adapterProperty adapter => trivial
  | systemNumPorts => trivial
  | clearCache => trivial

end Tags

/-- Calls that ask for no port after its failure are answered from what was
delivered. -/
theorem AnswersDelivered.of_noQueryAfterFailure (deliveries : Nat → Delivery)
    (calls : List (InfoCall × Bool)) {time : Nat} {tag : PortTag}
    {state : InfoState} (hfits : TagFits tag state)
    (hcalls : NoQueryAfterFailure tag calls) :
    AnswersDelivered deliveries time state calls := by
  induction calls generalizing time tag state with
  | nil => trivial
  | cons event calls ih =>
      obtain ⟨call, ok⟩ := event
      obtain ⟨hasked, hrest⟩ := hcalls
      exact ⟨answerDelivered_of_not_asked hfits _ ok call hasked,
        ih (hfits.step _ ok call) hrest⟩

/-- Data of a port no field of which is zero. -/
def PortData.nonzero : PortData := ⟨1, 1, 1, 1, .up⟩

def Delivery.nonzero : Delivery := ⟨PortData.nonzero, AdapterData.zero, SystemData.zero⟩

/-- Zeroed data answer no query as the data of a port without zeros do, and
they never answer -1. -/
theorem PortQuery.field_zero (query : PortQuery) :
    (query.field PortData.zero).value ≠ -1 ∧
      query.field PortData.zero ≠ query.field PortData.nonzero := by
  cases query <;> decide

/-- Only data without zeros have been delivered. -/
def DeliveredNonzero (state : InfoState) : Prop :=
  ∀ entry ∈ state.delivered, entry.2 = PortData.nonzero

theorem deliveredPort_nonzero (port : BitVec 32) (isCached ok : Bool)
    (info : NtInfo) :
    ∀ entry ∈ deliveredPort port isCached
      (if ok then some PortData.nonzero else none) info,
      entry.2 = PortData.nonzero := by
  intro entry hentry
  unfold deliveredPort at hentry
  split at hentry
  case isTrue => simp at hentry
  case isFalse =>
    cases ok with
    | true =>
        simp only [↓reduceIte, Option.map_some, Option.toList_some,
          List.mem_singleton] at hentry
        rw [hentry]
    | false => simp at hentry

theorem DeliveredNonzero.step {state : InfoState} (hall : DeliveredNonzero state)
    (ok : Bool) (call : InfoCall) :
    DeliveredNonzero (infoStep Delivery.nonzero ok state call).1 := by
  have happend : ∀ port isCached info cached linkInfo,
      DeliveredNonzero
        ⟨cached, linkInfo, state.delivered ++ deliveredPort port isCached
          (if ok then some PortData.nonzero else none) info⟩ := by
    intro port isCached info cached linkInfo entry hentry
    rcases List.mem_append.mp hentry with hold | hnew
    · exact hall entry hold
    · exact deliveredPort_nonzero port isCached ok info entry hnew
  cases call with
  | port query port => exact happend port true _ _ _
  | portLinkUp port => exact happend port false _ _ _
  | adapterProfileCapture adapter => exact hall
  | adapterTimestampType adapter => exact hall
  | adapterProperty adapter => exact hall
  | systemNumPorts => exact hall
  | clearCache => exact hall

/-- A query after a failure of its port is answered with a zero nobody
delivered. -/
theorem not_answerDelivered_of_asked {tag : PortTag} {state : InfoState}
    (hfits : TagFits tag state) (hall : DeliveredNonzero state) (ok : Bool)
    (call : InfoCall) (hasked : askedAfterFailure tag call = true) :
    ¬ answerDelivered call (infoStep Delivery.nonzero ok state call).2
      (infoStep Delivery.nonzero ok state call).1.delivered := by
  cases call with
  | port query port =>
      have htag : tag = some (port.setWidth 8, false) := by
        simpa [askedAfterFailure] using hasked
      rcases infoStep_port Delivery.nonzero ok query port hfits with
        ⟨_, hstep⟩ | ⟨hne, _, _⟩ | ⟨hne, _, _⟩
      · rw [hstep, hfits.failed _ htag]
        intro hanswer
        obtain ⟨hvalue, hfield⟩ := query.field_zero
        obtain ⟨data, hmem, heq⟩ := hanswer hvalue
        have hdata : data = PortData.nonzero := hall _ hmem
        rw [hdata] at heq
        exact hfield heq
      · simp [htag] at hne
      · simp [htag] at hne
  | portLinkUp port => simp [askedAfterFailure] at hasked
  | adapterProfileCapture adapter => simp [askedAfterFailure] at hasked
  | adapterTimestampType adapter => simp [askedAfterFailure] at hasked
  | adapterProperty adapter => simp [askedAfterFailure] at hasked
  | systemNumPorts => simp [askedAfterFailure] at hasked
  | clearCache => simp [askedAfterFailure] at hasked

theorem NoQueryAfterFailure.of_answersDelivered
    (calls : List (InfoCall × Bool)) {time : Nat} {tag : PortTag}
    {state : InfoState} (hfits : TagFits tag state)
    (hall : DeliveredNonzero state)
    (hanswers : AnswersDelivered (fun _ => Delivery.nonzero) time state calls) :
    NoQueryAfterFailure tag calls := by
  induction calls generalizing time tag state with
  | nil => trivial
  | cons event calls ih =>
      obtain ⟨call, ok⟩ := event
      obtain ⟨hanswer, hrest⟩ := hanswers
      constructor
      · cases hasked : askedAfterFailure tag call with
        | false => rfl
        | true =>
            exact (not_answerDelivered_of_asked hfits hall ok call hasked
              hanswer).elim
      · exact ih (hfits.step _ ok call) (hall.step ok call) hrest

/-- The port read of the example below fails, and the same query is asked
again. -/
def askedTwice : List (InfoCall × Bool) :=
  [(.port .adapterNo 0, false), (.port .adapterNo 0, false)]

/-- The second query is answered with adapter 0 although no read succeeded. -/
theorem askedTwice_invented :
    ¬ ∀ calls : List (InfoCall × Bool), ∀ deliveries : Nat → Delivery,
      AnswersDelivered deliveries 0 InfoState.initial calls := by
  intro hall
  have hcalls := NoQueryAfterFailure.of_answersDelivered askedTwice
    TagFits.initial (fun _ hmem => by cases hmem)
    (hall askedTwice fun _ => Delivery.nonzero)
  simp [NoQueryAfterFailure, askedTwice, askedAfterFailure, tagStep] at hcalls

/-- Whatever the reads deliver, cached port answers are never invented exactly
in the sequences that ask for no port right after its read has failed. -/
theorem answersDelivered_iff (calls : List (InfoCall × Bool)) :
    (∀ deliveries : Nat → Delivery,
      AnswersDelivered deliveries 0 InfoState.initial calls) ↔
      NoQueryAfterFailure none calls := by
  constructor
  · intro hanswers
    exact NoQueryAfterFailure.of_answersDelivered calls TagFits.initial
      (fun _ hmem => by cases hmem) (hanswers fun _ => Delivery.nonzero)
  · intro hcalls deliveries
    exact AnswersDelivered.of_noQueryAfterFailure deliveries calls
      TagFits.initial hcalls

end NtapiExamples.Ntnetflow
