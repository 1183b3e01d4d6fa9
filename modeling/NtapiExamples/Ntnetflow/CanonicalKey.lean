/-
The key of a flow is the same in both directions.  What `ft_compare` compares
and `fl_flow` gives to the adapter is written by `fk_create` as a whole, and is
the tuple of the packet as it is seen from upstream.
-/
import NtapiExamples.Ntnetflow.FlowTable

namespace NtapiExamples

namespace Ntnetflow

def FLOW_KEYSET_ID_BYPASS : Nat := 3

/-- The fields of `struct NtFlow_s` that are set. -/
structure NtFlow where
  color : Nat
  ipProtocolField : BitVec 8
  keyId : Nat
  keySetId : Nat
  op : Int
  tau : Nat
  gfi : Nat
  id : BitVec 64
  keyData : KeyData

/-- `fl_flow`, with the id of the entry. -/
def flFlow (id : BitVec 64) (entry : FlowEntry) (op : Int) : NtFlow where
  color := 0
  ipProtocolField := fkProto (entry.color.setWidth 8)
  keyId := fkKeyId (entry.color.setWidth 8)
  keySetId := FLOW_KEYSET_ID_BYPASS
  op := op
  tau := if test entry.color FLOW_COLOR_TCP then 1 else 0
  gfi := 1
  id := id
  keyData := memcpy (fun _ => 0#8) 0
    (fun i => if h : i < FLOW_MAX_KEY_LEN then entry.keyData ⟨i, h⟩ else 0#8) 0
    (keyLen entry.color)

/-- A packet of an IP version: its headers and its colour. -/
structure KeyPacket (ipv6 : Bool) where
  l3 : Header
  l4 : Header
  color : BitVec 16
  version : test color FLOW_COLOR_IPV6 = ipv6

/-- A header with the `n` bytes from `at_` on and the `n` bytes behind them
exchanged. -/
def exchange (at_ n : Nat) (header : Header) : Header := fun i =>
  if at_ ≤ i ∧ i < at_ + n then header (i + n)
  else if at_ + n ≤ i ∧ i < at_ + n + n then header (i - n)
  else header i

theorem headerBytes_exchange (at_ n : Nat) (header : Header) :
    headerBytes (exchange at_ n header) at_ n = headerBytes header (at_ + n) n ∧
      headerBytes (exchange at_ n header) (at_ + n) n =
        headerBytes header at_ n := by
  rw [headerBytes_inj, headerBytes_inj]
  constructor
  · intro k hk
    rw [exchange, if_pos (by omega), Nat.add_right_comm]
  · intro k hk
    rw [exchange, if_neg (by omega), if_pos (by omega)]
    congr 1
    omega

theorem test_setWidth_bit (color : BitVec 16) {n : Nat} (hn : n < 8) :
    test (color.setWidth 8) (bit 8 n) = test color (bit 16 n) := by
  rw [test_bit, test_bit, BitVec.getLsbD_setWidth, decide_eq_true hn,
    Bool.true_and]

theorem test_flip_self (color : BitVec 16) {n : Nat} (hn : n < 16) :
    test (color ^^^ bit 16 n) (bit 16 n) = !test color (bit 16 n) := by
  rw [test_bit, test_bit, BitVec.getLsbD_xor, bit, BitVec.getLsbD_twoPow,
    decide_eq_true hn, decide_eq_true rfl, Bool.and_self, Bool.xor_true]

theorem test_flip_ne (color : BitVec 16) {m n : Nat} (hne : n ≠ m) :
    test (color ^^^ bit 16 n) (bit 16 m) = test color (bit 16 m) := by
  rw [test_bit, test_bit, BitVec.getLsbD_xor, bit, BitVec.getLsbD_twoPow,
    decide_eq_false hne, Bool.and_false, Bool.xor_false]

namespace KeyPacket

variable {ipv6 : Bool} (p : KeyPacket ipv6)

/-- The key `fk_create` makes in the array `dst`. -/
def key (dst : KeyData) : KeyData :=
  fkCreate dst p.l3 p.l4 (p.color.setWidth 8)

def downstream : Bool := test p.color FLOW_COLOR_DOWNSTREAM

/-- The tuple of the packet, swapped for a downstream packet. -/
def tuple : FlowTuple := flowTuple ipv6 p.downstream p.l3 p.l4

/-- The entry `e` with the key and the colour of the packet. -/
def store (dst : KeyData) (e : FlowEntry) : FlowEntry :=
  { e with color := p.color, keyData := p.key dst }

/-- The addresses, the ports and the direction exchanged. -/
def reversed : KeyPacket ipv6 where
  l3 := exchange (sourceOffset ipv6) (addressLen ipv6) p.l3
  l4 := exchange 0 2 p.l4
  color := p.color ^^^ FLOW_COLOR_DOWNSTREAM
  version := (test_flip_ne p.color (by decide)).trans p.version

theorem packetTuple_eq (ipv6 : Bool) (l3 l4 : Header) :
    packetTuple ipv6 l3 l4 =
      ⟨headerBytes l3 (sourceOffset ipv6) (addressLen ipv6),
        headerBytes l3 (sourceOffset ipv6 + addressLen ipv6) (addressLen ipv6),
        headerBytes l4 0 2, headerBytes l4 2 2⟩ := by
  cases ipv6 with
  | false => rfl
  | true => rfl

theorem packetTuple_reversed :
    packetTuple ipv6 p.reversed.l3 p.reversed.l4 =
      (packetTuple ipv6 p.l3 p.l4).swap := by
  obtain ⟨hsource, hdestination⟩ :=
    headerBytes_exchange (sourceOffset ipv6) (addressLen ipv6) p.l3
  obtain ⟨hsport, hdport⟩ := headerBytes_exchange 0 2 p.l4
  rw [Nat.zero_add] at hsport hdport
  rw [packetTuple_eq, packetTuple_eq, FlowTuple.swap, reversed, hsource,
    hdestination, hsport, hdport]

theorem downstream_reversed : p.reversed.downstream = !p.downstream :=
  test_flip_self p.color (by decide)

theorem tuple_reversed : p.reversed.tuple = p.tuple := by
  rw [tuple, tuple, flowTuple, flowTuple, downstream_reversed,
    packetTuple_reversed]
  cases p.downstream with
  | false => rfl
  | true => rfl

theorem version_key : test (p.color.setWidth 8) FLOW_COLOR_IPV6 = ipv6 :=
  (test_setWidth_bit p.color (by decide)).trans p.version

theorem keyLen_color (q : KeyPacket ipv6) : keyLen q.color = keyLen p.color := by
  rw [keyLen, keyLen, p.version, q.version]

/-- The keys agree as far as they are compared exactly when the tuples do,
whatever was in the arrays. -/
theorem key_eq_iff (q : KeyPacket ipv6) (dst dst' : KeyData) :
    keyEq (keyLen p.color) (p.key dst) (q.key dst') = true ↔
      p.tuple = q.tuple := by
  have hlen : keyLen p.color = keyLen (p.color.setWidth 8) := by
    rw [keyLen, keyLen, p.version, p.version_key]
  have hdown : ∀ r : KeyPacket ipv6,
      test (r.color.setWidth 8) FLOW_COLOR_DOWNSTREAM = r.downstream :=
    fun r => test_setWidth_bit r.color (by decide)
  rw [keyEq_eq_true_iff, hlen, key, key, fkCreate_eq_iff, p.version_key, hdown,
    hdown]
  · rfl
  · rw [p.version_key, q.version_key]

/-- The keys in two requests to the adapter are equal exactly when those of the
entries agree as far as they are compared. -/
theorem flFlow_keyData_iff (q : KeyPacket ipv6) (id id' : BitVec 64)
    (op op' : Int) (dst dst' : KeyData) (e e' : FlowEntry) :
    (flFlow id (p.store dst e) op).keyData =
        (flFlow id' (q.store dst' e') op').keyData ↔
      keyEq (keyLen p.color) (p.key dst) (q.key dst') = true := by
  rw [keyEq_eq_true_iff, funext_iff]
  apply forall_congr'
  intro i
  simp only [flFlow, memcpy, store, p.keyLen_color q, Nat.zero_le, true_and,
    Nat.zero_add, Nat.sub_zero, i.isLt, dif_pos]
  by_cases hi : i.val < keyLen p.color
  · simp [hi]
  · simp [hi]

end KeyPacket

/-- The key is canonical: as far as it is compared, it is written as a whole, it
is the same for both directions, and it tells two packets of an IP version apart
exactly when their tuples, seen from upstream, differ.  So do the comparison in
the flow table and the key that the adapter is given. -/
theorem canonicalKey {ipv6 : Bool} (p q : KeyPacket ipv6) (dst dst' : KeyData) :
    (keyEq (keyLen p.color) (p.key dst) (q.key dst') = true ↔
      p.tuple = q.tuple) ∧
    (∀ (e : FlowEntry) (hash : BitVec 32),
      FlowTable.ftCompare (p.store dst e) hash (q.key dst') q.color =
        (e.hash == hash &&
          (p.color &&& FLOW_COLOR_TYPE_MASK) ==
            (q.color &&& FLOW_COLOR_TYPE_MASK) &&
          decide (p.tuple = q.tuple))) ∧
    (∀ (e e' : FlowEntry) (id id' : BitVec 64) (op op' : Int),
      (flFlow id (p.store dst e) op).keyData =
        (flFlow id' (q.store dst' e') op').keyData ↔ p.tuple = q.tuple) ∧
    keyEq (keyLen p.color) (p.reversed.key dst) (p.key dst') = true ∧
    keyEq (keyLen p.color) (p.key dst) (p.key dst') = true ∧
    keyLen p.color = if ipv6 then 36 else 12 := by
  refine ⟨p.key_eq_iff q dst dst', fun e hash => ?_, fun e e' id id' op op' => ?_,
    ?_, (p.key_eq_iff p dst dst').mpr rfl, ?_⟩
  · have hkeys : keyEq (keyLen p.color) (p.key dst) (q.key dst') =
        decide (p.tuple = q.tuple) := by
      rw [Bool.eq_iff_iff, decide_eq_true_eq]
      exact p.key_eq_iff q dst dst'
    rw [FlowTable.ftCompare, p.keyLen_color q, ← hkeys]
    rfl
  · exact (p.flFlow_keyData_iff q id id' op op' dst dst' e e').trans
      (p.key_eq_iff q dst dst')
  · have hlen := p.keyLen_color p.reversed
    rw [← hlen]
    exact (p.reversed.key_eq_iff p dst dst').mpr p.tuple_reversed
  · rw [keyLen, p.version]
    rfl

end Ntnetflow

end NtapiExamples
