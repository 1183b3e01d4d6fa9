/-
`flowkey.h`: the colour bits of a packet, the key of its flow and the codes
derived from the colour.
-/
import NtapiExamples.Lib.Bits
import Mathlib.Tactic.SplitIfs

namespace NtapiExamples

namespace Ntnetflow

def FLOW_COLOR_TYPE_MASK {w : Nat} : BitVec w := BitVec.ofNat w 0xff
def FLOW_COLOR_DOWNSTREAM {w : Nat} : BitVec w := bit w 0
def FLOW_COLOR_IPV6 {w : Nat} : BitVec w := bit w 1
def FLOW_COLOR_TCP {w : Nat} : BitVec w := bit w 2
def FLOW_COLOR_MISS {w : Nat} : BitVec w := bit w 9
def FLOW_COLOR_UNHANDLED {w : Nat} : BitVec w := bit w 10

def FLOW_MAX_KEY_LEN : Nat := 40
def FLOW_IPV4_KEY_LEN : Nat := 12
def FLOW_IPV6_KEY_LEN : Nat := 36

/-- `uint8_t key_data[FLOW_MAX_KEY_LEN]`. -/
abbrev KeyData := Fin FLOW_MAX_KEY_LEN → BitVec 8

/-- Packet bytes from the start of a header on. -/
abbrev Header := Nat → BitVec 8

/-- `memcpy(dst + at, src + from, len)`. -/
def memcpy (dst : KeyData) (at_ : Nat) (src : Header) (from_ len : Nat) :
    KeyData :=
  fun i => if at_ ≤ i ∧ i < at_ + len then src (from_ + (i - at_)) else dst i

/-- The key length `ft_add`, `ft_compare` and `fl_flow` use for a colour. -/
def keyLen {w : Nat} (color : BitVec w) : Nat :=
  if test color FLOW_COLOR_IPV6 then FLOW_IPV6_KEY_LEN else FLOW_IPV4_KEY_LEN

/-- `fk_create`: addresses and ports, exchanged for a downstream packet. -/
def fkCreate (dst : KeyData) (l3 l4 : Header) (srcColor : BitVec 8) :
    KeyData :=
  let downstream := test srcColor FLOW_COLOR_DOWNSTREAM
  if test srcColor FLOW_COLOR_IPV6 then
    let dst := memcpy dst (if downstream then 16 else 0) l3 8 16
    let dst := memcpy dst (if downstream then 0 else 16) l3 24 16
    let dst := memcpy dst (if downstream then 34 else 32) l4 0 2
    memcpy dst (if downstream then 32 else 34) l4 2 2
  else
    let dst := memcpy dst (if downstream then 4 else 0) l3 12 4
    let dst := memcpy dst (if downstream then 0 else 4) l3 16 4
    let dst := memcpy dst (if downstream then 10 else 8) l4 0 2
    memcpy dst (if downstream then 8 else 10) l4 2 2

/-- `memcmp(a, b, len) == 0`. -/
def keyEq (len : Nat) (a b : KeyData) : Bool :=
  decide (∀ i : Fin FLOW_MAX_KEY_LEN, i.val < len → a i = b i)

@[simp] theorem keyEq_eq_true_iff (len : Nat) (a b : KeyData) :
    keyEq len a b = true ↔
      ∀ i : Fin FLOW_MAX_KEY_LEN, i.val < len → a i = b i := by
  simp [keyEq]

/-- Addresses and ports in the order source, destination. -/
structure FlowTuple where
  source : List (BitVec 8)
  destination : List (BitVec 8)
  sourcePort : List (BitVec 8)
  destinationPort : List (BitVec 8)
deriving DecidableEq

def FlowTuple.swap (tuple : FlowTuple) : FlowTuple :=
  ⟨tuple.destination, tuple.source, tuple.destinationPort, tuple.sourcePort⟩

def headerBytes (header : Header) (from_ len : Nat) : List (BitVec 8) :=
  (List.range len).map fun i => header (from_ + i)

/-- The addresses and ports of a packet, as they stand in its headers. -/
def packetTuple (ipv6 : Bool) (l3 l4 : Header) : FlowTuple :=
  if ipv6 then
    ⟨headerBytes l3 8 16, headerBytes l3 24 16, headerBytes l4 0 2,
      headerBytes l4 2 2⟩
  else
    ⟨headerBytes l3 12 4, headerBytes l3 16 4, headerBytes l4 0 2,
      headerBytes l4 2 2⟩

/-- The same, seen from upstream. -/
def flowTuple (ipv6 downstream : Bool) (l3 l4 : Header) : FlowTuple :=
  if downstream then (packetTuple ipv6 l3 l4).swap else packetTuple ipv6 l3 l4

theorem headerBytes_inj {a b : Header} {i j len : Nat} :
    headerBytes a i len = headerBytes b j len ↔
      ∀ k, k < len → a (i + k) = b (j + k) := by
  simp [headerBytes, List.map_inj_left]

/-- The length of an address. -/
def addressLen (ipv6 : Bool) : Nat := if ipv6 then 16 else 4

/-- Where the source address starts in the network header. -/
def sourceOffset (ipv6 : Bool) : Nat := if ipv6 then 8 else 12

theorem keyLen_eq {w : Nat} (c : BitVec w) :
    keyLen c = 2 * addressLen (test c FLOW_COLOR_IPV6) + 4 := by
  simp only [keyLen, addressLen]
  split <;> rfl

theorem flowTuple_eq (ipv6 downstream : Bool) (l3 l4 : Header) :
    flowTuple ipv6 downstream l3 l4 =
      ⟨headerBytes l3 (sourceOffset ipv6 +
          if downstream then addressLen ipv6 else 0) (addressLen ipv6),
        headerBytes l3 (sourceOffset ipv6 +
          if downstream then 0 else addressLen ipv6) (addressLen ipv6),
        headerBytes l4 (if downstream then 2 else 0) 2,
        headerBytes l4 (if downstream then 0 else 2) 2⟩ := by
  cases ipv6 <;> cases downstream <;> rfl

/-- The four parts of a key, for either IP version and direction. -/
theorem fkCreate_apply (dst : KeyData) (l3 l4 : Header) (c : BitVec 8)
    (i : Fin FLOW_MAX_KEY_LEN) (k : Nat) :
    let ipv6 := test c FLOW_COLOR_IPV6
    let downstream := test c FLOW_COLOR_DOWNSTREAM
    let n := addressLen ipv6
    (k < n → i.val = k → fkCreate dst l3 l4 c i =
      l3 (sourceOffset ipv6 + (if downstream then n else 0) + k)) ∧
    (k < n → i.val = n + k → fkCreate dst l3 l4 c i =
      l3 (sourceOffset ipv6 + (if downstream then 0 else n) + k)) ∧
    (k < 2 → i.val = 2 * n + k → fkCreate dst l3 l4 c i =
      l4 ((if downstream then 2 else 0) + k)) ∧
    (k < 2 → i.val = 2 * n + 2 + k → fkCreate dst l3 l4 c i =
      l4 ((if downstream then 0 else 2) + k)) := by
  obtain ⟨i, hi⟩ := i
  cases hipv6 : test c FLOW_COLOR_IPV6 <;>
    cases hdown : test c FLOW_COLOR_DOWNSTREAM <;>
    simp only [fkCreate, memcpy, addressLen, sourceOffset, hipv6, hdown,
      if_true, Bool.false_eq_true, if_false] <;>
    refine ⟨?_, ?_, ?_, ?_⟩ <;> rintro hk rfl <;>
    split_ifs <;> first | omega | (congr 1 <;> omega)

/-- Two keys agree on a part that is copied from headers exactly when the bytes
that are copied agree. -/
theorem key_part {f g : KeyData} {a b : Header} {start len x y : Nat}
    (hle : start + len ≤ FLOW_MAX_KEY_LEN)
    (hf : ∀ (i : Fin FLOW_MAX_KEY_LEN) (k : Nat), k < len →
      i.val = start + k → f i = a (x + k))
    (hg : ∀ (i : Fin FLOW_MAX_KEY_LEN) (k : Nat), k < len →
      i.val = start + k → g i = b (y + k)) :
    (∀ i : Fin FLOW_MAX_KEY_LEN, start ≤ i.val → i.val < start + len →
      f i = g i) ↔ headerBytes a x len = headerBytes b y len := by
  rw [headerBytes_inj]
  constructor
  · intro heq k hk
    have hlt : start + k < FLOW_MAX_KEY_LEN := by omega
    rw [← hf ⟨start + k, hlt⟩ k hk rfl, ← hg ⟨start + k, hlt⟩ k hk rfl]
    exact heq ⟨start + k, hlt⟩ (Nat.le_add_right _ _)
      (Nat.add_lt_add_left hk start)
  · intro heq i hstart hend
    have hk : i.val = start + (i.val - start) := by omega
    have hlt : i.val - start < len := by omega
    rw [hf i _ hlt hk, hg i _ hlt hk]
    exact heq _ hlt

/-- The bytes of a key are those of its four parts. -/
theorem forall_key_iff {p : Fin FLOW_MAX_KEY_LEN → Prop} (n : Nat) :
    (∀ i : Fin FLOW_MAX_KEY_LEN, i.val < 2 * n + 4 → p i) ↔
      (∀ i : Fin FLOW_MAX_KEY_LEN, 0 ≤ i.val → i.val < 0 + n → p i) ∧
      (∀ i : Fin FLOW_MAX_KEY_LEN, n ≤ i.val → i.val < n + n → p i) ∧
      (∀ i : Fin FLOW_MAX_KEY_LEN, 2 * n ≤ i.val → i.val < 2 * n + 2 → p i) ∧
      ∀ i : Fin FLOW_MAX_KEY_LEN, 2 * n + 2 ≤ i.val →
        i.val < 2 * n + 2 + 2 → p i := by
  constructor
  · intro hall
    exact ⟨fun i _ hi => hall i (by omega), fun i _ hi => hall i (by omega),
      fun i _ hi => hall i (by omega), fun i _ hi => hall i (by omega)⟩
  · rintro ⟨hsource, hdestination, hsport, hdport⟩ i hi
    by_cases h₁ : i.val < n
    · exact hsource i (Nat.zero_le _) (by omega)
    by_cases h₂ : i.val < 2 * n
    · exact hdestination i (by omega) (by omega)
    by_cases h₃ : i.val < 2 * n + 2
    · exact hsport i (by omega) h₃
    · exact hdport i (by omega) (by omega)

/-- `fk_create` swaps by direction, so two keys agree over the key length of
their IP version exactly when the packets' tuples agree seen from upstream. -/
theorem fkCreate_eq_iff (dst dst' : KeyData) (l3 l4 l3' l4' : Header)
    {c c' : BitVec 8}
    (hipv6 : test c' FLOW_COLOR_IPV6 = test c FLOW_COLOR_IPV6) :
    (∀ i : Fin FLOW_MAX_KEY_LEN, i.val < keyLen c →
      fkCreate dst l3 l4 c i = fkCreate dst' l3' l4' c' i) ↔
    flowTuple (test c FLOW_COLOR_IPV6) (test c FLOW_COLOR_DOWNSTREAM) l3 l4 =
      flowTuple (test c FLOW_COLOR_IPV6) (test c' FLOW_COLOR_DOWNSTREAM)
        l3' l4' := by
  let n := addressLen (test c FLOW_COLOR_IPV6)
  have hlen : keyLen c = 2 * n + 4 := keyLen_eq c
  have hle : keyLen c ≤ FLOW_MAX_KEY_LEN := by
    simp only [keyLen]
    split <;> decide
  have hkey := fkCreate_apply dst l3 l4 c
  have hkey' := fkCreate_apply dst' l3' l4' c'
  rw [hipv6] at hkey'
  rw [flowTuple_eq, flowTuple_eq, FlowTuple.mk.injEq, hlen, forall_key_iff]
  apply and_congr
  · apply key_part (by omega)
    · exact fun i k hk hi => (hkey i k).1 hk (by rw [hi, Nat.zero_add])
    · exact fun i k hk hi => (hkey' i k).1 hk (by rw [hi, Nat.zero_add])
  apply and_congr
  · exact key_part (by omega) (fun i k => (hkey i k).2.1)
      fun i k => (hkey' i k).2.1
  apply and_congr
  · exact key_part (by omega) (fun i k => (hkey i k).2.2.1)
      fun i k => (hkey' i k).2.2.1
  · exact key_part (by omega) (fun i k => (hkey i k).2.2.2)
      fun i k => (hkey' i k).2.2.2

/-- `fk_key_id`. -/
def fkKeyId (color : BitVec 8) : Nat :=
  if test color FLOW_COLOR_IPV6 then 2 else 1

/-- `fk_proto`. -/
def fkProto (color : BitVec 8) : BitVec 8 :=
  if test color FLOW_COLOR_TCP then 0x06#8 else 0x11#8

end Ntnetflow

end NtapiExamples
