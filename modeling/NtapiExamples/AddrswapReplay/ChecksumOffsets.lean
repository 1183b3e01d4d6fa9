/-
The offsets that `_Replay` writes to the TX descriptor of an IPv4 frame.  The
adapter takes them for the places of the IPv4 header and of the layer-4 header,
and the second one is set as if no IPv4 header had options.
-/
import NtapiExamples.AddrswapReplay.Replay

namespace NtapiExamples

namespace AddrswapReplay

/-- `ip_hl` of the header at an offset. -/
def Packet.ipHl (p : Packet) (ip : Nat) : BitVec 4 :=
  (p.byte ip).extractLsb' 0 4

/-- Where the IPv4 header of a frame with `tags` VLAN tags is. -/
def ipv4Offset (tags : Nat) : Nat := macHeaderSize + 4 * tags

/-- Where the layer-4 header is, behind an IPv4 header of `words` words. -/
def layer4Offset (tags words : Nat) : Nat := ipv4Offset tags + 4 * words

/-- An IPv4 frame of `len` bytes with `tags` VLAN tags and a header of `words`
words. -/
structure HeaderFrame (p : Packet) (len tags words : Nat) : Prop
    extends IPv4Frame p tags where
  version : p.ipV (ipv4Offset tags) = 4
  headerLength : (p.ipHl (ipv4Offset tags)).toNat = words
  legal : 5 ≤ words ∧ words ≤ 15
  whole : layer4Offset tags words ≤ len
  captured : len ≤ p.size

/-- The frame is handed on as an IPv4 frame of the same form, with the offsets
of its headers in the descriptor. -/
def OffsetsRight (fcsPresentInFile : Bool) (optSubstitute : Option Tree)
    (c : Counters) (pkt : FilePacket) (tx : TxBuffer) (tags words : Nat) :
    Prop :=
  ∃ c' tx', replayPacket fcsPresentInFile optSubstitute c pkt tx =
      some (c', tx') ∧
    HeaderFrame tx'.l2 (pktWirelen fcsPresentInFile pkt).toNat tags words ∧
    tx'.descriptor.offset0.toNat = ipv4Offset tags ∧
    tx'.descriptor.offset1.toNat = layer4Offset tags words

section Frames

variable {p : Packet} {len tags words : Nat}

theorem HeaderFrame.untagged (hframe : HeaderFrame p len tags words) :
    p.isVlan (typelenOffset + 4 * tags) = false := by
  rw [Packet.isVlan, hframe.type.1]
  rfl

/-- The form of a frame is in the bytes up to the first one of its IPv4 header. -/
theorem HeaderFrame.congr {q : Packet} (hframe : HeaderFrame p len tags words)
    (hbyte : ∀ i, i ≤ ipv4Offset tags → q.byte i = p.byte i)
    (hsize : len ≤ q.size) : HeaderFrame q len tags words := by
  simp only [ipv4Offset, macHeaderSize] at hbyte
  have hvlan : ∀ j, j ≤ tags → q.isVlan (typelenOffset + 4 * j) =
      p.isVlan (typelenOffset + 4 * j) := by
    intro j hj
    simp only [Packet.isVlan, typelenOffset]
    rw [hbyte _ (by omega), hbyte _ (by omega)]
  have htype := hframe.type
  have hversion := hframe.version
  have hlength := hframe.headerLength
  simp only [typelenOffset] at htype
  simp only [Packet.ipV, Packet.ipHl, ipv4Offset, macHeaderSize] at hversion hlength
  have hlegal := hframe.legal
  have hwhole := hframe.whole
  refine ⟨⟨?_, ?_, ?_⟩, ?_, ?_, hlegal, hwhole, hsize⟩
  · intro j hj
    rw [hvlan j (by omega)]
    exact hframe.tagged j hj
  · simp only [typelenOffset]
    rw [hbyte _ (by omega), hbyte _ (by omega)]
    exact htype
  · simp only [layer4Offset, ipv4Offset, macHeaderSize, ipHeaderSize] at *
    omega
  · simp only [Packet.ipV, ipv4Offset, macHeaderSize]
    rw [hbyte _ (by omega)]
    exact hversion
  · simp only [Packet.ipHl, ipv4Offset, macHeaderSize]
    rw [hbyte _ (by omega)]
    exact hlength

end Frames

/-- The substitution of addresses leaves the bytes in front of them alone. -/
theorem substituteOpt_front (optSubstitute : Option Tree) {p : Packet}
    {tags : Nat} (hvlan : p.vlanSize = some (4 * tags))
    (hfits : macHeaderSize + 4 * tags + ipHeaderSize ≤ p.size) :
    ∃ q found, substituteOpt optSubstitute p = some (q, found) ∧
      q.size = p.size ∧ ∀ i, i ≤ ipv4Offset tags → q.byte i = p.byte i := by
  cases optSubstitute with
  | none => exact ⟨p, false, rfl, rfl, fun _ _ => rfl⟩
  | some root =>
      simp only [macHeaderSize, ipHeaderSize] at hfits
      have hsrc : srcOffset tags = 26 + 4 * tags := by
        simp only [srcOffset, macHeaderSize, ipSrcOffset]
        omega
      have hdst : dstOffset tags = 30 + 4 * tags := by
        simp only [dstOffset, macHeaderSize, ipDstOffset]
        omega
      obtain ⟨p₁, found₁, hsubst₁, hsize₁, hbyte₁, _⟩ :=
        @substituteAt_spec root p (srcOffset tags) 0 (by omega)
      obtain ⟨p₂, found₂, hsubst₂, hsize₂, hbyte₂, _⟩ :=
        @substituteAt_spec root p₁ (dstOffset tags) 0 (by omega)
      refine ⟨p₂, found₁ || found₂, ?_, hsize₂.trans hsize₁, ?_⟩
      · simp only [srcOffset, dstOffset] at hsubst₁ hsubst₂
        simp only [substituteOpt, substituteIP, hvlan, Option.bind_eq_bind,
          Option.bind_some, hsubst₁, hsubst₂]
      · intro i hi
        simp only [ipv4Offset, macHeaderSize] at hi
        rw [hbyte₂ i (Or.inl (by omega)), hbyte₁ i (Or.inl (by omega))]

/-- What becomes of an IPv4 frame: it is handed on in its form, and the second
offset is that of a header without options. -/
theorem replayPacket_ipv4 (fcsPresentInFile : Bool)
    (optSubstitute : Option Tree) (c : Counters) {pkt : FilePacket}
    {tx : TxBuffer} {tags words : Nat}
    (hframe : HeaderFrame pkt.l2 (pktWirelen fcsPresentInFile pkt).toNat tags
      words)
    (hbuffer : (pktWirelen fcsPresentInFile pkt).toNat ≤ tx.l2.size) :
    ∃ c' tx', replayPacket fcsPresentInFile optSubstitute c pkt tx =
        some (c', tx') ∧
      HeaderFrame tx'.l2 (pktWirelen fcsPresentInFile pkt).toNat tags words ∧
      tx'.descriptor.offset0 = BitVec.ofNat 10 (ipv4Offset tags) ∧
      tx'.descriptor.offset1 = BitVec.ofNat 10 (layer4Offset tags 5) := by
  have hfits := hframe.whole
  have hlegal := hframe.legal
  simp only [layer4Offset, ipv4Offset, macHeaderSize] at hfits
  generalize hlen : (pktWirelen fcsPresentInFile pkt).toNat = len at *
  have hcopy : tx.l2.memcpy pkt.l2 len = some (copied pkt tx len) := by
    rw [Packet.memcpy, if_pos ⟨hbuffer, hframe.captured⟩, copied]
  have hcopied : HeaderFrame (copied pkt tx len) len tags words := by
    have hbyte : ∀ i, i ≤ ipv4Offset tags →
        (copied pkt tx len).byte i = pkt.l2.byte i := by
      intro i hi
      simp only [ipv4Offset, macHeaderSize] at hi
      exact copied_byte pkt tx (by omega)
    exact hframe.congr hbyte hbuffer
  have hvlan : (copied pkt tx len).vlanSize = some (4 * tags) :=
    vlanSize_copied hframe.tagged hframe.untagged
      (by simp only [macHeaderSize]; omega) hbuffer
  have hroom : macHeaderSize + 4 * tags + ipHeaderSize ≤
      (copied pkt tx len).size := by
    change _ ≤ tx.l2.size
    simp only [macHeaderSize, ipHeaderSize]
    omega
  obtain ⟨q, found, hsubst, hsize, hbyte⟩ :=
    substituteOpt_front optSubstitute hvlan hroom
  have hversion : (copied pkt tx len).ipV (macHeaderSize + 4 * tags) = 4 :=
    hcopied.version
  have hsent : HeaderFrame q len tags words :=
    hcopied.congr hbyte (hsize ▸ hcopied.captured)
  have hchecksum : ∃ d, setChecksum (copied pkt tx len) (4 * tags)
      tx.descriptor = some d ∧ d.offset0 = BitVec.ofNat 10 (ipv4Offset tags) ∧
        d.offset1 = BitVec.ofNat 10 (layer4Offset tags 5) := by
    simp only [setChecksum, if_pos hroom, if_pos hversion]
    refine ⟨_, rfl, rfl, ?_⟩
    simp only [layer4Offset, ipv4Offset, macHeaderSize, ipHeaderSize]
    congr 1
    omega
  obtain ⟨d, hd, hoffset0, hoffset1⟩ := hchecksum
  simp only [replayPacket, hlen, hcopy, Option.bind_eq_bind, Option.bind_some,
    hvlan, hd, hsubst]
  exact ⟨_, _, rfl, hsent, hoffset0, hoffset1⟩

/-- An IPv4 frame with one word of options. -/
def optionsFrame : FilePacket where
  wireLength := 60
  timestamp := 0
  l2 :=
    { size := 60
      byte := fun i =>
        [2, 0, 0, 0, 0, 1, 2, 0, 0, 0, 0, 2, 0x08, 0x00, 0x46, 0, 0, 46, 0, 0,
          0, 0, 64, 17].getD i 0 }

theorem optionsFrame_isHeader : HeaderFrame optionsFrame.l2
    (pktWirelen false optionsFrame).toNat 0 6 where
  tagged := by decide
  type := by decide
  fits := by decide
  version := by decide
  headerLength := by decide
  legal := by decide
  whole := by decide
  captured := by decide

/-- The second offset fits a header of five words only. -/
theorem OffsetsRight.words_eq {fcsPresentInFile : Bool}
    {optSubstitute : Option Tree} {c : Counters} {pkt : FilePacket}
    {tx : TxBuffer} {tags words : Nat}
    (hframe : HeaderFrame pkt.l2 (pktWirelen fcsPresentInFile pkt).toNat tags
      words)
    (hbuffer : (pktWirelen fcsPresentInFile pkt).toNat ≤ tx.l2.size)
    (hright : OffsetsRight fcsPresentInFile optSubstitute c pkt tx tags words) :
    words = 5 := by
  obtain ⟨c₁, tx₁, hsent₁, _, _, hoffset₁⟩ := hright
  obtain ⟨c₂, tx₂, hsent₂, _, _, hoffset₂⟩ :=
    replayPacket_ipv4 fcsPresentInFile optSubstitute c hframe hbuffer
  rw [hsent₁, Option.some.injEq, Prod.mk.injEq] at hsent₂
  have hlegal := hframe.legal
  rw [hsent₂.2, hoffset₂, BitVec.toNat_ofNat] at hoffset₁
  simp only [layer4Offset, ipv4Offset, macHeaderSize] at hoffset₁
  omega

/-- The layer-4 offset points into the options. -/
theorem optionsFrame_wrong :
    HeaderFrame optionsFrame.l2 (pktWirelen false optionsFrame).toNat 0 6 ∧
    layer4Offset 0 6 < 2 ^ 10 ∧
    ¬ OffsetsRight false none ⟨0, 0, 0, 0, 0, 0⟩ optionsFrame emptyTx 0 6 := by
  refine ⟨optionsFrame_isHeader, by decide, fun hright => ?_⟩
  have hwords := hright.words_eq optionsFrame_isHeader (by decide)
  exact absurd hwords (by decide)

/-- The descriptor of an IPv4 frame has the offsets of its headers exactly when
the IPv4 header has no options. -/
theorem offsetsRight_iff (fcsPresentInFile : Bool)
    (optSubstitute : Option Tree) (c : Counters) (pkt : FilePacket)
    (tx : TxBuffer) (tags words : Nat)
    (hframe : HeaderFrame pkt.l2 (pktWirelen fcsPresentInFile pkt).toNat tags
      words)
    (hbuffer : (txLength (pktWirelen fcsPresentInFile pkt)).toNat ≤
      tx.l2.size)
    (hfields : layer4Offset tags words < 2 ^ 10) :
    OffsetsRight fcsPresentInFile optSubstitute c pkt tx tags words ↔
      words = 5 := by
  have hroom := Nat.le_trans (le_txLength _) hbuffer
  constructor
  · exact fun hright => hright.words_eq hframe hroom
  · rintro rfl
    obtain ⟨c', tx', hsent, hframe', hoffset0, hoffset1⟩ :=
      replayPacket_ipv4 fcsPresentInFile optSubstitute c hframe hroom
    refine ⟨c', tx', hsent, hframe', ?_, ?_⟩
    · rw [hoffset0, BitVec.toNat_ofNat]
      apply Nat.mod_eq_of_lt
      simp only [layer4Offset] at hfields
      omega
    · rw [hoffset1, BitVec.toNat_ofNat]
      exact Nat.mod_eq_of_lt hfields

/-- A tagged frame without options. -/
def plainFrame : FilePacket where
  wireLength := 64
  timestamp := 0
  l2 :=
    { size := 64
      byte := fun i =>
        [2, 0, 0, 0, 0, 1, 2, 0, 0, 0, 0, 2, 0x81, 0x00, 0, 5, 0x08, 0x00,
          0x45, 0, 0, 46, 0, 0, 0, 0, 64, 17].getD i 0 }

theorem plainFrame_isHeader : HeaderFrame plainFrame.l2
    (pktWirelen false plainFrame).toNat 1 5 where
  tagged := by decide
  type := by decide
  fits := by decide
  version := by decide
  headerLength := by decide
  legal := by decide
  whole := by decide
  captured := by decide

theorem offsetsRight_iff_plain :
    OffsetsRight false none ⟨0, 0, 0, 0, 0, 0⟩ plainFrame emptyTx 1 5 :=
  (offsetsRight_iff false none ⟨0, 0, 0, 0, 0, 0⟩ plainFrame emptyTx 1 5
    plainFrame_isHeader (by decide) (by decide)).mpr rfl

end AddrswapReplay

end NtapiExamples
