/-
One round of the loop of `_Replay`: the frame is copied into the TX buffer, its
descriptor is filled, and the addresses are substituted.
-/
import NtapiExamples.AddrswapReplay.SubstituteIP

namespace NtapiExamples

namespace AddrswapReplay

/-- `memcpy`; `none` when it leaves one of the buffers. -/
def Packet.memcpy (dest src : Packet) (len : Nat) : Option Packet :=
  if len ≤ dest.size ∧ len ≤ src.size then
    some { dest with
      byte := fun i => if i < len then src.byte i else dest.byte i }
  else none

/-- `ip_v` and `ip_prot` of the header at an offset. -/
def Packet.ipV (p : Packet) (ip : Nat) : BitVec 4 :=
  (p.byte ip).extractLsb' 4 4

def Packet.ipProt (p : Packet) (ip : Nat) : BitVec 8 := p.byte (ip + 9)

/-- `checksum_command`. -/
def checksumCommand (l3 l4 : BitVec 32) : BitVec 64 :=
  ((l3.setWidth 64 &&& 0x3) <<< 3) ||| (l4.setWidth 64 &&& 0x7)

def FCS_LENGTH : BitVec 32 := 4
def FCS_GOOD : BitVec 2 := 0
def CHECKSUM_LAYER3_DO_NOTHING : BitVec 32 := 0
def CHECKSUM_LAYER3_GOOD : BitVec 32 := 3
def CHECKSUM_LAYER4_DO_NOTHING : BitVec 32 := 0
def CHECKSUM_LAYER4_GOOD : BitVec 32 := 3
def FRAME_TYPE_IPV4_TCP : BitVec 4 := 0x4
def FRAME_TYPE_IPV4_UDP : BitVec 4 := 0x8
def IP_PROT_TCP : BitVec 8 := 6
def IP_PROT_UDP : BitVec 8 := 17

/-- The fields of the TX descriptor that `_Replay` writes. -/
structure TxDescriptor where
  offset0 : BitVec 10
  offset1 : BitVec 10
  frameType : BitVec 4
  checksumCmd : BitVec 5
  fcsCmd : BitVec 2
  timestamp : BitVec 64

/-- A packet of the file. -/
structure FilePacket where
  wireLength : BitVec 32
  timestamp : BitVec 64
  l2 : Packet

/-- A buffer of the TX stream. -/
structure TxBuffer where
  descriptor : TxDescriptor
  l2 : Packet

/-- The counters of the program. -/
structure Counters where
  lastPacketTS : BitVec 64
  segments : BitVec 64
  bytes : BitVec 64
  totBytes : BitVec 64
  substitutionCounter : BitVec 64
  pktCount : BitVec 64

/-- `pktWirelen`. -/
def pktWirelen (fcsPresentInFile : Bool) (pkt : FilePacket) : BitVec 32 :=
  if fcsPresentInFile then pkt.wireLength - FCS_LENGTH else pkt.wireLength

/-- The length `NT_NetTxGet` is asked for. -/
def txLength (len : BitVec 32) : BitVec 32 := if len < 64 then 64 else len

theorem le_txLength (len : BitVec 32) : len.toNat ≤ (txLength len).toNat := by
  unfold txLength
  split
  · rename_i hlt
    exact Nat.le_of_lt hlt
  · exact Nat.le_refl _

/-- The checksum commands for the header behind the tags. -/
def setChecksum (p : Packet) (vlanSize : Nat) (d : TxDescriptor) :
    Option TxDescriptor :=
  let ip := macHeaderSize + vlanSize
  if ip + ipHeaderSize ≤ p.size then
    if p.ipV ip = 4 then
      some { d with
        offset0 := BitVec.ofNat 10 (macHeaderSize + vlanSize)
        offset1 := BitVec.ofNat 10 (macHeaderSize + ipHeaderSize + vlanSize)
        frameType :=
          if p.ipProt ip = IP_PROT_UDP then FRAME_TYPE_IPV4_UDP &&& 0xF
          else if p.ipProt ip = IP_PROT_TCP then FRAME_TYPE_IPV4_TCP &&& 0xF
          else d.frameType
        checksumCmd := (checksumCommand CHECKSUM_LAYER3_GOOD
          CHECKSUM_LAYER4_GOOD &&& 0x1F).setWidth 5 }
    else
      some { d with
        checksumCmd := (checksumCommand CHECKSUM_LAYER3_DO_NOTHING
          CHECKSUM_LAYER4_DO_NOTHING &&& 0x1F).setWidth 5 }
  else none

/-- The substitution, when a file for it was given. -/
def substituteOpt (optSubstitute : Option Tree) (p : Packet) :
    Option (Packet × Bool) :=
  match optSubstitute with
  | none => some (p, false)
  | some root => substituteIP root p

/-- What the loop does with a packet between `NT_NetFileGet` and
`NT_NetTxRelease`. -/
def replayPacket (fcsPresentInFile : Bool) (optSubstitute : Option Tree)
    (c : Counters) (pkt : FilePacket) (tx : TxBuffer) :
    Option (Counters × TxBuffer) := do
  let len := pktWirelen fcsPresentInFile pkt
  let dest ← tx.l2.memcpy pkt.l2 len.toNat
  let vlanSize ← dest.vlanSize
  let descriptor ← setChecksum dest vlanSize tx.descriptor
  let (dest, found) ← substituteOpt optSubstitute dest
  some
    ({ lastPacketTS := pkt.timestamp
       segments := c.segments + 1
       bytes := c.bytes + len.setWidth 64
       totBytes := c.totBytes + len.setWidth 64
       substitutionCounter :=
         if found then c.substitutionCounter + 1 else c.substitutionCounter
       pktCount := c.pktCount + 1 },
     { descriptor :=
         { descriptor with fcsCmd := FCS_GOOD &&& 0x3,
                           timestamp := pkt.timestamp }
       l2 := dest })

/-- The bytes of a packet below a length are those of another. -/
def SameFrame (len : Nat) (p q : Packet) : Prop :=
  ∀ i, i < len → p.byte i = q.byte i

/-- A replacement for the word at an offset leaves the bytes below `len` as they
are. -/
def KeepsFrame (root : Tree) (len : Nat) (p : Packet) (off : Nat) : Prop :=
  ∀ new ∈ root.lookup (p.quadAt off).word, new.slt 0 = false →
    ∀ j, j < 4 → off + j < len → new.extractLsb' (8 * j) 8 = p.byte (off + j)

theorem store32_byte (p : Packet) (off : Nat) (v : BitVec 32) (i : Nat) :
    (p.store32 off v).byte i =
      if off ≤ i ∧ i < off + 4 then v.extractLsb' (8 * (i - off)) 8
      else p.byte i := rfl

theorem store32_sameFrame_iff (p : Packet) (off len : Nat) (v : BitVec 32) :
    SameFrame len (p.store32 off v) p ↔
      ∀ j, j < 4 → off + j < len →
        v.extractLsb' (8 * j) 8 = p.byte (off + j) := by
  constructor
  · intro hsame j hj hlt
    have hbyte := hsame (off + j) hlt
    rwa [store32_byte, if_pos (by omega), Nat.add_sub_cancel_left] at hbyte
  · intro hkeeps i hi
    by_cases hin : off ≤ i ∧ i < off + 4
    · obtain ⟨j, rfl⟩ := Nat.exists_eq_add_of_le hin.1
      rw [store32_byte, if_pos hin, Nat.add_sub_cancel_left]
      exact hkeeps j (by omega) hi
    · rw [store32_byte, if_neg hin]

/-- What `substitute_IP` does with one address. -/
theorem substituteAt_spec (root : Tree) {p : Packet} {off : Nat} (len : Nat)
    (hfits : off + 4 ≤ p.size) :
    ∃ p' found, substituteAt root off p = some (p', found) ∧
      p'.size = p.size ∧
      (∀ i, i < off ∨ off + 4 ≤ i → p'.byte i = p.byte i) ∧
      (SameFrame len p' p ↔ KeepsFrame root len p off) := by
  simp only [substituteAt, Packet.load32, if_pos hfits, Option.map_some,
    Option.some.injEq, searchAddrMap_eq, KeepsFrame]
  cases hlookup : root.lookup (p.quadAt off).word with
  | none =>
      refine ⟨p, false, by simp, rfl, fun _ _ => rfl, ?_⟩
      simp [SameFrame]
  | some new =>
      by_cases hneg : new.slt 0#32 = true
      · refine ⟨p, false, by simp [hneg], rfl, fun _ _ => rfl, ?_⟩
        simp [SameFrame, hneg]
      · rw [Bool.not_eq_true] at hneg
        refine ⟨p.store32 off new, true, by simp [hneg], rfl, ?_, ?_⟩
        · intro i hi
          rw [store32_byte, if_neg (by omega)]
        · rw [store32_sameFrame_iff]
          simp [hneg]

theorem quadAt_congr {p p' : Packet} {off : Nat}
    (hbyte : ∀ i, off ≤ i → i < off + 4 → p'.byte i = p.byte i) :
    p'.quadAt off = p.quadAt off := by
  rw [Packet.quadAt, Packet.quadAt, hbyte off (by omega) (by omega),
    hbyte (off + 1) (by omega) (by omega),
    hbyte (off + 2) (by omega) (by omega),
    hbyte (off + 3) (by omega) (by omega)]

theorem keepsFrame_congr {root : Tree} {len : Nat} {p p' : Packet} {off : Nat}
    (hbyte : ∀ i, off ≤ i → i < off + 4 → p'.byte i = p.byte i) :
    KeepsFrame root len p' off ↔ KeepsFrame root len p off := by
  have hj : ∀ j, j < 4 → p'.byte (off + j) = p.byte (off + j) :=
    fun j hj => hbyte _ (by omega) (by omega)
  rw [KeepsFrame, KeepsFrame, quadAt_congr hbyte]
  constructor
  · intro h new hnew hneg j hlt hlen
    rw [← hj j hlt]
    exact h new hnew hneg j hlt hlen
  · intro h new hnew hneg j hlt hlen
    rw [hj j hlt]
    exact h new hnew hneg j hlt hlen

/-- `substitute_IP` leaves the frame as it is exactly when the replacements of
the two words it looks up do. -/
theorem substituteIP_sameFrame_iff (root : Tree) {p : Packet} {tags : Nat}
    (len : Nat) (hvlan : p.vlanSize = some (4 * tags))
    (hfits : macHeaderSize + 4 * tags + ipHeaderSize ≤ p.size) :
    (∃ r, substituteIP root p = some r ∧ SameFrame len r.1 p) ↔
      KeepsFrame root len p (srcOffset tags) ∧
        KeepsFrame root len p (dstOffset tags) := by
  simp only [macHeaderSize, ipHeaderSize] at hfits
  have hsrcOff : srcOffset tags = 26 + 4 * tags := by
    simp only [srcOffset, macHeaderSize, ipSrcOffset]
    omega
  have hdstOff : dstOffset tags = 30 + 4 * tags := by
    simp only [dstOffset, macHeaderSize, ipDstOffset]
    omega
  obtain ⟨p₁, found₁, hsubst₁, hsize₁, hframe₁, hsame₁⟩ :=
    @substituteAt_spec root p (srcOffset tags) len (by omega)
  obtain ⟨p₂, found₂, hsubst₂, -, hframe₂, hsame₂⟩ :=
    @substituteAt_spec root p₁ (dstOffset tags) len (by omega)
  have hdst : KeepsFrame root len p₁ (dstOffset tags) ↔
      KeepsFrame root len p (dstOffset tags) :=
    keepsFrame_congr fun i hlow _ => hframe₁ i (Or.inr (by omega))
  have hrun : substituteIP root p = some (p₂, found₁ || found₂) := by
    simp only [srcOffset, dstOffset] at hsubst₁ hsubst₂
    simp only [substituteIP, hvlan, Option.bind_eq_bind, Option.bind_some,
      hsubst₁, hsubst₂]
  rw [hrun, ← hsame₁, ← hdst, ← hsame₂]
  simp only [Option.some.injEq, exists_eq_left']
  constructor
  · intro hsame
    -- the two words lie apart, so neither write hides the other
    constructor
    · intro i hi
      by_cases hin : i < srcOffset tags ∨ srcOffset tags + 4 ≤ i
      · exact hframe₁ i hin
      · rw [← hframe₂ i (by omega)]
        exact hsame i hi
    · intro i hi
      by_cases hin : i < dstOffset tags ∨ dstOffset tags + 4 ≤ i
      · exact hframe₂ i hin
      · rw [hframe₁ i (by omega)]
        exact hsame i hi
  · rintro ⟨hfirst, hsecond⟩ i hi
    rw [hsecond i hi, hfirst i hi]

/-- A frame of `len` bytes with `tags` VLAN tags and an EtherType that is not
that of IPv4. -/
structure OtherFrame (p : Packet) (len tags : Nat) : Prop where
  tagged : ∀ j, j < tags → p.isVlan (typelenOffset + 4 * j) = true
  untagged : p.isVlan (typelenOffset + 4 * tags) = false
  type : ¬ (p.byte (typelenOffset + 4 * tags) = 0x08 ∧
    p.byte (typelenOffset + 4 * tags + 1) = 0x00)
  fits : macHeaderSize + 4 * tags ≤ len
  captured : len ≤ p.size

/-- The frame in the TX buffer, with the bytes of the buffer behind it. -/
def copied (pkt : FilePacket) (tx : TxBuffer) (len : Nat) : Packet :=
  { tx.l2 with
    byte := fun i => if i < len then pkt.l2.byte i else tx.l2.byte i }

theorem copied_byte (pkt : FilePacket) (tx : TxBuffer) {len i : Nat}
    (hi : i < len) : (copied pkt tx len).byte i = pkt.l2.byte i :=
  if_pos hi

/-- The tags of a frame are found in its copy. -/
theorem vlanSize_copied {pkt : FilePacket} {tx : TxBuffer} {len tags : Nat}
    (htagged : ∀ j, j < tags → pkt.l2.isVlan (typelenOffset + 4 * j) = true)
    (huntagged : pkt.l2.isVlan (typelenOffset + 4 * tags) = false)
    (hfits : macHeaderSize + 4 * tags ≤ len) (hbuffer : len ≤ tx.l2.size) :
    (copied pkt tx len).vlanSize = some (4 * tags) := by
  simp only [macHeaderSize] at hfits
  have hvlan : ∀ j, j ≤ tags → (copied pkt tx len).isVlan
      (typelenOffset + 4 * j) = pkt.l2.isVlan (typelenOffset + 4 * j) := by
    intro j hj
    simp only [typelenOffset, Packet.isVlan]
    rw [copied_byte pkt tx (by omega), copied_byte pkt tx (by omega)]
  apply Packet.vlanSize_eq
  · intro j hj
    rw [hvlan j (by omega)]
    exact htagged j hj
  · rw [hvlan tags (Nat.le_refl _)]
    exact huntagged
  · simp only [copied, typelenOffset]
    omega

theorem OtherFrame.vlanSize_copied {pkt : FilePacket} {tx : TxBuffer}
    {len tags : Nat} (hframe : OtherFrame pkt.l2 len tags)
    (hbuffer : len ≤ tx.l2.size) :
    (copied pkt tx len).vlanSize = some (4 * tags) :=
  AddrswapReplay.vlanSize_copied hframe.tagged hframe.untagged hframe.fits
    hbuffer

theorem setChecksum_isSome (p : Packet) (vlanSize : Nat) (d : TxDescriptor) :
    (setChecksum p vlanSize d).isSome =
      decide (macHeaderSize + vlanSize + ipHeaderSize ≤ p.size) := by
  simp only [setChecksum]
  split
  · rename_i hfits
    rw [decide_eq_true hfits]
    split <;> rfl
  · rename_i hfits
    rw [decide_eq_false hfits]
    rfl

/-- What a packet needs to be handed on, and the bytes it then has. -/
theorem replayPacket_l2_iff (fcsPresentInFile : Bool)
    (optSubstitute : Option Tree) (c : Counters) (pkt : FilePacket)
    (tx : TxBuffer) (q : Packet) :
    (∃ c' tx', replayPacket fcsPresentInFile optSubstitute c pkt tx =
        some (c', tx') ∧ tx'.l2 = q) ↔
      ∃ dest vlanSize found,
        tx.l2.memcpy pkt.l2 (pktWirelen fcsPresentInFile pkt).toNat =
          some dest ∧
        dest.vlanSize = some vlanSize ∧
        (setChecksum dest vlanSize tx.descriptor).isSome ∧
        substituteOpt optSubstitute dest = some (q, found) := by
  simp only [replayPacket, Option.bind_eq_bind, Option.bind_eq_some_iff,
    Option.some.injEq, Prod.mk.injEq, Option.isSome_iff_exists]
  constructor
  · rintro ⟨c', tx', ⟨dest, hcopy, vlanSize, hvlan, d, hd, ⟨p, found⟩, hsubst,
      -, rfl⟩, rfl⟩
    exact ⟨dest, vlanSize, found, hcopy, hvlan, ⟨d, hd⟩, hsubst⟩
  · rintro ⟨dest, vlanSize, found, hcopy, hvlan, ⟨d, hd⟩, hsubst⟩
    exact ⟨_, _, ⟨dest, hcopy, vlanSize, hvlan, d, hd, (q, found), hsubst,
      rfl, rfl⟩, rfl⟩

/-- The header behind the tags lies in the TX buffer, and no replacement for the
two words where it would have its addresses changes a byte of the frame. -/
def FrameKept (optSubstitute : Option Tree) (pkt : FilePacket) (tx : TxBuffer)
    (len tags : Nat) : Prop :=
  macHeaderSize + 4 * tags + ipHeaderSize ≤ tx.l2.size ∧
    ∀ root ∈ optSubstitute,
      KeepsFrame root len (copied pkt tx len) (srcOffset tags) ∧
        KeepsFrame root len (copied pkt tx len) (dstOffset tags)

/-- The packet is handed on with the bytes of the file. -/
def ReplaysUnchanged (fcsPresentInFile : Bool) (optSubstitute : Option Tree)
    (c : Counters) (pkt : FilePacket) (tx : TxBuffer) : Prop :=
  ∃ c' tx', replayPacket fcsPresentInFile optSubstitute c pkt tx =
      some (c', tx') ∧
    SameFrame (pktWirelen fcsPresentInFile pkt).toNat tx'.l2 pkt.l2

theorem sameFrame_copied_iff (pkt : FilePacket) (tx : TxBuffer) (len : Nat)
    (p : Packet) :
    SameFrame len p pkt.l2 ↔ SameFrame len p (copied pkt tx len) := by
  constructor
  · intro hsame i hi
    rw [hsame i hi, copied_byte pkt tx hi]
  · intro hsame i hi
    rw [hsame i hi, copied_byte pkt tx hi]

theorem substituteOpt_sameFrame_iff (optSubstitute : Option Tree) {p : Packet}
    {tags : Nat} (len : Nat) (hvlan : p.vlanSize = some (4 * tags))
    (hfits : macHeaderSize + 4 * tags + ipHeaderSize ≤ p.size) :
    (∃ r, substituteOpt optSubstitute p = some r ∧ SameFrame len r.1 p) ↔
      ∀ root ∈ optSubstitute, KeepsFrame root len p (srcOffset tags) ∧
        KeepsFrame root len p (dstOffset tags) := by
  cases optSubstitute with
  | none => simp [substituteOpt, SameFrame]
  | some root =>
      simp only [substituteOpt, Option.mem_def, Option.some.injEq, forall_eq']
      exact substituteIP_sameFrame_iff root len hvlan hfits

theorem replaysUnchanged_iff (fcsPresentInFile : Bool)
    (optSubstitute : Option Tree) (c : Counters) (pkt : FilePacket)
    (tx : TxBuffer) (tags : Nat) {len : Nat}
    (hlen : (pktWirelen fcsPresentInFile pkt).toNat = len)
    (hframe : OtherFrame pkt.l2 len tags) (hbuffer : len ≤ tx.l2.size) :
    ReplaysUnchanged fcsPresentInFile optSubstitute c pkt tx ↔
      FrameKept optSubstitute pkt tx len tags := by
  have hcopy : tx.l2.memcpy pkt.l2 len = some (copied pkt tx len) := by
    rw [Packet.memcpy, if_pos ⟨hbuffer, hframe.captured⟩, copied]
  have hvlan := hframe.vlanSize_copied hbuffer
  have hsent := replayPacket_l2_iff fcsPresentInFile optSubstitute c pkt tx
  simp only [hlen, hcopy, Option.some.injEq, exists_and_left,
    exists_eq_left', hvlan, setChecksum_isSome, decide_eq_true_eq] at hsent
  rw [FrameKept]
  constructor
  · rintro ⟨c', tx', hrun, hbytes⟩
    obtain ⟨hfits, found, hsubst⟩ := (hsent tx'.l2).mp ⟨c', tx', hrun, rfl⟩
    rw [hlen, sameFrame_copied_iff pkt tx] at hbytes
    exact ⟨hfits, (substituteOpt_sameFrame_iff optSubstitute len hvlan
      hfits).mp ⟨_, hsubst, hbytes⟩⟩
  · rintro ⟨hfits, hkeeps⟩
    obtain ⟨⟨q, found⟩, hsubst, hbytes⟩ := (substituteOpt_sameFrame_iff
      optSubstitute len hvlan hfits).mpr hkeeps
    obtain ⟨c', tx', hrun, rfl⟩ := (hsent q).mpr ⟨hfits, found, hsubst⟩
    refine ⟨c', tx', hrun, ?_⟩
    rw [hlen, sameFrame_copied_iff pkt tx]
    exact hbytes

/-- A frame of another type is replayed unchanged exactly when the header that
is taken to be behind its tags lies in the TX buffer and the words there that
would be its addresses are not replaced by others. -/
theorem replayPacket_unchanged_iff (fcsPresentInFile : Bool)
    (optSubstitute : Option Tree) (c : Counters) (pkt : FilePacket)
    (tx : TxBuffer) (tags : Nat)
    (hframe : OtherFrame pkt.l2 (pktWirelen fcsPresentInFile pkt).toNat tags)
    (hbuffer : (txLength (pktWirelen fcsPresentInFile pkt)).toNat ≤
      tx.l2.size) :
    ReplaysUnchanged fcsPresentInFile optSubstitute c pkt tx ↔
      FrameKept optSubstitute pkt tx (pktWirelen fcsPresentInFile pkt).toNat
        tags :=
  replaysUnchanged_iff fcsPresentInFile optSubstitute c pkt tx tags rfl hframe
    (Nat.le_trans (le_txLength _) hbuffer)

/-- The map of 10.0.10.0 to 192.168.1.7. -/
def replaceMap : Tree :=
  Tree.nil.insert (Quad.mk 10 0 10 0).word (Quad.mk 192 168 1 7).word

/-- An ARP request of 10.0.0.1 from 02:00:00:00:0a:00. -/
def arpRequest : FilePacket where
  wireLength := 64
  timestamp := 0
  l2 :=
    { size := 64
      byte := fun i =>
        [255, 255, 255, 255, 255, 255, 2, 0, 0, 0, 10, 0, 0x08, 0x06, 0, 1,
          0x08, 0, 6, 4, 0, 1, 2, 0, 0, 0, 10, 0, 10, 0, 0, 1, 0, 0, 0, 0, 0,
          0, 10, 0, 0, 2].getD i 0 }

def emptyTx : TxBuffer where
  descriptor := ⟨0, 0, 0, 0, 0, 0⟩
  l2 := ⟨64, fun _ => 0⟩

theorem arpRequest_isOther : OtherFrame arpRequest.l2 60 0 where
  tagged := by decide
  untagged := by decide
  type := by decide
  fits := by decide
  captured := by decide

/-- Without an entry for the word there, the request is replayed as it is. -/
theorem replayPacket_unchanged_iff_arp :
    ReplaysUnchanged true (some .nil) ⟨0, 0, 0, 0, 0, 0⟩ arpRequest emptyTx :=
  (replayPacket_unchanged_iff true (some .nil) ⟨0, 0, 0, 0, 0, 0⟩ arpRequest
    emptyTx 0 arpRequest_isOther (by decide)).mpr
      ⟨by decide, by simp [KeepsFrame, Tree.lookup_nil]⟩

/-- The last bytes of the sender's MAC address and the first ones of its IP
address are taken for an address and replaced. -/
theorem replayPacket_rewrites_arp :
    OtherFrame arpRequest.l2 (pktWirelen true arpRequest).toNat 0 ∧
      ¬ ReplaysUnchanged true (some replaceMap) ⟨0, 0, 0, 0, 0, 0⟩ arpRequest
        emptyTx := by
  refine ⟨arpRequest_isOther, ?_⟩
  rw [replaysUnchanged_iff true _ _ arpRequest emptyTx 0 rfl arpRequest_isOther
    (by decide)]
  rintro ⟨-, hkeeps⟩
  have hsrc := (hkeeps replaceMap rfl).1
  exact absurd (hsrc (Quad.mk 192 168 1 7).word (by decide) (by decide) 0
    (by decide) (by decide)) (by decide)

end AddrswapReplay

end NtapiExamples
