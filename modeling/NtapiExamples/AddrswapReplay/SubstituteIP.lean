/-
`substitute_IP` and `vlanSize` of `addrswap_replay.c`: the addresses of a frame
are replaced behind its MAC header and its VLAN tags.
-/
import NtapiExamples.AddrswapReplay.SubstParse

namespace NtapiExamples

namespace AddrswapReplay

/-- The bytes at `pkt`; `size` is the number of bytes that may be accessed. -/
structure Packet where
  size : Nat
  byte : Nat → BitVec 8

/-- `sizeof(struct MACHeader_s)` and the offsets of the fields. -/
def macHeaderSize : Nat := 14
def typelenOffset : Nat := 12
def ipHeaderSize : Nat := 20
def ipSrcOffset : Nat := 12
def ipDstOffset : Nat := 16
def VLAN_TAG_LEN : Nat := 4

namespace Packet

variable (p : Packet)

/-- The four bytes at an offset. -/
def quadAt (off : Nat) : Quad :=
  ⟨p.byte off, p.byte (off + 1), p.byte (off + 2), p.byte (off + 3)⟩

/-- The word at an offset. -/
def load32 (off : Nat) : Option (BitVec 32) :=
  if off + 4 ≤ p.size then some (p.quadAt off).word else none

/-- Writing a word: the lowest byte first. -/
def store32 (off : Nat) (v : BitVec 32) : Packet :=
  { p with
    byte := fun i =>
      if off ≤ i ∧ i < off + 4 then v.extractLsb' (8 * (i - off)) 8
      else p.byte i }

/-- The 16 bits at an offset are `ntohs(0x8100)`. -/
def isVlan (off : Nat) : Bool :=
  p.byte off == 0x81 && p.byte (off + 1) == 0x00

/-- The loop of `vlanSize`; `none` when it leaves the bytes of the packet. -/
def vlanLoop : Nat → Nat → Nat → Option Nat
  | 0, _, _ => none
  | fuel + 1, typelen, size =>
      if typelen + 2 ≤ p.size then
        if p.isVlan typelen then
          vlanLoop fuel (typelen + 4) (size + VLAN_TAG_LEN)
        else some size
      else none

/-- `vlanSize`. -/
def vlanSize : Option Nat := p.vlanLoop p.size typelenOffset 0

end Packet

/-- One address of `substitute_IP`: the lookup, the test and the write. -/
def substituteAt (root : Tree) (off : Nat) (p : Packet) :
    Option (Packet × Bool) :=
  (p.load32 off).map fun val =>
    let new := searchAddrMap root val
    if new.slt 0 then (p, false) else (p.store32 off new, true)

/-- `substitute_IP`. -/
def substituteIP (root : Tree) (p : Packet) : Option (Packet × Bool) := do
  let size ← p.vlanSize
  let ip := macHeaderSize + size
  let (p, foundSrc) ← substituteAt root (ip + ipSrcOffset) p
  let (p, foundDst) ← substituteAt root (ip + ipDstOffset) p
  some (p, foundSrc || foundDst)

namespace Packet

variable {p : Packet}

/-- With `tags` tags in front of another type the loop skips exactly them. -/
theorem vlanLoop_eq {tags : Nat} {typelen size fuel : Nat}
    (htagged : ∀ j, j < tags → p.isVlan (typelen + 4 * j) = true)
    (htype : p.isVlan (typelen + 4 * tags) = false)
    (hfits : typelen + 4 * tags + 2 ≤ p.size) (hfuel : tags < fuel) :
    p.vlanLoop fuel typelen size = some (size + 4 * tags) := by
  induction tags generalizing typelen size fuel with
  | zero =>
      obtain ⟨fuel, rfl⟩ := Nat.exists_eq_succ_of_ne_zero (by omega :
        fuel ≠ 0)
      rw [Nat.mul_zero, Nat.add_zero] at htype hfits
      simp [vlanLoop, hfits, htype]
  | succ tags ih =>
      obtain ⟨fuel, rfl⟩ := Nat.exists_eq_succ_of_ne_zero (by omega :
        fuel ≠ 0)
      have hfirst : p.isVlan typelen = true := htagged 0 (by omega)
      have hshift : ∀ j, typelen + 4 + 4 * j = typelen + 4 * (j + 1) := by
        omega
      have hrest := @ih (typelen + 4) (size + VLAN_TAG_LEN) fuel
        (fun j hj => by
          rw [hshift]
          exact htagged (j + 1) (by omega))
        (by rw [hshift]; exact htype) (by omega) (by omega)
      rw [vlanLoop, if_pos (by omega), if_pos hfirst, hrest, VLAN_TAG_LEN]
      congr 1
      omega

theorem vlanSize_eq {tags : Nat}
    (htagged : ∀ j, j < tags → p.isVlan (typelenOffset + 4 * j) = true)
    (htype : p.isVlan (typelenOffset + 4 * tags) = false)
    (hfits : typelenOffset + 4 * tags + 2 ≤ p.size) :
    p.vlanSize = some (4 * tags) := by
  rw [vlanSize, vlanLoop_eq htagged htype hfits (by omega), Nat.zero_add]

/-- The packet with other bytes for an address. -/
def setQuad (p : Packet) (off : Nat) (q : Quad) : Packet :=
  { p with
    byte := fun i =>
      if i = off then q.o0
      else if i = off + 1 then q.o1
      else if i = off + 2 then q.o2
      else if i = off + 3 then q.o3
      else p.byte i }

/-- The bytes of the word of an address are its octets. -/
theorem extract_word (q : Quad) :
    q.word.extractLsb' 0 8 = q.o0 ∧ q.word.extractLsb' 8 8 = q.o1 ∧
      q.word.extractLsb' 16 8 = q.o2 ∧ q.word.extractLsb' 24 8 = q.o3 := by
  have h0 := q.o0.isLt
  have h1 := q.o1.isLt
  have h2 := q.o2.isLt
  have h3 := q.o3.isLt
  refine ⟨?_, ?_, ?_, ?_⟩ <;> apply BitVec.eq_of_toNat_eq <;>
    rw [BitVec.extractLsb'_toNat, Quad.toNat_word,
      Nat.shiftRight_eq_div_pow] <;> omega

theorem store32_word (p : Packet) (off : Nat) (q : Quad) :
    p.store32 off q.word = p.setQuad off q := by
  obtain ⟨h0, h1, h2, h3⟩ := extract_word q
  simp only [store32, setQuad, Packet.mk.injEq, true_and]
  funext i
  by_cases hin : off ≤ i ∧ i < off + 4
  · rw [if_pos hin]
    have hcases : i = off ∨ i = off + 1 ∨ i = off + 2 ∨ i = off + 3 := by omega
    rcases hcases with rfl | rfl | rfl | rfl
    · simp [h0]
    · simp [h1]
    · simp [h2]
    · simp [h3]
  · rw [if_neg hin, if_neg (by omega), if_neg (by omega), if_neg (by omega),
      if_neg (by omega)]

theorem setQuad_self (p : Packet) (off : Nat) :
    p.setQuad off (p.quadAt off) = p := by
  cases p with
  | mk size byte =>
      simp only [setQuad, quadAt, Packet.mk.injEq, true_and]
      funext i
      split
      · simp [*]
      · split
        · simp [*]
        · split
          · simp [*]
          · split
            · simp [*]
            · rfl

theorem quadAt_setQuad (p : Packet) (off : Nat) (q : Quad) :
    (p.setQuad off q).quadAt off = q := by
  simp [quadAt, setQuad]

theorem quadAt_setQuad_of_le (p : Packet) {off off' : Nat} (q : Quad)
    (hle : off + 4 ≤ off' ∨ off' + 4 ≤ off) :
    (p.setQuad off q).quadAt off' = p.quadAt off' := by
  have hbyte : ∀ i, off' ≤ i → i < off' + 4 →
      (p.setQuad off q).byte i = p.byte i := by
    intro i hlow hhigh
    simp only [setQuad]
    rw [if_neg (by omega), if_neg (by omega), if_neg (by omega),
      if_neg (by omega)]
  rw [quadAt, quadAt, hbyte off' (by omega) (by omega),
    hbyte (off' + 1) (by omega) (by omega),
    hbyte (off' + 2) (by omega) (by omega),
    hbyte (off' + 3) (by omega) (by omega)]

end Packet

/-- An IPv4 frame with `tags` VLAN tags. -/
structure IPv4Frame (p : Packet) (tags : Nat) : Prop where
  tagged : ∀ j, j < tags → p.isVlan (typelenOffset + 4 * j) = true
  type : p.byte (typelenOffset + 4 * tags) = 0x08 ∧
    p.byte (typelenOffset + 4 * tags + 1) = 0x00
  fits : macHeaderSize + 4 * tags + ipHeaderSize ≤ p.size

/-- The source and the destination address of the frame. -/
def srcOffset (tags : Nat) : Nat := macHeaderSize + 4 * tags + ipSrcOffset

def dstOffset (tags : Nat) : Nat := macHeaderSize + 4 * tags + ipDstOffset

/-- What the file says: each address that has an entry is replaced by that of
its first entry, no other byte changes, and the result is whether there was an
entry for one of them. -/
def Substituted (entries : List SubstEntry) (p : Packet) (tags : Nat)
    (r : Packet × Bool) : Prop :=
  let src := p.quadAt (srcOffset tags)
  let dst := p.quadAt (dstOffset tags)
  r.1 = (p.setQuad (srcOffset tags) ((firstEntry entries src).getD src)).setQuad
      (dstOffset tags) ((firstEntry entries dst).getD dst) ∧
    r.2 = ((firstEntry entries src).isSome || (firstEntry entries dst).isSome)

/-- Every address of the frame that has an entry has a replacement with a last
octet below 128, or itself; and when there is an entry, there is one of the
first kind. -/
def LastOctetsSmall (entries : List SubstEntry) (src dst : Quad) : Prop :=
  (∀ q ∈ [src, dst], ∀ b ∈ firstEntry entries q,
    b.o3.toNat < 128 ∨ b = q) ∧
  ((firstEntry entries src).isSome || (firstEntry entries dst).isSome) =
    ([src, dst].any fun q =>
      (firstEntry entries q).any fun b => b.o3.toNat < 128)

instance (entries : List SubstEntry) (src dst : Quad) :
    Decidable (LastOctetsSmall entries src dst) :=
  inferInstanceAs (Decidable (_ ∧ _))

/-- The entry that `search_addr_map` can tell from "not found". -/
def smallEntry (entries : List SubstEntry) (q : Quad) : Option Quad :=
  (firstEntry entries q).filter fun b => b.o3.toNat < 128

theorem substituteAt_eq {entries : List SubstEntry} {root : Tree}
    (hroot : ∀ q : Quad, root.lookup q.word =
      (firstEntry entries q).map Quad.word) {p : Packet} {off : Nat}
    (hfits : off + 4 ≤ p.size) :
    substituteAt root off p =
      some (p.setQuad off ((smallEntry entries (p.quadAt off)).getD
        (p.quadAt off)), (smallEntry entries (p.quadAt off)).isSome) := by
  have hlookup := hroot (p.quadAt off)
  rw [substituteAt, Packet.load32, if_pos hfits, Option.map_some,
    searchAddrMap_eq, hlookup]
  cases hentry : firstEntry entries (p.quadAt off) with
  | none =>
      simp [smallEntry, hentry, Packet.setQuad_self]
  | some b =>
      simp only [Option.map_some, Option.getD_some, Quad.slt_zero_word,
        Packet.store32_word, smallEntry, hentry, Option.filter_some]
      by_cases hsmall : b.o3.toNat < 128
      · simp [hsmall, Nat.not_le.mpr hsmall]
      · simp [hsmall, Nat.not_lt.mp hsmall, Packet.setQuad_self]

theorem IPv4Frame.vlanSize {p : Packet} {tags : Nat}
    (hframe : IPv4Frame p tags) : p.vlanSize = some (4 * tags) := by
  have hfits := hframe.fits
  apply Packet.vlanSize_eq hframe.tagged
  · rw [Packet.isVlan, hframe.type.1]
    rfl
  · simp only [macHeaderSize, ipHeaderSize, typelenOffset] at hfits ⊢
    omega

/-- What `substitute_IP` does to an IPv4 frame. -/
theorem substituteIP_eq {entries : List SubstEntry} {root : Tree}
    (hroot : ∀ q : Quad, root.lookup q.word =
      (firstEntry entries q).map Quad.word) {p : Packet} {tags : Nat}
    (hframe : IPv4Frame p tags) :
    substituteIP root p =
      some ((p.setQuad (srcOffset tags)
        ((smallEntry entries (p.quadAt (srcOffset tags))).getD
          (p.quadAt (srcOffset tags)))).setQuad (dstOffset tags)
        ((smallEntry entries (p.quadAt (dstOffset tags))).getD
          (p.quadAt (dstOffset tags))),
        (smallEntry entries (p.quadAt (srcOffset tags))).isSome ||
          (smallEntry entries (p.quadAt (dstOffset tags))).isSome) := by
  have hfits := hframe.fits
  simp only [macHeaderSize, ipHeaderSize] at hfits
  have hsrc : srcOffset tags + 4 ≤ p.size := by
    simp only [srcOffset, macHeaderSize, ipSrcOffset]
    omega
  have hdst : dstOffset tags + 4 ≤ p.size := by
    simp only [dstOffset, macHeaderSize, ipDstOffset]
    omega
  have hapart : srcOffset tags + 4 ≤ dstOffset tags := by
    simp only [srcOffset, dstOffset, ipSrcOffset, ipDstOffset]
    omega
  have hwrite := substituteAt_eq hroot hsrc
  have hwrite' := @substituteAt_eq entries root hroot
    (p.setQuad (srcOffset tags)
      ((smallEntry entries (p.quadAt (srcOffset tags))).getD
        (p.quadAt (srcOffset tags)))) (dstOffset tags) hdst
  rw [Packet.quadAt_setQuad_of_le _ _ (Or.inl hapart)] at hwrite'
  simp only [srcOffset, dstOffset] at hwrite hwrite' ⊢
  simp only [substituteIP, hframe.vlanSize, Option.bind_eq_bind,
    Option.bind_some, hwrite, hwrite']

/-- Writing two addresses gives the same packet only for the same addresses. -/
theorem setQuad_setQuad_inj {p : Packet} {off off' : Nat}
    (hle : off + 4 ≤ off') {q q' r r' : Quad} :
    (p.setQuad off q).setQuad off' q' = (p.setQuad off r).setQuad off' r' ↔
      q = r ∧ q' = r' := by
  constructor
  · intro heq
    have hfirst := congrArg (fun p => p.quadAt off) heq
    have hsecond := congrArg (fun p => p.quadAt off') heq
    simp only [Packet.quadAt_setQuad] at hsecond
    simp only [Packet.quadAt_setQuad_of_le _ _ (Or.inr hle),
      Packet.quadAt_setQuad] at hfirst
    exact ⟨hfirst, hsecond⟩
  · rintro ⟨rfl, rfl⟩
    rfl

/-- The entry the code sees stands for the one of the file. -/
theorem smallEntry_getD_iff (entries : List SubstEntry) (q : Quad) :
    (smallEntry entries q).getD q = (firstEntry entries q).getD q ↔
      ∀ b ∈ firstEntry entries q, b.o3.toNat < 128 ∨ b = q := by
  cases hentry : firstEntry entries q with
  | none => simp [smallEntry, hentry]
  | some b =>
      by_cases hsmall : b.o3.toNat < 128
      · simp [smallEntry, hentry, Option.filter_some, hsmall]
      · simp only [smallEntry, hentry, Option.filter_some, hsmall,
          decide_false, Bool.false_eq_true, if_false, Option.getD_none,
          Option.getD_some, Option.mem_def, Option.some.injEq, forall_eq',
          false_or]
        exact eq_comm

theorem smallEntry_isSome (entries : List SubstEntry) (q : Quad) :
    (smallEntry entries q).isSome =
      (firstEntry entries q).any fun b => b.o3.toNat < 128 := by
  cases hentry : firstEntry entries q with
  | none => simp [smallEntry, hentry]
  | some b =>
      by_cases hsmall : b.o3.toNat < 128 <;>
        simp [smallEntry, hentry, Option.filter_some, hsmall]

/-- What `substitute_IP` makes of a frame is what the file says exactly when the
replacements have small last octets. -/
theorem substituted_iff {entries : List SubstEntry} {root : Tree}
    (hroot : ∀ q : Quad, root.lookup q.word =
      (firstEntry entries q).map Quad.word) {p : Packet} {tags : Nat}
    (hframe : IPv4Frame p tags) :
    (∃ r, substituteIP root p = some r ∧ Substituted entries p tags r) ↔
      LastOctetsSmall entries (p.quadAt (srcOffset tags))
        (p.quadAt (dstOffset tags)) := by
  have hapart : srcOffset tags + 4 ≤ dstOffset tags := by
    simp only [srcOffset, dstOffset, ipSrcOffset, ipDstOffset]
    omega
  simp only [substituteIP_eq hroot hframe, Option.some.injEq,
    exists_eq_left', Substituted, LastOctetsSmall, setQuad_setQuad_inj hapart,
    smallEntry_getD_iff, smallEntry_isSome, List.forall_mem_cons,
    List.not_mem_nil, false_implies, implies_true, and_true, List.any_cons,
    List.any_nil, Bool.or_false]
  exact and_congr_right fun _ => eq_comm

/-- A file with these entries is loaded, and the frame substituted as it
says. -/
def SubstitutesFile (behind : Text) (entries : List SubstEntry) (p : Packet)
    (tags : Nat) : Prop :=
  ∃ root r,
    loadSubstituteAddrMap behind (fileTokens entries) = some ⟨true, root⟩ ∧
      substituteIP root p = some r ∧ Substituted entries p tags r

/-- The frame is substituted as the file says exactly when the addresses it
looks up have small last octets. -/
theorem substituteIP_iff (behind : Text) (entries : List SubstEntry)
    (p : Packet) (tags : Nat) (hframe : IPv4Frame p tags) :
    SubstitutesFile behind entries p tags ↔
      LastOctetsSmall entries (p.quadAt (srcOffset tags))
        (p.quadAt (dstOffset tags)) := by
  obtain ⟨root, hload, hroot⟩ := load_fileTokens behind entries
  rw [← substituted_iff hroot hframe, SubstitutesFile]
  simp only [hload, Option.some.injEq, Loaded.mk.injEq, true_and]
  constructor
  · rintro ⟨root', r, rfl, hok⟩
    exact ⟨r, hok⟩
  · rintro ⟨r, hok⟩
    exact ⟨root, r, rfl, hok⟩

/-- `10.0.0.1: 192.168.1.7`. -/
def entrySeven : SubstEntry where
  initialText := "10.0.0.1".toList
  initial := ⟨10, 0, 0, 1⟩
  replaceText := "192.168.1.7".toList
  replaceWith := ⟨192, 168, 1, 7⟩
  isInitial := ⟨['1', '0'], ['0'], ['0'], ['1'], rfl, by decide⟩
  isReplace := ⟨['1', '9', '2'], ['1', '6', '8'], ['1'], ['7'], rfl,
    by decide⟩

/-- `10.0.0.1: 192.168.1.200`. -/
def entryTwoHundred : SubstEntry where
  initialText := "10.0.0.1".toList
  initial := ⟨10, 0, 0, 1⟩
  replaceText := "192.168.1.200".toList
  replaceWith := ⟨192, 168, 1, 200⟩
  isInitial := entrySeven.isInitial
  isReplace := ⟨['1', '9', '2'], ['1', '6', '8'], ['1'], ['2', '0', '0'], rfl,
    by decide⟩

/-- A frame from 10.0.0.1 to 10.0.0.2 with one VLAN tag. -/
def taggedFrame : Packet where
  size := 64
  byte := fun i =>
    [0, 0, 0, 0, 0, 0, 0, 0, 0, 0, 0, 0, 0x81, 0x00, 0, 5, 0x08, 0x00, 0x45, 0,
      0, 20, 0, 0, 0, 0, 64, 17, 0, 0, 10, 0, 0, 1, 10, 0, 0, 2].getD i 0

theorem taggedFrame_isIPv4 : IPv4Frame taggedFrame 1 where
  tagged := by decide
  type := by decide
  fits := by decide

theorem substituteIP_iff_tagged :
    SubstitutesFile [] [entrySeven] taggedFrame 1 :=
  (substituteIP_iff [] [entrySeven] taggedFrame 1 taggedFrame_isIPv4).mpr
    (by decide)

/-- The replacement of 10.0.0.1 by 192.168.1.200 is taken for "not found". -/
theorem substituteIP_drops :
    IPv4Frame taggedFrame 1 ∧
      ¬ SubstitutesFile [] [entryTwoHundred] taggedFrame 1 := by
  refine ⟨taggedFrame_isIPv4, ?_⟩
  rintro ⟨root, r, hload, hsubst⟩
  obtain ⟨root', hload', hroot⟩ := load_fileTokens [] [entryTwoHundred]
  rw [hload, Option.some.injEq, Loaded.mk.injEq] at hload'
  rw [← hload'.2] at hroot
  have hsmall := (substituted_iff hroot taggedFrame_isIPv4).mp ⟨r, hsubst⟩
  exact absurd (hsmall.1 ⟨10, 0, 0, 1⟩ (by decide) ⟨192, 168, 1, 200⟩
    (by decide)) (by decide)

end AddrswapReplay

end NtapiExamples
