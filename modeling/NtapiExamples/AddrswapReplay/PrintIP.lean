/-
`PrintIP`, and that `PackIP` reads what it prints.  The word of an address has its
octets in memory in the order in which they are written and sent.
-/
import NtapiExamples.Lib.Decimal
import NtapiExamples.Lib.Snprintf
import NtapiExamples.AddrswapReplay.SubstReject
import NtapiExamples.AddrswapReplay.SubstituteIP

namespace NtapiExamples

namespace AddrswapReplay

open Text

/-- What `"%i.%i.%i.%i"` prints of an address. -/
def printOctets (address : BitVec 32) : Text :=
  decimal (address &&& 0xff) ++ '.' ::
    (decimal ((address >>> 8) &&& 0xff) ++ '.' ::
      (decimal ((address >>> 16) &&& 0xff) ++ '.' ::
        decimal ((address >>> 24) &&& 0xff)))

/-- `temp` of `PrintIP`, an array of 32 characters. -/
def printTemp (address : BitVec 32) : Text :=
  cstr (terminated 32 (printOctets address))

/-- `PrintIP`: what it prints.  `pad` is negative when `temp` has more than 16
characters, and no loop runs then. -/
def printIP (address : BitVec 32) : Text :=
  let temp := printTemp address
  let pad : Int := 16 - temp.length
  List.replicate (pad.tdiv 2).toNat ' ' ++
    (temp ++ List.replicate (16 - (temp.length + pad.tdiv 2)).toNat ' ')

/-- A printed address without its padding. -/
def unpadded (s : Text) : Text := s.filter fun c => c ≠ ' '

/-- The octets, first to last. -/
def Quad.octets (q : Quad) : List (BitVec 8) := [q.o0, q.o1, q.o2, q.o3]

/-- The bytes of a word in little-endian memory, the one at the lowest address
first. -/
def littleEndian (v : BitVec 32) : List (BitVec 8) :=
  (List.range 4).map fun i => v.extractLsb' (8 * i) 8

/-- The bytes of a packet from an offset on. -/
def Packet.bytesAt (p : Packet) (off n : Nat) : List (BitVec 8) :=
  (List.range n).map fun i => p.byte (off + i)

/-- The octets that `PrintIP` takes out of a word. -/
def Quad.ofWord (a : BitVec 32) : Quad :=
  ⟨a.extractLsb' 0 8, a.extractLsb' 8 8, a.extractLsb' 16 8, a.extractLsb' 24 8⟩

theorem toNat_extract_byte (a : BitVec 32) (i : Nat) :
    (a.extractLsb' i 8).toNat = a.toNat / 2 ^ i % 256 := by
  rw [BitVec.extractLsb'_toNat, Nat.shiftRight_eq_div_pow]

theorem Quad.word_ofWord (a : BitVec 32) : (Quad.ofWord a).word = a := by
  have hlt := a.isLt
  apply BitVec.eq_of_toNat_eq
  simp only [Quad.toNat_word, Quad.ofWord, toNat_extract_byte]
  omega

theorem littleEndian_word (q : Quad) : littleEndian q.word = q.octets := by
  obtain ⟨h0, h1, h2, h3⟩ := Packet.extract_word q
  simp [littleEndian, Quad.octets, List.range_succ, h0, h1, h2, h3]

theorem Packet.bytesAt_eq_octets (p : Packet) (off : Nat) (q : Quad) :
    p.bytesAt off 4 = q.octets ↔ p.quadAt off = q := by
  obtain ⟨o0, o1, o2, o3⟩ := q
  simp [Packet.bytesAt, Quad.octets, Packet.quadAt, List.range_succ]

/-- The word of an address is read where its octets lie in the packet. -/
theorem Packet.load32_eq_word {p : Packet} {off : Nat} (hfits : off + 4 ≤ p.size)
    (q : Quad) : p.load32 off = some q.word ↔ p.bytesAt off 4 = q.octets := by
  rw [Packet.load32, if_pos hfits, Option.some.injEq, Packet.bytesAt_eq_octets]
  exact ⟨Quad.word_injective, congrArg Quad.word⟩

/-- Four decimal numbers with dots between them. -/
def Quad.text (q : Quad) : Text :=
  Nat.toDigits 10 q.o0.toNat ++ '.' :: (Nat.toDigits 10 q.o1.toNat ++ '.' ::
    (Nat.toDigits 10 q.o2.toNat ++ '.' :: Nat.toDigits 10 q.o3.toNat))

theorem isOctet_toDigits (o : BitVec 8) : IsOctet (Nat.toDigits 10 o.toNat) o where
  ne := Nat.toDigits_ne_nil
  short := by
    have hlt := o.isLt
    exact (Nat.length_toDigits_le_iff (by decide) (by decide)).mpr (by omega)
  digits := fun _ hc => isDigit_of_mem_toDigits hc
  value := number_toDigits o.toNat

theorem isQuad_text (q : Quad) : IsQuad q.text q :=
  ⟨_, _, _, _, rfl, isOctet_toDigits q.o0, isOctet_toDigits q.o1,
    isOctet_toDigits q.o2, isOctet_toDigits q.o3⟩

theorem IsQuad.length_le {s : Text} {q : Quad} (hs : IsQuad s q) :
    s.length ≤ 15 := by
  obtain ⟨s0, s1, s2, s3, rfl, h0, h1, h2, h3⟩ := hs
  have hl0 := h0.short
  have hl1 := h1.short
  have hl2 := h2.short
  have hl3 := h3.short
  simp only [List.length_append, List.length_cons]
  omega

/-- Only digits and dots are in a dotted quad. -/
theorem IsQuad.not_mem {s : Text} {q : Quad} (hs : IsQuad s q) {c : Char}
    (hdigit : ¬ isDigit c) (hdot : c ≠ '.') : c ∉ s := by
  obtain ⟨s0, s1, s2, s3, rfl, h0, h1, h2, h3⟩ := hs
  have hnone : ∀ {t : Text} {o}, IsOctet t o → c ∉ t := fun ht hmem =>
    hdigit (ht.digits c hmem)
  simp [hnone h0, hnone h1, hnone h2, hnone h3, hdot]

theorem decimal_octet (a : BitVec 32) (i : Nat) :
    decimal ((a >>> i) &&& 0xff) = Nat.toDigits 10 (a.extractLsb' i 8).toNat := by
  have hmask : ((a >>> i) &&& 0xff).toNat = (a.extractLsb' i 8).toNat := by
    rw [toNat_extract_byte, BitVec.toNat_and, BitVec.toNat_ushiftRight,
      Nat.shiftRight_eq_div_pow]
    exact Nat.and_two_pow_sub_one_eq_mod _ 8
  have hlt := (a.extractLsb' i 8).isLt
  rw [decimal_of_lt (by omega), hmask]

theorem printOctets_eq (a : BitVec 32) : printOctets a = (Quad.ofWord a).text := by
  have hfirst := decimal_octet a 0
  rw [BitVec.ushiftRight_zero] at hfirst
  rw [printOctets, hfirst, decimal_octet, decimal_octet, decimal_octet]
  rfl

/-- The 32 characters of `temp` are enough. -/
theorem printTemp_eq (a : BitVec 32) : printTemp a = (Quad.ofWord a).text := by
  have hquad := isQuad_text (Quad.ofWord a)
  have hlen := hquad.length_le
  have hnone : '\x00' ∉ (Quad.ofWord a).text :=
    hquad.not_mem (by decide) (by decide)
  rw [printTemp, printOctets_eq, terminated_of_lt (by omega),
    cstr_terminated hnone]

theorem unpadded_printIP (a : BitVec 32) : unpadded (printIP a) = printTemp a := by
  have hblank : ' ' ∉ printTemp a := by
    rw [printTemp_eq]
    exact (isQuad_text _).not_mem (by decide) (by decide)
  have hpad : ∀ n,
      (List.replicate n ' ').filter (fun c => decide (c ≠ ' ')) = [] := by
    intro n
    simp
  have hkept : (printTemp a).filter (fun c => decide (c ≠ ' ')) = printTemp a := by
    rw [List.filter_eq_self]
    exact fun c hc => decide_eq_true fun h => hblank (h ▸ hc)
  rw [unpadded, printIP, List.filter_append, List.filter_append, hpad, hpad, hkept,
    List.nil_append, List.append_nil]

theorem IsQuad.readable {s : Text} {q : Quad} (hs : IsQuad s q) : Readable s := by
  have hlen := hs.length_le
  have hnone : '\x00' ∉ s := hs.not_mem (by decide) (by decide)
  obtain ⟨s0, s1, s2, s3, hsplit, h0, h1, h2, -⟩ := hs
  have hdot : ∀ {t : Text} {o}, IsOctet t o → '.' ∉ t := fun ht hmem =>
    absurd (ht.digits _ hmem) (by decide)
  refine ⟨s0, s1, s2, s3, ?_, hdot h0, hdot h1, hdot h2, fun hlong => ?_⟩
  · rw [cstr_eq_self hnone, List.take_of_length_le (by omega), hsplit]
  · rw [cstr_eq_self hnone] at hlong
    omega

/-- `PackIP` on a dotted quad, whatever its copy holds. -/
theorem packIPIn_of_isQuad (last : Char) {s : Text} {q : Quad} (hs : IsQuad s q) :
    packIPIn last s = .ok q.word := by
  obtain ⟨v, hin, hcopy⟩ := hs.readable.packs
  have hword := packIP_of_isQuad [] hs
  rw [hcopy, Option.some.injEq] at hword
  rw [hin, hword]

/-- `PackIP` gives back every address that `PrintIP` prints, and for every dotted
quad the word that has its octets in memory in their order, which is what
`ip_src` and `ip_dst` are in a packet with these octets and in no other. -/
theorem packIP_printIP :
    (∀ (a : BitVec 32) (last : Char),
      packIPIn last (unpadded (printIP a)) = .ok a) ∧
    ∀ (s : Text) (q : Quad), IsQuad s q → ∀ last, ∃ w,
      packIPIn last s = .ok w ∧ littleEndian w = q.octets ∧
        ∀ (p : Packet) (ip : Nat), ip + ipHeaderSize ≤ p.size →
          ∀ field ∈ [ipSrcOffset, ipDstOffset],
            (p.load32 (ip + field) = some w ↔
              p.bytesAt (ip + field) 4 = q.octets) := by
  refine ⟨fun a last => ?_, fun s q hs last =>
    ⟨q.word, packIPIn_of_isQuad last hs, littleEndian_word q,
      fun p ip hheader field hfield => ?_⟩⟩
  · rw [unpadded_printIP, printTemp_eq,
      packIPIn_of_isQuad last (isQuad_text _), Quad.word_ofWord]
  · have hlast : field + 4 ≤ ipHeaderSize := by
      rw [List.mem_cons, List.mem_singleton] at hfield
      rcases hfield with rfl | rfl <;> decide
    exact Packet.load32_eq_word (by omega) q

/-- A last octet of 200, as it is written and as it is the source of a header. -/
theorem packIP_last_octet_200 :
    ∃ w, packIPIn '7' "10.0.0.200".toList = .ok w ∧
      littleEndian w = [10, 0, 0, 200] ∧
        Packet.load32 ⟨20, fun i => [10, 0, 0, 200].getD (i - 12) 0⟩
          (0 + ipSrcOffset) = some w := by
  obtain ⟨w, hpack, hmemory, hread⟩ := packIP_printIP.2 "10.0.0.200".toList
    ⟨10, 0, 0, 200⟩ ⟨"10".toList, "0".toList, "0".toList, "200".toList, rfl,
      by decide, by decide, by decide, by decide⟩ '7'
  have hfield := hread ⟨20, fun i => [10, 0, 0, 200].getD (i - 12) 0⟩ 0 (by decide)
    ipSrcOffset List.mem_cons_self
  exact ⟨w, hpack, hmemory, hfield.mpr (by decide)⟩

end AddrswapReplay

end NtapiExamples
