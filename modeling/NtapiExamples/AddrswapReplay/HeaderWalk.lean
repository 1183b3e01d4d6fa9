/-
The walk over the headers of a frame.  Neither the loop of `vlanSize` nor the
accesses of `substitute_IP` look at the length of the frame.
-/
import NtapiExamples.AddrswapReplay.SubstituteIP

namespace NtapiExamples

namespace AddrswapReplay

/-- `vlanSize` comes to its end and `substitute_IP` to its addresses, without an
access outside of the frame. -/
def WalksInside (root : Tree) (frame : Packet) : Prop :=
  frame.vlanSize.isSome = true ∧ (substituteIP root frame).isSome = true

/-- Behind `tags` words 0x8100 there is another type, and an IPv4 header fits in
behind it. -/
structure HeaderInside (frame : Packet) (tags : Nat) : Prop where
  tagged : ∀ j, j < tags → frame.isVlan (typelenOffset + 4 * j) = true
  type : frame.isVlan (typelenOffset + 4 * tags) = false
  fits : macHeaderSize + 4 * tags + ipHeaderSize ≤ frame.size

namespace Packet

variable {p : Packet}

/-- Where the loop ends it has skipped nothing but tags. -/
theorem vlanLoop_eq_some {fuel typelen size n : Nat}
    (hloop : p.vlanLoop fuel typelen size = some n) :
    ∃ tags, n = size + 4 * tags ∧
      (∀ j, j < tags → p.isVlan (typelen + 4 * j) = true) ∧
      p.isVlan (typelen + 4 * tags) = false := by
  induction fuel generalizing typelen size with
  | zero => cases hloop
  | succ fuel ih =>
      rw [vlanLoop] at hloop
      by_cases hinside : typelen + 2 ≤ p.size
      · rw [if_pos hinside] at hloop
        cases htag : p.isVlan typelen with
        | false =>
            rw [htag] at hloop
            cases hloop
            exact ⟨0, rfl, fun j hj => absurd hj (Nat.not_lt_zero j), htag⟩
        | true =>
            rw [htag] at hloop
            obtain ⟨tags, hn, htagged, htype⟩ := ih hloop
            have hshift : ∀ j, typelen + 4 + 4 * j = typelen + 4 * (j + 1) := by
              omega
            refine ⟨tags + 1, ?_, fun j hj => ?_, ?_⟩
            · rw [hn, VLAN_TAG_LEN]
              omega
            · cases j with
              | zero => exact htag
              | succ j =>
                  rw [← hshift]
                  exact htagged j (by omega)
            · rw [← hshift]
              exact htype
      · rw [if_neg hinside] at hloop
        cases hloop

end Packet

theorem substituteAt_isSome_iff (root : Tree) (off : Nat) (p : Packet) :
    (substituteAt root off p).isSome = true ↔ off + 4 ≤ p.size := by
  rw [substituteAt, Option.isSome_map, Packet.load32]
  split <;> simp_all

/-- A substitution keeps the length of the packet. -/
theorem substituteAt_size {root : Tree} {off : Nat} {p : Packet}
    {r : Packet × Bool} (hsubst : substituteAt root off p = some r) :
    r.1.size = p.size := by
  obtain ⟨val, _, rfl⟩ := Option.map_eq_some_iff.mp hsubst
  dsimp only
  split <;> rfl

/-- Behind the tags `substitute_IP` reads and writes the two addresses, the
second one at the end of the header. -/
theorem substituteIP_isSome_iff (root : Tree) {p : Packet} {size : Nat}
    (hsize : p.vlanSize = some size) :
    (substituteIP root p).isSome = true ↔
      macHeaderSize + size + ipHeaderSize ≤ p.size := by
  have hsrc := substituteAt_isSome_iff root (macHeaderSize + size + ipSrcOffset) p
  simp only [substituteIP, hsize, Option.bind_eq_bind, Option.bind_some]
  simp only [macHeaderSize, ipHeaderSize, ipSrcOffset, ipDstOffset] at hsrc ⊢
  cases hfirst : substituteAt root (14 + size + 12) p with
  | none =>
      rw [hfirst] at hsrc
      simp only [Option.isSome_none, Bool.false_eq_true, false_iff] at hsrc
      simp only [Option.bind_none, Option.isSome_none, Bool.false_eq_true,
        false_iff]
      omega
  | some r =>
      have hdst := substituteAt_isSome_iff root (14 + size + 16) r.1
      rw [substituteAt_size hfirst] at hdst
      rw [Option.bind_some, Option.isSome_bind, show 14 + size + 20 =
        14 + size + 16 + 4 from rfl, ← hdst]
      cases substituteAt root (14 + size + 16) r.1 <;> rfl

/-- A frame of 64 bytes full of 0x8100 words. -/
def tagsOnly : Packet where
  size := 64
  byte := fun i => if i % 2 = 0 then 0x81 else 0x00

/-- The loop over its tags does not end inside the frame. -/
theorem tagsOnly_leaves : ¬ ∀ (root : Tree) (frame : Packet),
    WalksInside root frame := by
  intro hall
  have hinside := (hall .nil tagsOnly).1
  have hnone : tagsOnly.vlanSize = none := by decide
  rw [hnone] at hinside
  cases hinside

/-- The walk stays inside the frame exactly when the frame has a type other than
0x8100 in the row of its tags, and an IPv4 header's length behind it. -/
theorem walksInside_iff (root : Tree) (frame : Packet) :
    WalksInside root frame ↔ ∃ tags, HeaderInside frame tags := by
  constructor
  · rintro ⟨hvlan, hsubst⟩
    obtain ⟨size, hsize⟩ := Option.isSome_iff_exists.mp hvlan
    obtain ⟨tags, hn, htagged, htype⟩ := Packet.vlanLoop_eq_some hsize
    rw [Nat.zero_add] at hn
    rw [substituteIP_isSome_iff root hsize, hn] at hsubst
    exact ⟨tags, htagged, htype, hsubst⟩
  · rintro ⟨tags, hheader⟩
    have hfits := hheader.fits
    have hsize : frame.vlanSize = some (4 * tags) :=
      Packet.vlanSize_eq hheader.tagged hheader.type (by
        simp only [macHeaderSize, ipHeaderSize, typelenOffset] at hfits ⊢
        omega)
    refine ⟨?_, (substituteIP_isSome_iff root hsize).mpr hfits⟩
    rw [hsize]
    rfl

end AddrswapReplay

end NtapiExamples
