/-
`readStreamStats` and `outputStats` of `hbMonitor.c`: the statistics of the
streams in use, and the rows that show them.
-/
import NtapiExamples.Lib.Bits
import NtapiExamples.Lib.Run
import NtapiExamples.Ntapi.FillLevel

namespace NtapiExamples

namespace HbMonitor

open Ntapi

def HB_HIGHWATER : BitVec 64 := 2048

/-- `struct hbStats_s`. -/
structure HbStats where
  obFillLevel : BitVec 64
  hbFillLevel : BitVec 64
  pktsPrev : BitVec 64
  pktsTotal : BitVec 64
  dropPrev : BitVec 64
  dropTotal : BitVec 64

/-- `struct streamStats_s`; its array `hb` has two elements. -/
structure StreamStats where
  hb : Nat → HbStats
  active : Bool
  pktsCurr : BitVec 64
  dropCurr : BitVec 64
  aveOBFillLevel : BitVec 32
  aveHBFillLevel : BitVec 32
  adapterNo : BitVec 32

/-- `struct sysStats_s`. -/
structure SysStats where
  numStreams : Nat
  streamStats : Nat → StreamStats

/-- `1 << n`; `none` where the shift is not defined. -/
def bitMask (n : BitVec 32) : Option (BitVec 32) :=
  if n.toNat < 32 then some (bit 32 n.toNat) else none

/-- At most 100 per cent. -/
def atMost100 {w : Nat} (x : BitVec w) : BitVec w := if 100 < x then 100 else x

/-- The body of the loop over the host buffers of a stream. -/
def readHb (usage : Usage) (st : StreamStats) (hbCount : Nat) :
    Option StreamStats := do
  let b := usage.hb hbCount
  if hbCount < 2 then
    let mask ← bitMask b.adapterNo
    let obFill ← b.onboardFill
    let hbFill ← b.hostFill HB_HIGHWATER
    let old := st.hb hbCount
    let hb : HbStats :=
      { obFillLevel := atMost100 obFill
        hbFillLevel := hbFill.setWidth 64
        pktsPrev := old.pktsTotal
        pktsTotal := b.rxFrames
        dropPrev := old.dropTotal
        dropTotal := b.dropFrames }
    some
      { hb := Function.update st.hb hbCount hb
        active := st.active
        pktsCurr := hb.pktsTotal - hb.pktsPrev
        dropCurr := hb.dropTotal - hb.dropPrev
        aveOBFillLevel := st.aveOBFillLevel + hb.obFillLevel.setWidth 32
        aveHBFillLevel := st.aveHBFillLevel + hb.hbFillLevel.setWidth 32
        adapterNo := st.adapterNo ||| mask }
  else none

/-- What `readStreamStats` does for a stream. -/
def readStream (usage : Usage) (st : StreamStats) : Option StreamStats :=
  ((List.range usage.numHostBufferUsed).foldlM (readHb usage)
    { st with active := true, aveOBFillLevel := 0, aveHBFillLevel := 0 }).map
      fun st =>
        { st with
          aveOBFillLevel := atMost100 (st.aveOBFillLevel /
            BitVec.ofNat 32 usage.numHostBufferUsed)
          aveHBFillLevel := atMost100 (st.aveHBFillLevel /
            BitVec.ofNat 32 usage.numHostBufferUsed) }

/-- A stream that is not in use is passed over. -/
def skipStream (stats : Nat → StreamStats) (streamId : Nat) :
    Option (Nat → StreamStats) :=
  if streamId < MAX_STREAMS then
    some (Function.update stats streamId
      { stats streamId with active := false })
  else none

def visitStream (stats : Nat → StreamStats) (streamId : Nat) (usage : Usage) :
    Option (Nat → StreamStats) :=
  if streamId < MAX_STREAMS then
    (readStream usage (stats streamId)).map (Function.update stats streamId)
  else none

/-- `readStreamStats`, and the store of its result. -/
def readStreamStats (m : SysStats) (snap : Snapshot) : Option SysStats :=
  (readStreams skipStream visitStream snap.usage snap.count m.streamStats
    0).map fun stats => { numStreams := snap.count, streamStats := stats }

/-- What is shown of a stream. -/
structure Row where
  adapters : List Nat
  pps : BitVec 64
  stream : Nat
  hostBuffer : BitVec 32
  onboard : BitVec 32
  drops : BitVec 64
deriving DecidableEq

/-- The positions of the bits of the mask. -/
def shownAdapters (mask : BitVec 32) : List Nat :=
  (List.range 4).filter fun acnt => test mask (bit 32 acnt)

def row (st : StreamStats) (cnt : Nat) : Row where
  adapters := shownAdapters st.adapterNo
  pps := 2 * st.pktsCurr
  stream := cnt
  hostBuffer := st.aveHBFillLevel
  onboard := st.aveOBFillLevel
  drops := st.dropCurr

/-- The next entry with its flag set; `none` behind the array, of which so many
entries are left. -/
def nextActive (stats : Nat → StreamStats) : Nat → Nat → Option Nat
  | 0, _ => none
  | left + 1, cnt =>
      if (stats cnt).active then some cnt else nextActive stats left (cnt + 1)

/-- The loop of `outputStats` over the rows. -/
def outputRows (stats : Nat → StreamStats) : Nat → Nat → Option (List Row)
  | 0, _ => some []
  | n + 1, cnt => do
      let cnt ← nextActive stats (MAX_STREAMS - cnt) cnt
      let rows ← outputRows stats n (cnt + 1)
      some (row (stats cnt) cnt :: rows)

/-- `outputStats`. -/
def outputStats (m : SysStats) : Option (List Row) :=
  outputRows m.streamStats m.numStreams 0

/-- The array after `memset`. -/
def start : SysStats where
  numStreams := 0
  streamStats := fun _ => ⟨fun _ => ⟨0, 0, 0, 0, 0, 0⟩, false, 0, 0, 0, 0, 0⟩

/-- As many rows as there are flags below `cnt + k` are those of the flags. -/
theorem outputRows_eq (stats : Nat → StreamStats) {k n cnt : Nat}
    (hle : cnt + k ≤ MAX_STREAMS)
    (hn : ((List.range' cnt k).filter fun i => (stats i).active).length = n) :
    outputRows stats n cnt =
      some (((List.range' cnt k).filter fun i => (stats i).active).map
        fun i => row (stats i) i) := by
  induction k generalizing n cnt with
  | zero =>
      cases hn
      rfl
  | succ k ih =>
      obtain ⟨left, hleft⟩ := Nat.exists_eq_succ_of_ne_zero (by omega :
        MAX_STREAMS - cnt ≠ 0)
      rw [List.range'_succ] at hn ⊢
      cases hflag : (stats cnt).active with
      | true =>
          rw [List.filter_cons, if_pos hflag, List.length_cons] at hn
          subst hn
          rw [List.filter_cons, if_pos hflag, List.map_cons, outputRows, hleft,
            nextActive, if_pos hflag]
          simp only [Option.bind_eq_bind, Option.bind_some,
            ih (by omega : cnt + 1 + k ≤ MAX_STREAMS) rfl]
      | false =>
          have hneg : ¬ (stats cnt).active = true := by simp [hflag]
          rw [List.filter_cons, if_neg hneg] at hn ⊢
          rw [← ih (by omega : cnt + 1 + k ≤ MAX_STREAMS) hn]
          cases n with
          | zero => rfl
          | succ n =>
              have hnext : MAX_STREAMS - (cnt + 1) = left := by omega
              rw [outputRows, outputRows, hleft, nextActive, if_neg hneg, hnext]

end HbMonitor

end NtapiExamples
