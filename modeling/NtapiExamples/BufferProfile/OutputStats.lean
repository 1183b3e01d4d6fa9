/-
`outputStats` of `bufferProfile.cpp`: the columns of the streams, the texts that
are made of them, and when these are the columns of the streams in use.
-/
import Mathlib.Algebra.Ring.Nat
import Mathlib.Data.List.Perm.Subperm
import NtapiExamples.BufferProfile.Alert
import NtapiExamples.BufferProfile.NullFile

namespace NtapiExamples

namespace BufferProfile

open Ntapi

/-- What is printed of a stream. -/
structure Column where
  rxPktsCurr : BitVec 64
  rxBytesCurr : BitVec 64
  dropCurr : BitVec 64
  aveOBFillLevel : BitVec 32
  aveHBFillLevel : BitVec 32

def column (st : StreamStats) : Column where
  rxPktsCurr := st.rxPktsCurr
  rxBytesCurr := st.rxBytesCurr
  dropCurr := st.dropCurr
  aveOBFillLevel := st.aveOBFillLevel
  aveHBFillLevel := st.aveHBFillLevel

/-- The loop over the streams: those with the first `numStreams` numbers. -/
def columns (m : Memory) : List Column :=
  (List.range m.numStreams).map fun i => column (m.streamStats i)

/-- A signed number with a least width. -/
def formatInt (width : Nat) (x : Int) : Text :=
  let digits :=
    if x < 0 then '-' :: Nat.toDigits 10 x.natAbs
    else Nat.toDigits 10 x.natAbs
  List.replicate (width - digits.length) ' ' ++ digits

/-- `snprintf` into a buffer. -/
def snprintf (size : Nat) (s : Text) : Text := s.take (size - 1)

/-- What the format adds for a column; after every eighth a new line begins. -/
def cellText (cell : Text × Nat) : Text :=
  ' ' :: cell.1 ++ [if cell.2 % 8 = 7 then '\n' else ' ']

def addCell (s : Text) (cell : Text × Nat) : Text :=
  snprintf 2048 (s ++ cellText cell)

def cellsStr (cells : List Text) : Text := cells.zipIdx.foldl addCell []

/-- How each of the five texts prints a column; `formatRate` prints a float. -/
def cells (formatRate : BitVec 64 → Text) : List (Column → Text) :=
  [fun c => formatInt 8 c.rxPktsCurr.toInt,
    fun c => formatRate c.rxBytesCurr,
    fun c => formatInt 8 c.dropCurr.toInt,
    fun c => formatInt 8 c.aveOBFillLevel.toInt,
    fun c => formatInt 8 c.aveHBFillLevel.toInt]

/-- What the main loop gives to `outputStats` besides the streams. -/
structure SystemStats where
  time : Text
  rxMbps : List (BitVec 64)
  cpuUtil : List (BitVec 64)

/-- The entry `outputStats` builds. -/
def statsEntry (formatRate : BitVec 64 → Text) (sys : SystemStats) (m : Memory) :
    Entry where
  time := sys.time ++ ['\n']
  rxMbpsStr := (sys.rxMbps.map fun x => formatInt 8 x.toInt).foldl
    (fun s cell => snprintf 2048 (s ++ ' ' :: cell ++ [' '])) []
  numStreams := (toString m.numStreams).toList
  pktsStr := cellsStr ((columns m).map fun c => formatInt 8 c.rxPktsCurr.toInt)
  pktsRateStr := cellsStr ((columns m).map fun c => formatRate c.rxBytesCurr)
  dropStr := cellsStr ((columns m).map fun c => formatInt 8 c.dropCurr.toInt)
  hbFillStr := cellsStr ((columns m).map fun c =>
    formatInt 8 c.aveHBFillLevel.toInt)
  obFillStr := cellsStr ((columns m).map fun c =>
    formatInt 8 c.aveOBFillLevel.toInt)
  utilString := (sys.cpuUtil.map fun x => formatInt 4 x.toInt).zipIdx.foldl
    (fun s cell => snprintf 2048 s ++ ' ' :: cell.1 ++
      [if (cell.2 + 1) % 16 = 0 then '\n' else ' ']) []

/-- `outputStats`. -/
def outputStats (formatRate : BitVec 64 → Text) (sys : SystemStats) (m : Memory)
    (s : Output) (alert : Bool) : Option Output :=
  outputEntry s (statsEntry formatRate sys m) alert

/-- The texts with a column for each stream. -/
def Entry.lines (e : Entry) : List Text :=
  [e.pktsStr, e.pktsRateStr, e.dropStr, e.obFillStr, e.hbFillStr]

/-- The columns behind each other, in a text of any length. -/
def line (columns : List Text) : Text := columns.zipIdx.flatMap cellText

def lines (formatRate : BitVec 64 → Text) (cs : List Column) : List Text :=
  (cells formatRate).map fun cell => line (cs.map cell)

theorem snprintf_append (size : Nat) (s t : Text) :
    snprintf size (snprintf size s ++ t) = snprintf size (s ++ t) := by
  have hrest : size - 1 - min (size - 1) s.length = size - 1 - s.length := by
    omega
  simp only [snprintf, List.take_append, List.take_take, List.length_take,
    Nat.min_self, hrest]

theorem foldl_addCell (columns : List (Text × Nat)) (s : Text) :
    columns.foldl addCell (snprintf 2048 s) =
      snprintf 2048 (s ++ columns.flatMap cellText) := by
  induction columns generalizing s with
  | nil => rw [List.flatMap_nil, List.append_nil, List.foldl_nil]
  | cons cell columns ih =>
      rw [List.foldl_cons, addCell, snprintf_append, ih, List.flatMap_cons,
        List.append_assoc]

/-- What does not fit into the buffer is cut. -/
theorem cellsStr_eq (columns : List Text) :
    cellsStr columns = snprintf 2048 (line columns) :=
  foldl_addCell columns.zipIdx []

theorem lines_statsEntry (formatRate : BitVec 64 → Text) (sys : SystemStats)
    (m : Memory) :
    (statsEntry formatRate sys m).lines =
      (lines formatRate (columns m)).map (snprintf 2048) := by
  simp only [Entry.lines, statsEntry, cellsStr_eq]
  rfl

theorem length_line (columns : List Text) :
    (line columns).length =
      (columns.map fun column => column.length + 2).sum := by
  have hfrom : ∀ k, ((columns.zipIdx k).flatMap cellText).length =
      (columns.map fun column => column.length + 2).sum := by
    induction columns with
    | nil => exact fun _ => rfl
    | cons column columns ih =>
        intro k
        rw [List.zipIdx_cons, List.flatMap_cons, List.length_append, ih,
          List.map_cons, List.sum_cons, cellText, List.length_append,
          List.length_cons, List.length_singleton]
  exact hfrom 0

/-- A character that stands for no gap is in a line when it is in a column. -/
theorem mem_line {c : Char} (hblank : c ≠ ' ') (hnewline : c ≠ '\n')
    (columns : List Text) :
    c ∈ line columns ↔ ∃ column ∈ columns, c ∈ column := by
  have hfrom : ∀ k, c ∈ (columns.zipIdx k).flatMap cellText ↔
      ∃ column ∈ columns, c ∈ column := by
    induction columns with
    | nil => simp
    | cons column columns ih =>
        intro k
        have hgap : c ∉ [if k % 8 = 7 then '\n' else ' '] := by
          split <;> simp [hblank, hnewline]
        rw [List.zipIdx_cons, List.flatMap_cons, List.mem_append, ih,
          List.exists_mem_cons_iff]
        refine or_congr_left ?_
        rw [cellText, List.mem_append, List.mem_cons]
        simp only [hgap, hblank, or_false, false_or]
  exact hfrom 0

theorem length_formatInt (width : Nat) (x : Int) :
    (formatInt width x).length = max width
      (if x < 0 then '-' :: Nat.toDigits 10 x.natAbs
        else Nat.toDigits 10 x.natAbs).length := by
  rw [formatInt, List.length_append, List.length_replicate]
  omega

/-- A number of at most 64 bits has at most 19 digits and a sign. -/
theorem length_formatInt_le {w : Nat} (x : BitVec w) (hw : w ≤ 64) :
    (formatInt 8 x.toInt).length ≤ 20 := by
  have habs : x.toInt.natAbs < 10 ^ 19 := by
    have hlow := x.le_toInt
    have hhigh := x.toInt_lt
    have hhalf : 2 ^ (w - 1) ≤ 2 ^ 63 :=
      Nat.pow_le_pow_right (by decide) (by omega)
    have hhalf' : (2 : Int) ^ (w - 1) ≤ 2 ^ 63 := by exact_mod_cast hhalf
    omega
  have hdigits := (Nat.length_toDigits_le_iff (by decide) (by decide)).mpr habs
  rw [length_formatInt]
  split
  · rw [List.length_cons]
    omega
  · omega

/-- What the loop over the first `n` host buffers leaves of them: the counters of
the last one against those kept of it, and the sums of the levels. -/
structure ReadCounts (usage : Usage) (n : Nat) (st st' : StreamStats) : Prop
    where
  unread : ∀ j, n ≤ j → st'.hb j = st.hb j
  counted : ∀ last, n = last + 1 →
    st'.rxPktsCurr = (usage.hb last).rxFrames - (st.hb last).rxPktsTotal ∧
      st'.rxBytesCurr = (usage.hb last).rxBytes - (st.hb last).rxBytesTotal ∧
      st'.dropCurr = (usage.hb last).dropFrames - (st.hb last).dropTotal
  host : ∃ levels, levels.length = n ∧
    ((List.range n).mapM fun j => (usage.hb j).hostFill HB_HIGHWATER) =
      some levels ∧
    st'.aveHBFillLevel = levels.foldl (· + ·) st.aveHBFillLevel
  onboard : ∃ levels, levels.length = n ∧
    ((List.range n).mapM fun j => (usage.hb j).onboardFill) = some levels ∧
    st'.aveOBFillLevel =
      (levels.map (BitVec.setWidth 32)).foldl (· + ·) st.aveOBFillLevel

theorem ReadCounts.step {usage : Usage} {n : Nat} {st mid st' : StreamStats}
    (hcounts : ReadCounts usage n st mid) (hread : readHb usage mid n = some st') :
    ReadCounts usage (n + 1) st st' := by
  simp only [readHb] at hread
  split at hread
  case isFalse => cases hread
  case isTrue =>
    simp only [Option.bind_eq_bind, Option.bind_eq_some_iff,
      Option.some.injEq] at hread
    obtain ⟨obFill, hob, hbFill, hhb, rfl⟩ := hread
    have hold := hcounts.unread n (Nat.le_refl n)
    refine ⟨fun j hj => ?_, fun last hlast => ?_, ?_, ?_⟩
    · have hne : j ≠ n := by omega
      exact (Function.update_of_ne hne _ _).trans (hcounts.unread j (by omega))
    · obtain rfl : n = last := Nat.succ.inj hlast
      rw [← hold]
      exact ⟨rfl, rfl, rfl⟩
    · obtain ⟨levels, hlength, hlevels, hsum⟩ := hcounts.host
      refine ⟨levels ++ [hbFill], by simp [hlength],
        mapM_range_succ _ hlevels hhb, ?_⟩
      rw [List.foldl_append, ← hsum]
      rfl
    · obtain ⟨levels, hlength, hlevels, hsum⟩ := hcounts.onboard
      refine ⟨levels ++ [obFill], by simp [hlength],
        mapM_range_succ _ hlevels hob, ?_⟩
      rw [List.map_append, List.foldl_append, ← hsum]
      rfl

theorem readHbs_counts {usage : Usage} {n : Nat} {st st' : StreamStats}
    (hread : (List.range n).foldlM (readHb usage) st = some st') :
    ReadCounts usage n st st' := by
  induction n generalizing st' with
  | zero =>
      cases hread
      exact ⟨fun _ _ => rfl, nofun, ⟨[], rfl, rfl, rfl⟩, ⟨[], rfl, rfl, rfl⟩⟩
  | succ n ih =>
      rw [List.range_succ, List.foldlM_append] at hread
      simp only [Option.bind_eq_bind, Option.bind_eq_some_iff,
        List.foldlM_cons, List.foldlM_nil, Option.pure_def,
        Option.some.injEq] at hread
      obtain ⟨mid, hmid, _, hlast, rfl⟩ := hread
      exact (ih hmid).step hlast

/-- The average of the levels of a stream. -/
def average (levels : List (BitVec 32)) : BitVec 32 :=
  levels.foldl (· + ·) 0 / BitVec.ofNat 32 levels.length

/-- The column of a stream that is computed from its usage data: the counters of its
last host buffer against those kept of it, and the averages of the levels. -/
def expectedColumn (m : Memory) (cur : Snapshot) (id : Nat) : Option Column := do
  let usage := cur.usage id
  let last := usage.numHostBufferUsed - 1
  let kept := (m.streamStats id).hb last
  let buffers := List.range usage.numHostBufferUsed
  let host ← buffers.mapM fun j => (usage.hb j).hostFill HB_HIGHWATER
  let onboard ← buffers.mapM fun j => (usage.hb j).onboardFill
  some
    { rxPktsCurr := (usage.hb last).rxFrames - kept.rxPktsTotal
      rxBytesCurr := (usage.hb last).rxBytes - kept.rxBytesTotal
      dropCurr := (usage.hb last).dropFrames - kept.dropTotal
      aveOBFillLevel := average (onboard.map (BitVec.setWidth 32))
      aveHBFillLevel := average host }

/-- What is stored for a stream is computed from its usage data. -/
theorem expectedColumn_eq {m m' : Memory} {alert : Bool} {cur : Snapshot}
    (hvalid : cur.Valid) (hread : readStreamStats m false cur = some (m', alert))
    {id : Nat} (hid : id ∈ cur.active) :
    expectedColumn m cur id = some (column (m'.streamStats id)) := by
  have hnew := ((readStreamStats_iff hvalid).mp hread).1 id hid
  obtain ⟨last, hlast⟩ := Nat.exists_eq_succ_of_ne_zero
    ((cur.mem_active id).mp hid).2
  rw [readStream, Option.map_eq_some_iff] at hnew
  obtain ⟨mid, hmid, hst⟩ := hnew
  have hcounts := readHbs_counts hmid
  obtain ⟨hpkts, hbytes, hdrops⟩ := hcounts.counted last hlast
  obtain ⟨host, hhost, hhost', hhostSum⟩ := hcounts.host
  obtain ⟨onboard, honboard, honboard', honboardSum⟩ := hcounts.onboard
  rw [expectedColumn, hhost', honboard', column, ← hst]
  simp only [Option.bind_eq_bind, Option.bind_some, average, List.length_map,
    hhost, honboard, hhostSum, honboardSum, hpkts, hbytes, hdrops, hlast,
    Nat.succ_eq_add_one, Nat.add_sub_cancel]

/-- With a snapshot, the columns that `outputStats` hands on to be printed are those
of the streams in use in the order of their ids, each computed from what was just
read for the stream. -/
def Reports (formatRate : BitVec 64 → Text) (sys : SystemStats) (m : Memory)
    (cur : Snapshot) : Prop :=
  ∃ (m' : Memory) (alert : Bool) (cs : List Column),
    readStreamStats m false cur = some (m', alert) ∧
    cs.map some = cur.active.map (expectedColumn m cur) ∧
    ∀ s : Output, s.backlog.file.isSome →
      ∃ s', outputStats formatRate sys m' s alert = some s' ∧
        (s'.backlog.entries s.backlog.currPos).lines = lines formatRate cs

/-- No line is too long for its buffer. -/
def Fits (formatRate : BitVec 64 → Text) (m : Memory) (cur : Snapshot) : Prop :=
  ∀ cs : List Column, cs.map some = cur.active.map (expectedColumn m cur) →
    ∀ cell ∈ cells formatRate,
      (cs.map fun c => (cell c).length + 2).sum < 2048

theorem outputEntry_entries {s s' : Output} {e : Entry} {alert : Bool}
    (hout : outputEntry s e alert = some s') :
    s'.backlog.entries s.backlog.currPos = e := by
  have hpos : (s.backlog.addEntry e).currPos < NUM_ENTRIES :=
    Nat.mod_lt _ (by decide)
  have hentry : (s.backlog.addEntry e).entries s.backlog.currPos = e := by
    simp only [CBacklog.addEntry, Function.update_self]
  have hloop := (CBacklog.visited_outputLoop _ hpos).entries
  unfold outputEntry at hout
  simp only [CBacklog.output] at hout
  split at hout
  case isTrue =>
    split at hout
    · rw [Option.map_map, Option.map_eq_some_iff] at hout
      obtain ⟨file, -, rfl⟩ := hout
      exact (congrFun hloop _).trans hentry
    · cases hout
      exact (congrFun hloop _).trans hentry
  case isFalse =>
    cases hout
    exact hentry

theorem expectedColumns_iff {m m' : Memory} {alert : Bool} {cur : Snapshot}
    (hvalid : cur.Valid) (hread : readStreamStats m false cur = some (m', alert))
    {cs : List Column} :
    cs.map some = cur.active.map (expectedColumn m cur) ↔
      cs = cur.active.map fun id => column (m'.streamStats id) := by
  have hsome : (cur.active.map fun id => some (column (m'.streamStats id))) =
      (cur.active.map fun id => column (m'.streamStats id)).map some := by
    rw [List.map_map]
    rfl
  rw [List.map_congr_left fun id hid => expectedColumn_eq hvalid hread hid,
    hsome, List.map_inj_right fun _ _ => Option.some.inj]

/-- The five texts after a snapshot that could be read. -/
theorem reports_iff {formatRate : BitVec 64 → Text} {sys : SystemStats}
    {m m' : Memory} {alert : Bool} {cur : Snapshot} (hvalid : cur.Valid)
    (hread : readStreamStats m false cur = some (m', alert)) :
    Reports formatRate sys m cur ↔
      (lines formatRate (columns m')).map (snprintf 2048) =
        lines formatRate (cur.active.map fun id => column (m'.streamStats id)) := by
  constructor
  · rintro ⟨m'', alert', cs, hread', hcs, hout⟩
    rw [hread] at hread'
    cases hread'
    rw [expectedColumns_iff hvalid hread] at hcs
    obtain ⟨s', hs', hlines⟩ :=
      hout (outputStart (fun _ => statsEntry formatRate sys m) (some [])) rfl
    rw [outputEntry_entries hs', lines_statsEntry, hcs] at hlines
    exact hlines
  · intro hlines
    refine ⟨m', alert, _, hread, (expectedColumns_iff hvalid hread).mpr rfl,
      fun s hfile => ?_⟩
    obtain ⟨s', hs'⟩ := Option.isSome_iff_exists.mp
      ((outputEntry_isSome s (statsEntry formatRate sys m') alert).mpr
        fun _ _ => hfile)
    refine ⟨s', hs', ?_⟩
    rw [outputEntry_entries hs', lines_statsEntry, hlines]

/-- A line of few columns is never too long, whatever the numbers. -/
theorem sum_columns_le {columns : List Text}
    (hcolumn : ∀ column ∈ columns, column.length ≤ 20) :
    (columns.map fun column => column.length + 2).sum ≤ 22 * columns.length := by
  induction columns with
  | nil => exact Nat.le_refl 0
  | cons column columns ih =>
      have hfirst := hcolumn column List.mem_cons_self
      have hrest := ih fun c hc => hcolumn c (List.mem_cons_of_mem _ hc)
      rw [List.map_cons, List.sum_cons, List.length_cons]
      omega

theorem sum_columns_lt {columns : List Text}
    (hcolumn : ∀ column ∈ columns, column.length ≤ 20)
    (hfew : columns.length ≤ 93) :
    (columns.map fun column => column.length + 2).sum < 2048 :=
  Nat.lt_of_le_of_lt (sum_columns_le hcolumn) (by omega)

theorem length_cell_le {formatRate : BitVec 64 → Text}
    (hrate : ∀ x, (formatRate x).length ≤ 20) {cell : Column → Text}
    (hcell : cell ∈ cells formatRate) (c : Column) : (cell c).length ≤ 20 := by
  simp only [cells, List.mem_cons, List.not_mem_nil, or_false] at hcell
  rcases hcell with rfl | rfl | rfl | rfl | rfl
  · exact length_formatInt_le _ (by decide)
  · exact hrate _
  · exact length_formatInt_le _ (by decide)
  · exact length_formatInt_le _ (by decide)
  · exact length_formatInt_le _ (by decide)

theorem snprintf_of_lt {s : Text} (hlt : s.length < 2048) : snprintf 2048 s = s :=
  List.take_of_length_le (Nat.lt_succ_iff.mp hlt)

theorem fits_iff {formatRate : BitVec 64 → Text} {m m' : Memory} {alert : Bool}
    {cur : Snapshot} (hvalid : cur.Valid)
    (hread : readStreamStats m false cur = some (m', alert)) :
    Fits formatRate m cur ↔
      ∀ l ∈ lines formatRate (cur.active.map fun id => column (m'.streamStats id)),
        l.length < 2048 := by
  rw [Fits]
  simp only [expectedColumns_iff hvalid hread, forall_eq, lines,
    List.forall_mem_map, length_line, List.map_map]
  rfl

/-- What is printed has room in the buffers. -/
theorem Reports.fits {formatRate : BitVec 64 → Text} {sys : SystemStats}
    {m : Memory} {cur : Snapshot} (hvalid : cur.Valid)
    (hreports : Reports formatRate sys m cur) :
    FillsDefined cur ∧ Fits formatRate m cur := by
  obtain ⟨m', alert, -, hread, -, -⟩ := id hreports
  refine ⟨(readStreamStats_isSome_iff m false hvalid).mp (by rw [hread]; rfl), ?_⟩
  rw [reports_iff hvalid hread] at hreports
  rw [fits_iff hvalid hread, ← hreports]
  intro l hl
  obtain ⟨whole, -, rfl⟩ := List.mem_map.mp hl
  rw [snprintf, List.length_take]
  omega

/-- The ids in use when each has so many host buffers. -/
def activeIds (used : Nat → Nat) : List Nat :=
  (List.range MAX_STREAMS).filter fun id => decide (used id ≠ 0)

theorem active_eq_activeIds {cur : Snapshot} {used : Nat → Nat}
    (hused : ∀ id, (cur.usage id).numHostBufferUsed = used id) :
    cur.active = activeIds used := by
  have hactive : cur.isActive = fun id => decide (used id ≠ 0) := by
    funext id
    rw [Snapshot.isActive, hused]
  rw [Snapshot.active, hactive, activeIds]

theorem mem_activeIds (used : Nat → Nat) (id : Nat) :
    id ∈ activeIds used ↔ id < MAX_STREAMS ∧ used id ≠ 0 := by
  rw [activeIds, List.mem_filter, List.mem_range, decide_eq_true_eq]

/-- With the ids from 0 on, the report is right when the snapshot can be read and no
line is too long. -/
theorem reports_iff_of_range {formatRate : BitVec 64 → Text} {sys : SystemStats}
    {m : Memory} {cur : Snapshot} (hvalid : cur.Valid)
    (hrange : cur.active = List.range cur.active.length) :
    Reports formatRate sys m cur ↔
      FillsDefined cur ∧ Fits formatRate m cur := by
  refine ⟨Reports.fits hvalid, fun ⟨hfills, hfits⟩ => ?_⟩
  obtain ⟨⟨m', alert⟩, hread⟩ := Option.isSome_iff_exists.mp
    ((readStreamStats_isSome_iff m false hvalid).mpr hfills)
  have hcolumns : columns m' =
      cur.active.map fun id => column (m'.streamStats id) := by
    obtain ⟨-, -, -, -, hcount⟩ := (readStreamStats_iff hvalid).mp hread
    rw [columns, hcount, hvalid.count, ← hrange]
  rw [fits_iff hvalid hread] at hfits
  rw [reports_iff hvalid hread, hcolumns]
  exact (List.map_congr_left fun l hl => snprintf_of_lt (hfits l hl)).trans
    (List.map_id _)

/-- For all counters that can be read, the report of these streams is right. -/
def ReportsActive (formatRate : BitVec 64 → Text) (sys : SystemStats)
    (used : Nat → Nat) : Prop :=
  ∀ (m : Memory) (cur : Snapshot), cur.Valid →
    (∀ id, (cur.usage id).numHostBufferUsed = used id) → FillsDefined cur →
      Reports formatRate sys m cur

/-- All streams have received the same since the start. -/
def sameEach (used : Nat → Nat) (rxFrames dropFrames : BitVec 64) :
    Snapshot where
  count := (activeIds used).length
  usage := fun id => ⟨used id, fun _ => buffer rxFrames dropFrames⟩

theorem active_sameEach (used : Nat → Nat) (rxFrames dropFrames : BitVec 64) :
    (sameEach used rxFrames dropFrames).active = activeIds used :=
  active_eq_activeIds fun _ => rfl

theorem valid_sameEach {used : Nat → Nat} (htwo : ∀ id, used id ≤ 2)
    (rxFrames dropFrames : BitVec 64) :
    (sameEach used rxFrames dropFrames).Valid where
  count := by
    rw [active_sameEach]
    rfl
  buffers := htwo

theorem fillsDefined_sameEach (used : Nat → Nat)
    (rxFrames dropFrames : BitVec 64) :
    FillsDefined (sameEach used rxFrames dropFrames) := by
  intro id _ j _
  constructor
  · show (1024 : BitVec 64) ≠ 0
    decide
  · show (buffer 0 0).bufSize HB_HIGHWATER ≠ 0
    decide

/-- The columns after such a snapshot: what each stream in use has received, and
nothing for the entries of other ids. -/
theorem column_sameEach {used : Nat → Nat} (htwo : ∀ id, used id ≤ 2)
    {rxFrames dropFrames : BitVec 64} {m' : Memory} {alert : Bool}
    (hread : readStreamStats zeroMemory false
      (sameEach used rxFrames dropFrames) = some (m', alert)) (id : Nat) :
    (column (m'.streamStats id)).rxPktsCurr =
        (if id ∈ activeIds used then rxFrames else 0) ∧
      (column (m'.streamStats id)).dropCurr =
        if id ∈ activeIds used then dropFrames else 0 := by
  obtain ⟨hstreams, hrest, -, -, -⟩ :=
    (readStreamStats_iff (valid_sameEach htwo _ _)).mp hread
  rw [active_sameEach] at hstreams hrest
  by_cases hid : id ∈ activeIds used
  · obtain ⟨last, hlast⟩ := Nat.exists_eq_succ_of_ne_zero
      ((mem_activeIds used id).mp hid).2
    obtain ⟨-, hpkts, hdrops⟩ := (readStream_spec (hstreams id hid)).2 last hlast
    rw [if_pos hid, if_pos hid, column, hpkts, hdrops]
    exact ⟨BitVec.sub_zero rxFrames, BitVec.sub_zero dropFrames⟩
  · rw [if_neg hid, if_neg hid, hrest id hid]
    exact ⟨rfl, rfl⟩

/-- Numbers of 20 characters fill the buffers with 93 columns. -/
theorem length_le_of_reportsActive {formatRate : BitVec 64 → Text}
    {sys : SystemStats} {used : Nat → Nat} (htwo : ∀ id, used id ≤ 2)
    (hreports : ReportsActive formatRate sys used) :
    (activeIds used).length ≤ 93 := by
  have hvalid := valid_sameEach htwo 0 (BitVec.twoPow 64 63)
  have hreport := hreports zeroMemory _ hvalid (fun _ => rfl)
    (fillsDefined_sameEach used 0 _)
  obtain ⟨m', alert, -, hread, -, -⟩ := id hreport
  have hfits := (hreport.fits hvalid).2 _ ((expectedColumns_iff hvalid hread).mpr rfl)
    (fun c => formatInt 8 c.dropCurr.toInt) (by simp [cells])
  have hwidth : ∀ id ∈ activeIds used,
      (formatInt 8 (column (m'.streamStats id)).dropCurr.toInt).length + 2 = 22 := by
    intro id hid
    rw [(column_sameEach htwo hread id).2, if_pos hid]
    decide +kernel
  rw [active_sameEach, List.map_map] at hfits
  have hsame : ((activeIds used).map
      ((fun c => (formatInt 8 c.dropCurr.toInt).length + 2) ∘
        fun id => column (m'.streamStats id))) =
      List.replicate (activeIds used).length 22 := by
    rw [← List.map_const']
    exact List.map_congr_left hwidth
  rw [hsame, List.sum_replicate_nat] at hfits
  omega

/-- Only the column of an entry that was not read shows no packets. -/
theorem zero_mem_line {used : Nat → Nat} (htwo : ∀ id, used id ≤ 2)
    {m' : Memory} {alert : Bool}
    (hread : readStreamStats zeroMemory false (sameEach used 1 0) =
      some (m', alert)) (ids : List Nat) :
    '0' ∈ line (ids.map fun id =>
        formatInt 8 (column (m'.streamStats id)).rxPktsCurr.toInt) ↔
      ∃ id ∈ ids, id ∉ activeIds used := by
  rw [mem_line (by decide) (by decide)]
  simp only [List.mem_map, (column_sameEach htwo hread _).1]
  constructor
  · rintro ⟨text, ⟨id, hid, rfl⟩, hmem⟩
    refine ⟨id, hid, fun hactive => ?_⟩
    rw [if_pos hactive] at hmem
    exact absurd hmem (by decide +kernel)
  · rintro ⟨id, hid, hnot⟩
    refine ⟨_, ⟨id, hid, rfl⟩, ?_⟩
    rw [if_neg hnot]
    decide +kernel

/-- If the packets of streams with one packet each are reported, no entry that was
not read is printed. -/
theorem eq_range_of_reports {formatRate : BitVec 64 → Text}
    {sys : SystemStats} {used : Nat → Nat} (htwo : ∀ id, used id ≤ 2)
    (hfew : (activeIds used).length ≤ 93)
    (hreport : Reports formatRate sys zeroMemory (sameEach used 1 0)) :
    activeIds used = List.range (activeIds used).length := by
  have hvalid := valid_sameEach htwo 1 0
  obtain ⟨m', alert, -, hread, -, -⟩ := id hreport
  have hcount : m'.numStreams = (activeIds used).length :=
    ((readStreamStats_iff hvalid).mp hread).2.2.2.2
  let packets : Nat → Text := fun id =>
    formatInt 8 (column (m'.streamStats id)).rxPktsCurr.toInt
  -- nothing is cut from the line of the packets
  have hfits : (line ((List.range (activeIds used).length).map packets)).length <
      2048 := by
    rw [length_line]
    refine sum_columns_lt (fun text htext => ?_) (by simpa using hfew)
    obtain ⟨id, -, rfl⟩ := List.mem_map.mp htext
    exact length_formatInt_le _ (by decide)
  have hline : line ((List.range (activeIds used).length).map packets) =
      line ((activeIds used).map packets) := by
    rw [reports_iff hvalid hread, active_sameEach, columns, hcount] at hreport
    have hfirst := (List.cons.inj hreport).1
    simp only [List.map_map] at hfirst
    exact (snprintf_of_lt hfits).symm.trans hfirst
  have hsubset : List.range (activeIds used).length ⊆ activeIds used := by
    intro i hi
    by_contra hnot
    have hzero := (zero_mem_line htwo hread _).mpr ⟨i, hi, hnot⟩
    obtain ⟨id, hid, hinactive⟩ :=
      (zero_mem_line htwo hread (activeIds used)).mp (hline ▸ hzero)
    exact hinactive hid
  have hsorted : (activeIds used).Pairwise (· < ·) :=
    List.pairwise_lt_range.filter _
  have hperm : (List.range (activeIds used).length).Perm (activeIds used) :=
    (List.nodup_range.subperm hsubset).perm_of_length_le (by simp)
  exact (hperm.eq_of_pairwise (fun a b _ _ hab hba =>
    absurd hab (Nat.lt_asymm hba)) List.pairwise_lt_range hsorted).symm

/-- The report is right, whatever the counters, exactly when the ids are the numbers
from 0 on and there are at most 93 of them; and with such ids, for given counters,
exactly when they can be read and no line is too long for its buffer. -/
theorem reportsActive_iff (formatRate : BitVec 64 → Text)
    (hrate : ∀ x, (formatRate x).length ≤ 20) (sys : SystemStats)
    (used : Nat → Nat) (htwo : ∀ id, used id ≤ 2) :
    (ReportsActive formatRate sys used ↔
      activeIds used = List.range (activeIds used).length ∧
        (activeIds used).length ≤ 93) ∧
    (activeIds used = List.range (activeIds used).length →
      ∀ (m : Memory) (cur : Snapshot), cur.Valid →
        (∀ id, (cur.usage id).numHostBufferUsed = used id) →
          (Reports formatRate sys m cur ↔
            FillsDefined cur ∧ Fits formatRate m cur)) := by
  refine ⟨⟨fun hreports => ?_, ?_⟩, fun hrange m cur hvalid hused =>
    reports_iff_of_range hvalid (active_eq_activeIds hused ▸ hrange)⟩
  · have hfew := length_le_of_reportsActive htwo hreports
    exact ⟨eq_range_of_reports htwo hfew (hreports zeroMemory _
      (valid_sameEach htwo 1 0) (fun _ => rfl) (fillsDefined_sameEach used 1 0)),
      hfew⟩
  · rintro ⟨hrange, hfew⟩ m cur hvalid hused hfills
    refine (reports_iff_of_range hvalid
      (active_eq_activeIds hused ▸ hrange)).mpr ⟨hfills, ?_⟩
    intro cs hcs cell hcell
    have hcolumn : ∀ column ∈ cs.map cell, column.length ≤ 20 := by
      intro column hcolumn
      obtain ⟨c, -, rfl⟩ := List.mem_map.mp hcolumn
      exact length_cell_le hrate hcell c
    have hlength := congrArg List.length hcs
    rw [List.length_map, List.length_map, active_eq_activeIds hused] at hlength
    have hlt := sum_columns_lt hcolumn (by rw [List.length_map, hlength]; exact hfew)
    rw [List.map_map] at hlt
    exact hlt

/-- The rate that is printed for no bytes. -/
def noRate : BitVec 64 → Text := fun _ => "   0.000".toList

/-- Two streams with the ids 0 and 1. -/
theorem reportsActive_iff_two :
    Reports noRate ⟨[], [], []⟩ zeroMemory
      (sameEach (fun id => if id < 2 then 1 else 0) 1 0) :=
  ((reportsActive_iff noRate (fun _ => (by decide : 8 ≤ 20)) ⟨[], [], []⟩
    (fun id => if id < 2 then 1 else 0) fun id => by split <;> decide).1.mpr
      ⟨by decide +kernel, by decide +kernel⟩) zeroMemory _
    (valid_sameEach (fun id => by split <;> decide) 1 0) (fun _ => rfl)
    (fillsDefined_sameEach _ 1 0)

/-- The one stream with id 3 is not shown: the column is that of id 0. -/
theorem reportsActive_fails :
    (sameEach (fun id => if id = 3 then 1 else 0) 1 0).Valid ∧
      FillsDefined (sameEach (fun id => if id = 3 then 1 else 0) 1 0) ∧
      ¬ Reports noRate ⟨[], [], []⟩ zeroMemory
        (sameEach (fun id => if id = 3 then 1 else 0) 1 0) := by
  have htwo : ∀ id, (if id = 3 then 1 else 0) ≤ 2 := fun id => by split <;> decide
  refine ⟨valid_sameEach htwo 1 0, fillsDefined_sameEach _ 1 0, fun hreport => ?_⟩
  have hrange := eq_range_of_reports htwo (by decide +kernel) hreport
  exact absurd hrange (by decide +kernel)

end BufferProfile

end NtapiExamples
