/-
The line of comma separated values that `ntnetflow` prints.  The counters are
copied behind the elapsed time and printed from there, one field after the
other.
-/
import NtapiExamples.Lib.Decimal
import NtapiExamples.Lib.Snprintf
import NtapiExamples.Ntnetflow.FlowTable

namespace NtapiExamples

open Text

namespace Ntnetflow

/-- The number of the counters. -/
def STAT_END : Nat := 6

/-- The place of a counter in `stats`. -/
def Stat.entry : Stat → Nat
  | .learn => 0
  | .unlearn => 1
  | .refresh => 2
  | .probe => 3
  | .flow => 4
  | .queue => 5

/-- The state that is printed: `stats[i].count` for every index, with whatever
the memory behind the array holds from `STAT_END` on. -/
structure Stats where
  statsInterval : BitVec 64
  statsCount : BitVec 64
  count : Nat → BitVec 64

namespace Stats

/-- The elapsed milliseconds. -/
def ms (s : Stats) : BitVec 64 := s.statsInterval * (s.statsCount - 1)

/-- The elements of `stats` that the first loop reads. -/
def csvReads : List Nat := List.range' 1 STAT_END

/-- The array `csv` behind the first loop. -/
def csv (s : Stats) : List (BitVec 64) := s.ms :: csvReads.map s.count

end Stats

/-- What `"%lu%c"` prints. -/
def csvField (value : BitVec 64) (c : Char) : Text :=
  Nat.toDigits 10 value.toNat ++ [c]

/-- The fields the second loop prints. -/
def csvFields (csv : List (BitVec 64)) (lineEnding : Char) : List Text :=
  csv.zipIdx.map fun (value, i) =>
    csvField value (if i = csv.length - 1 then lineEnding else ' ')

/-- `stats_csv_snprintf`: the memory at `str` and the value that is returned. -/
def statsCsvSnprintf (s : Stats) (str : Nat → Char) (sz : Nat)
    (lineEnding : Char) : (Nat → Char) × Int :=
  printAll (csvFields s.csv lineEnding)
    { buffer := str, str := 0, sz := sz, total := 0 }

/-- `stats_csv_fprintf`: what `fputs` prints of its buffer. -/
def statsCsvFprintf (s : Stats) (buffer : Nat → Char) (lineEnding : Char) :
    Text :=
  cstr ((List.range 1024).map (statsCsvSnprintf s buffer 1024 lineEnding).1)

/-- A line of values: separated by spaces and closed by the line ending. -/
def csvLine (values : List (BitVec 64)) (lineEnding : Char) : Text :=
  [' '].intercalate (values.map fun value => Nat.toDigits 10 value.toNat) ++
    [lineEnding]

/-- What is written at `str` is a prefix of the line of at most `sz - 1`
characters, and the whole line when the value returned is less than `sz`. -/
structure PrintsLine (values : List (BitVec 64)) (str : Nat → Char) (sz : Nat)
    (lineEnding : Char) (r : (Nat → Char) × Int) : Prop where
  cut : ∃ s, s <+: csvLine values lineEnding ∧ s.length ≤ sz - 1 ∧
    r.1 = put str 0 (if sz = 0 then [] else s ++ ['\x00'])
  whole : r.2 < sz → r.1 = put str 0 (csvLine values lineEnding ++ ['\x00'])

/-- The elapsed milliseconds and the counts of all statistics. -/
def Stats.values (s : Stats) : List (BitVec 64) :=
  s.ms :: [.learn, .unlearn, .refresh, .probe, .flow, .queue].map
    fun stat : Stat => s.count stat.entry

/-- The values as they are copied: the first counter is left out, and what lies
behind the last one is taken for it. -/
def Stats.shifted (s : Stats) : List (BitVec 64) :=
  s.ms :: [.unlearn, .refresh, .probe, .flow, .queue].map
    (fun stat : Stat => s.count stat.entry) ++ [s.count STAT_END]

/-- The line is faithful: it is the line of all statistics, and no element
beyond the array is read. -/
structure CsvFaithful (s : Stats) (str : Nat → Char) (sz : Nat)
    (lineEnding : Char) : Prop where
  prints : PrintsLine s.values str sz lineEnding
    (statsCsvSnprintf s str sz lineEnding)
  reads : ∀ i ∈ Stats.csvReads, i < STAT_END

theorem csvLine_cons (value next : BitVec 64) (values : List (BitVec 64))
    (lineEnding : Char) :
    csvLine (value :: next :: values) lineEnding =
      Nat.toDigits 10 value.toNat ++ ' ' :: csvLine (next :: values) lineEnding := by
  simp [csvLine]

theorem csvLine_length_le (value : BitVec 64) (values : List (BitVec 64))
    (lineEnding : Char) :
    (csvLine (value :: values) lineEnding).length ≤
      21 * (value :: values).length := by
  have hdigits : ∀ v : BitVec 64, (Nat.toDigits 10 v.toNat).length ≤ 20 :=
    fun v => (Nat.length_toDigits_le_iff (by decide) (by decide)).mpr
      (Nat.lt_trans v.isLt (by decide))
  induction values generalizing value with
  | nil =>
      have hvalue := hdigits value
      simp [csvLine]
      omega
  | cons next values ih =>
      have hvalue := hdigits value
      have hrest := ih next
      rw [csvLine_cons, List.length_append, List.length_cons, List.length_cons]
      omega

theorem csvLine_terminator (value : BitVec 64) (values : List (BitVec 64))
    {lineEnding : Char} (hending : lineEnding ≠ '\x00') :
    '\x00' ∉ csvLine (value :: values) lineEnding := by
  have hdigits : ∀ v : BitVec 64, '\x00' ∉ Nat.toDigits 10 v.toNat :=
    fun v => not_mem_toDigits (by decide) v.toNat
  induction values generalizing value with
  | nil => simp [csvLine, hdigits value, Ne.symm hending]
  | cons next values ih =>
      have hspace : '\x00' ≠ ' ' := by decide
      simp [csvLine_cons, hdigits value, ih next, hspace]

theorem csv_eq (s : Stats) : s.csv = s.shifted := rfl

theorem flatten_csvFields_from (value : BitVec 64) (values : List (BitVec 64))
    (lineEnding : Char) (k last : Nat) (hlast : last = k + values.length) :
    (((value :: values).zipIdx k).map fun p =>
      csvField p.1 (if p.2 = last then lineEnding else ' ')).flatten =
        csvLine (value :: values) lineEnding := by
  induction values generalizing value k with
  | nil =>
      rw [hlast]
      simp [csvLine, csvField]
  | cons next values ih =>
      have hrest := ih next (k + 1) (by
        rw [hlast, List.length_cons, Nat.add_assoc, Nat.add_comm 1])
      have hmore : k ≠ last := by
        rw [hlast, List.length_cons]
        omega
      rw [List.zipIdx_cons, List.map_cons, List.flatten_cons, hrest]
      simp [csvLine, csvField, hmore]

/-- The fields in a row are the line. -/
theorem flatten_csvFields (value : BitVec 64) (values : List (BitVec 64))
    (lineEnding : Char) :
    (csvFields (value :: values) lineEnding).flatten =
      csvLine (value :: values) lineEnding :=
  flatten_csvFields_from value values lineEnding 0 _ (by simp)

section Prints

variable (s : Stats) (str : Nat → Char) (sz : Nat) (lineEnding : Char)

/-- The second loop as one call. -/
theorem statsCsvSnprintf_spec :
    (statsCsvSnprintf s str sz lineEnding).1 =
        put str 0 (terminated sz (csvLine s.csv lineEnding)) ∧
      (sz ≤ (csvLine s.csv lineEnding).length →
        sz ≤ (statsCsvSnprintf s str sz lineEnding).2) := by
  have hline : (csvFields s.csv lineEnding).flatten =
      csvLine s.csv lineEnding := flatten_csvFields _ _ _
  obtain ⟨first, rest, hfields⟩ : ∃ first rest,
      csvFields s.csv lineEnding = first :: rest := ⟨_, _, rfl⟩
  obtain ⟨hput, -, hcut⟩ := printAll_spec first rest
    { buffer := str, str := 0, sz := sz, total := 0 }
  rw [← hfields, hline] at hput hcut
  refine ⟨hput, fun hfull => ?_⟩
  have hle := hcut hfull
  rw [Int.zero_add] at hle
  exact hle

/-- The second loop prints the line of the values that were copied. -/
theorem printsLine_csv :
    PrintsLine s.csv str sz lineEnding
      (statsCsvSnprintf s str sz lineEnding) := by
  obtain ⟨hput, hfull⟩ := statsCsvSnprintf_spec s str sz lineEnding
  constructor
  case cut =>
    exact ⟨(csvLine s.csv lineEnding).take (sz - 1), List.take_prefix _ _,
      List.length_take_le _ _, hput⟩
  case whole =>
    intro hret
    have hfits : (csvLine s.csv lineEnding).length < sz := by
      by_contra hlong
      exact absurd (hfull (Nat.le_of_not_lt hlong)) (Int.not_le.mpr hret)
    rw [hput, terminated_of_lt hfits]

/-- The buffer of `stats_csv_fprintf` holds every line. -/
theorem statsCsvFprintf_eq (hending : lineEnding ≠ '\x00') :
    statsCsvFprintf s str lineEnding = csvLine s.csv lineEnding := by
  have hlength : (csvLine s.csv lineEnding).length ≤ 21 * 7 :=
    csvLine_length_le _ _ _
  have hfits : (csvLine s.csv lineEnding).length < 1024 :=
    Nat.lt_of_le_of_lt hlength (by decide)
  rw [statsCsvFprintf, (statsCsvSnprintf_spec s str 1024 lineEnding).1,
    terminated_of_lt hfits]
  exact cstr_put (csvLine_terminator _ _ hending) hfits

end Prints

/-- The first counter is 1 and the others are 0. -/
def oneLearned : Stats where
  statsInterval := 1000
  statsCount := 1
  count := fun i => if i = 0 then 1 else 0

/-- One learned flow is not in the line, and an element beyond the array is
read. -/
theorem oneLearned_unfaithful :
    ¬ PrintsLine oneLearned.values (fun _ => '?') 1024 '\n'
        (statsCsvSnprintf oneLearned (fun _ => '?') 1024 '\n') ∧
      ¬ CsvFaithful oneLearned (fun _ => '?') 1024 '\n' := by
  have hprints : ¬ PrintsLine oneLearned.values (fun _ => '?') 1024 '\n'
      (statsCsvSnprintf oneLearned (fun _ => '?') 1024 '\n') := by
    intro hline
    have hret : (statsCsvSnprintf oneLearned (fun _ => '?') 1024 '\n').2 <
        1024 := by decide
    have hsecond := congrFun (hline.whole hret) 2
    revert hsecond
    decide
  exact ⟨hprints, fun hfaithful => hprints hfaithful.prints⟩

/-- The line is faithful for no state of the counters, no buffer size and no
line ending: the loop that copies the counters starts one entry late and reads
the element behind the array.  What is printed is the line of these values. -/
theorem csv_unfaithful (s : Stats) (str : Nat → Char) (sz : Nat)
    (lineEnding : Char) :
    ¬ CsvFaithful s str sz lineEnding ∧ STAT_END ∈ Stats.csvReads ∧
      PrintsLine s.shifted str sz lineEnding
        (statsCsvSnprintf s str sz lineEnding) := by
  have hread : STAT_END ∈ Stats.csvReads := by decide
  refine ⟨fun hfaithful => ?_, hread, ?_⟩
  · exact Nat.lt_irrefl _ (hfaithful.reads _ hread)
  · rw [← csv_eq]
    exact printsLine_csv s str sz lineEnding

end Ntnetflow

end NtapiExamples
