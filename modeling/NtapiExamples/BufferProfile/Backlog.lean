/-
`CBacklog` of `bufferProfile`: a ring of the last five entries, of which those
not printed yet are printed while there is an alert and once more after it.
-/
import NtapiExamples.Lib.Text
import Mathlib.Data.List.Nodup
import Mathlib.Logic.Function.Basic

namespace NtapiExamples

namespace BufferProfile

def NUM_ENTRIES : Nat := 5

/-- The texts of an entry. -/
structure Entry where
  time : Text
  rxMbpsStr : Text
  numStreams : Text
  pktsStr : Text
  pktsRateStr : Text
  dropStr : Text
  hbFillStr : Text
  obFillStr : Text
  utilString : Text

/-- What is printed into the file. -/
inductive Printed where
  | entry (e : Entry)
  | endDelimiter

/-- `CBacklog`, with what was printed into the file, when there is one, and on
the terminal. -/
structure CBacklog where
  processed : Nat → Bool
  entries : Nat → Entry
  currPos : Nat
  file : Option (List Printed)
  stdout : List Entry

namespace CBacklog

variable (b : CBacklog)

/-- `addEntry`. -/
def addEntry (e : Entry) : CBacklog :=
  { b with
    processed := Function.update b.processed b.currPos false
    entries := Function.update b.entries b.currPos e
    currPos := (b.currPos + 1) % NUM_ENTRIES }

/-- The body of the loop of `output`. -/
def visit (pos : Nat) : CBacklog :=
  if b.processed pos then b
  else
    { b with
      processed := Function.update b.processed pos true
      file := b.file.map (· ++ [.entry (b.entries pos)])
      stdout := b.stdout ++ [b.entries pos] }

/-- The loop of `output`, from a position on. -/
def outputLoop : Nat → Nat → CBacklog → CBacklog
  | 0, _, b => b
  | n + 1, pos, b => outputLoop n ((pos + 1) % NUM_ENTRIES) (b.visit pos)

/-- `output`; `none` when it prints into a file that is not there. -/
def output (endDelimiter : Bool) : Option CBacklog :=
  let b := outputLoop (NUM_ENTRIES + 1) b.currPos b
  if endDelimiter then
    b.file.map fun file => { b with file := some (file ++ [.endDelimiter]) }
  else some b

end CBacklog

/-- The backlog and `prevAlert` of `outputStats`. -/
structure Output where
  backlog : CBacklog
  prevAlert : Bool

/-- What `outputStats` does with the entry it has built. -/
def outputEntry (s : Output) (e : Entry) (alert : Bool) : Option Output :=
  let backlog := s.backlog.addEntry e
  if alert || s.prevAlert then
    (backlog.output (s.prevAlert && !alert)).map fun backlog =>
      ⟨backlog, alert⟩
  else some ⟨backlog, alert⟩

/-- The program after its start: nothing to print. -/
def outputStart (entries : Nat → Entry) (file : Option (List Printed)) :
    Output where
  backlog :=
    { processed := fun _ => true
      entries := entries
      currPos := 0
      file := file
      stdout := [] }
  prevAlert := false

/-- The first `n` steps for a sequence of entries and alert flags. -/
def outputRun (entry : Nat → Entry) (alert : Nat → Bool) (s : Output) :
    Nat → Option Output
  | 0 => some s
  | n + 1 =>
      (outputRun entry alert s n).bind fun s =>
        outputEntry s (entry n) (alert n)

/-- The entries in the file. -/
def fileEntries (file : List Printed) : List Entry :=
  file.filterMap fun p =>
    match p with
    | .entry e => some e
    | .endDelimiter => none

namespace CBacklog

theorem outputLoop_eq_foldl (n pos : Nat) (b : CBacklog)
    (hpos : pos < NUM_ENTRIES) :
    outputLoop n pos b =
      ((List.range n).map fun k => (pos + k) % NUM_ENTRIES).foldl visit b := by
  induction n generalizing pos b with
  | zero => rfl
  | succ n ih =>
      have hfirst : (pos + 0) % NUM_ENTRIES = pos := Nat.mod_eq_of_lt hpos
      rw [outputLoop, ih _ _ (Nat.mod_lt _ (by decide)), List.range_succ_eq_map,
        List.map_cons, List.foldl_cons, List.map_map, hfirst]
      congr 1
      apply List.map_congr_left
      intro k _
      rw [Function.comp_apply, Nat.mod_add_mod]
      congr 1
      omega

/-- What a round over some positions prints and marks. -/
structure Visited (b b' : CBacklog) (ps : List Nat) : Prop where
  processed : ∀ p, b'.processed p = (b.processed p || decide (p ∈ ps))
  entries : b'.entries = b.entries
  currPos : b'.currPos = b.currPos
  stdout : b'.stdout = b.stdout ++
    (ps.filter fun p => !b.processed p).map b.entries
  file : b'.file = b.file.map (· ++
    (ps.filter fun p => !b.processed p).map fun p => .entry (b.entries p))

theorem visited_visit (b : CBacklog) (p : Nat) : Visited b (b.visit p) [p] := by
  unfold visit
  cases hp : b.processed p with
  | true =>
      refine ⟨fun q => ?_, rfl, rfl, by simp [hp], by simp [hp]⟩
      by_cases hq : q = p
      · simp [hq, hp]
      · simp [hq]
  | false =>
      refine ⟨fun q => ?_, rfl, rfl, by simp [hp], by simp [hp]⟩
      by_cases hq : q = p
      · simp [hq]
      · simp [hq]

/-- A round over different positions prints what is not marked there, in the
order of the positions. -/
theorem visited_foldl (b : CBacklog) {ps : List Nat} (hnodup : ps.Nodup) :
    Visited b (ps.foldl visit b) ps := by
  induction ps generalizing b with
  | nil => exact ⟨fun p => by simp, rfl, rfl, by simp, by simp⟩
  | cons p ps ih =>
      obtain ⟨hp, hps⟩ := List.nodup_cons.mp hnodup
      have hfirst := visited_visit b p
      have hrest := ih (b.visit p) hps
      -- the marks at the other positions are still those from before
      have hfilter : (ps.filter fun q => !(b.visit p).processed q) =
          ps.filter fun q => !b.processed q := by
        apply List.filter_congr
        intro q hq
        have hne : q ≠ p := fun h => hp (h ▸ hq)
        rw [hfirst.processed q]
        simp [hne]
      have hsplit : ((p :: ps).filter fun q => !b.processed q) =
          ([p].filter fun q => !b.processed q) ++
            ps.filter fun q => !b.processed q := by
        rw [← List.filter_append]
        rfl
      refine ⟨fun q => ?_, ?_, ?_, ?_, ?_⟩
      · rw [List.foldl_cons, hrest.processed q, hfirst.processed q,
          Bool.or_assoc]
        simp
      · rw [List.foldl_cons, hrest.entries, hfirst.entries]
      · rw [List.foldl_cons, hrest.currPos, hfirst.currPos]
      · rw [List.foldl_cons, hrest.stdout, hfilter, hfirst.stdout,
          hfirst.entries, hsplit, List.map_append, List.append_assoc]
      · rw [List.foldl_cons, hrest.file, hfilter, hfirst.file, hfirst.entries,
          hsplit, List.map_append, Option.map_map]
        congr 1
        funext file
        simp only [Function.comp_apply, List.append_assoc]

/-- The positions of the ring from one on. -/
def round (pos : Nat) : List Nat :=
  (List.range NUM_ENTRIES).map fun k => (pos + k) % NUM_ENTRIES

theorem nodup_round (pos : Nat) : (round pos).Nodup := by
  rw [round, List.nodup_map_iff_inj_on List.nodup_range]
  intro i hi j hj heq
  rw [List.mem_range] at hi hj
  simp only [NUM_ENTRIES] at hi hj heq
  omega

theorem mem_round (pos : Nat) {p : Nat} (hp : p < NUM_ENTRIES) :
    p ∈ round pos := by
  rw [round, List.mem_map]
  refine ⟨(p + NUM_ENTRIES - pos % NUM_ENTRIES) % NUM_ENTRIES, ?_, ?_⟩
  · exact List.mem_range.mpr (Nat.mod_lt _ (by decide))
  · simp only [NUM_ENTRIES] at hp ⊢
    omega

/-- The loop visits each position once, and the first one again. -/
theorem visited_outputLoop (b : CBacklog) (hpos : b.currPos < NUM_ENTRIES) :
    Visited b (outputLoop (NUM_ENTRIES + 1) b.currPos b) (round b.currPos) := by
  have hround := visited_foldl b (nodup_round b.currPos)
  have hagain : (b.currPos + NUM_ENTRIES) % NUM_ENTRIES = b.currPos := by
    rw [Nat.add_mod_right, Nat.mod_eq_of_lt hpos]
  have hmarked : ((round b.currPos).foldl visit b).processed b.currPos =
      true := by
    rw [hround.processed, decide_eq_true (mem_round _ hpos), Bool.or_true]
  rw [outputLoop_eq_foldl _ _ _ hpos, List.range_succ, List.map_append,
    List.foldl_append, List.map_singleton, List.foldl_cons, List.foldl_nil,
    hagain]
  have hlast : ((round b.currPos).foldl visit b).visit b.currPos =
      (round b.currPos).foldl visit b := by
    rw [visit, if_pos hmarked]
  rw [round] at hlast hround
  rw [hlast]
  exact hround

end CBacklog

end BufferProfile

end NtapiExamples
