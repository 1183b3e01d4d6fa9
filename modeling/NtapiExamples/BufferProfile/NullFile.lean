/-
The file of `bufferProfile` over a run.  Without `-f`, and when the file cannot
be opened, the program prints on the terminal alone; the delimiter behind an
alert goes into the file without the check that the entries have.
-/
import NtapiExamples.BufferProfile.Backlog

namespace NtapiExamples

namespace BufferProfile

/-- The command line options: the file name, to run as a daemon, and to print
all entries. -/
structure Options where
  filename : Option Text
  daemon : Bool
  continuous : Bool

/-- `CBacklog::initialize`: the file, and whether there is one.  `fopen` says
which files can be opened. -/
def initializeFile (fopen : Text → Bool) (filename : Text) :
    Option (List Printed) × Bool :=
  let file : Option (List Printed) :=
    if 0 < filename.length then
      if fopen filename then some [] else none
    else none
  (file, file.isSome)

/-- `main` up to its loop; `none` when it exits with the usage text. -/
def mainStart (fopen : Text → Bool) (entries : Nat → Entry) (o : Options) :
    Option Output :=
  match o.filename, o.daemon with
  | some filename, _ =>
      some (outputStart entries (initializeFile fopen filename).1)
  | none, false => some (outputStart entries (initializeFile fopen []).1)
  | none, true => none

/-- The flag that `main` gives to `outputStats`. -/
def Options.flag (o : Options) (alert : Nat → Bool) (n : Nat) : Bool :=
  o.continuous || alert n

/-- In the first `n` steps of a run nothing is printed into a file that is not
there. -/
def FileIsThere (fopen : Text → Bool) (entries : Nat → Entry) (o : Options)
    (entry : Nat → Entry) (alert : Nat → Bool) (n : Nat) : Prop :=
  ∀ s, mainStart fopen entries o = some s →
    (outputRun entry (o.flag alert) s n).isSome = true

/-- The file was given and could be opened. -/
def Options.Opens (o : Options) (fopen : Text → Bool) : Prop :=
  ∃ filename, o.filename = some filename ∧ 0 < filename.length ∧
    fopen filename = true

section Step

variable {b : CBacklog} {s s' : Output} {e : Entry}

@[simp] theorem visit_file_isSome (b : CBacklog) (pos : Nat) :
    (b.visit pos).file.isSome = b.file.isSome := by
  unfold CBacklog.visit
  split
  case isTrue => rfl
  case isFalse => exact Option.isSome_map

@[simp] theorem outputLoop_file_isSome (n pos : Nat) (b : CBacklog) :
    (CBacklog.outputLoop n pos b).file.isSome = b.file.isSome := by
  induction n generalizing pos b with
  | zero => rfl
  | succ n ih => rw [CBacklog.outputLoop, ih, visit_file_isSome]

/-- The delimiter is what needs the file. -/
theorem output_isSome (b : CBacklog) (endDelimiter : Bool) :
    (b.output endDelimiter).isSome = (!endDelimiter || b.file.isSome) := by
  cases endDelimiter with
  | false => rfl
  | true =>
      show (Option.map _ _).isSome = _
      rw [Option.isSome_map, outputLoop_file_isSome]
      rfl

theorem output_file_isSome {b b' : CBacklog} {endDelimiter : Bool}
    (hout : b.output endDelimiter = some b') :
    b'.file.isSome = b.file.isSome := by
  cases endDelimiter with
  | false =>
      cases hout
      exact outputLoop_file_isSome _ _ b
  | true =>
      have hthere := output_isSome b true
      rw [hout] at hthere
      obtain ⟨file, _, rfl⟩ := Option.map_eq_some_iff.mp hout
      exact hthere

/-- A step needs the file when an alert ends with it. -/
theorem outputEntry_isSome (s : Output) (e : Entry) (alert : Bool) :
    (outputEntry s e alert).isSome = true ↔
      (s.prevAlert = true → alert = false → s.backlog.file.isSome = true) := by
  unfold outputEntry
  cases alert with
  | true => simp [output_isSome]
  | false =>
      cases hprev : s.prevAlert with
      | true => simp [output_isSome, CBacklog.addEntry]
      | false => simp

theorem outputEntry_spec {alert : Bool}
    (hstep : outputEntry s e alert = some s') :
    s'.prevAlert = alert ∧
      s'.backlog.file.isSome = s.backlog.file.isSome := by
  simp only [outputEntry] at hstep
  split at hstep
  case isTrue =>
    obtain ⟨b, hb, heq⟩ := Option.map_eq_some_iff.mp hstep
    have hfile := output_file_isSome hb
    rw [← heq]
    exact ⟨rfl, hfile⟩
  case isFalse =>
    rw [Option.some.injEq] at hstep
    rw [← hstep]
    exact ⟨rfl, rfl⟩

end Step

section Run

variable {entry : Nat → Entry} {flag : Nat → Bool} {s s' : Output}

/-- What is left of a run for the next step: the last flag and the file. -/
theorem outputRun_spec {n : Nat} (hprev : s.prevAlert = false)
    (hrun : outputRun entry flag s n = some s') :
    (s'.prevAlert = true ↔ ∃ k, k + 1 = n ∧ flag k = true) ∧
      s'.backlog.file.isSome = s.backlog.file.isSome := by
  induction n generalizing s' with
  | zero =>
      cases hrun
      simp [hprev]
  | succ n ih =>
      obtain ⟨mid, hmid, hstep⟩ := Option.bind_eq_some_iff.mp hrun
      obtain ⟨hflag, hfile⟩ := outputEntry_spec hstep
      rw [hflag, hfile]
      exact ⟨by simp, (ih hmid).2⟩

/-- No alert ends within the first `n` steps. -/
def NoAlertEnds (flag : Nat → Bool) (n : Nat) : Prop :=
  ∀ k, k + 1 < n → flag k = true → flag (k + 1) = true

theorem noAlertEnds_succ_iff (n : Nat) :
    NoAlertEnds flag (n + 1) ↔ NoAlertEnds flag n ∧
      ∀ k, k + 1 = n → flag k = true → flag n = true := by
  constructor
  · intro hall
    refine ⟨fun k hk => hall k (Nat.lt_succ_of_lt hk), fun k hk => ?_⟩
    rw [← hk]
    exact hall k (by omega)
  · rintro ⟨hall, hlast⟩ k hk
    rcases Nat.lt_or_eq_of_le (Nat.le_of_lt_succ hk) with hlt | heq
    · exact hall k hlt
    · rw [heq]
      exact hlast k heq

/-- A run needs the file when an alert ends within it. -/
theorem outputRun_isSome_iff (hprev : s.prevAlert = false) (n : Nat) :
    (outputRun entry flag s n).isSome = true ↔
      s.backlog.file.isSome = true ∨ NoAlertEnds flag n := by
  induction n with
  | zero =>
      have hnone : NoAlertEnds flag 0 := fun k hk => absurd hk (Nat.not_lt_zero _)
      simp [outputRun, hnone]
  | succ n ih =>
      rw [outputRun, noAlertEnds_succ_iff]
      cases hrun : outputRun entry flag s n with
      | none =>
          rw [hrun] at ih
          have hneither := mt ih.mpr Bool.false_ne_true
          rw [not_or] at hneither
          simp [hneither.1, hneither.2]
      | some mid =>
          rw [hrun] at ih
          obtain ⟨hflag, hfile⟩ := outputRun_spec hprev hrun
          have hbefore := ih.mp rfl
          rw [Option.bind_some, outputEntry_isSome, hflag, hfile]
          constructor
          · intro hneeds
            rcases hbefore with hthere | hnone
            · exact Or.inl hthere
            · by_cases hthere : s.backlog.file.isSome = true
              · exact Or.inl hthere
              · refine Or.inr ⟨hnone, fun k hk hon => ?_⟩
                by_contra hoff
                exact hthere (hneeds ⟨k, hk, hon⟩ (Bool.eq_false_iff.mpr hoff))
          · rintro (hthere | ⟨-, hlast⟩) ⟨k, hk, hon⟩ hoff
            · exact hthere
            · rw [hlast k hk hon] at hoff
              cases hoff

end Run

section Start

variable {fopen : Text → Bool} {entries : Nat → Entry} {o : Options}
variable {s : Output}

theorem mainStart_spec (hstart : mainStart fopen entries o = some s) :
    s.prevAlert = false ∧
      (s.backlog.file.isSome = true ↔ o.Opens fopen) := by
  unfold mainStart at hstart
  unfold Options.Opens
  cases hname : o.filename with
  | none =>
      rw [hname] at hstart
      cases hdaemon : o.daemon with
      | true =>
          rw [hdaemon] at hstart
          cases hstart
      | false =>
          rw [hdaemon] at hstart
          cases hstart
          exact ⟨rfl, by simp [outputStart, initializeFile]⟩
  | some filename =>
      rw [hname] at hstart
      cases hstart
      refine ⟨rfl, ?_⟩
      simp only [outputStart, initializeFile, Option.some.injEq,
        exists_eq_left']
      by_cases hlength : 0 < filename.length
      · by_cases hopen : fopen filename = true
        · simp [hlength, hopen]
        · simp [hlength, hopen]
      · simp [hlength]

theorem mainStart_eq_none_iff :
    mainStart fopen entries o = none ↔
      o.filename = none ∧ o.daemon = true := by
  unfold mainStart
  cases o.filename with
  | none =>
      cases o.daemon with
      | true => simp
      | false => simp
  | some filename => simp

end Start

/-- Started without options. -/
def noOptions : Options where
  filename := none
  daemon := false
  continuous := false

/-- The first step has an alert and the second has none. -/
theorem fileIsThere_fails :
    ¬ ∀ (entries entry : Nat → Entry),
      FileIsThere (fun _ => true) entries noOptions entry (fun n => n == 0) 2 := by
  intro hthere
  have hentry : Entry := ⟨[], [], [], [], [], [], [], [], []⟩
  have hrun := hthere (fun _ => hentry) (fun _ => hentry) _ rfl
  rw [outputRun_isSome_iff rfl] at hrun
  rcases hrun with hfile | hnone
  · cases hfile
  · exact absurd (hnone 0 (by decide) rfl) (by decide)

/-- A run of `n` steps prints into a file that is there exactly when the program
ended with the usage text, the file was opened, or no alert ends within these
steps. -/
theorem fileIsThere_iff (fopen : Text → Bool) (entries : Nat → Entry)
    (o : Options) (entry : Nat → Entry) (alert : Nat → Bool) (n : Nat) :
    FileIsThere fopen entries o entry alert n ↔
      (o.filename = none ∧ o.daemon = true) ∨ o.Opens fopen ∨
        NoAlertEnds (o.flag alert) n := by
  rw [← @mainStart_eq_none_iff fopen entries]
  unfold FileIsThere
  cases hstart : mainStart fopen entries o with
  | none => simp
  | some s =>
      obtain ⟨hprev, hfile⟩ := mainStart_spec hstart
      simp [outputRun_isSome_iff hprev, hfile]

end BufferProfile

end NtapiExamples
