/-
The entries that are printed over a whole run: those within five steps of an
alert, each once and in order.
-/
import NtapiExamples.BufferProfile.Backlog

namespace NtapiExamples

namespace BufferProfile

section Runs

variable (entry : Nat → Entry) (alert : Nat → Bool)

/-- Within the first `n` steps there was an alert from the step before entry `i`
to four steps after it. -/
def NearAlert (n i : Nat) : Prop :=
  ∃ s, s < n ∧ i ≤ s + 1 ∧ s ≤ i + 4 ∧ alert s = true

/-- The first `n` entries are in place: the ring holds the last five of them,
and marked and printed are those near an alert. -/
structure BacklogInv (n : Nat) (s : Output) : Prop where
  currPos : s.backlog.currPos = n % NUM_ENTRIES
  entries : ∀ i, i < n → n ≤ i + 5 →
    s.backlog.entries (i % NUM_ENTRIES) = entry i
  processed : ∀ i, i < n → n ≤ i + 5 →
    (s.backlog.processed (i % NUM_ENTRIES) = true ↔ NearAlert alert n i)
  unfilled : ∀ k, n ≤ k → k < NUM_ENTRIES → s.backlog.processed k = true
  prevAlert : s.prevAlert = true ↔ ∃ m, n = m + 1 ∧ alert m = true
  printed : ∃ idx : List Nat, idx.Pairwise (· < ·) ∧
    (∀ i, i ∈ idx ↔ i < n ∧ NearAlert alert n i) ∧
    s.backlog.stdout = idx.map entry ∧
    ∃ file, s.backlog.file = some file ∧ fileEntries file = idx.map entry

theorem backlogInv_start (entries : Nat → Entry) :
    BacklogInv entry alert 0 (outputStart entries (some [])) where
  currPos := rfl
  entries := fun _ h => absurd h (Nat.not_lt_zero _)
  processed := fun _ h => absurd h (Nat.not_lt_zero _)
  unfilled := fun _ _ _ => rfl
  prevAlert := by simp [outputStart]
  printed := ⟨[], List.Pairwise.nil, by simp, rfl, [], rfl, rfl⟩

variable {entry alert} {n : Nat} {s : Output}

/-- The ring with the new entry in it. -/
theorem addEntry_entries (hinv : BacklogInv entry alert n s) {i : Nat}
    (hi : i ≤ n) (hlast : n ≤ i + 4) :
    (s.backlog.addEntry (entry n)).entries (i % NUM_ENTRIES) = entry i := by
  simp only [CBacklog.addEntry, hinv.currPos]
  by_cases hin : i = n
  · rw [hin, Function.update_self]
  · rw [Function.update_of_ne (by simp only [NUM_ENTRIES]; omega)]
    exact hinv.entries i (by omega) (by omega)

theorem addEntry_processed (hinv : BacklogInv entry alert n s) {i : Nat}
    (hi : i ≤ n) (hlast : n ≤ i + 4) :
    (s.backlog.addEntry (entry n)).processed (i % NUM_ENTRIES) = true ↔
      i < n ∧ NearAlert alert n i := by
  simp only [CBacklog.addEntry, hinv.currPos]
  by_cases hin : i = n
  · rw [hin, Function.update_self]
    simp
  · rw [Function.update_of_ne (by simp only [NUM_ENTRIES]; omega),
      hinv.processed i (by omega) (by omega)]
    exact (and_iff_right (by omega)).symm

theorem addEntry_unfilled (hinv : BacklogInv entry alert n s) {k : Nat}
    (hk : n + 1 ≤ k) (hlt : k < NUM_ENTRIES) :
    (s.backlog.addEntry (entry n)).processed k = true := by
  simp only [CBacklog.addEntry, hinv.currPos]
  rw [Function.update_of_ne (by simp only [NUM_ENTRIES] at hlt ⊢; omega)]
  exact hinv.unfilled k (by omega) hlt

theorem nearAlert_mono {i : Nat} (hnear : NearAlert alert n i) :
    NearAlert alert (n + 1) i := by
  obtain ⟨t, ht, hrest⟩ := hnear
  exact ⟨t, by omega, hrest⟩

/-- Without an alert in this step or the one before, nothing new is near one. -/
theorem nearAlert_quiet (hquiet : alert n = false)
    (hbefore : ∀ m, n = m + 1 → alert m = false) {i : Nat} (hi : i ≤ n) :
    NearAlert alert (n + 1) i ↔ i < n ∧ NearAlert alert n i := by
  constructor
  · rintro ⟨t, ht, hlow, hhigh, halert⟩
    have htn : t ≠ n := by
      rintro rfl
      rw [hquiet] at halert
      exact Bool.noConfusion halert
    have hin : i ≠ n := by
      rintro rfl
      have hprev := hbefore t (by omega)
      rw [hprev] at halert
      exact Bool.noConfusion halert
    exact ⟨by omega, t, by omega, hlow, hhigh, halert⟩
  · rintro ⟨-, hnear⟩
    exact nearAlert_mono hnear

/-- With one, the last five entries are. -/
theorem nearAlert_loud
    (hloud : alert n = true ∨ ∃ m, n = m + 1 ∧ alert m = true) {i : Nat}
    (hi : i ≤ n) :
    NearAlert alert (n + 1) i ↔ i < n ∧ NearAlert alert n i ∨ n ≤ i + 4 := by
  constructor
  · rintro ⟨t, ht, hlow, hhigh, halert⟩
    by_cases hlast : n ≤ i + 4
    · exact Or.inr hlast
    · exact Or.inl ⟨by omega, t, by omega, hlow, hhigh, halert⟩
  · rintro (⟨-, hnear⟩ | hlast)
    · exact nearAlert_mono hnear
    · rcases hloud with halert | ⟨m, rfl, halert⟩
      · exact ⟨n, by omega, by omega, hlast, halert⟩
      · exact ⟨m, by omega, by omega, by omega, halert⟩

/-- The entries the round prints, as numbers: slot `n + 1 + k` of the ring holds
the entry five steps before. -/
def newPrints (n : Nat) (b : CBacklog) : List Nat :=
  ((List.range NUM_ENTRIES).filter fun k =>
    !b.processed ((n + 1 + k) % NUM_ENTRIES)).map fun k =>
      n + 1 + k - NUM_ENTRIES

/-- A slot that is not marked is filled. -/
theorem filled_of_unprocessed (hinv : BacklogInv entry alert n s) {k : Nat}
    (_ : k < NUM_ENTRIES)
    (hslot : (s.backlog.addEntry (entry n)).processed
      ((n + 1 + k) % NUM_ENTRIES) = false) : NUM_ENTRIES ≤ n + 1 + k := by
  by_contra hlt
  rw [Nat.mod_eq_of_lt (by omega), addEntry_unfilled hinv (by omega)
    (by omega)] at hslot
  exact Bool.noConfusion hslot

theorem slot_eq {k : Nat} (hfilled : NUM_ENTRIES ≤ n + 1 + k) :
    (n + 1 + k) % NUM_ENTRIES = (n + 1 + k - NUM_ENTRIES) % NUM_ENTRIES := by
  simp only [NUM_ENTRIES] at hfilled ⊢
  omega

theorem mem_newPrints (hinv : BacklogInv entry alert n s) (i : Nat) :
    i ∈ newPrints n (s.backlog.addEntry (entry n)) ↔
      i ≤ n ∧ n ≤ i + 4 ∧ ¬ (i < n ∧ NearAlert alert n i) := by
  simp only [newPrints, List.mem_map, List.mem_filter, List.mem_range,
    Bool.not_eq_true']
  constructor
  · rintro ⟨k, ⟨hk, hslot⟩, rfl⟩
    have hfilled := filled_of_unprocessed hinv hk hslot
    rw [slot_eq hfilled] at hslot
    simp only [NUM_ENTRIES] at hk hfilled hslot ⊢
    refine ⟨by omega, by omega, ?_⟩
    rw [← addEntry_processed hinv (by omega) (by omega), Bool.not_eq_true]
    exact hslot
  · rintro ⟨hi, hlast, hnot⟩
    refine ⟨i + NUM_ENTRIES - (n + 1), ⟨?_, ?_⟩, ?_⟩
    · simp only [NUM_ENTRIES]
      omega
    · have hslot : (n + 1 + (i + NUM_ENTRIES - (n + 1))) % NUM_ENTRIES =
          i % NUM_ENTRIES := by
        simp only [NUM_ENTRIES]
        omega
      rw [hslot, ← Bool.not_eq_true, addEntry_processed hinv hi hlast]
      exact hnot
    · simp only [NUM_ENTRIES]
      omega

theorem pairwise_newPrints (hinv : BacklogInv entry alert n s) :
    (newPrints n (s.backlog.addEntry (entry n))).Pairwise (· < ·) := by
  rw [newPrints, List.pairwise_map]
  refine (List.pairwise_lt_range.filter _).imp_of_mem ?_
  intro k l hk hl hlt
  rw [List.mem_filter, List.mem_range, Bool.not_eq_true'] at hk hl
  have hk' := filled_of_unprocessed hinv hk.1 hk.2
  have hl' := filled_of_unprocessed hinv hl.1 hl.2
  omega

/-- What the round prints are the entries of these numbers. -/
theorem round_entries (hinv : BacklogInv entry alert n s) :
    ((CBacklog.round (s.backlog.addEntry (entry n)).currPos).filter fun p =>
        !(s.backlog.addEntry (entry n)).processed p).map
          (s.backlog.addEntry (entry n)).entries =
      (newPrints n (s.backlog.addEntry (entry n))).map entry := by
  have hpos : ∀ k, ((s.backlog.addEntry (entry n)).currPos + k) % NUM_ENTRIES =
      (n + 1 + k) % NUM_ENTRIES := by
    intro k
    simp only [CBacklog.addEntry, hinv.currPos, NUM_ENTRIES]
    omega
  simp only [CBacklog.round, hpos, newPrints, List.filter_map, List.map_map]
  apply List.map_congr_left
  intro k hk
  rw [List.mem_filter, List.mem_range, Function.comp_apply,
    Bool.not_eq_true'] at hk
  have hfilled := filled_of_unprocessed hinv hk.1 hk.2
  have hlt := hk.1
  rw [Function.comp_apply, Function.comp_apply, slot_eq hfilled]
  simp only [NUM_ENTRIES] at hfilled hlt
  exact addEntry_entries hinv (by simp only [NUM_ENTRIES]; omega)
    (by simp only [NUM_ENTRIES]; omega)

theorem fileEntries_append (file file' : List Printed) :
    fileEntries (file ++ file') = fileEntries file ++ fileEntries file' :=
  List.filterMap_append ..

theorem fileEntries_entries (ps : List Nat) (entries : Nat → Entry) :
    fileEntries (ps.map fun p => .entry (entries p)) = ps.map entries := by
  simp [fileEntries, List.filterMap_map]

/-- A step without output. -/
theorem backlogInv_quiet (hinv : BacklogInv entry alert n s)
    (hquiet : alert n = false)
    (hbefore : ∀ m, n = m + 1 → alert m = false) :
    BacklogInv entry alert (n + 1)
      ⟨s.backlog.addEntry (entry n), alert n⟩ where
  currPos := by
    simp only [CBacklog.addEntry, hinv.currPos, NUM_ENTRIES]
    omega
  entries := fun i hi hlast =>
    addEntry_entries hinv (by omega) (by omega)
  processed := fun i hi hlast =>
    (addEntry_processed hinv (by omega) (by omega)).trans
      (nearAlert_quiet hquiet hbefore (by omega)).symm
  unfilled := fun k hk hlt => addEntry_unfilled hinv hk hlt
  prevAlert := by simp
  printed := by
    obtain ⟨idx, hsorted, hmem, hstdout, hfile⟩ := hinv.printed
    refine ⟨idx, hsorted, fun i => ?_, hstdout, hfile⟩
    rw [hmem]
    constructor
    · rintro ⟨hi, hnear⟩
      exact ⟨by omega, nearAlert_mono hnear⟩
    · rintro ⟨hi, hnear⟩
      exact (nearAlert_quiet hquiet hbefore (by omega)).mp hnear

/-- The delimiter at the end changes nothing but the file, and no entry in it. -/
theorem output_spec {b : CBacklog} (hpos : b.currPos < NUM_ENTRIES)
    {file : List Printed} (hfile : b.file = some file) (endDelimiter : Bool) :
    ∃ b', b.output endDelimiter = some b' ∧
      (∀ p, p < NUM_ENTRIES → b'.processed p = true) ∧
      b'.entries = b.entries ∧ b'.currPos = b.currPos ∧
      b'.stdout = b.stdout ++ ((CBacklog.round b.currPos).filter fun p =>
        !b.processed p).map b.entries ∧
      ∃ file', b'.file = some file' ∧
        fileEntries file' = fileEntries file ++
          ((CBacklog.round b.currPos).filter fun p =>
            !b.processed p).map b.entries := by
  have hvisited := CBacklog.visited_outputLoop b hpos
  have hmarked : ∀ p, p < NUM_ENTRIES →
      (CBacklog.outputLoop (NUM_ENTRIES + 1) b.currPos b).processed p =
        true := by
    intro p hp
    rw [hvisited.processed, decide_eq_true (CBacklog.mem_round _ hp),
      Bool.or_true]
  obtain ⟨file', hfile', hentries⟩ : ∃ file',
      (CBacklog.outputLoop (NUM_ENTRIES + 1) b.currPos b).file = some file' ∧
        fileEntries file' = fileEntries file ++
          ((CBacklog.round b.currPos).filter fun p =>
            !b.processed p).map b.entries := by
    refine ⟨_, by rw [hvisited.file, hfile, Option.map_some], ?_⟩
    rw [fileEntries_append, fileEntries_entries]
  cases endDelimiter with
  | false =>
      exact ⟨_, rfl, hmarked, hvisited.entries, hvisited.currPos,
        hvisited.stdout, file', hfile', hentries⟩
  | true =>
      have hrun : b.output true =
          some { CBacklog.outputLoop (NUM_ENTRIES + 1) b.currPos b with
            file := some (file' ++ [.endDelimiter]) } := by
        simp only [CBacklog.output, hfile', Option.map_some, if_true]
      refine ⟨_, hrun, hmarked, hvisited.entries, hvisited.currPos,
        hvisited.stdout, _, rfl, ?_⟩
      rw [fileEntries_append, hentries]
      exact List.append_nil _

/-- A step with output. -/
theorem backlogInv_loud (hinv : BacklogInv entry alert n s)
    (hloud : alert n = true ∨ ∃ m, n = m + 1 ∧ alert m = true)
    (endDelimiter : Bool) :
    ∃ b, (s.backlog.addEntry (entry n)).output endDelimiter = some b ∧
      BacklogInv entry alert (n + 1) ⟨b, alert n⟩ := by
  obtain ⟨idx, hsorted, hmem, hstdout, file, hfile, hentries⟩ := hinv.printed
  have hpos : (s.backlog.addEntry (entry n)).currPos = (n + 1) % NUM_ENTRIES := by
    simp only [CBacklog.addEntry, hinv.currPos, NUM_ENTRIES]
    omega
  have hfile₀ : (s.backlog.addEntry (entry n)).file = some file := hfile
  have hstdout₀ : (s.backlog.addEntry (entry n)).stdout = idx.map entry :=
    hstdout
  obtain ⟨b, hrun, hmarked, hring, hcur, hout, file', hfile', hprints⟩ :=
    output_spec (hpos ▸ Nat.mod_lt _ (by decide)) hfile₀ endDelimiter
  rw [round_entries hinv] at hout hprints
  refine ⟨b, hrun, ?_⟩
  constructor
  · exact hcur.trans hpos
  · intro i hi hlast
    simp only [hring]
    exact addEntry_entries hinv (by omega) (by omega)
  · intro i hi hlast
    simp only [hmarked _ (Nat.mod_lt _ (by decide)), true_iff]
    exact (nearAlert_loud hloud (by omega)).mpr (Or.inr (by omega))
  · exact fun k _ hlt => hmarked k hlt
  · simp
  · refine ⟨idx ++ newPrints n (s.backlog.addEntry (entry n)), ?_, fun i => ?_,
      ?_, file', hfile', ?_⟩
    · -- an entry printed before lies before those of the ring that were not
      rw [List.pairwise_append]
      refine ⟨hsorted, pairwise_newPrints hinv, fun i hi j hj => ?_⟩
      obtain ⟨hin, t, ht, hlow, hhigh, halert⟩ := (hmem i).mp hi
      obtain ⟨hjn, hjlast, hnot⟩ := (mem_newPrints hinv j).mp hj
      by_contra hle
      exact hnot ⟨by omega, t, ht, by omega, by omega, halert⟩
    · rw [List.mem_append, hmem, mem_newPrints hinv]
      constructor
      · rintro (⟨hi, hnear⟩ | ⟨hi, hlast, -⟩)
        · exact ⟨by omega, nearAlert_mono hnear⟩
        · exact ⟨by omega, (nearAlert_loud hloud hi).mpr (Or.inr hlast)⟩
      · rintro ⟨hi, hnear⟩
        by_cases hold : i < n ∧ NearAlert alert n i
        · exact Or.inl hold
        · rcases (nearAlert_loud hloud (by omega)).mp hnear with h | hlast
          · exact absurd h hold
          · exact Or.inr ⟨by omega, hlast, hold⟩
    · rw [List.map_append, ← hstdout₀]
      exact hout
    · rw [List.map_append, ← hentries]
      exact hprints

/-- One step of `outputStats`. -/
theorem backlogInv_step (hinv : BacklogInv entry alert n s) :
    ∃ s', outputEntry s (entry n) (alert n) = some s' ∧
      BacklogInv entry alert (n + 1) s' := by
  unfold outputEntry
  by_cases hloud : (alert n || s.prevAlert) = true
  · rw [Bool.or_eq_true, hinv.prevAlert] at hloud
    obtain ⟨b, hrun, hinv'⟩ :=
      backlogInv_loud hinv hloud (s.prevAlert && !alert n)
    have hloud' : (alert n || s.prevAlert) = true := by
      rw [Bool.or_eq_true, hinv.prevAlert]
      exact hloud
    simp only [if_pos hloud', hrun, Option.map_some]
    exact ⟨_, rfl, hinv'⟩
  · have hquiet := hloud
    rw [Bool.or_eq_true, hinv.prevAlert, not_or, Bool.not_eq_true] at hquiet
    simp only [if_neg hloud]
    refine ⟨_, rfl, backlogInv_quiet hinv hquiet.1 fun m hm => ?_⟩
    rw [← Bool.not_eq_true]
    exact fun halert => hquiet.2 ⟨m, hm, halert⟩

theorem backlogInv_run (entries : Nat → Entry) (n : Nat) :
    ∃ s, outputRun entry alert (outputStart entries (some [])) n = some s ∧
      BacklogInv entry alert n s := by
  induction n with
  | zero => exact ⟨_, rfl, backlogInv_start entry alert entries⟩
  | succ n ih =>
      obtain ⟨s, hrun, hinv⟩ := ih
      obtain ⟨s', hstep, hinv'⟩ := backlogInv_step hinv
      refine ⟨s', ?_, hinv'⟩
      rw [outputRun, hrun, Option.bind_some, hstep]

end Runs

/-- With the file open, every run goes through, and the entries printed are
those with an alert from the step before them to four steps after them, in
increasing order and each once. -/
theorem outputRun_printed (entry : Nat → Entry) (alert : Nat → Bool)
    (entries : Nat → Entry) (n : Nat) :
    ∃ s, outputRun entry alert (outputStart entries (some [])) n = some s ∧
      ∃ idx : List Nat, idx.Pairwise (· < ·) ∧
        (∀ i, i ∈ idx ↔ i < n ∧
          ∃ t, t < n ∧ i ≤ t + 1 ∧ t ≤ i + 4 ∧ alert t = true) ∧
        s.backlog.stdout = idx.map entry ∧
        ∃ file, s.backlog.file = some file ∧
          fileEntries file = idx.map entry := by
  obtain ⟨s, hrun, hinv⟩ := backlogInv_run entries n
  exact ⟨s, hrun, hinv.printed⟩

end BufferProfile

end NtapiExamples
