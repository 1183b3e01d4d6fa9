/-
The names in the configuration and the names of the macros: when `ntpl_init`
brings them together.
-/
import NtapiExamples.Ntnetflow.NtplReplace

namespace NtapiExamples

namespace Ntnetflow

/-- The row has every XXXXX replaced by the process id, so that it refers to
the macros by the names they are defined with. -/
structure NtplOk (pid : Pid) (row : ConfigRow) : Prop where
  replaced : ∃ buffer, ntplInitRow pid row = some buffer ∧
    Text.cstr buffer = replaceAll placeholder (hex05X pid.val) row.text
  names : ∀ name ∈ macroNames, ∀ before after,
    row.text = before ++ configName name ++ after →
    ∃ buffer before' after', ntplInitRow pid row = some buffer ∧
      Text.cstr buffer = before' ++ definedName pid name ++ after'

/-- Five digits: the occurrences start at least seven apart.  Six digits: the
only occurrence is the end of the text.  Both: the byte seven behind the start
of an occurrence is in the buffer. -/
structure NtplCond (pid : Pid) (row : ConfigRow) : Prop where
  room : ∀ i ∈ occurrences placeholder 0 row.text, i + 7 < row.sz
  apart : pid.val < 16 ^ 5 →
    (occurrences placeholder 0 row.text).Pairwise fun i j => i + 7 ≤ j
  last : 16 ^ 5 ≤ pid.val →
    ∀ i ∈ occurrences placeholder 0 row.text, i + 5 = row.text.length

/-- The characters of a text are not in the placeholder. -/
def isFree (s : Text) : Bool := s.all fun c => decide (c ∉ placeholder)

theorem not_mem_of_isFree {s : Text} (hfree : isFree s = true) :
    ∀ c ∈ s, c ∉ placeholder := by
  intro c hc
  exact of_decide_eq_true (List.all_eq_true.mp hfree c hc)

theorem macroNames_isFree {name : Text} (hname : name ∈ macroNames) :
    isFree ('_' :: name) = true := by
  have hall : macroNames.all (fun name => isFree ('_' :: name)) = true := by
    decide +kernel
  exact List.all_eq_true.mp hall name hname

/-- A name of the configuration becomes the name of the macro. -/
theorem replaceAll_configName {name : Text} (hname : name ∈ macroNames)
    (pid : Pid) (before after : Text) :
    ∃ before' after', replaceAll placeholder (hex05X pid.val)
        (before ++ configName name ++ after) =
      before' ++ definedName pid name ++ after' := by
  have hne := placeholder_ne_nil
  have hprefix : isFree (NTPL_PFX ++ ['_']) = true := by decide
  refine ⟨replaceAll placeholder (hex05X pid.val) before,
    replaceAll placeholder (hex05X pid.val) after, ?_⟩
  have hrow : before ++ configName name ++ after =
      before ++ (NTPL_PFX ++ ['_']) ++
        (placeholder ++ ([] ++ ('_' :: name) ++ after)) := by
    simp [configName]
  rw [hrow, replaceAll_append_free (not_mem_of_isFree hprefix) hne (by decide),
    replaceAll_hit hne,
    replaceAll_append_free (not_mem_of_isFree (macroNames_isFree hname)) hne
      (List.cons_ne_nil _ _)]
  simp [definedName]

variable {pid : Pid} {row : ConfigRow}

theorem ntplInitRow_eq (pid : Pid) (row : ConfigRow) :
    ntplInitRow pid row = replaceLoop row.sz (hex05X pid.val)
      (rowAt [] row.text (row.sz - row.text.length)) ([] : Text).length := by
  rw [ntplInitRow, ntplReplaceXxxxx, pidStr_eq]
  rfl

theorem replaceAll_noNul (pid : Pid) (row : ConfigRow) :
    '\x00' ∉ replaceAll placeholder (hex05X pid.val) row.text := by
  intro hmem
  rcases mem_replaceAll placeholder_ne_nil hmem with htext | hsub
  · exact row.noNul htext
  · exact (hex05X_ne hsub).2 rfl

/-- Six digits go to the end of the text or nowhere. -/
theorem ntplInitRow_six (hpid : 16 ^ 5 ≤ pid.val) (hcond : NtplCond pid row) :
    ∃ buffer, ntplInitRow pid row = some buffer ∧
      Text.cstr buffer = replaceAll placeholder (hex05X pid.val) row.text := by
  have hne := placeholder_ne_nil
  have hfive : placeholder.length = 5 := by decide
  have hshort := row.short
  have hsix := Pid.length_six hpid
  have hnul := replaceAll_noNul pid row
  rw [ntplInitRow_eq]
  cases hoccur : occurrences placeholder 0 row.text with
  | nil =>
      refine ⟨_, replaceLoop_six_none hsix row.noNul (by omega)
        (by rw [List.length_nil]; omega)
        (not_suffix_of_occurrences_nil hne hoccur), ?_⟩
      rw [replaceAll_of_occurrences_nil hne hoccur, cstr_rowAt row.noNul]
  | cons i rest =>
      have hmem : i ∈ occurrences placeholder 0 row.text := by
        rw [hoccur]
        exact List.mem_cons_self
      have hroom := hcond.room i hmem
      have hlast := hcond.last hpid i hmem
      obtain ⟨u, r, htext, hi, hreplace, -⟩ := @occurrences_first _ _ _
        (hex05X pid.val) hne _ _ _ _ hoccur
      have hlen := congrArg List.length htext
      rw [List.length_append, List.length_append, hfive] at hlen
      obtain rfl : r = [] := List.eq_nil_of_length_eq_zero (by omega)
      rw [replaceAll_nil, List.append_nil] at hreplace
      rw [List.append_nil] at htext
      rw [List.length_nil] at hlen
      have hu : '\x00' ∉ u := fun h =>
        row.noNul (by rw [htext]; exact List.mem_append_left _ h)
      have hloop := @replaceLoop_six_end row.sz (row.sz - row.text.length)
        (hex05X pid.val) [] u hsix hu (by omega)
        (by rw [List.length_nil]; omega)
      rw [if_pos (by omega), ← htext] at hloop
      refine ⟨_, hloop, ?_⟩
      rw [hreplace] at hnul ⊢
      exact cstr_rowAt hnul

theorem ntplInitRow_replaced (hcond : NtplCond pid row) :
    ∃ buffer, ntplInitRow pid row = some buffer ∧
      Text.cstr buffer = replaceAll placeholder (hex05X pid.val) row.text := by
  by_cases hpid : pid.val < 16 ^ 5
  · have hshort := row.short
    rw [ntplInitRow_eq]
    refine ⟨_, replaceLoop_five (length_hex05X_five hpid) row.noNul (by omega)
      (by rw [List.length_nil]; omega) (hcond.apart hpid) hcond.room, ?_⟩
    exact cstr_rowAt (replaceAll_noNul pid row)
  · exact ntplInitRow_six (not_lt.mp hpid) hcond

/-- Where the process id stands there is no X. -/
theorem digit_of_replaced {buffer u rest : Text}
    (hcstr : Text.cstr buffer = u ++ (hex05X pid.val ++ rest)) :
    buffer[u.length]? ≠ some 'X' := by
  have hprefix : Text.cstr buffer <+: buffer := List.takeWhile_prefix _
  obtain ⟨tail, htail⟩ := hprefix
  have hpos : 0 < (hex05X pid.val).length := by
    rw [length_hex05X]
    omega
  intro hkept
  rw [← htail, hcstr, List.append_assoc, List.append_assoc,
    List.getElem?_append_right le_rfl, Nat.sub_self,
    List.getElem?_append_left hpos] at hkept
  exact (hex05X_ne (List.mem_of_getElem? hkept)).1 rfl

/-- With six digits only the end of the text can have been replaced. -/
theorem last_of_ntplInitRow (hpid : 16 ^ 5 ≤ pid.val) {buffer : Text}
    (hinit : ntplInitRow pid row = some buffer)
    (hcstr : Text.cstr buffer =
      replaceAll placeholder (hex05X pid.val) row.text) {i : Nat}
    (hi : i ∈ occurrences placeholder 0 row.text) :
    i + 5 = row.text.length ∧ i + 7 < row.sz := by
  have hne := placeholder_ne_nil
  have hfive : placeholder.length = 5 := by decide
  have hshort := row.short
  have hsix := Pid.length_six hpid
  rw [ntplInitRow_eq] at hinit
  cases hoccur : occurrences placeholder 0 row.text with
  | nil => simp [hoccur] at hi
  | cons j rest =>
      obtain ⟨u, r, htext, hj, hreplace, hrest⟩ := @occurrences_first _ _ _
        (hex05X pid.val) hne _ _ _ _ hoccur
      have hlen := congrArg List.length htext
      rw [List.length_append, List.length_append, hfive] at hlen
      rw [Nat.zero_add] at hj
      subst hj
      have hX : row.text[u.length]? = some 'X' := by
        rw [htext, List.getElem?_append_right le_rfl, Nat.sub_self]
        rfl
      have hdigit := digit_of_replaced (hcstr.trans hreplace)
      have hsame : buffer ≠ rowAt [] row.text (row.sz - row.text.length) := by
        intro heq
        apply hdigit
        rw [heq, rowAt, List.nil_append, List.getElem?_append_left (by omega),
          hX]
      by_cases hsuffix : placeholder <:+ row.text
      · obtain ⟨v, hv⟩ := hsuffix
        have hvlen := congrArg List.length hv
        rw [List.length_append, hfive] at hvlen
        have hfree : '\x00' ∉ v := fun h =>
          row.noNul (by rw [← hv]; exact List.mem_append_left _ h)
        have hloop := @replaceLoop_six_end row.sz (row.sz - row.text.length)
          (hex05X pid.val) [] v hsix hfree (by omega)
          (by rw [List.length_nil]; omega)
        rw [hv, hinit] at hloop
        split at hloop
        · rw [Option.some.injEq] at hloop
          have hge : v.length ≤ u.length := by
            by_contra hlt
            apply hdigit
            rw [hloop, rowAt, List.nil_append, List.append_assoc,
              List.getElem?_append_left (by omega), ← hX, ← hv,
              List.getElem?_append_left (by omega)]
          obtain rfl : r = [] := List.eq_nil_of_length_eq_zero (by omega)
          rw [hrest] at hoccur
          rw [hoccur, occurrences_nil, List.mem_singleton] at hi
          omega
        · split at hloop
          · simp at hloop
          · exact absurd (Option.some.inj hloop) hsame
      · rw [replaceLoop_six_none hsix row.noNul (by omega)
          (by rw [List.length_nil]; omega) hsuffix, Option.some.injEq] at hinit
        exact absurd hinit.symm hsame

theorem ntplCond_of_replaced {buffer : Text}
    (hinit : ntplInitRow pid row = some buffer)
    (hcstr : Text.cstr buffer =
      replaceAll placeholder (hex05X pid.val) row.text) : NtplCond pid row := by
  by_cases hpid : pid.val < 16 ^ 5
  · have hshort := row.short
    have hout : [] ++ replaceAll placeholder (hex05X pid.val) row.text <+:
        buffer := by
      rw [List.nil_append, ← hcstr]
      exact List.takeWhile_prefix _
    rw [ntplInitRow_eq] at hinit
    obtain ⟨hapart, hroom⟩ := apart_of_replaceLoop (length_hex05X_five hpid)
      (fun hmem => (hex05X_ne hmem).1 rfl) row.noNul (by omega)
      (by rw [List.length_nil]; omega) hinit hout
    exact ⟨hroom, fun _ => hapart, fun hle => absurd hpid (not_lt.mpr hle)⟩
  · have hpid' := not_lt.mp hpid
    exact ⟨fun i hi => (last_of_ntplInitRow hpid' hinit hcstr hi).2,
      fun hlt => absurd hlt hpid,
      fun _ i hi => (last_of_ntplInitRow hpid' hinit hcstr hi).1⟩

/-- `ntpl_init` brings the names of a row together exactly under `NtplCond`. -/
theorem ntplOk_iff (pid : Pid) (row : ConfigRow) :
    NtplOk pid row ↔ NtplCond pid row := by
  constructor
  · intro hok
    obtain ⟨buffer, hinit, hcstr⟩ := hok.replaced
    exact ntplCond_of_replaced hinit hcstr
  · intro hcond
    obtain ⟨buffer, hinit, hcstr⟩ := ntplInitRow_replaced hcond
    refine ⟨⟨buffer, hinit, hcstr⟩, ?_⟩
    intro name hname before after htext
    obtain ⟨before', after', hnames⟩ :=
      replaceAll_configName hname pid before after
    exact ⟨buffer, before', after', hinit, by rw [hcstr, htext, hnames]⟩

/-- A row of `common.ntpl`. -/
def upstreamRow : ConfigRow where
  sz := 512
  large := by decide
  text := "DefineMacro(\"NTNF_XXXXX_UPSTREAM\", ".toList ++
    "\"(Port==NTNF_XXXXX_UPSTREAM_PORT)\")".toList
  noNul := by decide
  short := by decide

/-- With a process id of six digits the row keeps its XXXXX. -/
theorem ntplOk_fails :
    ¬ NtplOk ⟨0x100000, by decide, by decide⟩ upstreamRow := by
  intro hok
  obtain ⟨buffer, hinit, hcstr⟩ := hok.replaced
  have hcond := ntplCond_of_replaced hinit hcstr
  have hlast := hcond.last le_rfl 18 (by decide)
  exact absurd hlast (by decide)

end Ntnetflow

end NtapiExamples
