/-
`ntpl.c` over a whole run: the statements `ntpl_common_apply` and `ntpl_apply` hand
to the adapter until one fails, the ids it assigns to them, and the `Delete`
statements of `ntpl_deinit`.
-/
import NtapiExamples.Ntnetflow.CanonicalKey
import NtapiExamples.Ntnetflow.NtplMacros

namespace NtapiExamples

open Text

namespace Ntnetflow

def MAX_NTPL : Nat := 1024

/-- What a call of `NT_NTPL` gives: its status, 0 for success, and `ntplId`. -/
structure NtplAnswer where
  status : Int
  ntplId : BitVec 32

/-- The statements handed over so far, and `ntpl_ids` up to `ntpl_ids_count`. -/
structure NtplState where
  sent : List Text
  ids : List (BitVec 32)

/-- `ntpl`, with the answers of the adapter to the calls in order; `none` when an
id is written behind the end of `ntpl_ids`. -/
def ntpl (answer : Nat → NtplAnswer) (s : NtplState) (str : Text) :
    Option (NtplState × Int) :=
  let info := answer s.sent.length
  let s := { s with sent := s.sent ++ [str] }
  if info.status ≠ 0 then some (s, -1)
  else if info.ntplId ≠ 0 then
    if s.ids.length < MAX_NTPL then
      some ({ s with ids := s.ids ++ [info.ntplId] }, 0)
    else none
  else some (s, 0)

/-- A loop over statements that returns at the first failure. -/
def ntplEach (answer : Nat → NtplAnswer) :
    NtplState → List Text → Option (NtplState × Int)
  | s, [] => some (s, 0)
  | s, str :: rest =>
      match ntpl answer s str with
      | none => none
      | some (s, status) =>
          if status < 0 then some (s, -1) else ntplEach answer s rest

/-- One loop behind another one. -/
def thenEach (answer : Nat → NtplAnswer) (strs : List Text) :
    Option (NtplState × Int) → Option (NtplState × Int)
  | none => none
  | some (s, status) =>
      if status < 0 then some (s, -1) else ntplEach answer s strs

def FLOW_COLOR_MONITOR : BitVec 32 := bit 32 3
def FLOW_COLOR_OTHER : BitVec 32 := bit 32 11
def FLOW_KEYSET_ID_MONITOR : Nat := 4
def FLOW_KEY_ID_IPV4 : Nat := 1
def FLOW_KEY_ID_IPV6 : Nat := 2

/-- `%02X`. -/
def hex02X (n : Nat) : Text :=
  ((Nat.digits 16 n).reverse.map hexUpper).leftpad 2 '0'

/-- `colors` of `ntpl_common_macros`, named by the first entries of `macroNames`. -/
def colors : List (Text × BitVec 32) :=
  macroNames.zip
    [FLOW_COLOR_UNHANDLED, FLOW_COLOR_UNHANDLED ||| FLOW_COLOR_DOWNSTREAM,
      FLOW_COLOR_MISS, FLOW_COLOR_DOWNSTREAM ||| FLOW_COLOR_MISS,
      FLOW_COLOR_IPV6, FLOW_COLOR_TCP, FLOW_COLOR_MONITOR, FLOW_COLOR_OTHER]

/-- `consts` of `ntpl_common_macros`. -/
def consts : List (Text × Nat) :=
  (macroNames.drop 8).zip
    [FLOW_KEYSET_ID_BYPASS, FLOW_KEYSET_ID_MONITOR, FLOW_KEY_ID_IPV4, FLOW_KEY_ID_IPV6]

/-- `DefineMacro("NTNF_%05X_%s", "0x%02X")`. -/
def colorMacro (pid : BitVec 32) (color : Text × BitVec 32) : Text :=
  macroFront pid color.1 ++
    ('0' :: 'x' :: (hex02X color.2.toNat ++ macroClose))

/-- `DefineMacro("NTNF_%05X_%s", "%u")`. -/
def constMacro (pid : BitVec 32) (const : Text × Nat) : Text :=
  macroFront pid const.1 ++ (Nat.toDigits 10 const.2 ++ macroClose)

def ntplCommonMacros (answer : Nat → NtplAnswer) (pid : BitVec 32)
    (s : NtplState) : Option (NtplState × Int) :=
  thenEach answer (consts.map (constMacro pid))
    (ntplEach answer s (colors.map (colorMacro pid)))

/-- `ntpl_common_apply`; `common` is `ntpl_common_config` after `ntpl_init`. -/
def ntplCommonApply (answer : Nat → NtplAnswer) (pid : BitVec 32)
    (common : List Text) (s : NtplState) : Option (NtplState × Int) :=
  thenEach answer common (ntplCommonMacros answer pid s)

/-- What `ntpl_apply` hands over.  No text depends on the answers to the ones
before it. -/
structure NtplArgs where
  pid : BitVec 32
  streams : List (BitVec 32)
  upstream : BitVec 32
  downstream : BitVec 32
  buffer : Nat → Char

def NtplArgs.macros (args : NtplArgs) : List Text :=
  (ntplMacros (fun _ => 0) args.pid args.streams args.upstream args.downstream
    args.buffer).1

/-- `ntpl_apply`; `config` is `ntpl_config` after `ntpl_init`. -/
def ntplApply (answer : Nat → NtplAnswer) (args : NtplArgs)
    (config : List Text) (s : NtplState) : Option (NtplState × Int) :=
  thenEach answer config (ntplEach answer s args.macros)

/-- `"Delete=%u"`. -/
def deleteText (id : BitVec 32) : Text :=
  "Delete=".toList ++ Nat.toDigits 10 id.toNat

/-- The loop of `ntpl_deinit`, `count` entries before its end.  A `Delete` may
append to `ntpl_ids`, but the loop only goes down. -/
def ntplDeinitLoop (answer : Nat → NtplAnswer) :
    Nat → NtplState → Option NtplState
  | 0, s => some s
  | i + 1, s =>
      let id := s.ids.getD i 0
      if id = 0 then some s
      else
        match ntpl answer s (deleteText id) with
        | none => none
        | some (s, _) => ntplDeinitLoop answer i s

/-- `ntpl_deinit`. -/
def ntplDeinit (answer : Nat → NtplAnswer) (s : NtplState) : Option NtplState :=
  ntplDeinitLoop answer s.ids.length s

/-- The calls of `main` between `ntpl_init` and the end: both apply functions, or
as far as they go, and `ntpl_deinit`. -/
def ntplSession (answer : Nat → NtplAnswer) (args : NtplArgs)
    (common config : List Text) : Option (NtplState × Int) :=
  match ntplCommonApply answer args.pid common ⟨[], []⟩ with
  | none => none
  | some (s, status) =>
      if status < 0 then (ntplDeinit answer s).map fun s => (s, -1)
      else
        match ntplApply answer args config s with
        | none => none
        | some (s, status) =>
            (ntplDeinit answer s).map fun s => (s, if status < 0 then -1 else 0)

/-- The statements of `ntpl_common_apply` in order. -/
def commonStatements (pid : BitVec 32) (common : List Text) : List Text :=
  colors.map (colorMacro pid) ++ consts.map (constMacro pid) ++ common

/-- The statements of both functions. -/
def ntplStatements (args : NtplArgs) (common config : List Text) : List Text :=
  commonStatements args.pid common ++ (args.macros ++ config)

/-- The ids the adapter assigned to the first `n` statements. -/
def assigned (answer : Nat → NtplAnswer) (n : Nat) : List (BitVec 32) :=
  (List.range n).filterMap fun i =>
    if (answer i).status = 0 ∧ (answer i).ntplId ≠ 0 then
      some (answer i).ntplId
    else none

variable {answer : Nat → NtplAnswer} {s s' : NtplState}

theorem assigned_succ (answer : Nat → NtplAnswer) (n : Nat) :
    assigned answer (n + 1) = assigned answer n ++
      (if (answer n).status = 0 ∧ (answer n).ntplId ≠ 0 then
        [(answer n).ntplId] else []) := by
  simp only [assigned, List.range_succ, List.filterMap_append,
    List.filterMap_cons, List.filterMap_nil]
  congr 1
  split <;> split <;> simp_all

theorem length_assigned_le (answer : Nat → NtplAnswer) (n : Nat) :
    (assigned answer n).length ≤ n := by
  have hle := List.length_filterMap_le (fun i =>
    if (answer i).status = 0 ∧ (answer i).ntplId ≠ 0 then
      some (answer i).ntplId
    else none) (List.range n)
  rwa [List.length_range] at hle

theorem ne_zero_of_mem_assigned {n : Nat} {id : BitVec 32}
    (hid : id ∈ assigned answer n) : id ≠ 0 := by
  obtain ⟨i, -, hi⟩ := List.mem_filterMap.mp hid
  split at hi
  · rename_i hok
    rw [Option.some.injEq] at hi
    exact hi ▸ hok.2
  · simp at hi

/-- The first `n` statements were handed over, and the ids are the ones they were
assigned. -/
structure SentUpTo (answer : Nat → NtplAnswer) (strs : List Text) (n : Nat)
    (s : NtplState) : Prop where
  le : n ≤ strs.length
  sent : s.sent = strs.take n
  ids : s.ids = assigned answer n

/-- All of the first `n` were accepted. -/
def Accepted (answer : Nat → NtplAnswer) (n : Nat) : Prop :=
  ∀ i < n, (answer i).status = 0

/-- Where the loops up to the statement `last` stop: there, or behind the first
statement that fails. -/
def StopsAt (answer : Nat → NtplAnswer) (last n : Nat) (status : Int) : Prop :=
  status = 0 ∧ n = last ∧ Accepted answer n ∨
    status = -1 ∧ ∃ i < last, n = i + 1 ∧ (answer i).status ≠ 0 ∧
      Accepted answer i

/-- A call of `ntpl` appends one statement and, as it succeeds, its id. -/
theorem ntpl_spec (str : Text) (hroom : s.ids.length < MAX_NTPL) :
    ntpl answer s str = some
      (⟨s.sent ++ [str], s.ids ++
        (if (answer s.sent.length).status = 0 ∧
            (answer s.sent.length).ntplId ≠ 0 then
          [(answer s.sent.length).ntplId] else [])⟩,
        if (answer s.sent.length).status = 0 then 0 else -1) := by
  by_cases hstatus : (answer s.sent.length).status = 0
  · by_cases hid : (answer s.sent.length).ntplId = 0#32
    · simp [ntpl, hstatus, hid]
    · simp [ntpl, hstatus, hid, hroom]
  · simp [ntpl, hstatus]

theorem SentUpTo.length_sent {strs : List Text} {n : Nat}
    (h : SentUpTo answer strs n s) : s.sent.length = n := by
  rw [h.sent, List.length_take, Nat.min_eq_left h.le]

/-- One statement more. -/
theorem SentUpTo.ntpl {strs : List Text} {n : Nat} {str : Text}
    (h : SentUpTo answer strs n s) (hstr : strs[n]? = some str)
    (hroom : strs.length ≤ MAX_NTPL) :
    ∃ s', ntpl answer s str =
        some (s', if (answer n).status = 0 then 0 else -1) ∧
      SentUpTo answer strs (n + 1) s' := by
  obtain ⟨hlt, hget⟩ := List.getElem?_eq_some_iff.mp hstr
  have hids := length_assigned_le answer n
  have hspec := @ntpl_spec answer s str (by rw [h.ids]; omega)
  rw [h.length_sent] at hspec
  refine ⟨_, hspec, hlt, ?_, ?_⟩
  · rw [h.sent, ← hget, List.take_append_getElem]
  · rw [h.ids, assigned_succ]

theorem ntplEach_spec {strs before tail : List Text} (rest : List Text)
    (hstrs : strs = before ++ (rest ++ tail))
    (h : SentUpTo answer strs before.length s)
    (hok : Accepted answer before.length) (hroom : strs.length ≤ MAX_NTPL) :
    ∃ s' n status, ntplEach answer s rest = some (s', status) ∧
      SentUpTo answer strs n s' ∧
      StopsAt answer (before.length + rest.length) n status := by
  induction rest generalizing s before with
  | nil => exact ⟨s, _, 0, rfl, h, Or.inl ⟨rfl, rfl, hok⟩⟩
  | cons str rest ih =>
      have hstr : strs[before.length]? = some str := by
        rw [hstrs]
        simp
      obtain ⟨s', hntpl, h'⟩ := h.ntpl hstr hroom
      simp only [ntplEach, hntpl]
      by_cases hstatus : (answer before.length).status = 0
      · have hnext : strs = (before ++ [str]) ++ (rest ++ tail) := by
          rw [hstrs, List.append_assoc]
          rfl
        have hlength : (before ++ [str]).length = before.length + 1 := by simp
        have hok' : Accepted answer (before ++ [str]).length := by
          rw [hlength]
          intro i hi
          rcases Nat.lt_succ_iff_lt_or_eq.mp hi with hlt | rfl
          · exact hok i hlt
          · exact hstatus
        rw [← hlength] at h'
        obtain ⟨s'', n, status, heach, h'', hstop⟩ := ih hnext h' hok'
        refine ⟨s'', n, status, by simp [hstatus, heach], h'', ?_⟩
        rw [hlength, Nat.add_right_comm, Nat.add_assoc] at hstop
        exact hstop
      · refine ⟨s', _, -1, by simp [hstatus], h', Or.inr ⟨rfl, before.length, ?_,
          rfl, hstatus, hok⟩⟩
        simp

theorem thenEach_spec {strs before tail : List Text} (rest : List Text)
    (hstrs : strs = before ++ (rest ++ tail)) {n : Nat} {status : Int}
    (h : SentUpTo answer strs n s) (hstop : StopsAt answer before.length n status)
    (hroom : strs.length ≤ MAX_NTPL) :
    ∃ s' n status', thenEach answer rest (some (s, status)) =
        some (s', status') ∧ SentUpTo answer strs n s' ∧
      StopsAt answer (before.length + rest.length) n status' := by
  rcases hstop with ⟨rfl, rfl, hok⟩ | ⟨rfl, i, hi, rfl, hfails, hok⟩
  · exact ntplEach_spec rest hstrs h hok hroom
  · exact ⟨s, _, -1, rfl, h, Or.inr ⟨rfl, i, Nat.lt_add_right _ hi, rfl, hfails,
      hok⟩⟩

/-- The loop deletes the ids below its index, the last one first. -/
theorem ntplDeinitLoop_spec {ids tail : List (BitVec 32)} (hs : s.ids = ids ++ tail)
    (hids : ∀ id ∈ ids, id ≠ 0) (hroom : s.ids.length + ids.length ≤ MAX_NTPL) :
    ∃ s', ntplDeinitLoop answer ids.length s = some s' ∧
      s'.sent = s.sent ++ ids.reverse.map deleteText := by
  induction ids using List.reverseRecOn generalizing s tail with
  | nil => exact ⟨s, rfl, by simp⟩
  | append_singleton ids id ih =>
      have hid : id ≠ 0 := hids id (by simp)
      have hget : s.ids.getD ids.length 0 = id := by
        rw [hs]
        simp
      rw [List.length_append, List.length_singleton] at hroom
      have hlength : (ids ++ [id]).length = ids.length + 1 := by simp
      have hntpl := @ntpl_spec answer s (deleteText id) (by omega)
      generalize hassigned : (if (answer s.sent.length).status = 0 ∧
          (answer s.sent.length).ntplId ≠ 0 then
        [(answer s.sent.length).ntplId] else []) = new at hntpl
      have hnew : new.length ≤ 1 := by
        rw [← hassigned]
        split <;> simp
      have hs' : s.ids ++ new = ids ++ (id :: (tail ++ new)) := by
        rw [hs]
        simp
      obtain ⟨s', hloop, hsent⟩ :=
        @ih ⟨s.sent ++ [deleteText id], s.ids ++ new⟩ _ hs'
          (fun id hmem => hids id (by simp [hmem]))
          (by simp only [List.length_append]; omega)
      refine ⟨s', ?_, ?_⟩
      · rw [hlength, ntplDeinitLoop]
        simp only [hget, hid, if_false, hntpl]
        exact hloop
      · rw [hsent]
        simp

/-- What is sent by `ntpl_deinit` after the statements. -/
theorem SentUpTo.deinit {strs : List Text} {n : Nat} (h : SentUpTo answer strs n s)
    (hroom : 2 * strs.length ≤ MAX_NTPL) :
    ∃ s', ntplDeinit answer s = some s' ∧
      s'.sent = strs.take n ++ (assigned answer n).reverse.map deleteText := by
  have hids : ∀ id ∈ s.ids, id ≠ 0 := fun id hid =>
    ne_zero_of_mem_assigned (h.ids ▸ hid)
  have hlength := length_assigned_le answer n
  have hle := h.le
  rw [← h.ids] at hlength
  obtain ⟨s', hloop, hsent⟩ :=
    @ntplDeinitLoop_spec answer s s.ids [] (List.append_nil _).symm hids (by omega)
  refine ⟨s', hloop, ?_⟩
  rw [hsent, h.sent, h.ids]

/-- `ntpl_common_apply` on an empty `ntpl_ids`. -/
theorem ntplCommonApply_spec (answer : Nat → NtplAnswer) (args : NtplArgs)
    (common config : List Text)
    (hroom : (ntplStatements args common config).length ≤ MAX_NTPL) :
    ∃ s n status, ntplCommonApply answer args.pid common ⟨[], []⟩ =
        some (s, status) ∧
      SentUpTo answer (ntplStatements args common config) n s ∧
      StopsAt answer (commonStatements args.pid common).length n status := by
  generalize hstrs : ntplStatements args common config = strs at *
  have hcolors : strs = [] ++ (colors.map (colorMacro args.pid) ++
      (consts.map (constMacro args.pid) ++
        (common ++ (args.macros ++ config)))) := by
    simp [← hstrs, ntplStatements, commonStatements]
  obtain ⟨s, n, status, heach, hs, hstop⟩ := @ntplEach_spec answer ⟨[], []⟩
    strs [] _ _ hcolors ⟨Nat.zero_le _, rfl, rfl⟩
    (fun i hi => absurd hi (Nat.not_lt_zero i)) hroom
  rw [List.length_nil, Nat.zero_add] at hstop
  rw [List.nil_append] at hcolors
  obtain ⟨s, n, status, hthen, hs, hstop⟩ :=
    thenEach_spec _ hcolors hs hstop hroom
  rw [← List.length_append] at hstop
  rw [← List.append_assoc] at hcolors
  obtain ⟨s, n, status, hthen', hs, hstop⟩ :=
    thenEach_spec _ hcolors hs hstop hroom
  rw [← List.length_append] at hstop
  refine ⟨s, n, status, ?_, hs, hstop⟩
  rw [ntplCommonApply, ntplCommonMacros, heach, hthen, hthen']

/-- `ntpl_apply` behind it. -/
theorem ntplApply_spec {args : NtplArgs} {common config : List Text} {n : Nat}
    (h : SentUpTo answer (ntplStatements args common config) n s)
    (hn : n = (commonStatements args.pid common).length)
    (hok : Accepted answer n)
    (hroom : (ntplStatements args common config).length ≤ MAX_NTPL) :
    ∃ s' n status, ntplApply answer args config s = some (s', status) ∧
      SentUpTo answer (ntplStatements args common config) n s' ∧
      StopsAt answer (ntplStatements args common config).length n status := by
  rw [hn] at h hok
  have hmacros : ntplStatements args common config =
      commonStatements args.pid common ++ (args.macros ++ config) := rfl
  obtain ⟨s', n, status, heach, hs', hstop⟩ :=
    ntplEach_spec _ hmacros h hok hroom
  rw [← List.length_append] at hstop
  have hconfig : ntplStatements args common config =
      (commonStatements args.pid common ++ args.macros) ++ (config ++ []) := by
    rw [List.append_nil, hmacros, List.append_assoc]
  obtain ⟨s'', n, status, hthen, hs'', hstop⟩ :=
    thenEach_spec _ hconfig hs' hstop hroom
  rw [← List.length_append, List.append_assoc] at hstop
  exact ⟨s'', n, status, by rw [ntplApply, heach, hthen], hs'', hstop⟩

theorem length_ntplStatements (args : NtplArgs) (common config : List Text) :
    (ntplStatements args common config).length =
      15 + common.length + config.length := by
  have hmacros : args.macros.length = 3 := by
    simp [NtplArgs.macros, ntplMacros]
  have hcolors : colors.length = 8 := rfl
  have hconsts : consts.length = 4 := rfl
  simp only [ntplStatements, commonStatements, List.length_append,
    List.length_map, hmacros, hcolors, hconsts]
  omega

/-- Over a whole session the statements are handed over in order, up to the first
one that fails, and then every id that was assigned to one of them is deleted,
once, the last one first. -/
theorem ntplSession_deletes (answer : Nat → NtplAnswer) (args : NtplArgs)
    (common config : List Text)
    (hroom : 2 * (15 + common.length + config.length) ≤ MAX_NTPL) :
    ∃ s n status, ntplSession answer args common config = some (s, status) ∧
      s.sent = (ntplStatements args common config).take n ++
        (assigned answer n).reverse.map deleteText ∧
      StopsAt answer (ntplStatements args common config).length n status := by
  rw [← length_ntplStatements args] at hroom
  have hmax : (ntplStatements args common config).length ≤ MAX_NTPL := by omega
  obtain ⟨s, n, status, hcommon, hs, hstop⟩ :=
    ntplCommonApply_spec answer args common config hmax
  simp only [ntplSession, hcommon]
  rcases hstop with ⟨rfl, hn, hok⟩ | ⟨rfl, i, hi, rfl, hfails, hok⟩
  · obtain ⟨s', n, status, happly, hs', hstop⟩ :=
      ntplApply_spec hs hn hok hmax
    obtain ⟨s'', hdeinit, hsent⟩ := hs'.deinit hroom
    refine ⟨s'', n, status, ?_, hsent, hstop⟩
    simp only [happly, hdeinit, Option.map_some]
    rcases hstop with ⟨rfl, -⟩ | ⟨rfl, -⟩ <;> rfl
  · obtain ⟨s', hdeinit, hsent⟩ := hs.deinit hroom
    have hle : (commonStatements args.pid common).length ≤
        (ntplStatements args common config).length := by
      rw [ntplStatements, List.length_append]
      exact Nat.le_add_right _ _
    refine ⟨s', i + 1, -1, ?_, hsent,
      Or.inr ⟨rfl, i, hi.trans_le hle, rfl, hfails, hok⟩⟩
    simp only [hdeinit, Option.map_some, Int.reduceNeg, Int.reduceLT, if_true]

/-- The adapter assigns ids from 1 on and refuses the third statement. -/
def refusesThird (i : Nat) : NtplAnswer :=
  ⟨if i = 2 then 1 else 0, BitVec.ofNat 32 (i + 1)⟩

theorem ntplSession_deletes_refused :
    let args : NtplArgs := ⟨0x1234, [0, 1], 0, 1, fun _ => '\x00'⟩
    ∃ s, ntplSession refusesThird args [] [] = some (s, -1) ∧
      s.sent = (ntplStatements args [] []).take 3 ++
        ["Delete=2".toList, "Delete=1".toList] := by
  intro args
  obtain ⟨s, n, status, hsession, hsent, hstop⟩ :=
    ntplSession_deletes refusesThird args [] [] (by decide)
  have hrefused : ∀ i, (refusesThird i).status ≠ 0 → i = 2 := by
    intro i hi
    by_contra hne
    simp [refusesThird, hne] at hi
  rcases hstop with ⟨-, rfl, hok⟩ | ⟨rfl, i, -, rfl, hfails, -⟩
  · rw [length_ntplStatements] at hok
    exact absurd (hok 2 (by decide)) (by decide)
  · rw [hrefused i hfails] at hsent
    exact ⟨s, hsession, hsent.trans (by congr 1)⟩

end Ntnetflow

end NtapiExamples
