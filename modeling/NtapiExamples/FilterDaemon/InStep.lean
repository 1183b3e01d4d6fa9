/-
The filters on the adapter over a run of the daemon, one `process` for each
content of the filter file.
-/
import Mathlib.Data.List.Dedup
import NtapiExamples.Lib.Run
import NtapiExamples.FilterDaemon.FileHandler

namespace NtapiExamples

namespace FilterDaemon

/-- An entry of the filter file: what `parse` keeps of the line, and the length
of the prefix. -/
structure Entry where
  address : IPAddress
  prefixBits : Option (BitVec 32)
deriving DecidableEq

/-- The entry of a line, if it is accepted. -/
def entryOf (line : Text) : Option Entry :=
  if (uncomment line).length > 0 then
    match IPAddress.parse (uncomment line) with
    | some (addr, true) =>
        some ⟨addr, IPAddress.prefixBits (uncomment line)⟩
    | _ => none
  else none

def entries (content : Text) : List Entry :=
  (Text.getlines content).filterMap entryOf

/-- The daemon after a `process`; `content` is what it read last. -/
structure Daemon where
  handler : NTFileHandler
  adapter : Adapter
  content : Text

/-- A content of the file, and the ids of the filters created for it. -/
structure FileChange where
  content : Text
  ids : List (BitVec 32)

def daemonStep (s : Daemon) (change : FileChange) : Option Daemon :=
  (process s.handler s.adapter change.content change.ids).map fun r =>
    { handler := r.1, adapter := r.2, content := change.content }

def daemonStart : Daemon :=
  { handler := { appliedAddrs := KeySet.empty, readAddrs := KeySet.empty }
    adapter := { filters := [], removals := [] }
    content := [] }

/-- The installed filters are those of the distinct entries of the file, one
each, and each `removeNTPL` deleted the filter of its own entry and no other. -/
structure InStep (s : Daemon) : Prop where
  installed : (s.adapter.filters.map Prod.snd).Perm
    ((entries s.content).dedup.filterMap fun e => e.address.command)
  distinct : (s.adapter.filters.map Prod.fst).Nodup
  removals : ∀ r ∈ s.adapter.removals, r.2.map some = [r.1.command]

/-- The create commands return fresh nonzero ids. -/
def freshIds (s : Daemon) (change : FileChange) : Bool :=
  decide change.ids.Nodup && change.ids.all (fun id =>
    decide (id ≠ 0 ∧ id ∉ s.adapter.filters.map Prod.fst)) &&
      decide ((entries change.content).length ≤ change.ids.length)

/-- No prefix is longer than 128 bits, every accepted entry has a version, and
no two entries of this content and the one before are told apart by the file and
not by the order of the sets. -/
def toldApart (s : Daemon) (change : FileChange) : Bool :=
  (readLines (Text.getlines change.content)).isSome &&
    (entries change.content).all (fun e => e.address.command.isSome) &&
      (entries s.content ++ entries change.content).all fun e =>
        (entries s.content ++ entries change.content).all fun e' =>
          decide (e.address.key = e'.address.key → e = e')

theorem readLines_eq {lines : List Text} {addrs : List IPAddress}
    (hread : readLines lines = some addrs) :
    addrs = (lines.filterMap entryOf).map Entry.address := by
  induction lines generalizing addrs with
  | nil =>
      simp only [readLines, Option.some.injEq] at hread
      rw [← hread]
      rfl
  | cons line lines ih =>
      simp only [readLines] at hread
      split at hread
      case isTrue hlength =>
        simp only [Option.bind_eq_bind, Option.bind_eq_some_iff,
          Option.some.injEq] at hread
        obtain ⟨⟨addr, ok⟩, hparse, rest, hrest, rfl⟩ := hread
        cases ok <;> simp [entryOf, hlength, hparse, ih hrest]
      case isFalse hlength =>
        rw [ih hread]
        simp [entryOf, hlength]

/-- `parse` leaves the id of a new object alone. -/
theorem parse_ntplId {line : Text} {r : IPAddress × Bool}
    (hparse : IPAddress.parse line = some r) : r.1.ntplId = 0 := by
  simp only [IPAddress.parse, Option.map_eq_some_iff] at hparse
  obtain ⟨netMask, -, rfl⟩ := hparse
  rfl

theorem entry_ntplId {content : Text} {e : Entry} (he : e ∈ entries content) :
    e.address.ntplId = 0 := by
  obtain ⟨line, -, hline⟩ := List.mem_filterMap.mp he
  simp only [entryOf] at hline
  split at hline
  · split at hline
    case h_1 addr hparse =>
      rw [Option.some.injEq] at hline
      rw [← hline]
      exact parse_ntplId hparse
    case h_2 => simp at hline
  · simp at hline

/-- The address without its id. -/
def IPAddress.reset (a : IPAddress) : IPAddress := { a with ntplId := 0 }

@[simp] theorem reset_key (a : IPAddress) : a.reset.key = a.key := rfl

/-- The filter an applied address stands for. -/
def installedFilter (a : IPAddress) : BitVec 32 × Text :=
  (a.ntplId, a.command.getD [])

/-- What holds between two calls of `process`. -/
structure DaemonInv (s : Daemon) : Prop where
  described : ∀ a ∈ s.handler.appliedAddrs,
    ∃ e ∈ entries s.content, e.address = a.reset
  covered : ∀ e ∈ entries s.content,
    s.handler.appliedAddrs.HasKey e.address.key
  known : ∀ e ∈ entries s.content, e.address.command.isSome = true
  apart : ∀ e ∈ entries s.content, ∀ e' ∈ entries s.content,
    e.address.key = e'.address.key → e = e'
  installed : s.adapter.filters.Perm
    (s.handler.appliedAddrs.elems.map installedFilter)
  ids : (s.handler.appliedAddrs.elems.map IPAddress.ntplId).Nodup
  nonzero : ∀ a ∈ s.handler.appliedAddrs, a.ntplId ≠ 0
  removals : ∀ r ∈ s.adapter.removals, r.2.map some = [r.1.command]

theorem DaemonInv.command_isSome {s : Daemon} (hinv : DaemonInv s)
    {a : IPAddress} (ha : a ∈ s.handler.appliedAddrs) :
    a.command.isSome = true := by
  obtain ⟨e, he, haddr⟩ := hinv.described a ha
  have hsome := hinv.known e he
  rwa [haddr] at hsome

/-- The applied addresses are the distinct entries. -/
theorem DaemonInv.applied_perm {s : Daemon} (hinv : DaemonInv s) :
    (s.handler.appliedAddrs.elems.map IPAddress.reset).Perm
      ((entries s.content).dedup.map Entry.address) := by
  refine (List.perm_ext_iff_of_nodup ?_ ?_).mpr fun a => ?_
  · apply List.Nodup.map_on ?_ s.handler.appliedAddrs.sorted.nodup
    intro a ha b hb heq
    apply KeySet.eq_of_key ha hb
    rw [← reset_key a, heq, reset_key]
  · apply List.Nodup.map_on ?_ (List.nodup_dedup _)
    intro e he e' he' heq
    rw [List.mem_dedup] at he he'
    exact hinv.apart e he e' he' (by rw [heq])
  · simp only [List.mem_map, List.mem_dedup]
    constructor
    · rintro ⟨b, hb, rfl⟩
      exact hinv.described b hb
    · rintro ⟨e, he, rfl⟩
      obtain ⟨b, hb, hkey⟩ := hinv.covered e he
      obtain ⟨e', he', haddr⟩ := hinv.described b hb
      refine ⟨b, hb, ?_⟩
      rw [hinv.apart e he e' he' (by rw [haddr, reset_key, hkey])]
      exact haddr.symm

theorem DaemonInv.inStep {s : Daemon} (hinv : DaemonInv s) : InStep s := by
  refine ⟨?_, ?_, hinv.removals⟩
  · have hcommands : (entries s.content).dedup.filterMap
        (fun e => e.address.command) =
          ((entries s.content).dedup.map Entry.address).map
            fun a => a.command.getD [] := by
      rw [List.map_map, ← List.filterMap_eq_map]
      apply List.filterMap_congr
      intro e he
      have hsome := hinv.known e (List.mem_dedup.mp he)
      obtain ⟨command, hcommand⟩ := Option.isSome_iff_exists.mp hsome
      simp [hcommand]
    rw [hcommands]
    refine ((hinv.installed.map Prod.snd).trans ?_).trans
      (hinv.applied_perm.map _)
    rw [List.map_map, List.map_map]
    exact List.Perm.refl _
  · refine (hinv.installed.map Prod.fst).nodup_iff.mpr ?_
    rw [List.map_map]
    exact hinv.ids

/-- Removing one of the installed addresses. -/
theorem removeNTPL_installed {adapter : Adapter} {a : IPAddress}
    {rest : List IPAddress}
    (hperm : adapter.filters.Perm ((a :: rest).map installedFilter))
    (hids : ((a :: rest).map IPAddress.ntplId).Nodup) (hne : a.ntplId ≠ 0) :
    (removeNTPL adapter a).filters.Perm (rest.map installedFilter) ∧
      (removeNTPL adapter a).removals =
        adapter.removals ++ [(a, [a.command.getD []])] := by
  rw [List.map_cons, List.nodup_cons] at hids
  have hother : ∀ b ∈ rest, b.ntplId ≠ a.ntplId := fun b hb heq =>
    hids.1 (heq ▸ List.mem_map_of_mem hb)
  have hkept := hperm.filter fun filter => filter.1 ≠ a.ntplId
  have hfound := hperm.filter fun filter => filter.1 = a.ntplId
  have hrest : (rest.map installedFilter).filter
      (fun filter => filter.1 ≠ a.ntplId) = rest.map installedFilter := by
    apply List.filter_eq_self.mpr
    intro filter hfilter
    obtain ⟨b, hb, rfl⟩ := List.mem_map.mp hfilter
    exact decide_eq_true (hother b hb)
  have hnone : (rest.map installedFilter).filter
      (fun filter => filter.1 = a.ntplId) = [] := by
    apply List.filter_eq_nil_iff.mpr
    intro filter hfilter
    obtain ⟨b, hb, rfl⟩ := List.mem_map.mp hfilter
    simp [installedFilter, hother b hb]
  rw [List.map_cons, List.filter_cons_of_neg (by simp [installedFilter]),
    hrest] at hkept
  rw [List.map_cons, List.filter_cons_of_pos (by simp [installedFilter]),
    hnone] at hfound
  rw [removeNTPL, if_neg hne]
  refine ⟨hkept, ?_⟩
  rw [List.perm_singleton.mp hfound]
  rfl

/-- The loop over `toRemove`. -/
theorem removeAll_installed {adapter : Adapter} {gone kept : List IPAddress}
    (hperm : adapter.filters.Perm ((gone ++ kept).map installedFilter))
    (hids : ((gone ++ kept).map IPAddress.ntplId).Nodup)
    (hne : ∀ a ∈ gone, a.ntplId ≠ 0) :
    (gone.foldl removeNTPL adapter).filters.Perm
        (kept.map installedFilter) ∧
      (gone.foldl removeNTPL adapter).removals = adapter.removals ++
        gone.map fun a => (a, [a.command.getD []]) := by
  induction gone generalizing adapter with
  | nil => exact ⟨hperm, (List.append_nil _).symm⟩
  | cons a gone ih =>
      obtain ⟨hfilters, hremovals⟩ :=
        removeNTPL_installed hperm hids (hne a List.mem_cons_self)
      rw [List.cons_append, List.map_cons, List.nodup_cons] at hids
      obtain ⟨hfilters', hremovals'⟩ := ih hfilters hids.2
        fun b hb => hne b (List.mem_cons_of_mem a hb)
      refine ⟨hfilters', ?_⟩
      rw [List.foldl_cons, hremovals', hremovals, List.map_cons,
        List.append_assoc]
      rfl

/-- The loop over `toAdd`. -/
theorem addFilters_installed {adapter : Adapter} {addrs : List IPAddress}
    {ids : List (BitVec 32)} (hlength : addrs.length ≤ ids.length)
    (hne : ∀ id ∈ ids, id ≠ 0)
    (hknown : ∀ a ∈ addrs, a.command.isSome = true) :
    ∃ added, addFilters adapter addrs ids =
        some ({ adapter with
          filters := adapter.filters ++ added.map installedFilter }, added) ∧
      added.map IPAddress.reset = addrs.map IPAddress.reset ∧
      added.map IPAddress.ntplId = ids.take addrs.length := by
  induction addrs generalizing adapter ids with
  | nil => exact ⟨[], by simp [addFilters]⟩
  | cons a addrs ih =>
      cases ids with
      | nil => simp at hlength
      | cons id ids =>
          have hid := hne id List.mem_cons_self
          obtain ⟨command, hcommand⟩ := Option.isSome_iff_exists.mp
            (hknown a List.mem_cons_self)
          obtain ⟨added, hadd, hreset, hids⟩ :=
            @ih (adapter.create id command) ids
              (Nat.le_of_succ_le_succ hlength)
              (fun id' hid' => hne id' (List.mem_cons_of_mem id hid'))
              fun b hb => hknown b (List.mem_cons_of_mem a hb)
          refine ⟨{ a with ntplId := id } :: added, ?_, ?_, ?_⟩
          · have hfilter : installedFilter { a with ntplId := id } =
                (id, command) := by
              change (id, a.command.getD []) = (id, command)
              rw [hcommand]
              rfl
            have hcreate : adapter.create id command = { adapter with
                filters := adapter.filters ++ [(id, command)] } :=
              if_neg hid
            rw [hcreate] at hadd
            simp only [addFilters, hcommand, hid, if_false, hcreate, hadd,
              Option.map_some, List.map_cons, hfilter, List.append_assoc,
              List.singleton_append]
          · rw [List.map_cons, List.map_cons, hreset]
            rfl
          · rw [List.map_cons, hids]
            rfl

theorem mem_entries_of_read {content : Text} {addrs : List IPAddress}
    (hread : readLines (Text.getlines content) = some addrs) (a : IPAddress) :
    a ∈ addrs ↔ ∃ e ∈ entries content, e.address = a := by
  rw [readLines_eq hread]
  exact List.mem_map

theorem process_eq {h : NTFileHandler} {adapter adapter' : Adapter}
    {content : Text} {ids : List (BitVec 32)} {addrs added : List IPAddress}
    (hread : readLines (Text.getlines content) = some addrs)
    (hadd : addFilters
      ((h.appliedAddrs.diff (KeySet.ofList IPAddress.key addrs)).elems.foldl
        removeNTPL adapter)
      ((KeySet.ofList IPAddress.key addrs).diff h.appliedAddrs).elems ids =
        some (adapter', added)) :
    process h adapter content ids = some
      ({ readAddrs := KeySet.ofList IPAddress.key addrs
         appliedAddrs :=
          (h.appliedAddrs.diff
            (h.appliedAddrs.diff (KeySet.ofList IPAddress.key addrs))).union
              (addedSet _ added (addFilters_keys hadd)) }, adapter') := by
  simp only [process, readFile, hread, Option.map_some]
  split
  case h_1 hnone =>
    rw [hadd] at hnone
    simp at hnone
  case h_2 hsome =>
    have heq := hadd.symm.trans hsome
    simp only [Option.some.injEq, Prod.mk.injEq] at heq
    obtain ⟨rfl, rfl⟩ := heq
    rfl

/-- What is kept is what the file still has. -/
theorem mem_kept {s t : AddrSet} {a : IPAddress} :
    a ∈ s.diff (s.diff t) ↔ a ∈ s ∧ t.HasKey a.key := by
  rw [KeySet.mem_diff]
  constructor
  · rintro ⟨ha, hnot⟩
    refine ⟨ha, ?_⟩
    by_contra hkey
    exact hnot ⟨a, KeySet.mem_diff.mpr ⟨ha, hkey⟩, rfl⟩
  · rintro ⟨ha, hkey⟩
    refine ⟨ha, ?_⟩
    rintro ⟨b, hb, heq⟩
    rw [← heq] at hkey
    exact (KeySet.mem_diff.mp hb).2 hkey

/-- What a `process` that gets through does: `read` are the addresses of the
file, and `new` those it created filters for. -/
structure Processed (s s' : Daemon) (change : FileChange)
    (read new : AddrSet) : Prop where
  content : s'.content = change.content
  applied : s'.handler.appliedAddrs =
    (s.handler.appliedAddrs.diff (s.handler.appliedAddrs.diff read)).union new
  address : ∀ a ∈ read, ∃ e ∈ entries change.content, e.address = a
  readKey : ∀ e ∈ entries change.content, read.HasKey e.address.key
  keys : ∀ k, new.HasKey k ↔ (read.diff s.handler.appliedAddrs).HasKey k
  resets : new.elems.map IPAddress.reset =
    (read.diff s.handler.appliedAddrs).elems.map IPAddress.reset
  ids : (new.elems.map IPAddress.ntplId).Sublist change.ids
  filters : s'.adapter.filters.Perm
    (((s.handler.appliedAddrs.diff (s.handler.appliedAddrs.diff read)).elems ++
      new.elems).map installedFilter)
  removals : s'.adapter.removals = s.adapter.removals ++
    (s.handler.appliedAddrs.diff read).elems.map
      fun a => (a, [a.command.getD []])

/-- The commands of `process` get through when there are ids for the new
addresses. -/
theorem DaemonInv.processed {s : Daemon} {change : FileChange}
    {addrs : List IPAddress} (hinv : DaemonInv s)
    (hread : readLines (Text.getlines change.content) = some addrs)
    (hlength : (entries change.content).length ≤ change.ids.length)
    (hnonzero : ∀ id ∈ change.ids, id ≠ 0)
    (hknown : ∀ e ∈ entries change.content, e.address.command.isSome = true) :
    ∃ s' read new, FilterDaemon.daemonStep s change = some s' ∧
      Processed s s' change read new := by
  have hmem := mem_entries_of_read hread
  let A := s.handler.appliedAddrs
  let R := KeySet.ofList IPAddress.key addrs
  have hR : ∀ a ∈ R, ∃ e ∈ entries change.content, e.address = a :=
    fun a ha => (hmem a).mp (KeySet.mem_of_mem_ofList ha)
  obtain ⟨hfilters, hremovals⟩ := @removeAll_installed s.adapter
    (A.diff R).elems (A.diff (A.diff R)).elems
    (hinv.installed.trans ((KeySet.diff_perm A R).symm.map _))
    (((KeySet.diff_perm A R).map _).nodup_iff.mpr hinv.ids)
    fun a ha => hinv.nonzero a (KeySet.mem_diff.mp ha).1
  have hshort : (R.diff A).elems.length ≤ change.ids.length := by
    have hsub : (R.diff A).elems.Subperm addrs :=
      List.subperm_of_subset (R.diff A).sorted.nodup fun a ha =>
        KeySet.mem_of_mem_ofList (KeySet.mem_diff.mp ha).1
    have haddrs : addrs.length = (entries change.content).length := by
      rw [readLines_eq hread, List.length_map]
      rfl
    exact (hsub.length_le.trans_eq haddrs).trans hlength
  obtain ⟨added, hadd, hreset, hids⟩ :=
    @addFilters_installed ((A.diff R).elems.foldl removeNTPL s.adapter)
      (R.diff A).elems change.ids hshort hnonzero fun a ha => by
        obtain ⟨e, he, rfl⟩ := hR a (KeySet.mem_diff.mp ha).1
        exact hknown e he
  have hprocess := @process_eq s.handler s.adapter _ change.content
    change.ids addrs added hread hadd
  have hkeys := addFilters_keys hadd
  refine ⟨_, R, addedSet (R.diff A) added hkeys,
    by rw [FilterDaemon.daemonStep, hprocess]; rfl, rfl, rfl, hR, ?_, ?_,
    hreset, ?_, ?_, hremovals⟩
  · exact fun e he => KeySet.hasKey_ofList.mpr
      (List.mem_map_of_mem ((hmem e.address).mpr ⟨e, he, rfl⟩))
  · intro k
    rw [← KeySet.hasKey_iff, ← KeySet.hasKey_iff]
    exact Iff.of_eq (congrArg (k ∈ ·) hkeys)
  · exact hids ▸ List.take_sublist _ _
  · rw [List.map_append]
    exact hfilters.append_right _

section Processed

variable {s s' : Daemon} {change : FileChange} {read new : AddrSet}
  (hprocessed : Processed s s' change read new)

include hprocessed

theorem Processed.applied_perm : s'.handler.appliedAddrs.elems.Perm
    ((s.handler.appliedAddrs.diff (s.handler.appliedAddrs.diff read)).elems ++
      new.elems) := by
  rw [hprocessed.applied]
  apply KeySet.union_perm
  rintro a ha ⟨b, hb, heq⟩
  obtain ⟨r, hr, hkey⟩ := (hprocessed.keys a.key).mp ⟨a, ha, rfl⟩
  apply (KeySet.mem_diff.mp hr).2
  rw [hkey, ← heq]
  exact ⟨b, (KeySet.mem_diff.mp hb).1, rfl⟩

/-- An applied address was applied before and is still in the file, or it is
new. -/
theorem Processed.mem_applied {a : IPAddress} :
    a ∈ s'.handler.appliedAddrs ↔
      (a ∈ s.handler.appliedAddrs ∧ read.HasKey a.key) ∨ a ∈ new := by
  rw [← mem_kept]
  exact hprocessed.applied_perm.mem_iff.trans List.mem_append

theorem Processed.described (hinv : DaemonInv s)
    (hsame : ∀ e ∈ entries s.content, ∀ e' ∈ entries change.content,
      e.address.key = e'.address.key → e = e') :
    ∀ a ∈ s'.handler.appliedAddrs,
      ∃ e ∈ entries s'.content, e.address = a.reset := by
  intro a ha
  rw [hprocessed.content]
  rcases hprocessed.mem_applied.mp ha with ⟨ha, r, hr, hkey⟩ | ha
  · obtain ⟨e, he, haddr⟩ := hinv.described a ha
    obtain ⟨e', he', rfl⟩ := hprocessed.address r hr
    have heq := hsame e he e' he' (by rw [haddr, reset_key, hkey])
    exact ⟨e', he', heq ▸ haddr⟩
  · have hmap : a.reset ∈
        (read.diff s.handler.appliedAddrs).elems.map IPAddress.reset :=
      hprocessed.resets ▸ List.mem_map_of_mem ha
    obtain ⟨r, hr, heq⟩ := List.mem_map.mp hmap
    obtain ⟨e, he, rfl⟩ := hprocessed.address r (KeySet.mem_diff.mp hr).1
    refine ⟨e, he, ?_⟩
    rw [← heq, IPAddress.reset, ← entry_ntplId he]

theorem Processed.covered :
    ∀ e ∈ entries s'.content,
      s'.handler.appliedAddrs.HasKey e.address.key := by
  intro e he
  rw [hprocessed.content] at he
  obtain ⟨r, hr, hrkey⟩ := hprocessed.readKey e he
  by_cases hkey : s.handler.appliedAddrs.HasKey e.address.key
  · obtain ⟨a, ha, heq⟩ := hkey
    refine ⟨a, hprocessed.mem_applied.mpr (Or.inl ⟨ha, r, hr, ?_⟩), heq⟩
    rw [hrkey, heq]
  · obtain ⟨a, ha, hakey⟩ := (hprocessed.keys e.address.key).mpr
      ⟨r, KeySet.mem_diff.mpr ⟨hr, hrkey ▸ hkey⟩, hrkey⟩
    exact ⟨a, hprocessed.mem_applied.mpr (Or.inr ha), hakey⟩

/-- The ids stay distinct when the new ones are not in use. -/
theorem Processed.ids_nodup (hinv : DaemonInv s) (hnodup : change.ids.Nodup)
    (hunused : ∀ id ∈ change.ids, id ∉ s.adapter.filters.map Prod.fst) :
    (s'.handler.appliedAddrs.elems.map IPAddress.ntplId).Nodup := by
  refine (hprocessed.applied_perm.map IPAddress.ntplId).nodup_iff.mpr ?_
  have hkept := ((KeySet.diff_perm s.handler.appliedAddrs read).map
    IPAddress.ntplId).nodup_iff.mpr hinv.ids
  rw [List.map_append] at hkept ⊢
  refine List.Nodup.append hkept.of_append_right
    (hnodup.sublist hprocessed.ids) ?_
  intro id hid hid'
  obtain ⟨a, ha, rfl⟩ := List.mem_map.mp hid
  apply hunused a.ntplId (hprocessed.ids.mem hid')
  exact List.mem_map.mpr ⟨installedFilter a, hinv.installed.mem_iff.mpr
    (List.mem_map_of_mem (mem_kept.mp ha).1), rfl⟩

theorem Processed.removals_ok (hinv : DaemonInv s) :
    ∀ r ∈ s'.adapter.removals, r.2.map some = [r.1.command] := by
  intro r hr
  rw [hprocessed.removals, List.mem_append] at hr
  rcases hr with hr | hr
  · exact hinv.removals r hr
  · obtain ⟨a, ha, rfl⟩ := List.mem_map.mp hr
    obtain ⟨command, hcommand⟩ := Option.isSome_iff_exists.mp
      (hinv.command_isSome (KeySet.mem_diff.mp ha).1)
    simp [hcommand]

end Processed

/-- One `process` of a file that meets the conditions. -/
theorem DaemonInv.daemonStep {s : Daemon} {change : FileChange}
    (hinv : DaemonInv s) (hfresh : freshIds s change = true)
    (happart : toldApart s change = true) :
    ∃ s', daemonStep s change = some s' ∧ DaemonInv s' := by
  simp only [freshIds, Bool.and_eq_true, decide_eq_true_eq,
    List.all_eq_true] at hfresh
  obtain ⟨⟨hnodup, hnew⟩, hlength⟩ := hfresh
  simp only [toldApart, Bool.and_eq_true, List.all_eq_true,
    decide_eq_true_eq] at happart
  obtain ⟨⟨hsome, hknown⟩, hdistinct⟩ := happart
  obtain ⟨addrs, hread⟩ := Option.isSome_iff_exists.mp hsome
  obtain ⟨s', read, new, hstep, hprocessed⟩ :=
    hinv.processed hread hlength (fun id hid => (hnew id hid).1) hknown
  have hcontent := hprocessed.content
  refine ⟨s', hstep, hprocessed.described hinv ?_, hprocessed.covered, ?_, ?_,
    ?_, hprocessed.ids_nodup hinv hnodup fun id hid => (hnew id hid).2, ?_,
    hprocessed.removals_ok hinv⟩
  · exact fun e he e' he' => hdistinct e (List.mem_append_left _ he) e'
      (List.mem_append_right _ he')
  · rw [hcontent]
    exact hknown
  · rw [hcontent]
    exact fun e he e' he' => hdistinct e (List.mem_append_right _ he) e'
      (List.mem_append_right _ he')
  · exact hprocessed.filters.trans
      (hprocessed.applied_perm.symm.map installedFilter)
  · intro a ha
    rcases hprocessed.mem_applied.mp ha with ⟨ha, -⟩ | ha
    · exact hinv.nonzero a ha
    · exact (hnew a.ntplId
        (hprocessed.ids.mem (List.mem_map_of_mem ha))).1

theorem daemonStart_inv : DaemonInv daemonStart := by
  have hentries : entries daemonStart.content = [] := by decide
  refine ⟨?_, ?_, ?_, ?_, List.Perm.refl _, List.nodup_nil, ?_, ?_⟩
  · exact fun a ha => absurd ha KeySet.not_mem_empty
  · simp [hentries]
  · simp [hentries]
  · simp [hentries]
  · exact fun a ha => absurd ha KeySet.not_mem_empty
  · simp [daemonStart]

/-- After every `process` of a run whose files meet the conditions the adapter
has the filters of the file, and the next such file is processed. -/
theorem inStep_of_run {s : Daemon}
    (hrun : Run daemonStep
      (fun s change => freshIds s change = true ∧ toldApart s change = true)
      daemonStart s) :
    InStep s ∧ ∀ change, freshIds s change = true →
      toldApart s change = true → ∃ s', daemonStep s change = some s' := by
  have hinv : DaemonInv s := by
    apply hrun.invariant
    · exact daemonStart_inv
    · rintro s change s' hinv ⟨hfresh, happart⟩ hstep
      obtain ⟨s'', hstep', hinv'⟩ := hinv.daemonStep hfresh happart
      rw [hstep, Option.some.injEq] at hstep'
      rw [hstep']
      exact hinv'
  refine ⟨hinv.inStep, fun change hfresh happart => ?_⟩
  obtain ⟨s', hstep, -⟩ := hinv.daemonStep hfresh happart
  exact ⟨s', hstep⟩

/-- A range, and the same range with another end. -/
def rangeTo16 : Text := "192.168.1.0..192.168.1.16\n".toList

def rangeTo20 : Text := "192.168.1.0..192.168.1.20\n".toList

/-- A file with a comment, an address twice and a network. -/
def smallFile : Text :=
  "# hosts\nsrc 10.0.0.1\n10.0.1.0/24\nsrc 10.0.0.1\n".toList

/-- A file is replaced by one with a common and a new entry. -/
theorem inStep_of_run_replaced : ∃ s,
    Run daemonStep
      (fun s change => freshIds s change = true ∧ toldApart s change = true)
      daemonStart s ∧
    s.adapter.filters.map Prod.fst = [1, 4] ∧ InStep s := by
  have hrun : (execOk daemonStep
      (fun s change => freshIds s change && toldApart s change) daemonStart
        [⟨smallFile, [1, 2, 3]⟩,
          ⟨"src 10.0.0.1 # kept\n::1\n".toList, [4, 5]⟩]).map
            (fun s => s.adapter.filters.map Prod.fst) = some [1, 4] := by
    decide +kernel
  simp only [Option.map_eq_some_iff] at hrun
  obtain ⟨s, hexec, hids⟩ := hrun
  have hrun : Run daemonStep
      (fun s change => freshIds s change = true ∧ toldApart s change = true)
      daemonStart s :=
    (run_of_execOk _ hexec).mono fun _ _ h => by
      rwa [Bool.and_eq_true] at h
  exact ⟨s, hrun, hids, (inStep_of_run hrun).1⟩

/-- The end of a range is edited: the old filter stays and the new one is
missing. -/
theorem inStep_fails : ∃ s,
    Run daemonStep (fun s change => freshIds s change = true) daemonStart s ∧
    s.content = rangeTo20 ∧ ¬ InStep s := by
  have hrun : (execOk daemonStep freshIds daemonStart
      [⟨rangeTo16, [1]⟩, ⟨rangeTo20, [2]⟩]).map (fun s =>
        (s.content, s.adapter.filters.map Prod.snd,
          (entries s.content).dedup.filterMap fun e => e.address.command)) =
      some (rangeTo20,
        ["IPMatchList = IPv4Addr == ([192.168.1.0]..[192.168.1.16])".toList],
        ["IPMatchList = IPv4Addr == ([192.168.1.0]..[192.168.1.20])".toList])
      := by
    decide +kernel
  simp only [Option.map_eq_some_iff, Prod.mk.injEq] at hrun
  obtain ⟨s, hexec, hcontent, hfilters, hentries⟩ := hrun
  refine ⟨s, run_of_execOk _ hexec, hcontent, fun hstep => ?_⟩
  have hperm := hstep.installed
  rw [hfilters, hentries, List.perm_singleton] at hperm
  exact absurd hperm (by decide +kernel)

end FilterDaemon

end NtapiExamples
