/-
`NTFileHandler.cpp`: the filter file is read into a set of addresses, and
`process` turns the difference to the addresses applied so far into NTPL
commands.  The adapter is the list of the filters that are installed, each with
the id its creation returned.
-/
import Mathlib.Data.List.Lex
import Mathlib.Data.Char
import NtapiExamples.Lib.KeySet
import NtapiExamples.FilterDaemon.IPAddress

namespace NtapiExamples

namespace FilterDaemon

/-- `set<IPAddress>`. -/
abbrev AddrSet := KeySet IPAddress.key

/-- The sets of `class NTFileHandler`. -/
structure NTFileHandler where
  appliedAddrs : AddrSet
  readAddrs : AddrSet

/-- A line without its comment. -/
def uncomment (line : Text) : Text := line.takeWhile (· ≠ '#')

/-- The addresses of the lines that parse, in the order of the file; `none`
when some line leaves the array of `parse`. -/
def readLines : List Text → Option (List IPAddress)
  | [] => some []
  | line :: lines =>
      if (uncomment line).length > 0 then do
        let (addr, ok) ← IPAddress.parse (uncomment line)
        let addrs ← readLines lines
        some (if ok then addr :: addrs else addrs)
      else readLines lines

/-- `readFile`. -/
def readFile (h : NTFileHandler) (content : Text) : Option NTFileHandler :=
  (readLines (Text.getlines content)).map fun addrs =>
    { h with readAddrs := KeySet.ofList IPAddress.key addrs }

/-- The filters of the adapter.  `removals` is what each `removeNTPL` found
under its id; no step reads it. -/
structure Adapter where
  filters : List (BitVec 32 × Text)
  removals : List (IPAddress × List Text)

/-- `NTUtils::NTPL` with a create command; an id of 0 is a failure. -/
def Adapter.create (adapter : Adapter) (id : BitVec 32) (command : Text) :
    Adapter :=
  if id = 0 then adapter
  else { adapter with filters := adapter.filters ++ [(id, command)] }

/-- `removeNTPL`. -/
def removeNTPL (adapter : Adapter) (addr : IPAddress) : Adapter :=
  if addr.ntplId = 0 then adapter
  else
    { filters := adapter.filters.filter fun filter => filter.1 ≠ addr.ntplId
      removals := adapter.removals ++
        [(addr, (adapter.filters.filter fun filter =>
          filter.1 = addr.ntplId).map Prod.snd)] }

/-- The loop of `process` that calls `addNTPL`.  `ids` are the results of the
create commands.  An element whose filter is not created is erased from the set
under the iterator of the loop, which has no defined behaviour. -/
def addFilters (adapter : Adapter) :
    List IPAddress → List (BitVec 32) → Option (Adapter × List IPAddress)
  | [], _ => some (adapter, [])
  | _ :: _, [] => none
  | addr :: addrs, id :: ids =>
      match addr.command with
      | none => none
      | some command =>
          if id = 0 then none
          else
            (addFilters (adapter.create id command) addrs ids).map fun r =>
              (r.1, { addr with ntplId := id } :: r.2)

/-- The loop keeps the keys, so the elements stay where they are in the set. -/
theorem addFilters_keys {adapter : Adapter} {addrs : List IPAddress}
    {ids : List (BitVec 32)} {r : Adapter × List IPAddress}
    (hadd : addFilters adapter addrs ids = some r) :
    r.2.map IPAddress.key = addrs.map IPAddress.key := by
  induction addrs generalizing adapter ids r with
  | nil =>
      simp only [addFilters, Option.some.injEq] at hadd
      rw [← hadd]
  | cons addr addrs ih =>
      cases ids with
      | nil => simp [addFilters] at hadd
      | cons id ids =>
          simp only [addFilters] at hadd
          split at hadd
          · simp at hadd
          · split at hadd
            · simp at hadd
            · simp only [Option.map_eq_some_iff] at hadd
              obtain ⟨r', hadd, rfl⟩ := hadd
              rw [List.map_cons, List.map_cons, ih hadd]
              rfl

/-- The set after the loop. -/
def addedSet (toAdd : AddrSet) (added : List IPAddress)
    (hkeys : added.map IPAddress.key = toAdd.elems.map IPAddress.key) :
    AddrSet :=
  ⟨added, by
    have hsorted := toAdd.sorted
    rw [KeySorted, ← List.pairwise_map (f := IPAddress.key)] at hsorted ⊢
    rwa [hkeys]⟩

/-- `process`. -/
def process (h : NTFileHandler) (adapter : Adapter) (content : Text)
    (ids : List (BitVec 32)) : Option (NTFileHandler × Adapter) :=
  match readFile h content with
  | none => none
  | some h =>
      let toAdd := h.readAddrs.diff h.appliedAddrs
      let toRemove := h.appliedAddrs.diff h.readAddrs
      let toKeep := h.appliedAddrs.diff toRemove
      match hadd : addFilters (toRemove.elems.foldl removeNTPL adapter)
          toAdd.elems ids with
      | none => none
      | some (adapter, added) =>
          some ({ h with
            appliedAddrs :=
              toKeep.union (addedSet toAdd added (addFilters_keys hadd)) },
            adapter)

end FilterDaemon

end NtapiExamples
