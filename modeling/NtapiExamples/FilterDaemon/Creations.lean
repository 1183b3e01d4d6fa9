/-
What becomes of filters that cannot be created.  The loop of `process` erases a
failed entry from the set it walks and then steps the iterator of that entry,
so that only files without failures get through it.
-/
import NtapiExamples.FilterDaemon.InStep

namespace NtapiExamples

namespace FilterDaemon

/-- `toAdd` of `process`, `addrs` being the addresses of the file. -/
def toAddOf (h : NTFileHandler) (addrs : List IPAddress) : AddrSet :=
  (KeySet.ofList IPAddress.key addrs).diff h.appliedAddrs

/-- `toRemove` of `process`. -/
def toRemoveOf (h : NTFileHandler) (addrs : List IPAddress) : AddrSet :=
  h.appliedAddrs.diff (KeySet.ofList IPAddress.key addrs)

/-- `toKeep` of `process`. -/
def toKeepOf (h : NTFileHandler) (addrs : List IPAddress) : AddrSet :=
  h.appliedAddrs.diff (toRemoveOf h addrs)

/-- The entry with the id of its filter. -/
def IPAddress.withId (a : IPAddress) (id : BitVec 32) : IPAddress :=
  { a with ntplId := id }

/-- `addNTPL` succeeds for an entry: there is a command for it, and the command
returns an id. -/
def created (results : IPAddress → BitVec 32) (a : IPAddress) : Bool :=
  a.command.isSome && results a != 0

/-- `process` gets through its creation loop with one attempt an entry: the
adapter has a filter for each entry whose creation succeeded, the applied
addresses are those kept and those created under their own ids, and a failed
entry is not among them, to be tried again. -/
def CreationsHandled (h : NTFileHandler) (adapter : Adapter) (content : Text)
    (results : IPAddress → BitVec 32) : Prop :=
  ∃ addrs h' adapter',
    readLines (Text.getlines content) = some addrs ∧
    process h adapter content ((toAddOf h addrs).elems.map results) =
      some (h', adapter') ∧
    adapter'.filters =
      ((toRemoveOf h addrs).elems.foldl removeNTPL adapter).filters ++
        ((toAddOf h addrs).elems.filter (created results)).map
          (fun a => (results a, a.command.getD [])) ∧
    (∀ a, a ∈ h'.appliedAddrs ↔ a ∈ toKeepOf h addrs ∨
      ∃ b ∈ toAddOf h addrs, created results b = true ∧
        a = b.withId (results b)) ∧
    ∀ b ∈ toAddOf h addrs, created results b = false →
      ¬ h'.appliedAddrs.HasKey b.key

/-- The loop, when every creation succeeds. -/
theorem addFilters_of_created {results : IPAddress → BitVec 32}
    {adapter : Adapter} {addrs : List IPAddress}
    (hcreated : ∀ a ∈ addrs, created results a = true) :
    addFilters adapter addrs (addrs.map results) =
      some ({ adapter with
        filters := adapter.filters ++
          addrs.map fun a => (results a, a.command.getD []) },
        addrs.map fun a => a.withId (results a)) := by
  induction addrs generalizing adapter with
  | nil => simp [addFilters]
  | cons a addrs ih =>
      have hhead := hcreated a List.mem_cons_self
      simp only [created, Bool.and_eq_true, bne_iff_ne,
        Option.isSome_iff_exists] at hhead
      obtain ⟨⟨command, hcommand⟩, hid⟩ := hhead
      have hcreate : adapter.create (results a) command = { adapter with
          filters := adapter.filters ++ [(results a, command)] } := if_neg hid
      have hrest := @ih (adapter.create (results a) command)
        fun b hb => hcreated b (List.mem_cons_of_mem a hb)
      rw [hcreate] at hrest
      rw [List.map_cons, addFilters, hcommand]
      simp only [if_neg hid, hcreate, hrest, Option.map_some, List.map_cons,
        hcommand, Option.getD_some, List.append_assoc, List.singleton_append,
        IPAddress.withId]

/-- The loop gets to its end only when every creation succeeds. -/
theorem created_of_addFilters {results : IPAddress → BitVec 32}
    {adapter : Adapter} {addrs : List IPAddress}
    {r : Adapter × List IPAddress}
    (hadd : addFilters adapter addrs (addrs.map results) = some r) :
    ∀ a ∈ addrs, created results a = true := by
  induction addrs generalizing adapter r with
  | nil => simp
  | cons a addrs ih =>
      rw [List.map_cons, addFilters] at hadd
      cases hcommand : a.command with
      | none => simp [hcommand] at hadd
      | some command =>
          simp only [hcommand] at hadd
          split at hadd
          · simp at hadd
          case isFalse hid =>
            obtain ⟨r', hrest, _⟩ := Option.map_eq_some_iff.mp hadd
            intro b hb
            rcases List.mem_cons.mp hb with rfl | hb
            · rw [created, hcommand, Option.isSome_some, Bool.true_and,
                bne_iff_ne]
              exact hid
            · exact ih hrest b hb

/-- `process` gets through only when every creation of its loop succeeds. -/
theorem created_of_process {h h' : NTFileHandler} {adapter adapter' : Adapter}
    {content : Text} {results : IPAddress → BitVec 32} {addrs : List IPAddress}
    (hread : readLines (Text.getlines content) = some addrs)
    (hprocess : process h adapter content
      ((toAddOf h addrs).elems.map results) = some (h', adapter')) :
    ∀ a ∈ toAddOf h addrs, created results a = true := by
  simp only [process, readFile, hread, Option.map_some] at hprocess
  split at hprocess
  · simp at hprocess
  case h_2 hadd => exact created_of_addFilters hadd

/-- A line that is no address, in the first file of the daemon. -/
def noAddress : Text := "localhost\n".toList

/-- The creation of an entry without '.' and ':' always fails, and the loop does
not get past it. -/
theorem noAddress_not_handled :
    ¬ ∀ (s : Daemon) (content : Text) (results : IPAddress → BitVec 32),
      Run daemonStep anyStep daemonStart s →
      CreationsHandled s.handler s.adapter content results := by
  intro hall
  obtain ⟨addrs, h', adapter', hread, hprocess, _⟩ :=
    hall daemonStart noAddress (fun _ => 1) Run.refl
  have hcreated := created_of_process hread hprocess
  have hlines : (readLines (Text.getlines noAddress)).map (fun addrs =>
      (toAddOf daemonStart.handler addrs).elems.map (created fun _ => 1)) =
      some [false] := by
    decide +kernel
  rw [hread, Option.map_some, Option.some.injEq] at hlines
  cases helems : (toAddOf daemonStart.handler addrs).elems with
  | nil => simp [helems] at hlines
  | cons a rest =>
      have ha := hcreated a (by
        change a ∈ (toAddOf daemonStart.handler addrs).elems
        rw [helems]
        exact List.mem_cons_self)
      rw [helems, List.map_cons, ha] at hlines
      simp at hlines

/-- Whatever is applied, `process` handles its creations exactly when every
line can be read and every creation succeeds. -/
theorem creationsHandled_iff (h : NTFileHandler) (adapter : Adapter)
    (content : Text) (results : IPAddress → BitVec 32) :
    CreationsHandled h adapter content results ↔
      ∃ addrs, readLines (Text.getlines content) = some addrs ∧
        ∀ a ∈ toAddOf h addrs, created results a = true := by
  constructor
  · rintro ⟨addrs, h', adapter', hread, hprocess, _⟩
    exact ⟨addrs, hread, created_of_process hread hprocess⟩
  · rintro ⟨addrs, hread, hcreated⟩
    have hadd := @addFilters_of_created results
      ((toRemoveOf h addrs).elems.foldl removeNTPL adapter)
      (toAddOf h addrs).elems hcreated
    have hall : (toAddOf h addrs).elems.filter (created results) =
        (toAddOf h addrs).elems := List.filter_eq_self.mpr hcreated
    refine ⟨addrs, _, _, hread, process_eq hread hadd, ?_, ?_, ?_⟩
    · rw [hall]
    · intro a
      rw [KeySet.mem_union]
      apply or_congr Iff.rfl
      constructor
      · rintro ⟨ha, _⟩
        obtain ⟨b, hb, rfl⟩ := List.mem_map.mp ha
        exact ⟨b, hb, hcreated b hb, rfl⟩
      · rintro ⟨b, hb, _, rfl⟩
        refine ⟨List.mem_map.mpr ⟨b, hb, rfl⟩, ?_⟩
        -- The keys of new entries are not among the applied ones.
        rintro ⟨c, hc, hkey⟩
        exact (KeySet.mem_diff.mp hb).2
          ⟨c, (KeySet.mem_diff.mp hc).1, hkey⟩
    · intro b hb hfailed
      rw [hcreated b hb] at hfailed
      cases hfailed

end FilterDaemon

end NtapiExamples
