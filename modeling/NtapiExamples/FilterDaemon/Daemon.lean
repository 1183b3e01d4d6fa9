/-
`main` of `ntfilterd.cpp` from the point where it is a daemon: the statements it
sends at the start, the filters of the file, and the deletions at the end.  What else
is installed on the adapter is none of its business.
-/
import NtapiExamples.Lib.Decimal
import NtapiExamples.FilterDaemon.InStep

namespace NtapiExamples

namespace FilterDaemon

/-- The options that the statements contain. -/
structure DaemonOptions where
  streamid : Text
  color : BitVec 32
  priority : BitVec 32

def DaemonOptions.streamRange (o : DaemonOptions) : Text :=
  if 3 < o.streamid.length then "(".toList ++ o.streamid ++ ")".toList
  else o.streamid

/-- An `assign` statement, with what is added to the base priority. -/
def DaemonOptions.assign (o : DaemonOptions) (above : BitVec 32)
    (condition : Text) : Text :=
  "assign[streamid=".toList ++ o.streamRange.cstr ++ ";priority=".toList ++
    Text.decimal (o.priority + above) ++ ";color=".toList ++
    Text.decimal o.color ++ "] = ".toList ++ condition

/-- The condition on one of the two addresses of a packet. -/
def keyMatch (version source destination key : Text) : Text :=
  "(Layer3Protocol == ".toList ++ version ++ ") AND (KeyMatch(".toList ++
    version ++ "_SrcAddr) ".toList ++ source ++ [' '] ++ key ++
    " AND KeyMatch(".toList ++ version ++ "_DstAddr) ".toList ++ destination ++
    [' '] ++ key ++ ")".toList

/-- The filters that only establish the types of the match lists. -/
def dummyFilters : List Text :=
  ["IPMatchList[KeySet=3] = IPv4Addr == [0.0.0.0]".toList,
    "IPMatchList[KeySet=5] = IPv4Addr == [0.0.0.0]".toList,
    "IPMatchList[KeySet=4] = IPv6Addr == [0000:0000:0000:0000:0000:0000:0000:0000]".toList,
    "IPMatchList[KeySet=6] = IPv6Addr == [0000:0000:0000:0000:0000:0000:0000:0000]".toList]

/-- The statements whose ids go to `ntplIdx`. -/
def statements (o : DaemonOptions) : List Text :=
  ["define IPv4_SrcAddr = Field(Layer3Header[12]/32)".toList,
    "define IPv4_DstAddr = Field(Layer3Header[16]/32)".toList,
    "define IPv6_SrcAddr = Field(Layer3Header[8]/128)".toList,
    "define IPv6_DstAddr = Field(Layer3Header[24]/128)".toList,
    o.assign 0 (keyMatch "IPv4".toList "==".toList "!=".toList
      IPAddress.MatchKeyIPv4Src),
    o.assign 1 (keyMatch "IPv4".toList "!=".toList "==".toList
      IPAddress.MatchKeyIPv4Dst),
    o.assign 0 (keyMatch "IPv6".toList "==".toList "!=".toList
      IPAddress.MatchKeyIPv6Src),
    o.assign 1 (keyMatch "IPv6".toList "!=".toList "==".toList
      IPAddress.MatchKeyIPv6Dst),
    o.assign 2 "IPMatch == SrcIP,DstIP".toList]

/-- `NTUtils::NTPL("delete=%d", id)`. -/
def Adapter.delete (adapter : Adapter) (id : BitVec 32) : Adapter :=
  { adapter with filters := adapter.filters.filter fun filter => filter.1 ≠ id }

/-- A dummy filter is created and deleted, whether it could be created or not. -/
def runDummies (adapter : Adapter) (dummies : List (BitVec 32 × Text)) :
    Adapter :=
  dummies.foldl (fun adapter dummy =>
    (adapter.create dummy.1 dummy.2).delete dummy.1) adapter

def runStatements (adapter : Adapter) (answered : List (BitVec 32 × Text)) :
    Adapter :=
  answered.foldl (fun adapter statement =>
    adapter.create statement.1 statement.2) adapter

/-- The ids that the adapter answers with before the daemon reads its file; 0 where
a statement fails. -/
structure Answers where
  dummies : List (BitVec 32)
  statements : List (BitVec 32)
  four : dummies.length = 4
  nine : statements.length = 9

/-- The daemon when it opens its file. -/
def daemonReady (o : DaemonOptions) (adapter : Adapter) (answers : Answers) :
    Daemon :=
  { daemonStart with
    adapter := runStatements
      (runDummies adapter (answers.dummies.zip dummyFilters))
      (answers.statements.zip (statements o)) }

/-- `NTFileHandler::close`. -/
def NTFileHandler.close (h : NTFileHandler) (adapter : Adapter) : Adapter :=
  h.appliedAddrs.elems.foldl removeNTPL adapter

/-- The loop over `ntplIdx`. -/
def deleteStatements (adapter : Adapter) (ids : List (BitVec 32)) : Adapter :=
  ids.foldl (fun adapter id =>
    if id ≠ 0 then adapter.delete id else adapter) adapter

/-- What `main` does when it has been told to stop. -/
def shutdown (s : Daemon) (answers : Answers) : Adapter :=
  deleteStatements (s.handler.close s.adapter) answers.statements

/-- No filter that is installed has one of the ids, or the 0 of a failure. -/
structure Answers.New (answers : Answers) (adapter : Adapter) : Prop where
  dummies : ∀ id ∈ answers.dummies, id ∉ adapter.filters.map Prod.fst
  statements : ∀ id ∈ answers.statements, id ∉ adapter.filters.map Prod.fst

/-- The ids for the filters of the file are in use by no other filter. -/
def newIds (s : Daemon) (change : FileChange) : Bool :=
  decide change.ids.Nodup &&
    change.ids.all fun id => !(s.adapter.filters.map Prod.fst).contains id

/-- The daemon owns the filters of the applied addresses, behind those that were
there before. -/
structure Owns (base : List (BitVec 32 × Text)) (s : Daemon) : Prop where
  filters : ∃ own, s.adapter.filters = base ++ own ∧
    own.Perm (s.handler.appliedAddrs.elems.map installedFilter)
  ids : (s.handler.appliedAddrs.elems.map IPAddress.ntplId).Nodup
  nonzero : ∀ a ∈ s.handler.appliedAddrs, a.ntplId ≠ 0
  others : ∀ a ∈ s.handler.appliedAddrs, a.ntplId ∉ base.map Prod.fst

theorem removeNTPL_filters (adapter : Adapter) {a : IPAddress}
    (hne : a.ntplId ≠ 0) :
    (removeNTPL adapter a).filters =
      adapter.filters.filter fun filter => filter.1 ≠ a.ntplId := by
  rw [removeNTPL, if_neg hne]

/-- The filters that are left when addresses are removed. -/
theorem removeAll_filters (adapter : Adapter) {addrs : List IPAddress}
    (hne : ∀ a ∈ addrs, a.ntplId ≠ 0) :
    (addrs.foldl removeNTPL adapter).filters =
      adapter.filters.filter fun filter =>
        filter.1 ∉ addrs.map IPAddress.ntplId := by
  induction addrs generalizing adapter with
  | nil => simp
  | cons a addrs ih =>
      rw [List.foldl_cons, ih _ fun b hb => hne b (List.mem_cons_of_mem a hb),
        removeNTPL_filters adapter (hne a List.mem_cons_self),
        List.filter_filter]
      apply List.filter_congr
      intro filter _
      simp [Bool.and_comm]

/-- The filters that are left of some, and their ids are those of nothing that goes. -/
theorem filter_not_mem_append {base own : List (BitVec 32 × Text)}
    {ids : List (BitVec 32)} (hbase : ∀ id ∈ ids, id ∉ base.map Prod.fst) :
    (base ++ own).filter (fun filter => filter.1 ∉ ids) =
      base ++ own.filter fun filter => filter.1 ∉ ids := by
  rw [List.filter_append, List.filter_eq_self.mpr]
  intro filter hfilter
  apply decide_eq_true
  exact fun hid => hbase filter.1 hid (List.mem_map_of_mem hfilter)

/-- The loop over `toAdd` puts the new filters behind the others. -/
theorem addFilters_filters {adapter : Adapter} {addrs : List IPAddress}
    {ids : List (BitVec 32)} {r : Adapter × List IPAddress}
    (hadd : addFilters adapter addrs ids = some r) :
    r.1.filters = adapter.filters ++ r.2.map installedFilter ∧
      (r.2.map IPAddress.ntplId).Sublist ids ∧ ∀ a ∈ r.2, a.ntplId ≠ 0 := by
  induction addrs generalizing adapter ids r with
  | nil =>
      simp only [addFilters, Option.some.injEq] at hadd
      rw [← hadd]
      simp
  | cons addr addrs ih =>
      cases ids with
      | nil => simp [addFilters] at hadd
      | cons id ids =>
          simp only [addFilters] at hadd
          split at hadd
          · simp at hadd
          · rename_i command hcommand
            split at hadd
            · simp at hadd
            · rename_i hid
              simp only [Option.map_eq_some_iff] at hadd
              obtain ⟨r', hadd, rfl⟩ := hadd
              obtain ⟨hfilters, hids, hne⟩ := ih hadd
              have hinstalled : installedFilter { addr with ntplId := id } =
                  (id, command) := by
                change (id, addr.command.getD []) = (id, command)
                rw [hcommand]
                rfl
              refine ⟨?_, ?_, ?_⟩
              · rw [hfilters, Adapter.create, if_neg hid, List.map_cons,
                  hinstalled, List.append_assoc]
                rfl
              · exact hids.cons_cons id
              · intro a ha
                rcases List.mem_cons.mp ha with rfl | ha
                · exact hid
                · exact hne a ha

/-- What `process` has done when it gets through. -/
theorem process_some {s s' : Daemon} {change : FileChange}
    (hstep : daemonStep s change = some s') :
    ∃ (read new : AddrSet) (added : List IPAddress) (adapter : Adapter),
      addFilters
        ((s.handler.appliedAddrs.diff read).elems.foldl removeNTPL s.adapter)
        (read.diff s.handler.appliedAddrs).elems change.ids =
          some (adapter, added) ∧
      s'.adapter = adapter ∧ new.elems = added ∧
      s'.handler.appliedAddrs =
        (s.handler.appliedAddrs.diff
          (s.handler.appliedAddrs.diff read)).union new := by
  simp only [daemonStep, Option.map_eq_some_iff] at hstep
  obtain ⟨⟨handler, adapter⟩, hprocess, rfl⟩ := hstep
  simp only [process] at hprocess
  split at hprocess
  · simp at hprocess
  · rename_i h hread
    split at hprocess
    · simp at hprocess
    · rename_i adapter' added hadd
      simp only [readFile, Option.map_eq_some_iff] at hread
      obtain ⟨addrs, -, rfl⟩ := hread
      obtain ⟨rfl, rfl⟩ := Prod.mk.inj (Option.some.inj hprocess)
      exact ⟨_, addedSet _ added (addFilters_keys hadd), added, adapter', hadd,
        rfl, rfl, rfl⟩

section Owns

variable {base : List (BitVec 32 × Text)} {s : Daemon} (howns : Owns base s)

include howns

/-- What is left when some of the applied addresses are removed. -/
theorem Owns.removed (gone kept : List IPAddress)
    (hperm : (gone ++ kept).Perm s.handler.appliedAddrs.elems) :
    ∃ own, (gone.foldl removeNTPL s.adapter).filters = base ++ own ∧
      own.Perm (kept.map installedFilter) := by
  obtain ⟨own, hfilters, hown⟩ := howns.filters
  have happlied : ∀ a ∈ gone, a ∈ s.handler.appliedAddrs := by
    intro a ha
    exact hperm.mem_iff.mp (List.mem_append_left _ ha)
  have hids : ((gone ++ kept).map IPAddress.ntplId).Nodup :=
    (hperm.map IPAddress.ntplId).nodup_iff.mpr howns.ids
  rw [List.map_append, List.nodup_append] at hids
  refine ⟨own.filter fun filter => filter.1 ∉ gone.map IPAddress.ntplId, ?_, ?_⟩
  · rw [removeAll_filters _ fun a ha => howns.nonzero a (happlied a ha), hfilters]
    apply filter_not_mem_append
    intro id hid
    obtain ⟨a, ha, rfl⟩ := List.mem_map.mp hid
    exact howns.others a (happlied a ha)
  · have hboth := (hown.trans (hperm.symm.map installedFilter)).filter
      fun filter => filter.1 ∉ gone.map IPAddress.ntplId
    rw [List.map_append, List.filter_append] at hboth
    have hgone : (gone.map installedFilter).filter
        (fun filter => filter.1 ∉ gone.map IPAddress.ntplId) = [] := by
      apply List.filter_eq_nil_iff.mpr
      intro filter hfilter
      obtain ⟨a, ha, rfl⟩ := List.mem_map.mp hfilter
      simpa [installedFilter] using ⟨a, ha, rfl⟩
    have hkept : (kept.map installedFilter).filter
        (fun filter => filter.1 ∉ gone.map IPAddress.ntplId) =
          kept.map installedFilter := by
      apply List.filter_eq_self.mpr
      intro filter hfilter
      obtain ⟨a, ha, rfl⟩ := List.mem_map.mp hfilter
      apply decide_eq_true
      intro hid
      exact hids.2.2 _ hid _ (List.mem_map_of_mem ha) rfl
    rwa [hgone, hkept, List.nil_append] at hboth

/-- `close` deletes the filters of the file and no other. -/
theorem Owns.close : (s.handler.close s.adapter).filters = base := by
  obtain ⟨own, hfilters, hown⟩ :=
    howns.removed s.handler.appliedAddrs.elems [] (by rw [List.append_nil])
  rw [List.map_nil, List.perm_nil] at hown
  rw [NTFileHandler.close, hfilters, hown, List.append_nil]

/-- One `process`, whatever the file says. -/
theorem Owns.daemonStep {s' : Daemon} {change : FileChange}
    (hnew : newIds s change = true)
    (hstep : FilterDaemon.daemonStep s change = some s') : Owns base s' := by
  rw [newIds, Bool.and_eq_true, decide_eq_true_eq, List.all_eq_true] at hnew
  obtain ⟨hnodup, hunused⟩ := hnew
  obtain ⟨read, new, added, adapter, hadd, rfl, hadded, happlied⟩ :=
    process_some hstep
  have hsplit := KeySet.diff_perm s.handler.appliedAddrs read
  obtain ⟨own, hfilters, hown⟩ := howns.removed _ _ hsplit
  obtain ⟨hcreated, hids, hne⟩ := addFilters_filters hadd
  rw [hfilters] at hcreated
  have hkept : ∀ a ∈ s.handler.appliedAddrs.diff
      (s.handler.appliedAddrs.diff read), a ∈ s.handler.appliedAddrs :=
    fun a ha => (KeySet.mem_diff.mp ha).1
  have hadd' : ∀ a ∈ added,
      a.ntplId ∉ s.adapter.filters.map Prod.fst := by
    intro a ha
    have hid := hunused a.ntplId (hids.mem (List.mem_map_of_mem ha))
    exact by simpa using hid
  -- the new addresses have other keys, so the union is both
  have hunion : s'.handler.appliedAddrs.elems.Perm
      ((s.handler.appliedAddrs.diff
        (s.handler.appliedAddrs.diff read)).elems ++ added) := by
    rw [happlied, ← hadded]
    apply KeySet.union_perm
    rintro a ha ⟨b, hb, hkey⟩
    have hmem : a.key ∈ added.map IPAddress.key :=
      hadded ▸ List.mem_map_of_mem ha
    rw [addFilters_keys hadd] at hmem
    obtain ⟨r, hr, hrkey⟩ := List.mem_map.mp hmem
    exact (KeySet.mem_diff.mp hr).2 ⟨b, hkept b hb, hkey.trans hrkey.symm⟩
  constructor
  · refine ⟨own ++ added.map installedFilter, ?_, ?_⟩
    · rw [hcreated, List.append_assoc]
    · refine List.Perm.trans ?_ (hunion.symm.map installedFilter)
      rw [List.map_append]
      exact hown.append_right _
  · rw [(hunion.map IPAddress.ntplId).nodup_iff, List.map_append]
    have hold := (hsplit.map IPAddress.ntplId).nodup_iff.mpr howns.ids
    rw [List.map_append] at hold
    refine List.Nodup.append hold.of_append_right (hnodup.sublist hids) ?_
    intro id hid hid'
    obtain ⟨a, ha, rfl⟩ := List.mem_map.mp hid
    obtain ⟨b, hb, hb'⟩ := List.mem_map.mp hid'
    obtain ⟨own', hbefore, hown'⟩ := howns.filters
    apply hadd' b hb
    rw [hb', hbefore]
    refine List.mem_map.mpr ⟨installedFilter a, ?_, rfl⟩
    exact List.mem_append_right _
      (hown'.mem_iff.mpr (List.mem_map_of_mem (hkept a ha)))
  · intro a ha
    rcases List.mem_append.mp (hunion.mem_iff.mp ha) with ha | ha
    · exact howns.nonzero a (hkept a ha)
    · exact hne a ha
  · intro a ha
    rcases List.mem_append.mp (hunion.mem_iff.mp ha) with ha | ha
    · exact howns.others a (hkept a ha)
    · intro hbase
      apply hadd' a ha
      obtain ⟨own', hbefore, -⟩ := howns.filters
      rw [hbefore, List.map_append]
      exact List.mem_append_left _ hbase

end Owns

theorem owns_ready (o : DaemonOptions) (adapter : Adapter)
    (answers : Answers) :
    Owns (daemonReady o adapter answers).adapter.filters
      (daemonReady o adapter answers) where
  filters := ⟨[], (List.append_nil _).symm, List.Perm.refl _⟩
  ids := List.nodup_nil
  nonzero := fun _ ha => absurd ha KeySet.not_mem_empty
  others := fun _ ha => absurd ha KeySet.not_mem_empty

/-- No filter of a list has an id that is deleted. -/
theorem delete_of_not_mem {adapter : Adapter} {id : BitVec 32}
    (hid : id ∉ adapter.filters.map Prod.fst) : adapter.delete id = adapter := by
  rw [Adapter.delete, List.filter_eq_self.mpr]
  intro filter hfilter
  apply decide_eq_true
  rintro rfl
  exact hid (List.mem_map_of_mem hfilter)

/-- The dummy filters come and go. -/
theorem runDummies_eq {adapter : Adapter} {dummies : List (BitVec 32 × Text)}
    (hnew : ∀ dummy ∈ dummies, dummy.1 ∉ adapter.filters.map Prod.fst) :
    runDummies adapter dummies = adapter := by
  have hone : ∀ dummy ∈ dummies,
      (adapter.create dummy.1 dummy.2).delete dummy.1 = adapter := by
    intro dummy hdummy
    rw [Adapter.create]
    split
    · exact delete_of_not_mem (hnew dummy hdummy)
    · have hself : ({ adapter with
          filters := adapter.filters ++ [dummy] } : Adapter).delete dummy.1 =
            adapter.delete dummy.1 := by
        simp [Adapter.delete]
      exact hself.trans (delete_of_not_mem (hnew dummy hdummy))
  rw [runDummies]
  induction dummies with
  | nil => rfl
  | cons dummy dummies ih =>
      rw [List.foldl_cons, hone dummy List.mem_cons_self]
      exact ih (fun d hd => hnew d (List.mem_cons_of_mem dummy hd))
        fun d hd => hone d (List.mem_cons_of_mem dummy hd)

/-- The statements that succeed are installed behind what is there. -/
theorem runStatements_filters (adapter : Adapter)
    (answered : List (BitVec 32 × Text)) :
    (runStatements adapter answered).filters =
      adapter.filters ++ answered.filter fun statement => statement.1 ≠ 0 := by
  rw [runStatements]
  induction answered generalizing adapter with
  | nil => simp
  | cons statement answered ih =>
      rw [List.foldl_cons, ih, Adapter.create]
      split
      · rename_i hzero
        rw [List.filter_cons_of_neg (by simpa using hzero)]
      · rename_i hzero
        have hpos : (statement :: answered).filter
            (fun statement => statement.1 ≠ 0) =
              statement :: answered.filter fun statement => statement.1 ≠ 0 :=
          List.filter_cons_of_pos (decide_eq_true hzero)
        rw [hpos, List.append_assoc]
        rfl

theorem deleteStatements_filters (adapter : Adapter)
    (ids : List (BitVec 32)) :
    (deleteStatements adapter ids).filters =
      adapter.filters.filter fun filter =>
        filter.1 ∉ ids.filter fun id => id ≠ 0 := by
  rw [deleteStatements]
  induction ids generalizing adapter with
  | nil => simp
  | cons id ids ih =>
      rw [List.foldl_cons, ih]
      by_cases hid : id = 0
      · simp [hid]
      · have hpos : (id :: ids).filter (fun id => id ≠ 0) =
            id :: ids.filter fun id => id ≠ 0 :=
          List.filter_cons_of_pos (decide_eq_true hid)
        rw [if_pos hid, hpos, Adapter.delete, List.filter_filter]
        apply List.filter_congr
        intro filter _
        simp [Bool.and_comm]

/-- In every state of the daemon the filters that were installed before it are in
front of its own, and when it stops they are all that is left, whatever its files said
and whichever of its statements failed. -/
theorem daemon_restores {o : DaemonOptions} {adapter : Adapter}
    {answers : Answers} {s : Daemon} (hanswers : answers.New adapter)
    (hrun : Run daemonStep (fun s change => newIds s change = true)
      (daemonReady o adapter answers) s) :
    adapter.filters <+: s.adapter.filters ∧
      (shutdown s answers).filters = adapter.filters := by
  have hready : (daemonReady o adapter answers).adapter.filters =
      adapter.filters ++ (answers.statements.zip (statements o)).filter
        fun statement => statement.1 ≠ 0 := by
    have hdummies : runDummies adapter (answers.dummies.zip dummyFilters) =
        adapter := by
      apply runDummies_eq
      intro dummy hdummy
      exact hanswers.dummies dummy.1 (List.of_mem_zip hdummy).1
    rw [daemonReady, hdummies, runStatements_filters]
  have howns : Owns (daemonReady o adapter answers).adapter.filters s := by
    apply hrun.invariant
    · exact owns_ready o adapter answers
    · intro s change s' howns hnew hstep
      exact howns.daemonStep hnew hstep
  rw [hready] at howns
  constructor
  · obtain ⟨own, hfilters, -⟩ := howns.filters
    rw [hfilters, List.append_assoc]
    exact List.prefix_append _ _
  · have hothers : ∀ id ∈ answers.statements.filter (fun id => id ≠ 0),
        id ∉ adapter.filters.map Prod.fst := by
      intro id hid
      exact hanswers.statements id (List.mem_of_mem_filter hid)
    have hown : ((answers.statements.zip (statements o)).filter
        fun statement => statement.1 ≠ 0).filter (fun filter =>
          filter.1 ∉ answers.statements.filter fun id => id ≠ 0) = [] := by
      apply List.filter_eq_nil_iff.mpr
      intro filter hfilter
      obtain ⟨hzip, hne⟩ := List.mem_filter.mp hfilter
      have hid : filter.1 ∈ answers.statements.filter fun id => id ≠ 0 :=
        List.mem_filter.mpr ⟨(List.of_mem_zip hzip).1, hne⟩
      exact fun hnot => of_decide_eq_true hnot hid
    rw [shutdown, deleteStatements_filters, howns.close,
      filter_not_mem_append hothers, hown, List.append_nil]

/-- An adapter with a filter of someone else, and the ids it gives the daemon; the
statement with the second address of IPv6 packets is refused. -/
def usedAdapter : Adapter where
  filters := [(7, "assign[streamid=9] = all".toList)]
  removals := []

def refusedOnce : Answers where
  dummies := [1, 1, 1, 1]
  statements := [1, 2, 3, 4, 5, 6, 8, 0, 9]
  four := rfl
  nine := rfl

theorem daemon_restores_used : ∃ s,
    s.adapter.filters.map Prod.fst = [7, 1, 2, 3, 4, 5, 6, 8, 9, 10, 13] ∧
      (shutdown s refusedOnce).filters = usedAdapter.filters := by
  have hrun : (execOk daemonStep newIds
      (daemonReady ⟨"0..3".toList, 1, 0⟩ usedAdapter refusedOnce)
        [⟨smallFile, [10, 11, 12]⟩,
          ⟨"src 10.0.0.1 # kept\n::1\n".toList, [13, 14]⟩]).map
            (fun s => s.adapter.filters.map Prod.fst) =
              some [7, 1, 2, 3, 4, 5, 6, 8, 9, 10, 13] := by
    decide +kernel
  simp only [Option.map_eq_some_iff] at hrun
  obtain ⟨s, hexec, hids⟩ := hrun
  have hnew : refusedOnce.New usedAdapter :=
    ⟨by simp [refusedOnce, usedAdapter], by simp [refusedOnce, usedAdapter]⟩
  exact ⟨s, hids, (daemon_restores hnew (run_of_execOk _ hexec)).2⟩

end FilterDaemon

end NtapiExamples
