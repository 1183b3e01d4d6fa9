/-
Sequences of `ft_add` and `ft_remove` calls after `ft_init`.  A live entry is one
that `ft_add` returned and that was not passed to `ft_remove` since.
-/
import NtapiExamples.Ntnetflow.FlowTableInit
import NtapiExamples.Ntnetflow.FlowTableLookup
import NtapiExamples.Lib.Run

namespace NtapiExamples

namespace Ntnetflow

/-- The table between two calls, with the entries that are live. -/
structure Calls where
  table : FlowTable
  live : List EntryPtr

inductive Call where
  | add (addr : Nat) (hash : BitVec 32) (keyData : KeyData)
      (color : BitVec 16)
  | remove (e : EntryPtr)

/-- One call; `addr` is the block `calloc` would return. -/
def callStep (s : Calls) : Call → Option Calls
  | .add addr hash keyData color => do
      let (t, added) ← s.table.ftAdd (some addr) hash keyData color
      let e ← added
      some ⟨t, e :: s.live⟩
  | .remove e => do
      let t ← s.table.ftRemove e
      some ⟨t, s.live.erase e⟩

namespace FlowTable

variable {t t' : FlowTable} {e : EntryPtr}

theorem initEntry_finishAdd_total {hash : BitVec 32} {keyData : KeyData}
    {color : BitVec 16} (hvalid : t.valid e.bucket = true) :
    ∃ t₁ t₂, t.initEntry e hash keyData color = some t₁ ∧
      t₁.finishAdd e = some t₂ := by
  have hfinish : ∀ s : FlowTable, s.valid e.bucket = true →
      ∃ s', s.finishAdd e = some s' := by
    intro s hs
    rw [finishAdd, ftRef]
    refine ⟨_, modifyEntry_eq_some_iff.mpr ⟨?_, rfl⟩⟩
    rw [statsUpdate_valid, statsUpdate_valid]
    exact hs
  let t₁ := t.setEntry e { t.entry e with
    bucket := some e.bucket, hash := hash, flags := 0#32, color := color
    info := fiInit
    keyData := memcpy (t.entry e).keyData 0
      (fun i => if h : i < FLOW_MAX_KEY_LEN then keyData ⟨i, h⟩ else 0#8) 0
      (keyLen color) }
  obtain ⟨t₂, ht₂⟩ := hfinish t₁ (by rw [setEntry_valid]; exact hvalid)
  exact ⟨t₁, t₂, modifyEntry_eq_some_iff.mpr ⟨hvalid, rfl⟩, ht₂⟩

theorem ftAddBucket_total {addr : Nat} (hfresh : addr ∉ t.heap)
    {tail : BucketPtr} (htail : t.valid tail = true) (chain : Nat)
    (dynamic : Bool) :
    ∃ t₁, t.ftAddBucket (some addr) chain (some tail) dynamic =
      some (t₁, some (.heap addr)) ∧ t₁.valid tail = true ∧
        t₁.valid (.heap addr) = true := by
  let fresh : FlowTable := { t.setBucket (.heap addr) FlowBucket.zero with
    heap := addr :: t.heap }
  have htailFresh : fresh.valid tail = true := by
    cases tail with
    | first c => exact htail
    | heap other =>
        simp only [valid, decide_eq_true_iff] at htail
        simp [fresh, valid, htail]
  have hnewFresh : fresh.valid (.heap addr) = true := by
    simp [fresh, valid]
  simp only [ftAddBucket, hfresh, if_false, ftInitBucket, Option.bind_eq_bind]
  refine ⟨_, Option.bind_eq_some_iff.mpr ⟨_, Option.bind_eq_some_iff.mpr ⟨_,
    modifyBucket_eq_some_iff.mpr ⟨htailFresh, rfl⟩,
    modifyBucket_eq_some_iff.mpr ⟨?_, rfl⟩⟩, rfl⟩, ?_, ?_⟩
  · rw [setBucket_valid]
    exact hnewFresh
  · rw [setBucket_valid, setBucket_valid]
    exact htailFresh
  · rw [setBucket_valid, setBucket_valid]
    exact hnewFresh

theorem appendBucket_total {addr : Nat} (hfresh : addr ∉ t.heap)
    {tail : BucketPtr} (htail : t.valid tail = true) {chain : Nat}
    (hlast : t.last chain = some tail) :
    ∃ t₂, t.appendBucket (some addr) chain =
      some (t₂, some ⟨.heap addr, 0⟩) ∧ t₂.valid (.heap addr) = true := by
  obtain ⟨t₁, hbucket, htail₁, hnew₁⟩ :=
    ftAddBucket_total hfresh htail chain true
  simp only [appendBucket, hlast, hbucket, Option.bind_eq_bind,
    Option.bind_some]
  refine ⟨_, Option.bind_eq_some_iff.mpr ⟨_,
    modifyBucket_eq_some_iff.mpr ⟨htail₁, rfl⟩, rfl⟩, ?_⟩
  rw [setBucket_valid]
  exact hnew₁

theorem unlinkBucket_total {p : BucketPtr} (hvalid : t.valid p = true)
    (hneighbours : ∀ q, (t.mem p).prev = some q ∨ (t.mem p).next = some q →
      t.valid q = true) : ∃ t', t.unlinkBucket p = some t' := by
  have hlast : ∀ q, (if t.last (t.mem p).parent = some p then
      { t with last :=
          Function.update t.last (t.mem p).parent (t.mem p).prev }
      else t).valid q = t.valid q := by
    intro q
    split
    · cases q <;> rfl
    · rfl
  simp only [unlinkBucket, deref, hvalid, if_true, Option.bind_eq_bind,
    Option.bind_some]
  cases hprev : (t.mem p).prev with
  | none =>
      cases hnext : (t.mem p).next with
      | none => exact ⟨_, rfl⟩
      | some next =>
          refine ⟨_, modifyBucket_eq_some_iff.mpr ⟨?_, rfl⟩⟩
          rw [← hprev, hlast]
          exact hneighbours next (Or.inr hnext)
  | some prev =>
      have hvprev := hneighbours prev (Or.inl hprev)
      rw [← hlast, hprev] at hvprev
      cases hnext : (t.mem p).next with
      | none =>
          exact ⟨_, Option.bind_eq_some_iff.mpr ⟨_,
            modifyBucket_eq_some_iff.mpr ⟨hvprev, rfl⟩, rfl⟩⟩
      | some next =>
          refine ⟨_, Option.bind_eq_some_iff.mpr ⟨_,
            modifyBucket_eq_some_iff.mpr ⟨hvprev, rfl⟩,
            modifyBucket_eq_some_iff.mpr ⟨?_, rfl⟩⟩⟩
          rw [setBucket_valid, ← hprev, hlast]
          exact hneighbours next (Or.inr hnext)

/-- The neighbours of a bucket that `ft_remove` can free are allocated. -/
theorem TableInv.neighbours (hinv : TableInv t) {p : BucketPtr}
    (hvalid : t.valid p = true) (hdynamic : t.Dynamic p) {q : BucketPtr}
    (hq : t.prevOf p = some q ∨ t.nextOf p = some q) : t.valid q = true := by
  obtain ⟨front, tail, rest, hlist⟩ := hinv.chains _ (hinv.parent_lt p hvalid)
  have hmem : p ∈ front ++ tail :: rest := by
    have hdyn := hlist.dynamic p hvalid rfl hdynamic
    simp only [List.mem_append, List.mem_singleton] at hdyn
    simp only [List.mem_append, List.mem_cons]
    tauto
  obtain ⟨l, r, hsplit⟩ := List.append_of_mem hmem
  have hseg := hlist.seg
  rw [hsplit] at hseg
  have hprev := hseg.prev_of_split
  have hnext := hseg.next_of_split
  rw [Option.or_none] at hprev hnext
  apply hlist.valid q
  rw [hsplit, List.mem_append, List.mem_cons]
  rcases hq with hq | hq
  · rw [hprev] at hq
    exact Or.inl (List.mem_of_getLast? hq)
  · rw [hnext] at hq
    exact Or.inr (Or.inr (List.mem_of_head? hq))

/-- `ft_remove` of an entry that records its own bucket returns. -/
theorem ftRemove_total (hinv : TableInv t) (hvalid : t.valid e.bucket = true)
    (hbucket : (t.entry e).bucket = some e.bucket) :
    ∃ t', t.ftRemove e = some t' := by
  simp only [ftRemove, deref, hvalid, if_true, Option.bind_eq_bind,
    Option.bind_some]
  rw [show (t.mem e.bucket).entries e.slot = t.entry e from rfl, hbucket]
  simp only [Option.bind_some, hvalid, if_true]
  by_cases hunused : alreadyUnused (t.mem e.bucket) (t.entry e).index = true
  · exact ⟨t, by rw [if_pos hunused]⟩
  · rw [if_neg hunused]
    by_cases hfree :
        (t.releaseSlot (t.mem e.bucket) (t.entry e).index).2 = true
    · have hdynamic : t.Dynamic e.bucket :=
        (releaseSlot_toFree hinv.toSizeOk hfree).1
      simp only [hfree, if_true]
      let released := t.setBucket e.bucket
        (t.releaseSlot (t.mem e.bucket) (t.entry e).index).1
      obtain ⟨t₁, hunlink⟩ : ∃ t₁,
          released.unlinkBucket e.bucket = some t₁ := by
        apply unlinkBucket_total
        · rw [setBucket_valid]
          exact hvalid
        · intro q hq
          rw [setBucket_valid]
          simp only [released, setBucket, Function.update_self,
            releaseSlot_prev, releaseSlot_next] at hq
          exact hinv.neighbours hvalid hdynamic hq
      obtain ⟨-, -, heq⟩ := unlinkBucket_eq_some hunlink
      rw [hunlink, Option.bind_some]
      cases hp : e.bucket with
      | first c =>
          rw [hp] at hvalid hdynamic
          simp only [valid, decide_eq_true_iff] at hvalid
          exact absurd hdynamic (hinv.firstStatic c hvalid)
      | heap addr =>
          rw [hp] at hvalid
          simp only [valid, decide_eq_true_iff] at hvalid
          have hheap : t₁.heap = t.heap := by rw [heq]; rfl
          simp only [freeBucket, hheap, hvalid, if_true, Option.bind_some]
          exact ⟨_, rfl⟩
    · simp only [hfree]
      exact ⟨_, rfl⟩

/-- A live entry is on the chain of its hash and has its slot. -/
structure LiveInv (s : Calls) : Prop where
  table : TableInv s.table
  slots : SlotsOk s.table
  nodup : s.live.Nodup
  used : ∀ e ∈ s.live, s.table.Used e
  own : ∀ e ∈ s.live, (s.table.entry e).bucket = some e.bucket
  parent : ∀ e ∈ s.live, s.table.parentOf e.bucket =
    s.table.chainIndex (s.table.entry e).hash

theorem LiveInv.added {s : Calls} {hash : BitVec 32} {keyData : KeyData}
    {color : BitVec 16} (hinv : LiveInv s)
    (hadded : Added s.table t' e hash keyData color) (htable : TableInv t') :
    LiveInv ⟨t', e :: s.live⟩ := by
  have hnew := content_of_used hadded.usedNew
  rw [hadded.added] at hnew
  have hfresh : e ∉ s.live := fun he => hadded.fresh (hinv.used e he)
  have hold : ∀ e' ∈ s.live, t'.Used e' ∧ t'.entry e' = s.table.entry e' := by
    intro e' he'
    have hused : t'.Used e' := (hadded.used e').mpr (Or.inr (hinv.used e' he'))
    have hne : e' ≠ e := by
      rintro rfl
      exact hfresh he'
    refine ⟨hused, ?_⟩
    rw [← content_of_used hused, hadded.kept e' hne,
      content_of_used (hinv.used e' he')]
  constructor
  · exact htable
  · exact hadded.slotsOk hinv.slots
  · exact List.nodup_cons.mpr ⟨hfresh, hinv.nodup⟩
  · intro e' he'
    rcases List.mem_cons.mp he' with rfl | he'
    · exact hadded.usedNew
    · exact (hold e' he').1
  · intro e' he'
    rcases List.mem_cons.mp he' with rfl | he'
    · rw [← hnew]
      rfl
    · rw [(hold e' he').2]
      exact hinv.own e' he'
  · intro e' he'
    rw [chainIndex_congr hadded.tableSize]
    rcases List.mem_cons.mp he' with rfl | he'
    · rw [← hnew]
      exact hadded.parent
    · rw [(hold e' he').2,
        (hadded.parentKept _ (hinv.used e' he').1).2]
      exact hinv.parent e' he'

theorem LiveInv.add {s s' : Calls} {addr : Nat} {hash : BitVec 32}
    {keyData : KeyData} {color : BitVec 16} (hinv : LiveInv s)
    (hstep : callStep s (.add addr hash keyData color) = some s') :
    LiveInv s' := by
  simp only [callStep, Option.bind_eq_bind, Option.bind_eq_some_iff,
    Option.some.injEq] at hstep
  obtain ⟨⟨t', added⟩, hadd, e, he, rfl⟩ := hstep
  simp only at he
  subst he
  exact hinv.added (ftAdd_added hinv.table hadd)
    (ftAdd_tableInv hinv.table hadd)

theorem LiveInv.remove {s s' : Calls} (hinv : LiveInv s)
    (hstep : callStep s (.remove e) = some s') : LiveInv s' := by
  simp only [callStep, Option.bind_eq_bind, Option.bind_eq_some_iff,
    Option.some.injEq] at hstep
  obtain ⟨t', hremove, rfl⟩ := hstep
  have hremoved := ftRemove_removed hinv.table hinv.slots hremove
  have hold : ∀ e' ∈ s.live.erase e, e' ∈ s.live ∧ t'.Used e' ∧
      t'.entry e' = s.table.entry e' := by
    intro e' he'
    obtain ⟨hne, hlive⟩ := (hinv.nodup.mem_erase_iff).mp he'
    have hused := hremoved.used e' (hinv.used e' hlive) hne
    refine ⟨hlive, hused, ?_⟩
    rw [← content_of_used hused, hremoved.kept e' hused.1,
      content_of_used (hinv.used e' hlive)]
  constructor
  · exact ftRemove_tableInv hinv.table hremove
  · exact hremoved.slotsOk hinv.slots
  · exact hinv.nodup.erase e
  · exact fun e' he' => (hold e' he').2.1
  · intro e' he'
    rw [(hold e' he').2.2]
    exact hinv.own e' (hold e' he').1
  · intro e' he'
    rw [chainIndex_congr hremoved.tableSize, (hold e' he').2.2,
      (hremoved.parentKept _ (hold e' he').2.1.1).2]
    exact hinv.parent e' (hold e' he').1

section Runs

variable {calloc : Nat → Nat → Option Nat} {power2 chainSize bucketSize : Nat}

theorem run_liveInv (hinit : ftInit calloc power2 chainSize bucketSize = some t)
    (hle : bucketSize ≤ 32) {s : Calls}
    (hrun : Run callStep anyStep ⟨t, []⟩ s) : LiveInv s := by
  apply hrun.invariant
  · exact ⟨ftInit_tableInv hinit hle, ftInit_slotsOk hinit, List.nodup_nil,
      by simp, by simp, by simp⟩
  · intro s action s' hinv _ hstep
    cases action with
    | add addr hash keyData color => exact hinv.add hstep
    | remove e => exact hinv.remove hstep

theorem run_whole (hinit : ftInit calloc power2 chainSize bucketSize = some t)
    (hle : bucketSize ≤ 32) (hone : chainSize = 1) {s : Calls}
    (hrun : Run callStep anyStep ⟨t, []⟩ s) : Whole s.table := by
  have hboth : LiveInv s ∧ Whole s.table := by
    apply hrun.invariant
    · exact ⟨run_liveInv hinit hle Run.refl, ftInit_whole hinit hone⟩
    · rintro s action s' ⟨hinv, hwhole⟩ _ hstep
      cases action with
      | add addr hash keyData color =>
          refine ⟨hinv.add hstep, ?_⟩
          simp only [callStep, Option.bind_eq_bind, Option.bind_eq_some_iff,
            Option.some.injEq] at hstep
          obtain ⟨⟨t', added⟩, hadd, e, he, rfl⟩ := hstep
          simp only at he
          subst he
          exact ftAdd_whole hinv.table hwhole hadd
      | remove e =>
          refine ⟨hinv.remove hstep, ?_⟩
          simp only [callStep, Option.bind_eq_bind, Option.bind_eq_some_iff,
            Option.some.injEq] at hstep
          obtain ⟨t', hremove, rfl⟩ := hstep
          exact ftRemove_whole hinv.table hwhole hremove
  exact hboth.2

/-- The order of one chain: `next` from `chain->first` reads a finite list with
`prev` its inverse, `chain->last` is its final bucket, and the live entries of
the chain are on it. -/
structure ChainOrder (s : Calls) (c : Nat) (l : List BucketPtr) : Prop where
  head : l.head? = some (.first c)
  nodup : l.Nodup
  seg : Seg s.table.nextOf s.table.prevOf none none l
  last : s.table.last c = l.getLast?
  valid : ∀ p ∈ l, s.table.valid p = true
  parent : ∀ p ∈ l, s.table.parentOf p = c
  live : ∀ e ∈ s.live, s.table.chainIndex (s.table.entry e).hash = c →
    e.bucket ∈ l

/-- Every chain is in order, and `ft_lookup` with the fields of a live entry
reaches an entry that compares equal. -/
structure ChainIntegrity (s : Calls) : Prop where
  chains : ∀ c, c < s.table.tableSize → ∃ l, ChainOrder s c l
  found : ∀ e ∈ s.live, ∃ e',
    s.table.ftLookup (s.table.entry e).hash (s.table.entry e).keyData
      (s.table.entry e).color = some (some e') ∧
    ftCompare (s.table.entry e') (s.table.entry e).hash
      (s.table.entry e).keyData (s.table.entry e).color = true

theorem Whole.integrity {s : Calls} (hwhole : Whole s.table)
    (hinv : LiveInv s) : ChainIntegrity s := by
  have hlive : ∀ e ∈ s.live, ∀ c front tail,
      (∀ p, s.table.valid p = true → s.table.parentOf p = c →
        p ∈ front ++ [tail]) →
      s.table.chainIndex (s.table.entry e).hash = c →
      e.bucket ∈ front ++ [tail] := by
    intro e he c front tail hall hc
    exact hall _ (hinv.used e he).1 ((hinv.parent e he).trans hc)
  constructor
  · intro c hc
    obtain ⟨front, tail, hlist, hall⟩ := hwhole c hc
    refine ⟨front ++ [tail], hlist.head, hlist.nodup, hlist.seg, ?_,
      hlist.valid, hlist.parent, ?_⟩
    · rw [hlist.last]
      simp
    · exact fun e he => hlive e he c front tail hall
  · intro e he
    obtain ⟨front, tail, hlist, hall⟩ := hwhole _
      (chainIndex_lt hinv.table.table (s.table.entry e).hash)
    exact hlist.lookup hinv.table (hinv.used e he)
      (hlive e he _ front tail hall rfl) (ftCompare_self _)

/-- `ft_init` sets `chain->last` to the last bucket but one, so that the chains
are in order at the start, and after every sequence of calls, exactly when one
bucket per chain is preallocated. -/
theorem chainIntegrity_iff
    (hinit : ftInit calloc power2 chainSize bucketSize = some t)
    (hchain : 1 ≤ chainSize) (hle : bucketSize ≤ 32) :
    (∀ s, Run callStep anyStep ⟨t, []⟩ s → ChainIntegrity s) ↔
      chainSize = 1 := by
  constructor
  · intro hall
    by_contra hne
    obtain ⟨hdone, htable, -, -⟩ := ftInit_spec hinit
    have hpos : 0 < t.tableSize := by
      rw [htable]
      exact Nat.two_pow_pos power2
    obtain ⟨l, horder⟩ := (hall _ Run.refl).chains 0 hpos
    obtain ⟨front, tail, hlist, hlength, hlast⟩ := hdone.chains 0 hpos
    have heq : l = front ++ [tail] :=
      horder.seg.unique hlist.seg (horder.head.trans hlist.head.symm)
    have hsame := horder.last
    rw [heq] at hsame
    change t.last 0 = _ at hsame
    rw [hlast] at hsame
    rcases List.eq_nil_or_concat front with rfl | ⟨init, p, rfl⟩
    · simp at hlength
      omega
    · have hnodup := hlist.nodup
      simp [lastSet] at hsame
      rw [hsame] at hnodup
      simp [List.nodup_append] at hnodup
  · intro hone s hrun
    exact (run_whole hinit hle hone hrun).integrity (run_liveInv hinit hle hrun)

/-- Two preallocated buckets with one slot each. -/
theorem chainIntegrity_iff_two : ∃ t,
    ftInit (fun _ k => some k) 0 2 1 = some t ∧
      ((∀ s, Run callStep anyStep ⟨t, []⟩ s → ChainIntegrity s) ↔ 2 = 1) := by
  have hsome : (ftInit (fun _ k => some k) 0 2 1).isSome = true := by decide
  obtain ⟨t, hinit⟩ := Option.isSome_iff_exists.mp hsome
  exact ⟨t, hinit, chainIntegrity_iff hinit (by decide) (by decide)⟩

/-- Some live entry is not found under its own fields. -/
def lost (s : Calls) : Bool :=
  s.live.any fun e => s.table.ftLookup (s.table.entry e).hash
    (s.table.entry e).keyData (s.table.entry e).color == some none

theorem not_integrity_of_lost {s : Calls} (hlost : lost s = true) :
    ¬ ChainIntegrity s := by
  intro hintegrity
  simp only [lost, List.any_eq_true, beq_iff_eq] at hlost
  obtain ⟨e, he, hnone⟩ := hlost
  obtain ⟨e', hfound, -⟩ := hintegrity.found e he
  rw [hnone] at hfound
  simp at hfound

/-- Two preallocated buckets of one slot: the third flow overflows the chain,
the new bucket is linked behind the first, and the second flow is lost. -/
theorem chainIntegrity_fails : ∃ t s, ftInit (fun _ k => some k) 0 2 1 = some t ∧
    Run callStep anyStep ⟨t, []⟩ s ∧ ¬ ChainIntegrity s := by
  let calls : List Call :=
    [.add 10 0#32 (fun _ => 1#8) 0#16, .add 11 0#32 (fun _ => 2#8) 0#16,
      .add 12 0#32 (fun _ => 3#8) 0#16]
  have hrun : (((ftInit (fun _ k => some k) 0 2 1).bind fun t =>
      exec callStep ⟨t, []⟩ calls).map lost) = some true := by decide
  simp only [Option.map_eq_some_iff, Option.bind_eq_some_iff] at hrun
  obtain ⟨s, ⟨t, hinit, hexec⟩, hlost⟩ := hrun
  exact ⟨t, s, hinit, run_of_exec calls hexec, not_integrity_of_lost hlost⟩

end Runs

end FlowTable

end Ntnetflow

end NtapiExamples
