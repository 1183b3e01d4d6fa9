/-
`ft_lookup` on a table in order, and writes to entries that leave the table in
order.
-/
import NtapiExamples.Ntnetflow.FlowTableLive

namespace NtapiExamples

namespace Ntnetflow

namespace FlowTable

variable {t t' : FlowTable} {e : EntryPtr}

@[simp] theorem setEntry_entry (e e' : EntryPtr) (entry : FlowEntry) :
    (t.setEntry e entry).entry e' = if e' = e then entry else t.entry e' := by
  obtain ⟨p, i⟩ := e
  obtain ⟨q, j⟩ := e'
  simp only [FlowTable.entry, setEntry, setBucket, EntryPtr.mk.injEq]
  by_cases hq : q = p
  · subst hq
    by_cases hj : j = i
    · simp [hj]
    · simp [hj]
  · simp [hq]

theorem setEntry_sameLinks (e : EntryPtr) (entry : FlowEntry) :
    SameLinks t (t.setEntry e entry) :=
  sameLinks_update rfl rfl rfl rfl

theorem setEntry_unused (e : EntryPtr) (entry : FlowEntry) (p : BucketPtr) :
    ((t.setEntry e entry).mem p).unused = (t.mem p).unused := by
  simp only [setEntry, setBucket]
  by_cases hp : p = e.bucket
  · rw [hp, Function.update_self]
  · rw [Function.update_of_ne hp]

@[simp] theorem setEntry_used (e e' : EntryPtr) (entry : FlowEntry) :
    (t.setEntry e entry).Used e' ↔ t.Used e' := by
  simp only [Used, setEntry_valid, setEntry_unused]
  rfl

theorem setEntry_content (hvalid : t.valid e.bucket = true)
    (entry : FlowEntry) (e' : EntryPtr) :
    (t.setEntry e entry).content e' =
      if e' = e then entry else t.content e' := by
  simp only [content, setEntry_valid, setEntry_entry]
  by_cases he : e' = e
  · rw [he, if_pos hvalid]
    simp
  · simp [he]

/-- Only the place of an entry matters for the order of the table. -/
theorem setEntry_slotsOk (hslots : SlotsOk t)
    (hvalid : t.valid e.bucket = true) {entry : FlowEntry}
    (hbucket : entry.bucket = (t.entry e).bucket)
    (hindex : entry.index = (t.entry e).index) :
    SlotsOk (t.setEntry e entry) := by
  intro e'
  rw [setEntry_content hvalid]
  by_cases he : e' = e
  · subst he
    have hown := hslots e'
    rw [content_of_valid hvalid] at hown
    rw [if_pos rfl, hbucket, hindex]
    exact hown
  · rw [if_neg he]
    exact hslots e'

section Lookup

variable {hash : BitVec 32} {keyData : KeyData} {color : BitVec 16}

/-- A visit reads links, masks and the visited fields only. -/
theorem ftVisit_congr {visitor visitor' : FlowEntry → Bool}
    (hsame : SameLinks t t')
    (hunused : ∀ p, (t'.mem p).unused = (t.mem p).unused)
    (hvisitor : ∀ e, visitor' (t'.entry e) = visitor (t.entry e))
    (fuel : Nat) (p : BucketPtr) :
    t'.ftVisit visitor' fuel p = t.ftVisit visitor fuel p := by
  have hused : ∀ (p : BucketPtr) (fuel : Nat) (used : BitVec 64),
      visitUsed visitor' (t'.mem p).entries fuel used =
        visitUsed visitor (t.mem p).entries fuel used := by
    intro p fuel
    induction fuel with
    | zero => exact fun _ => rfl
    | succ fuel ih =>
        intro used
        have hslot := hvisitor ⟨p, ctz (used.setWidth 32)⟩
        simp only [FlowTable.entry] at hslot
        simp only [visitUsed, hslot, ih]
  have hbucket : ∀ p, t'.visitBucket visitor' (t'.mem p) =
      t.visitBucket visitor (t.mem p) := by
    intro p
    rw [visitBucket, visitBucket, hused, hunused, bucketMask,
      hsame.bucketSize, bucketMask]
  induction fuel generalizing p with
  | zero => rfl
  | succ fuel ih =>
      have hnext : (t'.mem p).next = (t.mem p).next := hsame.next p
      by_cases hvalid : t.valid p = true
      · simp only [ftVisit, deref, hsame.valid, hvalid, if_true,
          Option.bind_eq_bind, Option.bind_some, hbucket, hnext, ih]
      · simp only [ftVisit, deref, hsame.valid, hvalid, Bool.false_eq_true,
          if_false, Option.bind_eq_bind, Option.bind_none]

/-- Lookups do not notice a write that keeps hash, colour and key. -/
theorem setEntry_ftLookup {entry : FlowEntry}
    (hhash : entry.hash = (t.entry e).hash)
    (hcolor : entry.color = (t.entry e).color)
    (hkey : entry.keyData = (t.entry e).keyData) :
    (t.setEntry e entry).ftLookup hash keyData color =
      t.ftLookup hash keyData color := by
  apply ftVisit_congr (setEntry_sameLinks e entry) (setEntry_unused e entry)
  intro e'
  rw [setEntry_entry]
  by_cases he : e' = e
  · rw [if_pos he, he, ftCompare, ftCompare, hhash, hcolor, hkey]
  · rw [if_neg he]

/-- Lookups with the same hash, type and key give the same answer. -/
theorem ftLookup_congr {keyData' : KeyData} {color' : BitVec 16}
    (htype : color' &&& FLOW_COLOR_TYPE_MASK = color &&& FLOW_COLOR_TYPE_MASK)
    (hlen : keyLen color' = keyLen color)
    (hkey : keyEq (keyLen color) keyData' keyData = true) :
    t.ftLookup hash keyData' color' = t.ftLookup hash keyData color := by
  rw [keyEq_eq_true_iff] at hkey
  have hvisitor : ∀ entry, ftCompare entry hash keyData' color' =
      ftCompare entry hash keyData color := by
    intro entry
    have hkeys : keyEq (keyLen color) entry.keyData keyData' =
        keyEq (keyLen color) entry.keyData keyData := by
      rw [Bool.eq_iff_iff, keyEq_eq_true_iff, keyEq_eq_true_iff]
      constructor
      · exact fun h i hi => (h i hi).trans (hkey i hi)
      · exact fun h i hi => (h i hi).trans (hkey i hi).symm
    rw [ftCompare, ftCompare, htype, hlen, hkeys]
  simp only [ftLookup, hvisitor]

theorem ftCompare_self (entry : FlowEntry) :
    ftCompare entry entry.hash entry.keyData entry.color = true := by
  simp [ftCompare]

/-- What `ft_lookup` returns is a used entry that compares equal. -/
theorem ftLookup_eq_some (hinv : TableInv t)
    (hlookup : t.ftLookup hash keyData color = some (some e)) :
    t.Used e ∧ ftCompare (t.entry e) hash keyData color = true := by
  obtain ⟨front, tail, rest, hlist⟩ :=
    hinv.chains _ (chainIndex_lt hinv.table hash)
  rw [ftLookup, hlist.ftVisit hinv, Option.some.injEq] at hlookup
  obtain ⟨q, hq, hslot⟩ := List.exists_of_findSome?_eq_some hlookup
  rw [Option.map_eq_some_iff] at hslot
  obtain ⟨slot, hvisit, rfl⟩ := hslot
  obtain ⟨hlt, hused, hmatch⟩ := visitBucket_eq_some hinv.toSizeOk hvisit
  exact ⟨⟨hlist.valid q hq, hlt, hused⟩, hmatch⟩

/-- On a chain without a match `ft_lookup` reports none, and only there. -/
theorem ChainList.ftLookup_none_iff {front rest : List BucketPtr}
    {tail : BucketPtr}
    (hlist : ChainList t (t.chainIndex hash) front tail rest)
    (hinv : TableInv t) :
    t.ftLookup hash keyData color = some none ↔
      ∀ e, t.Used e → e.bucket ∈ front ++ tail :: rest →
        ftCompare (t.entry e) hash keyData color = false := by
  rw [ftLookup, hlist.ftVisit hinv, Option.some.injEq,
    List.findSome?_eq_none_iff]
  constructor
  · intro hnone e hused hmem
    have hbucket := hnone e.bucket hmem
    rw [Option.map_eq_none_iff, visitBucket_eq_none_iff hinv.toSizeOk]
      at hbucket
    exact hbucket e.slot hused.2.1 hused.2.2
  · intro hall q hq
    rw [Option.map_eq_none_iff, visitBucket_eq_none_iff hinv.toSizeOk]
    intro slot hslot hclear
    exact hall ⟨q, slot⟩ ⟨hlist.valid q hq, hslot, hclear⟩ hq

/-- `ft_lookup` always ends. -/
theorem ftLookup_total (hinv : TableInv t) (hash : BitVec 32)
    (keyData : KeyData) (color : BitVec 16) :
    ∃ found, t.ftLookup hash keyData color = some found := by
  obtain ⟨front, tail, rest, hlist⟩ :=
    hinv.chains _ (chainIndex_lt hinv.table hash)
  exact ⟨_, hlist.ftVisit hinv _⟩

/-- A lookup along a complete chain list finds a match when there is one. -/
theorem ChainList.lookup {front rest : List BucketPtr} {tail : BucketPtr}
    (hlist : ChainList t (t.chainIndex hash) front tail rest)
    (hinv : TableInv t) (hused : t.Used e)
    (hmem : e.bucket ∈ front ++ tail :: rest)
    (hmatch : ftCompare (t.entry e) hash keyData color = true) :
    ∃ e', t.ftLookup hash keyData color = some (some e') ∧
      ftCompare (t.entry e') hash keyData color = true := by
  obtain ⟨found, hfound⟩ := ftLookup_total hinv hash keyData color
  cases found with
  | none =>
      have hreject := (hlist.ftLookup_none_iff hinv).mp hfound e hused hmem
      rw [hmatch] at hreject
      contradiction
  | some e' => exact ⟨e', hfound, (ftLookup_eq_some hinv hfound).2⟩

/-- The chain of the hash after `ft_add`: the new entry is on it, and what else
is on it was on it before. -/
theorem ftAdd_chain {alloc : Option Nat} (hinv : TableInv t)
    (hadd : t.ftAdd alloc hash keyData color = some (t', some e))
    {front rest : List BucketPtr} {tail : BucketPtr}
    (hlist : ChainList t (t.chainIndex hash) front tail rest) :
    ∃ front' tail' rest',
      ChainList t' (t.chainIndex hash) front' tail' rest' ∧
        e.bucket ∈ front' ++ tail' :: rest' ∧
        ∀ p ∈ front' ++ tail' :: rest', t.valid p = true →
          p ∈ front ++ tail :: rest := by
  rcases ftAdd_outcome hinv hadd with ⟨p, hclaimed⟩ | ⟨addr, last, happ⟩
  · refine ⟨front, tail, rest, hclaimed.sameLinks.chainList hlist, ?_,
      fun q hq _ => hq⟩
    have hfound := hclaimed.found
    rw [hlist.findUnused hinv, Option.some.injEq] at hfound
    rw [hclaimed.ptr]
    exact List.mem_of_find?_eq_some hfound
  · have hlast := hlist.last
    rw [happ.last, Option.some.injEq] at hlast
    subst hlast
    refine ⟨_, _, _, happ.chainList_grown hlist, ?_, ?_⟩
    · rw [happ.ptr]
      simp
    · intro q hq hvalid
      have hne := happ.grown.ne_new hvalid
      simp only [List.mem_append, List.mem_cons, List.not_mem_nil,
        or_false, hne] at hq
      simp only [List.mem_append, List.mem_cons]
      tauto

/-- An entry added because nothing matched is the one found next. -/
theorem ftLookup_added {alloc : Option Nat} (hinv : TableInv t)
    (hnone : t.ftLookup hash keyData color = some none)
    (hadd : t.ftAdd alloc hash keyData color = some (t', some e)) :
    t'.ftLookup hash keyData color = some (some e) := by
  have hadded := ftAdd_added hinv hadd
  have hinv' := ftAdd_tableInv hinv hadd
  obtain ⟨front, tail, rest, hlist⟩ :=
    hinv.chains _ (chainIndex_lt hinv.table hash)
  obtain ⟨front', tail', rest', hlist', hmem, hback⟩ :=
    ftAdd_chain hinv hadd hlist
  rw [← chainIndex_congr hadded.tableSize] at hlist'
  have hnew := content_of_used hadded.usedNew
  rw [hadded.added] at hnew
  have hmatch : ftCompare (t'.entry e) hash keyData color = true := by
    rw [← hnew]
    have hle : keyLen color ≤ FLOW_MAX_KEY_LEN := by
      simp only [keyLen]
      split <;> decide
    simp only [ftCompare, addedEntry, beq_self_eq_true, Bool.true_and,
      keyEq_eq_true_iff]
    intro i hi
    simp [memcpy, hi]
  obtain ⟨e', hfound, hmatch'⟩ :=
    hlist'.lookup hinv' hadded.usedNew hmem hmatch
  have hused' := (ftLookup_eq_some hinv' hfound).1
  by_cases heq : e' = e
  · rw [hfound, heq]
  · -- Another match would have been found before the call.
    have hused := ((hadded.used e').mp hused').resolve_left heq
    have hmem' : e'.bucket ∈ front' ++ tail' :: rest' := by
      rw [ftLookup, hlist'.ftVisit hinv', Option.some.injEq] at hfound
      obtain ⟨q, hq, hslot⟩ := List.exists_of_findSome?_eq_some hfound
      rw [Option.map_eq_some_iff] at hslot
      obtain ⟨slot, -, rfl⟩ := hslot
      exact hq
    have hreject := (hlist.ftLookup_none_iff hinv).mp hnone e' hused
      (hback _ hmem' hused.1)
    rw [← content_of_used hused, ← hadded.kept e' heq,
      content_of_used hused', hmatch'] at hreject
    contradiction

end Lookup

end FlowTable

end Ntnetflow

end NtapiExamples
