/-
What lookups see while other threads add and remove entries.  `ft_add` takes a
slot under the bucket lock and writes the fields of the entry later, under the
entry lock, which `ft_visit` does not take.
-/
import NtapiExamples.Lib.Run
import NtapiExamples.Ntnetflow.FlowTableThreads
import NtapiExamples.Ntnetflow.FlowTableLookup

namespace NtapiExamples

namespace Ntnetflow

namespace FlowTable

variable {t t' t'' : FlowTable} {p : BucketPtr} {e : EntryPtr}

/-- The fields `ft_compare` reads. -/
def identity (t : FlowTable) (e : EntryPtr) :
    BitVec 32 × BitVec 16 × KeyData :=
  ((t.entry e).hash, (t.entry e).color, (t.entry e).keyData)

/-- No entry but `except` was taken into use or had its identity changed. -/
structure Recycled (t t' : FlowTable) (except : Option EntryPtr) : Prop where
  size : SizeOk t → SizeOk t'
  kept : ∀ e, some e ≠ except → t'.Used e →
    t.Used e ∧ t'.identity e = t.identity e

/-- All buckets but `except` have the slots they had. -/
structure SlotsKept (t t' : FlowTable) (except : Option BucketPtr) : Prop where
  tableSize : t'.tableSize = t.tableSize
  bucketSize : t'.bucketSize = t.bucketSize
  kept : ∀ q, some q ≠ except → t'.valid q = true →
    t.valid q = true ∧ (t'.mem q).unused = (t.mem q).unused ∧
      (t'.mem q).entries = (t.mem q).entries

theorem SlotsKept.refl (t : FlowTable) (except : Option BucketPtr) :
    SlotsKept t t except :=
  ⟨rfl, rfl, fun _ _ hvalid => ⟨hvalid, rfl, rfl⟩⟩

theorem SlotsKept.trans {except : Option BucketPtr}
    (h : SlotsKept t t' except) (h' : SlotsKept t' t'' except) :
    SlotsKept t t'' except := by
  refine ⟨h'.tableSize.trans h.tableSize, h'.bucketSize.trans h.bucketSize, ?_⟩
  intro q hq hvalid
  obtain ⟨hvalid', hunused', hentries'⟩ := h'.kept q hq hvalid
  obtain ⟨hvalid, hunused, hentries⟩ := h.kept q hq hvalid'
  exact ⟨hvalid, hunused'.trans hunused, hentries'.trans hentries⟩

theorem SlotsKept.weaken (h : SlotsKept t t' none)
    (except : Option BucketPtr) : SlotsKept t t' except :=
  ⟨h.tableSize, h.bucketSize, fun q _ => h.kept q (by simp)⟩

/-- Writing link fields of a bucket. -/
theorem SlotsKept.modifyBucket {f : FlowBucket → FlowBucket}
    (hmodify : t.modifyBucket p f = some t')
    (hunused : ∀ b, (f b).unused = b.unused)
    (hentries : ∀ b, (f b).entries = b.entries) : SlotsKept t t' none := by
  rw [modifyBucket_eq_some_iff] at hmodify
  obtain ⟨-, rfl⟩ := hmodify
  refine ⟨rfl, rfl, ?_⟩
  intro q _ hvalid
  rw [setBucket_valid] at hvalid
  rw [setBucket_mem]
  by_cases hq : q = p
  · rw [hq, Function.update_self, hunused, hentries]
    exact ⟨hq ▸ hvalid, rfl, rfl⟩
  · rw [Function.update_of_ne hq]
    exact ⟨hvalid, rfl, rfl⟩

theorem SlotsKept.setBucket (t : FlowTable) (p : BucketPtr) (b : FlowBucket) :
    SlotsKept t (t.setBucket p b) (some p) := by
  refine ⟨rfl, rfl, ?_⟩
  intro q hq hvalid
  rw [setBucket_valid] at hvalid
  have hne : q ≠ p := fun h => hq (congrArg some h)
  rw [setBucket_mem, Function.update_of_ne hne]
  exact ⟨hvalid, rfl, rfl⟩

/-- From the slots of all buckets but one, and of that one, to the entries. -/
theorem SlotsKept.recycled {except : Option EntryPtr}
    (h : SlotsKept t t' (some p))
    (hp : ∀ slot, some ⟨p, slot⟩ ≠ except → t'.Used ⟨p, slot⟩ →
      t.Used ⟨p, slot⟩ ∧ t'.identity ⟨p, slot⟩ = t.identity ⟨p, slot⟩) :
    Recycled t t' except := by
  constructor
  · rintro ⟨htable, hpos, hle⟩
    rw [← h.tableSize] at htable
    rw [← h.bucketSize] at hpos hle
    exact ⟨htable, hpos, hle⟩
  · rintro ⟨q, slot⟩ hne hused
    by_cases hq : q = p
    · subst hq
      exact hp slot hne hused
    · obtain ⟨hvalid, hlt, hclear⟩ := hused
      obtain ⟨hvalid', hunused, hentries⟩ :=
        h.kept q (fun heq => hq (Option.some.inj heq)) hvalid
      rw [h.bucketSize] at hlt
      rw [hunused] at hclear
      refine ⟨⟨hvalid', hlt, hclear⟩, ?_⟩
      simp only [identity, entry, hentries]

theorem SlotsKept.recycledNone (h : SlotsKept t t' none) :
    Recycled t t' none := by
  constructor
  · rintro ⟨htable, hpos, hle⟩
    rw [← h.tableSize] at htable
    rw [← h.bucketSize] at hpos hle
    exact ⟨htable, hpos, hle⟩
  · rintro ⟨q, slot⟩ _ ⟨hvalid, hlt, hclear⟩
    obtain ⟨hvalid', hunused, hentries⟩ := h.kept q (by simp) hvalid
    rw [h.bucketSize] at hlt
    rw [hunused] at hclear
    refine ⟨⟨hvalid', hlt, hclear⟩, ?_⟩
    simp only [identity, entry, hentries]

theorem Recycled.refl (t : FlowTable) : Recycled t t none :=
  (SlotsKept.refl t none).recycledNone

theorem Recycled.trans (h : Recycled t t' none) (h' : Recycled t' t'' none) :
    Recycled t t'' none := by
  refine ⟨fun hsize => h'.size (h.size hsize), ?_⟩
  intro e hne hused
  obtain ⟨hused', hidentity'⟩ := h'.kept e hne hused
  obtain ⟨hused, hidentity⟩ := h.kept e hne hused'
  exact ⟨hused, hidentity'.trans hidentity⟩

/-- A write through an entry pointer. -/
theorem modifyEntry_recycled {f : FlowEntry → FlowEntry}
    (hmodify : t.modifyEntry e f = some t') : Recycled t t' (some e) := by
  rw [modifyEntry_eq_some_iff] at hmodify
  obtain ⟨-, rfl⟩ := hmodify
  constructor
  · exact fun hsize => ⟨hsize.table, hsize.pos, hsize.le⟩
  · intro e' hne hused
    rw [setEntry_used] at hused
    have hother : e' ≠ e := fun h => hne (congrArg some h)
    refine ⟨hused, ?_⟩
    simp only [identity, setEntry_entry, if_neg hother]

/-- A write that leaves the identity of its entry alone. -/
theorem modifyEntry_recycledNone {f : FlowEntry → FlowEntry}
    (hmodify : t.modifyEntry e f = some t')
    (hhash : ∀ entry, (f entry).hash = entry.hash)
    (hcolor : ∀ entry, (f entry).color = entry.color)
    (hkey : ∀ entry, (f entry).keyData = entry.keyData) :
    Recycled t t' none := by
  have hrecycled := modifyEntry_recycled hmodify
  refine ⟨hrecycled.size, ?_⟩
  intro e' _ hused
  by_cases he : e' = e
  · subst he
    rw [modifyEntry_eq_some_iff] at hmodify
    obtain ⟨-, rfl⟩ := hmodify
    rw [setEntry_used] at hused
    refine ⟨hused, ?_⟩
    simp only [identity, setEntry_entry, if_true, hhash, hcolor, hkey]
  · exact hrecycled.kept e' (fun h => he (Option.some.inj h)) hused

theorem statsUpdate_recycled (stat : Stat) (value : Int) :
    Recycled t (t.statsUpdate stat value) none :=
  SlotsKept.recycledNone ⟨rfl, rfl, fun q _ hvalid =>
    ⟨by rwa [statsUpdate_valid] at hvalid, rfl, rfl⟩⟩

theorem finishRemove_recycled : Recycled t t.finishRemove none :=
  (statsUpdate_recycled .unlearn 1).trans (statsUpdate_recycled .flow (-1))

theorem finishAdd_recycled (hfinish : t.finishAdd e = some t') :
    Recycled t t' none := by
  simp only [finishAdd, ftRef] at hfinish
  exact ((statsUpdate_recycled .learn 1).trans
    (statsUpdate_recycled .flow 1)).trans
      (modifyEntry_recycledNone hfinish (fun _ => rfl) (fun _ => rfl)
        (fun _ => rfl))

/-- A claim takes the slot it returns into use, and no other. -/
theorem claimSlot_recycled (hsize : SizeOk t) (hvalid : t.valid p = true)
    (hunused : t.hasUnused (t.mem p) = true) :
    Recycled t (t.claimSlot p).1 (some (t.claimSlot p).2) := by
  apply SlotsKept.recycled (SlotsKept.setBucket t p _)
  rintro slot hne ⟨-, hlt, hclear⟩
  have hother : slot ≠ ctz ((t.mem p).unused.setWidth 32) := by
    rintro rfl
    exact hne rfl
  simp only [setBucket_mem, Function.update_self] at hclear
  rw [getLsbD_claimed hsize hunused] at hclear
  simp only [ne_eq, hother, not_false_eq_true, decide_true,
    Bool.and_true] at hclear
  refine ⟨⟨hvalid, hlt, hclear⟩, ?_⟩
  simp only [identity, entry, setBucket_mem, Function.update_self,
    Function.update_of_ne hother]

/-- Giving a slot back takes no slot into use. -/
theorem releaseSlot_recycled {b : FlowBucket} {index : Nat}
    (hb : t.deref p = some b) :
    Recycled t (t.setBucket p (t.releaseSlot b index).1) none := by
  rw [deref_eq_some_iff] at hb
  obtain ⟨hvalid, rfl⟩ := hb
  apply SlotsKept.recycled (SlotsKept.setBucket t p _)
  rintro slot - ⟨-, hlt, hclear⟩
  rw [setBucket_mem, Function.update_self] at hclear
  refine ⟨⟨hvalid, hlt, ?_⟩, ?_⟩
  · simp only [releaseSlot, BitVec.getLsbD_or, Bool.or_eq_false_iff] at hclear
    exact hclear.1
  · simp only [identity, entry, setBucket_mem, Function.update_self,
      releaseSlot_entries]

theorem unlinkBucket_recycled (hunlink : t.unlinkBucket p = some t') :
    Recycled t t' none := by
  simp only [unlinkBucket, Option.bind_eq_bind,
    Option.bind_eq_some_iff] at hunlink
  obtain ⟨b, -, hunlink⟩ := hunlink
  have hlast : ∀ last, SlotsKept t { t with last := last } none := by
    intro last
    refine ⟨rfl, rfl, fun q _ hvalid => ⟨?_, rfl, rfl⟩⟩
    cases q <;> exact hvalid
  apply SlotsKept.recycledNone
  generalize hstart : (if t.last b.parent = some p then
    { t with last := Function.update t.last b.parent b.prev } else t) = t₁
    at hunlink
  have hkept₁ : SlotsKept t t₁ none := by
    rw [← hstart]
    split
    · exact hlast _
    · exact SlotsKept.refl t none
  apply hkept₁.trans
  cases hprev : b.prev <;> cases hnext : b.next <;>
    simp only [hprev, hnext, Option.bind_some, Option.some.injEq,
      Option.bind_eq_some_iff] at hunlink
  · rw [hunlink]
    exact SlotsKept.refl t' none
  · exact SlotsKept.modifyBucket hunlink (fun _ => rfl) (fun _ => rfl)
  · obtain ⟨t₂, hmodify, rfl⟩ := hunlink
    exact SlotsKept.modifyBucket hmodify (fun _ => rfl) (fun _ => rfl)
  · obtain ⟨t₂, hmodify, hmodify'⟩ := hunlink
    exact (SlotsKept.modifyBucket hmodify (fun _ => rfl)
      (fun _ => rfl)).trans
        (SlotsKept.modifyBucket hmodify' (fun _ => rfl) (fun _ => rfl))

theorem freeBucket_recycled (hfree : t.freeBucket p = some t') :
    Recycled t t' none := by
  cases p with
  | first chain => simp [freeBucket] at hfree
  | heap addr =>
      simp only [freeBucket] at hfree
      split at hfree
      · rw [Option.some.injEq] at hfree
        subst hfree
        apply SlotsKept.recycledNone
        refine ⟨rfl, rfl, fun q _ hvalid => ⟨?_, rfl, rfl⟩⟩
        cases q with
        | first c => exact hvalid
        | heap a =>
            simp only [valid, decide_eq_true_eq] at hvalid ⊢
            exact List.mem_of_mem_erase hvalid
      · simp at hfree

theorem SlotsKept.modifyBucketAny {f : FlowBucket → FlowBucket}
    (hmodify : t.modifyBucket p f = some t') : SlotsKept t t' (some p) := by
  rw [modifyBucket_eq_some_iff] at hmodify
  obtain ⟨-, rfl⟩ := hmodify
  exact SlotsKept.setBucket t p _

/-- A new bucket leaves the slots of the others alone. -/
theorem ftAddBucket_kept {alloc : Option Nat} {chain : Nat}
    {prev : Option BucketPtr} {dynamic : Bool}
    {r : FlowTable × Option BucketPtr}
    (hadd : t.ftAddBucket alloc chain prev dynamic = some r) :
    SlotsKept t r.1 r.2 := by
  cases alloc with
  | none =>
      simp only [ftAddBucket, Option.some.injEq] at hadd
      rw [← hadd]
      exact SlotsKept.refl t none
  | some addr =>
      simp only [ftAddBucket] at hadd
      split at hadd
      · simp at hadd
      · simp only [ftInitBucket, Option.bind_eq_bind, Option.bind_eq_some_iff,
          Option.some.injEq] at hadd
        obtain ⟨t₂, hinit, rfl⟩ := hadd
        have hfresh : SlotsKept t
            { t.setBucket (.heap addr) FlowBucket.zero with
              heap := addr :: t.heap } (some (.heap addr)) := by
          refine ⟨rfl, rfl, ?_⟩
          intro q hq hvalid
          have hne : q ≠ .heap addr := fun h => hq (congrArg some h)
          refine ⟨?_, ?_, ?_⟩
          · cases q with
            | first c => exact hvalid
            | heap a =>
                simp only [valid, decide_eq_true_eq, List.mem_cons]
                  at hvalid ⊢
                rcases hvalid with rfl | hmem
                · exact absurd rfl hne
                · exact hmem
          · simp only [setBucket_mem, Function.update_of_ne hne]
          · simp only [setBucket_mem, Function.update_of_ne hne]
        cases prev with
        | none =>
            exact hfresh.trans (SlotsKept.modifyBucketAny hinit)
        | some q =>
            simp only [Option.bind_eq_some_iff] at hinit
            obtain ⟨t₁, hmodify, hinit⟩ := hinit
            exact (hfresh.trans ((SlotsKept.modifyBucket hmodify
              (fun _ => rfl) (fun _ => rfl)).weaken _)).trans
                (SlotsKept.modifyBucketAny hinit)

/-- An append takes slot 0 of the new bucket into use, and no other. -/
theorem appendBucket_recycled (hsize : SizeOk t) {alloc : Option Nat} {chain : Nat}
    {added : Option EntryPtr}
    (happend : t.appendBucket alloc chain = some (t', added)) :
    Recycled t t' added := by
  simp only [appendBucket, Option.bind_eq_bind,
    Option.bind_eq_some_iff] at happend
  obtain ⟨⟨t₁, bucket⟩, hadd, tail, -, t₂, hmodify, happend⟩ := happend
  have hkept : SlotsKept t
      { t₂ with last := Function.update t₂.last chain bucket } bucket := by
    have hkept₂ : SlotsKept t t₂ bucket := (ftAddBucket_kept hadd).trans
      ((SlotsKept.modifyBucket hmodify (fun _ => rfl)
        (fun _ => rfl)).weaken bucket)
    apply hkept₂.trans
    refine ⟨rfl, rfl, fun q _ hvalid => ⟨?_, rfl, rfl⟩⟩
    cases q <;> exact hvalid
  cases bucket with
  | none =>
      simp only [Option.some.injEq, Prod.mk.injEq] at happend
      obtain ⟨rfl, rfl⟩ := happend
      exact hkept.recycledNone
  | some p =>
      simp only [Option.some.injEq, Prod.mk.injEq] at happend
      obtain ⟨rfl, rfl⟩ := happend
      apply (hkept.trans (SlotsKept.setBucket _ p _)).recycled
      rintro slot hne ⟨-, hlt, hclear⟩
      have hslot : slot ≠ 0 := by
        rintro rfl
        exact hne rfl
      rw [setBucket_mem, Function.update_self] at hclear
      have hlt' : slot < 64 := by
        have hle := hsize.le
        rw [← hkept.bucketSize] at hle
        exact lt_of_lt_of_le hlt (hle.trans (by omega))
      have hset : (~~~1#64).getLsbD slot = true := by
        rw [BitVec.getLsbD_not, BitVec.getLsbD_one]
        simp [hslot, hlt']
      rw [hset] at hclear
      simp at hclear

/-- The entry has the fields an `ft_add` with these arguments writes. -/
structure Matches (entry : FlowEntry) (args : FlowArgs) : Prop where
  hash : entry.hash = args.hash
  color : entry.color = args.color
  key : keyEq (keyLen args.color) entry.keyData args.keyData = true

/-- Every lookup returned a live entry whose `ft_add` had written its fields
from arguments that agree with those of the lookup. -/
def LookupsOk (s : Threads) : Prop :=
  ∀ r ∈ s.returned, r.live = true ∧ ∃ o, r.owner = some o ∧
    o.written = true ∧ o.args.hash = r.args.hash ∧
    o.args.color &&& FLOW_COLOR_TYPE_MASK =
      r.args.color &&& FLOW_COLOR_TYPE_MASK ∧
    keyEq (keyLen r.args.color) o.args.keyData r.args.keyData = true

/-- An `ft_add` has claimed the slot and has yet to write its fields. -/
def claimed (s : Threads) (e : EntryPtr) : Bool :=
  decide (s.table.Used e) && !(s.owner e).any fun o => o.written

/-- A lookup does not come to a bucket while an `ft_add` is between its claim of a
slot of this bucket and the section in which it writes the fields, and an `ft_add`
does not write to a slot that was taken from it and is in use with the fields of
another. -/
def threadSafe (s : Threads) (action : TableAct) : Bool :=
  match action with
  | .visit thread =>
      match s.pc thread with
      | .visit _ p =>
          (List.range s.table.bucketSize).all fun i => !claimed s ⟨p, i⟩
      | _ => true
  | .addInit thread =>
      match s.pc thread with
      | .addInit _ e =>
          !decide (s.table.Used e) || (s.owner e).all fun o =>
            !o.written || decide (o.thread = thread)
      | _ => true
  | _ => true

/-- What the owners of the slots say about their fields. -/
structure OwnerInv (s : Threads) : Prop where
  size : SizeOk s.table
  owned : ∀ e, s.table.Used e → ∃ o, s.owner e = some o ∧
    (o.written = true → Matches (s.table.entry e) o.args)
  pending : ∀ thread args e, s.pc thread = .addInit args e →
    ∀ o, s.owner e = some o → o.thread = thread → o.args = args
  returned : LookupsOk s

variable {s s' : Threads} {action : TableAct} {thread : Nat}

theorem Matches.congr {entry entry' : FlowEntry} {args : FlowArgs}
    (hmatches : Matches entry args) (hhash : entry'.hash = entry.hash)
    (hcolor : entry'.color = entry.color)
    (hkey : entry'.keyData = entry.keyData) : Matches entry' args :=
  ⟨hhash.trans hmatches.hash, hcolor.trans hmatches.color,
    by rw [hkey]; exact hmatches.key⟩

/-- Sections that take no slot into use and leave the owners alone. -/
theorem OwnerInv.plain (hinv : OwnerInv s)
    (hrecycled : Recycled s.table s'.table none) (howner : s'.owner = s.owner)
    (hreturned : s'.returned = s.returned)
    (hpc : ∀ thread args e, s'.pc thread = .addInit args e →
      s.pc thread = .addInit args e) : OwnerInv s' := by
  refine ⟨hrecycled.size hinv.size, ?_, ?_, ?_⟩
  · intro e hused
    obtain ⟨hold, hidentity⟩ := hrecycled.kept e (by simp) hused
    obtain ⟨o, ho, hmatches⟩ := hinv.owned e hold
    simp only [identity, Prod.mk.injEq] at hidentity
    refine ⟨o, by rw [howner]; exact ho, fun hwritten => ?_⟩
    exact (hmatches hwritten).congr hidentity.1 hidentity.2.1 hidentity.2.2
  · intro thread args e h
    rw [howner]
    exact hinv.pending thread args e (hpc thread args e h)
  · intro r hr
    rw [hreturned] at hr
    exact hinv.returned r hr

/-- A thread that moves to a place other than the initialisation of a slot. -/
theorem setPc_addInit {pc : TablePc} (hpc : ∀ args e, pc ≠ .addInit args e)
    {other : Nat} {args : FlowArgs}
    (h : Function.update s.pc thread pc other = .addInit args e) :
    s.pc other = .addInit args e := by
  by_cases heq : other = thread
  · rw [heq, Function.update_self] at h
    exact absurd h (hpc args e)
  · rwa [Function.update_of_ne heq] at h

/-- A claim hands the slot to its thread. -/
theorem OwnerInv.claim (hinv : OwnerInv s) {args : FlowArgs} {e : EntryPtr}
    (hrecycled : Recycled s.table s'.table (some e))
    (howner : s'.owner = Function.update s.owner e
      (some ⟨thread, args, false⟩))
    (hreturned : s'.returned = s.returned)
    (hpc : s'.pc = Function.update s.pc thread (.addInit args e)) :
    OwnerInv s' := by
  refine ⟨hrecycled.size hinv.size, ?_, ?_, ?_⟩
  · intro e' hused
    rw [howner]
    by_cases he : e' = e
    · rw [he, Function.update_self]
      exact ⟨_, rfl, by simp⟩
    · rw [Function.update_of_ne he]
      obtain ⟨hold, hidentity⟩ :=
        hrecycled.kept e' (fun h => he (Option.some.inj h)) hused
      obtain ⟨o, ho, hmatches⟩ := hinv.owned e' hold
      simp only [identity, Prod.mk.injEq] at hidentity
      refine ⟨o, ho, fun hwritten => ?_⟩
      exact (hmatches hwritten).congr hidentity.1 hidentity.2.1 hidentity.2.2
  · intro other args' e' h o ho hthread
    rw [hpc] at h
    rw [howner] at ho
    by_cases hother : other = thread
    · rw [hother, Function.update_self, TablePc.addInit.injEq] at h
      obtain ⟨rfl, rfl⟩ := h
      rw [Function.update_self, Option.some.injEq] at ho
      rw [← ho]
    · rw [Function.update_of_ne hother] at h
      by_cases he : e' = e
      · rw [he, Function.update_self, Option.some.injEq] at ho
        rw [← ho] at hthread
        exact absurd hthread.symm hother
      · rw [Function.update_of_ne he] at ho
        exact hinv.pending other args' e' h o ho hthread
  · intro r hr
    rw [hreturned] at hr
    exact hinv.returned r hr

theorem OwnerInv.addAdvance (hinv : OwnerInv s) (args : FlowArgs)
    (b : FlowBucket) : OwnerInv (s.addAdvance thread args b) := by
  unfold Threads.addAdvance
  split
  · exact hinv.plain (Recycled.refl _) rfl rfl
      fun _ _ _ => setPc_addInit (by simp)
  · exact hinv.plain (Recycled.refl _) rfl rfl
      fun _ _ _ => setPc_addInit (by simp)

theorem OwnerInv.stepCall (hinv : OwnerInv s) {call : TableCall}
    (hstep : s.stepCall thread call = some s') : OwnerInv s' := by
  simp only [Threads.stepCall] at hstep
  split at hstep
  · cases call with
    | add args =>
        rw [Option.some.injEq] at hstep
        rw [← hstep]
        exact hinv.plain (Recycled.refl _) rfl rfl
          fun _ _ _ => setPc_addInit (by simp)
    | lookup args =>
        rw [Option.some.injEq] at hstep
        rw [← hstep]
        exact hinv.plain (Recycled.refl _) rfl rfl
          fun _ _ _ => setPc_addInit (by simp)
    | ref e count =>
        simp only [Option.map_eq_some_iff] at hstep
        obtain ⟨t', href, rfl⟩ := hstep
        exact hinv.plain (modifyEntry_recycledNone href (fun _ => rfl)
          (fun _ => rfl) (fun _ => rfl)) rfl rfl fun _ _ _ h => h
    | deref e count =>
        simp only [Option.map_eq_some_iff] at hstep
        obtain ⟨t', hmodify, rfl⟩ := hstep
        have hrecycled : Recycled s.table t' none :=
          modifyEntry_recycledNone hmodify (fun _ => rfl) (fun _ => rfl)
            (fun _ => rfl)
        split
        · exact hinv.plain hrecycled rfl rfl
            fun _ _ _ => setPc_addInit (by simp)
        · exact hinv.plain hrecycled rfl rfl fun _ _ _ h => h
  · simp at hstep

theorem OwnerInv.stepAddTest (hinv : OwnerInv s)
    (hstep : s.stepAddTest thread = some s') : OwnerInv s' := by
  simp only [Threads.stepAddTest] at hstep
  split at hstep
  case h_1 args p _ =>
    simp only [Option.map_eq_some_iff] at hstep
    obtain ⟨b, -, rfl⟩ := hstep
    split
    · exact hinv.plain (Recycled.refl _) rfl rfl
        fun _ _ _ => setPc_addInit (by simp)
    · exact hinv.addAdvance args b
  case h_2 => simp at hstep

theorem OwnerInv.stepAddClaim (hinv : OwnerInv s) {acquired : Bool}
    (hstep : s.stepAddClaim thread acquired = some s') : OwnerInv s' := by
  simp only [Threads.stepAddClaim] at hstep
  split at hstep
  case h_1 args p _ =>
    simp only [Option.map_eq_some_iff] at hstep
    obtain ⟨b, hb, rfl⟩ := hstep
    rw [deref_eq_some_iff] at hb
    obtain ⟨hvalid, rfl⟩ := hb
    split
    case isTrue hclaim =>
      rw [Bool.and_eq_true] at hclaim
      exact hinv.claim (claimSlot_recycled hinv.size hvalid hclaim.2) rfl rfl
        rfl
    case isFalse => exact hinv.addAdvance args _
  case h_2 => simp at hstep

theorem OwnerInv.stepAddAppend (hinv : OwnerInv s) {alloc : Option Nat}
    (hstep : s.stepAddAppend thread alloc = some s') : OwnerInv s' := by
  simp only [Threads.stepAddAppend] at hstep
  split at hstep
  case h_1 args _ =>
    split at hstep
    · simp only [Option.map_eq_some_iff] at hstep
      obtain ⟨⟨t', added⟩, happend, rfl⟩ := hstep
      have hrecycled := appendBucket_recycled hinv.size happend
      cases added with
      | none =>
          exact hinv.plain hrecycled rfl rfl
            fun _ _ _ => setPc_addInit (by simp)
      | some e => exact hinv.claim hrecycled rfl rfl rfl
    · simp at hstep
  case h_2 => simp at hstep

/-- What the section under the entry lock leaves in the entry. -/
theorem initEntry_matches {args : FlowArgs}
    (hinit : t.initEntry e args.hash args.keyData args.color = some t') :
    Matches (t'.entry e) args := by
  simp only [initEntry] at hinit
  rw [modifyEntry_eq_some_iff] at hinit
  obtain ⟨-, rfl⟩ := hinit
  rw [setEntry_entry, if_pos rfl]
  refine ⟨rfl, rfl, ?_⟩
  rw [keyEq_eq_true_iff]
  intro i hi
  simp [memcpy, hi]

theorem OwnerInv.stepAddInit (hinv : OwnerInv s)
    (hsafe : threadSafe s (.addInit thread) = true)
    (hstep : s.stepAddInit thread = some s') : OwnerInv s' := by
  simp only [Threads.stepAddInit] at hstep
  split at hstep
  case h_1 args e hpc =>
    simp only [Option.map_eq_some_iff] at hstep
    obtain ⟨t', hinit, rfl⟩ := hstep
    have hmatches := initEntry_matches hinit
    have hrecycled : Recycled s.table t' (some e) :=
      modifyEntry_recycled hinit
    have hused : t'.Used e → s.table.Used e := by
      simp only [initEntry] at hinit
      rw [modifyEntry_eq_some_iff] at hinit
      obtain ⟨-, rfl⟩ := hinit
      exact (setEntry_used e e _).mp
    simp only [threadSafe, hpc, Bool.or_eq_true, Bool.not_eq_true',
      decide_eq_false_iff_not] at hsafe
    refine ⟨hrecycled.size hinv.size, ?_, ?_, ?_⟩
    · intro e' he'
      change ∃ o, Function.update s.owner e
        (Threads.writtenOwner thread (s.owner e)) e' = some o ∧ _
      by_cases he : e' = e
      · subst he
        have hold := hused he'
        obtain ⟨o, ho, -⟩ := hinv.owned e' hold
        rw [Function.update_self, ho, Threads.writtenOwner, Option.map_some]
        refine ⟨_, rfl, ?_⟩
        split
        case isTrue hthread =>
          intro _
          rw [hinv.pending thread args e' hpc o ho hthread]
          exact hmatches
        case isFalse hthread =>
          -- The slot was taken over by an `ft_add` that has yet to write it.
          intro hwritten
          rcases hsafe with hunused | hall
          · exact absurd hold hunused
          · simp [ho, hwritten, hthread] at hall
      · rw [Function.update_of_ne he]
        obtain ⟨hold, hidentity⟩ :=
          hrecycled.kept e' (fun h => he (Option.some.inj h)) he'
        obtain ⟨o, ho, hmatches'⟩ := hinv.owned e' hold
        simp only [identity, Prod.mk.injEq] at hidentity
        refine ⟨o, ho, fun hwritten => ?_⟩
        exact (hmatches' hwritten).congr hidentity.1 hidentity.2.1
          hidentity.2.2
    · intro other args' e' h o ho hother
      have h' : s.pc other = .addInit args' e' := setPc_addInit (by simp) h
      change Function.update s.owner e
        (Threads.writtenOwner thread (s.owner e)) e' = some o at ho
      by_cases he : e' = e
      · subst he
        rw [Function.update_self, Threads.writtenOwner,
          Option.map_eq_some_iff] at ho
        obtain ⟨o', ho', rfl⟩ := ho
        split at hother
        · have hargs := hinv.pending other args' e' h' o' ho' hother
          split <;> exact hargs
        · have hargs := hinv.pending other args' e' h' o' ho' hother
          split <;> exact hargs
      · rw [Function.update_of_ne he] at ho
        exact hinv.pending other args' e' h' o ho hother
    · exact hinv.returned
  case h_2 => simp at hstep

theorem OwnerInv.stepAddRef (hinv : OwnerInv s)
    (hstep : s.stepAddRef thread = some s') : OwnerInv s' := by
  simp only [Threads.stepAddRef] at hstep
  split at hstep
  · simp only [Option.map_eq_some_iff] at hstep
    obtain ⟨t', hfinish, rfl⟩ := hstep
    exact hinv.plain (finishAdd_recycled hfinish) rfl rfl
      fun _ _ _ => setPc_addInit (by simp)
  · simp at hstep

/-- The type bits of a colour decide the length of the key. -/
theorem keyLen_of_type {c c' : BitVec 16}
    (htype : c &&& FLOW_COLOR_TYPE_MASK = c' &&& FLOW_COLOR_TYPE_MASK) :
    keyLen c = keyLen c' := by
  have hbit : (c &&& FLOW_COLOR_TYPE_MASK).getLsbD 1 =
      (c' &&& FLOW_COLOR_TYPE_MASK).getLsbD 1 := by rw [htype]
  have hmask : (FLOW_COLOR_TYPE_MASK : BitVec 16).getLsbD 1 = true := by decide
  rw [BitVec.getLsbD_and, BitVec.getLsbD_and, hmask, Bool.and_true,
    Bool.and_true] at hbit
  simp only [keyLen, FLOW_COLOR_IPV6, test_bit, hbit]

/-- An entry that matches its `ft_add` and is accepted by a lookup links the
arguments of the two. -/
theorem Matches.accepted {entry : FlowEntry} {added args : FlowArgs}
    (hmatches : Matches entry added)
    (haccept : ftCompare entry args.hash args.keyData args.color = true) :
    added.hash = args.hash ∧
      added.color &&& FLOW_COLOR_TYPE_MASK =
        args.color &&& FLOW_COLOR_TYPE_MASK ∧
      keyEq (keyLen args.color) added.keyData args.keyData = true := by
  simp only [ftCompare, Bool.and_eq_true, beq_iff_eq] at haccept
  obtain ⟨⟨hhash, htype⟩, hkey⟩ := haccept
  rw [hmatches.hash] at hhash
  rw [hmatches.color] at htype
  refine ⟨hhash, htype, ?_⟩
  have hown := hmatches.key
  rw [keyLen_of_type htype, keyEq_eq_true_iff] at hown
  rw [keyEq_eq_true_iff] at hkey ⊢
  intro i hi
  rw [← hown i hi, hkey i hi]

theorem OwnerInv.stepVisit (hinv : OwnerInv s)
    (hsafe : threadSafe s (.visit thread) = true)
    (hstep : s.stepVisit thread = some s') : OwnerInv s' := by
  simp only [Threads.stepVisit] at hstep
  split at hstep
  case h_1 args p hpc =>
    simp only [Option.map_eq_some_iff, deref_eq_some_iff] at hstep
    obtain ⟨b, ⟨hvalid, rfl⟩, hstep⟩ := hstep
    split at hstep
    case h_1 slot hvisit =>
      obtain ⟨hlt, hclear, haccept⟩ := visitBucket_eq_some hinv.size hvisit
      have hused : s.table.Used ⟨p, slot⟩ := ⟨hvalid, hlt, hclear⟩
      obtain ⟨o, ho, hmatches⟩ := hinv.owned ⟨p, slot⟩ hused
      have hwritten : o.written = true := by
        simp only [threadSafe, hpc, List.all_eq_true, List.mem_range] at hsafe
        simpa [claimed, hused, ho] using hsafe slot hlt
      rw [← hstep]
      refine ⟨hinv.size, hinv.owned, ?_, ?_⟩
      · intro other args' e h
        exact hinv.pending other args' e (setPc_addInit (by simp) h)
      · intro r hr
        rcases List.mem_cons.mp hr with rfl | hr
        · obtain ⟨hhash, htype, hkey⟩ :=
            (hmatches hwritten).accepted haccept
          exact ⟨decide_eq_true hused, o, ho, hwritten, hhash, htype, hkey⟩
        · exact hinv.returned r hr
    case h_2 =>
      split at hstep
      · rw [← hstep]
        exact hinv.plain (Recycled.refl _) rfl rfl
          fun _ _ _ => setPc_addInit (by simp)
      · rw [← hstep]
        exact hinv.plain (Recycled.refl _) rfl rfl
          fun _ _ _ => setPc_addInit (by simp)
  case h_2 => simp at hstep

theorem OwnerInv.stepRemoveCheck (hinv : OwnerInv s)
    (hstep : s.stepRemoveCheck thread = some s') : OwnerInv s' := by
  simp only [Threads.stepRemoveCheck] at hstep
  split at hstep
  · simp only [Option.bind_eq_bind, Option.bind_eq_some_iff,
      Option.some.injEq] at hstep
    obtain ⟨holder, -, p, -, b, -, rfl⟩ := hstep
    split <;> exact hinv.plain (Recycled.refl _) rfl rfl
      fun _ _ _ => setPc_addInit (by simp)
  · simp at hstep

theorem OwnerInv.stepRemoveMark (hinv : OwnerInv s)
    (hstep : s.stepRemoveMark thread = some s') : OwnerInv s' := by
  simp only [Threads.stepRemoveMark] at hstep
  split at hstep
  case h_1 e p hpc =>
    simp only [Option.bind_eq_bind, Option.bind_eq_some_iff,
      Option.some.injEq] at hstep
    obtain ⟨holder, -, b, hb, rfl⟩ := hstep
    have hrecycled := @releaseSlot_recycled s.table p b
      (holder.entries e.slot).index hb
    split
    · exact hinv.plain hrecycled rfl rfl
        fun _ _ _ => setPc_addInit (by simp)
    · exact hinv.plain (hrecycled.trans finishRemove_recycled) rfl rfl
        fun _ _ _ => setPc_addInit (by simp)
  case h_2 => simp at hstep

theorem OwnerInv.stepRemoveUnlink (hinv : OwnerInv s)
    (hstep : s.stepRemoveUnlink thread = some s') : OwnerInv s' := by
  simp only [Threads.stepRemoveUnlink] at hstep
  split at hstep
  · simp only [Option.bind_eq_bind, Option.bind_eq_some_iff] at hstep
    obtain ⟨b, -, hstep⟩ := hstep
    split at hstep
    · simp only [Option.map_eq_some_iff] at hstep
      obtain ⟨t', hunlink, rfl⟩ := hstep
      exact hinv.plain (unlinkBucket_recycled hunlink) rfl rfl
        fun _ _ _ => setPc_addInit (by simp)
    · simp at hstep
  · simp at hstep

theorem OwnerInv.stepRemoveFree (hinv : OwnerInv s)
    (hstep : s.stepRemoveFree thread = some s') : OwnerInv s' := by
  simp only [Threads.stepRemoveFree] at hstep
  split at hstep
  · simp only [Option.map_eq_some_iff] at hstep
    obtain ⟨t', hfree, rfl⟩ := hstep
    exact hinv.plain ((freeBucket_recycled hfree).trans
      finishRemove_recycled) rfl rfl fun _ _ _ => setPc_addInit (by simp)
  · simp at hstep

theorem OwnerInv.threadStep (hinv : OwnerInv s)
    (hsafe : threadSafe s action = true)
    (hstep : threadStep s action = some s') : OwnerInv s' := by
  cases action with
  | call thread call => exact hinv.stepCall hstep
  | addTest thread => exact hinv.stepAddTest hstep
  | addClaim thread acquired => exact hinv.stepAddClaim hstep
  | addAppend thread alloc => exact hinv.stepAddAppend hstep
  | addInit thread => exact hinv.stepAddInit hsafe hstep
  | addRef thread => exact hinv.stepAddRef hstep
  | visit thread => exact hinv.stepVisit hsafe hstep
  | removeCheck thread => exact hinv.stepRemoveCheck hstep
  | removeMark thread => exact hinv.stepRemoveMark hstep
  | removeUnlink thread => exact hinv.stepRemoveUnlink hstep
  | removeFree thread => exact hinv.stepRemoveFree hstep

/-- In every run of safe steps after `ft_init`, lookups return live entries
whose `ft_add` was called with the flow they asked for. -/
theorem lookupsOk_of_run {calloc : Nat → Nat → Option Nat}
    {power2 chainSize bucketSize : Nat}
    (hinit : ftInit calloc power2 chainSize bucketSize = some t)
    (hle : bucketSize ≤ 32)
    (hrun : Run threadStep (fun s action => threadSafe s action = true)
      (threadsStart t) s) : LookupsOk s := by
  have hinv : OwnerInv s := by
    apply hrun.invariant
    · refine ⟨(ftInit_tableInv hinit hle).toSizeOk, ?_, ?_, ?_⟩
      · exact fun e he => absurd he (ftInit_not_used hinit hle e)
      · simp [threadsStart]
      · simp [LookupsOk, threadsStart]
    · exact fun hinv hsafe hstep => hinv.threadStep hsafe hstep
  exact hinv.returned

/-- Two flows of one chain. -/
def firstArgs : FlowArgs := ⟨1#32, fun _ => 1#8, 0#16⟩

def secondArgs : FlowArgs := ⟨2#32, fun _ => 2#8, 0#16⟩

/-- The only entry of a table with one slot. -/
def onlyEntry : EntryPtr := ⟨.first 0, 0⟩

/-- One thread adds a flow and removes it again. -/
def addThenRemove : List TableAct :=
  [.call 0 (.add firstArgs), .addTest 0, .addClaim 0 true, .addInit 0,
    .addRef 0, .call 0 (.deref onlyEntry 1), .removeCheck 0, .removeMark 0]

/-- The flow is found while it is there. -/
theorem lookupsOk_of_run_found : ∃ t s,
    ftInit (fun _ _ => none) 0 1 1 = some t ∧
    Run threadStep (fun s action => threadSafe s action = true)
      (threadsStart t) s ∧
    s.returned.map (fun r => r.e) = [onlyEntry] ∧ LookupsOk s := by
  have hrun : ((ftInit (fun _ _ => none) 0 1 1).bind fun t =>
      (execOk threadStep threadSafe (threadsStart t)
        (addThenRemove.take 5 ++ [.call 1 (.lookup firstArgs),
          .visit 1])).map fun s => s.returned.map fun r => r.e) =
            some [onlyEntry] := by
    decide +kernel
  simp only [Option.bind_eq_some_iff, Option.map_eq_some_iff] at hrun
  obtain ⟨t, hinit, s, hexec, hreturned⟩ := hrun
  exact ⟨t, s, hinit, run_of_execOk _ hexec, hreturned,
    lookupsOk_of_run hinit (by decide) (run_of_execOk _ hexec)⟩

/-- Another thread has claimed the slot for the second flow and not written its
fields yet: the lookup of the first flow returns the entry. -/
theorem lookupsOk_fails : ∃ t s,
    ftInit (fun _ _ => none) 0 1 1 = some t ∧
    Run threadStep anyStep (threadsStart t) s ∧ ¬ LookupsOk s := by
  have hrun : ((ftInit (fun _ _ => none) 0 1 1).bind fun t =>
      (exec threadStep (threadsStart t)
        (addThenRemove ++ [.call 0 (.add secondArgs), .addTest 0,
          .addClaim 0 true, .call 1 (.lookup firstArgs), .visit 1])).map
            fun s => s.returned.map fun r =>
              r.owner.map fun o => o.written) = some [some false] := by
    decide +kernel
  simp only [Option.bind_eq_some_iff, Option.map_eq_some_iff] at hrun
  obtain ⟨t, hinit, s, hexec, hreturned⟩ := hrun
  refine ⟨t, s, hinit, run_of_exec _ hexec, ?_⟩
  intro hok
  cases hlist : s.returned with
  | nil => simp [hlist] at hreturned
  | cons r rest =>
      obtain ⟨-, o, ho, hwritten, -⟩ := hok r (by rw [hlist]; simp)
      simp [hlist, ho, hwritten] at hreturned

end FlowTable

end Ntnetflow

end NtapiExamples
