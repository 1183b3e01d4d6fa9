/-
What the next flow in a slot inherits from the one before it.  The life of a
flow is any sequence of the updates that the four threads make on its entry;
`ft_add` then writes some of the fields anew, and the poll links and the skip
count are not among them.
-/
import NtapiExamples.Ntnetflow.FlowLearnTable

namespace NtapiExamples

namespace Ntnetflow

/-- The table and the poll list, with the slots whose links were written since
`calloc` returned their memory. -/
structure Life where
  table : FlowTable
  poll : PollState
  linked : List EntryPtr

/-- One update of an entry, wherever in the program it is made. -/
inductive LifeOp where
  | add (alloc : Option Nat) (hash : BitVec 32) (keyData : KeyData)
      (color : BitVec 16)
  | stream (e : EntryPtr) (streamId : BitVec 8)
  | ref (e : EntryPtr) (count : Nat)
  | deref (e : EntryPtr) (count : Nat)
  | flagsOr (e : EntryPtr) (mask : BitVec 32)
  | flagsAnd (e : EntryPtr) (mask : BitVec 32)
  | skipAdd (e : EntryPtr) (count : Int)
  | skipExchange (e : EntryPtr)
  | reschedule (e : EntryPtr) (nextUpdate : BitVec 64)
  | update (e : EntryPtr) (info : NtFlowInfo)
  | increment (e : EntryPtr) (flags : BitVec 16) (ts : BitVec 64)
      (downstream : Bool)
  | addPoll (e : EntryPtr)
  | removePoll (e : EntryPtr)
  | advance
  | tick

/-- The entries whose links `fl_add_poll` writes. -/
def addPollWrites (t : FlowTable) (head : Option EntryPtr) (e : EntryPtr) :
    List EntryPtr :=
  match head with
  | none => [e]
  | some h => e :: h :: (t.entry h).poll.prev.toList

/-- The entries whose links `fl_remove_poll` writes. -/
def removePollWrites (t : FlowTable) (e : EntryPtr) : List EntryPtr :=
  (t.entry e).poll.prev.toList ++ (t.entry e).poll.next.toList

/-- One update.  `rx_process`, the only caller of `ft_add`, writes through the
pointer it returns, so that there is no step after a failed call. -/
def lifeStep (cfg : FlConfig) (s : Life) : LifeOp → Option Life
  | .add alloc hash keyData color => do
      let (t, added) ← s.table.ftAdd alloc hash keyData color
      let _ ← added
      some { s with table := t }
  | .stream e streamId => do
      let t ← s.table.modifyEntry e fun entry =>
        { entry with streamId := streamId }
      some { s with table := t }
  | .ref e count => do
      let t ← s.table.ftRef e count
      some { s with table := t }
  | .deref e count => do
      let t ← s.table.ftDeref e count
      some { s with
        table := t
        linked := s.linked.filter fun e' => t.valid e'.bucket }
  | .flagsOr e mask => do
      let (t, _) ← fetchOr s.table e mask
      some { s with table := t }
  | .flagsAnd e mask => do
      let (t, _) ← fetchAnd s.table e mask
      some { s with table := t }
  | .skipAdd e count => do
      let t ← Ntnetflow.skipAdd s.table e count
      some { s with table := t }
  | .skipExchange e => do
      let t ← s.table.modifyEntry e fun entry =>
        { entry with poll := { entry.poll with skip := 0 } }
      some { s with table := t }
  | .reschedule e nextUpdate => do
      let t ← setNextUpdate s.table e nextUpdate
      some { s with table := t }
  | .update e info => do
      let t ← s.table.modifyEntry e fun entry =>
        { entry with info := (fiUpdate entry.info info).1 }
      some { s with table := t }
  | .increment e flags ts downstream => do
      let t ← s.table.modifyEntry e fun entry =>
        { entry with info := (fiIncrement entry.info flags ts downstream).1 }
      some { s with table := t }
  | .addPoll e => do
      let (t, poll) ← flAddPoll cfg s.table s.poll e
      some ⟨t, poll, addPollWrites s.table s.poll.head e ++ s.linked⟩
  | .removePoll e => do
      let (t, poll) ← flRemovePoll s.table s.poll e
      some ⟨t, poll, removePollWrites s.table e ++ s.linked⟩
  | .advance => do
      let h ← s.poll.head
      let b ← s.table.deref h.bucket
      some { s with poll := { s.poll with head := (b.entries h.slot).poll.next } }
  | .tick =>
      some { s with poll := { s.poll with
        current := s.poll.current + 1#64, opCount := 0#32 } }

/-- An update is made to an entry in use, and `ft_deref` does not take more
references than there are, which is what its assertion says. -/
def lifeOk (s : Life) : LifeOp → Prop
  | .add .. | .advance | .tick => True
  | .deref e count =>
      s.table.Used e ∧ (count : Int) ≤ (s.table.entry e).rc
  | .stream e _ | .ref e _ | .flagsOr e _ | .flagsAnd e _ | .skipAdd e _
  | .skipExchange e | .reschedule e _ | .update e _ | .increment e _ _ _
  | .addPoll e | .removePoll e => s.table.Used e

instance (s : Life) (op : LifeOp) : Decidable (lifeOk s op) :=
  match op with
  | .add .. | .advance | .tick => inferInstanceAs (Decidable True)
  | .deref e count => inferInstanceAs
      (Decidable (s.table.Used e ∧ (count : Int) ≤ (s.table.entry e).rc))
  | .stream e _ | .ref e _ | .flagsOr e _ | .flagsAnd e _ | .skipAdd e _
  | .skipExchange e | .reschedule e _ | .update e _ | .increment e _ _ _
  | .addPoll e | .removePoll e => inferInstanceAs (Decidable (s.table.Used e))

def lifeStart (t : FlowTable) : Life := ⟨t, ⟨none, 0#64, 0#32, 0#32⟩, []⟩

/-- A state that some sequence of updates leads to. -/
def LifeReached (s : Life) : Prop :=
  ∃ cfg calloc power2 chainSize bucketSize t,
    FlowTable.ftInit calloc power2 chainSize bucketSize = some t ∧
      bucketSize ≤ 32 ∧ Run (lifeStep cfg) lifeOk (lifeStart t) s

/-- Two entries with the same key that no later code can tell apart. -/
structure SameFlow (a b : FlowEntry) : Prop where
  rc : a.rc = b.rc
  flags : a.flags = b.flags
  hash : a.hash = b.hash
  color : a.color = b.color
  key : keyEq (keyLen a.color) a.keyData b.keyData = true
  info : a.info = b.info
  next : a.poll.next = b.poll.next
  prev : a.poll.prev = b.poll.prev
  skip : a.poll.skip = b.poll.skip

variable {t t' : FlowTable} {e : EntryPtr} {s s' : Life} {cfg : FlConfig}

/-- A link of the slot is not NULL. -/
def HasLink (t : FlowTable) (e : EntryPtr) : Prop :=
  pollNextOf t e ≠ none ∨ pollPrevOf t e ≠ none

/-- A slot that is not in use counts no reference, and the slots with links are
those whose links were written. -/
structure LifeInv (s : Life) : Prop where
  ok : TableOk s.table
  rc : ∀ e, ¬ s.table.Used e → rcOf s.table e = 0
  linked : ∀ e, HasLink s.table e ↔ e ∈ s.linked

theorem hasLink_congr (hnext : pollNextOf t' = pollNextOf t)
    (hprev : pollPrevOf t' = pollPrevOf t) (e : EntryPtr) :
    HasLink t' e ↔ HasLink t e := by
  rw [HasLink, hnext, hprev, HasLink]

/-- Links are only ever written with pointers to entries. -/
theorem hasLink_update {a b : EntryPtr} {next prev : EntryPtr}
    (hnext : pollNextOf t' = Function.update (pollNextOf t) a (some next))
    (hprev : pollPrevOf t' = Function.update (pollPrevOf t) b (some prev))
    (e : EntryPtr) : HasLink t' e ↔ e = a ∨ e = b ∨ HasLink t e := by
  rw [HasLink, hnext, hprev, Function.update_apply, Function.update_apply,
    HasLink]
  by_cases ha : e = a
  · simp [ha]
  · by_cases hb : e = b
    · simp [hb]
    · simp [ha, hb]

/-- The head of the poll list can be written when `fl_add_poll` returns. -/
theorem linkPoll_valid {h : EntryPtr} {head : Option EntryPtr}
    (hlink : linkPoll t (some h) e = some (t', head)) :
    t.valid h.bucket = true := by
  simp only [linkPoll, Option.bind_eq_bind, Option.bind_eq_some_iff,
    Option.some.injEq, Prod.mk.injEq] at hlink
  obtain ⟨t₁, hset₁, t₂, hset₂, prev, -, t₃, hset₃, t₄, hset₄, -, -⟩ := hlink
  rw [← (setNext_spec hset₁).1.valid, ← (setPrev_spec hset₂).1.valid,
    ← (setNext_spec hset₃).1.valid]
  exact (setPrev_spec hset₄).2.1

theorem linkPoll_hasLink {head head' : Option EntryPtr}
    (hlink : linkPoll t head e = some (t', head')) (e' : EntryPtr) :
    HasLink t' e' ↔ e' ∈ addPollWrites t head e ∨ HasLink t e' := by
  cases head with
  | none =>
      obtain ⟨-, -, hnext, hprev, -⟩ := linkPoll_empty hlink
      rw [hasLink_update hnext hprev]
      simp [addPollWrites]
  | some h =>
      have hvalid := linkPoll_valid hlink
      obtain ⟨-, -, prev, hbefore, hnext, hprev, -⟩ :=
        linkPoll_before hlink hvalid
      rw [HasLink, hnext, hprev]
      simp only [addPollWrites, pollPrevOf_of_valid hvalid, hbefore,
        Function.update_apply, Option.toList_some, List.mem_cons,
        List.not_mem_nil, or_false, HasLink]
      by_cases he : e' = e
      · by_cases hp : e = prev <;> simp [he, hp]
      · by_cases hh : e' = h
        · simp [hh]
        · by_cases hp : e' = prev
          · simp [hp]
          · simp [he, hh, hp]

theorem flAddPoll_hasLink {poll poll' : PollState}
    (hadd : flAddPoll cfg t poll e = some (t', poll')) (e' : EntryPtr) :
    HasLink t' e' ↔ e' ∈ addPollWrites t poll.head e ∨ HasLink t e' := by
  obtain ⟨t₁, hlink, -, hnext, hprev, -⟩ := flAddPoll_spec hadd
  rw [hasLink_congr hnext hprev, linkPoll_hasLink hlink]

theorem flRemovePoll_hasLink {poll poll' : PollState}
    (hremove : flRemovePoll t poll e = some (t', poll'))
    (hvalid : t.valid e.bucket = true) (e' : EntryPtr) :
    HasLink t' e' ↔ e' ∈ removePollWrites t e ∨ HasLink t e' := by
  obtain ⟨-, prev, next, hbefore, hafter, hnext, hprev, -⟩ :=
    flRemovePoll_spec hremove hvalid
  rw [hasLink_update hnext hprev, removePollWrites,
    pollPrevOf_of_valid hvalid, pollNextOf_of_valid hvalid, hbefore, hafter]
  simp [or_assoc]

/-- Updates of other fields than the links and the reference count. -/
theorem LifeInv.edit (hinv : LifeInv s) (hedited : Edited s.table t')
    (hrc : ∀ e, ¬ s.table.Used e → rcOf t' e = rcOf s.table e)
    (hnext : pollNextOf t' = pollNextOf s.table)
    (hprev : pollPrevOf t' = pollPrevOf s.table) :
    LifeInv { s with table := t' } where
  ok := hedited.ok hinv.ok
  rc := by
    intro e he
    have hunused : ¬ s.table.Used e := fun h => he ((hedited.used e).mpr h)
    simp only
    rw [hrc e hunused]
    exact hinv.rc e hunused
  linked := fun e => (hasLink_congr hnext hprev e).trans (hinv.linked e)

/-- A write through a pointer to an entry in use. -/
theorem LifeInv.modify (hinv : LifeInv s) {f : FlowEntry → FlowEntry}
    (hmodify : s.table.modifyEntry e f = some t') (hused : s.table.Used e)
    (hbucket : ∀ entry, (f entry).bucket = entry.bucket)
    (hindex : ∀ entry, (f entry).index = entry.index)
    (hnext : ∀ entry, (f entry).poll.next = entry.poll.next)
    (hprev : ∀ entry, (f entry).poll.prev = entry.poll.prev) :
    LifeInv { s with table := t' } := by
  have hplaced := Placed.modify hmodify hused hbucket hindex hnext hprev
  apply hinv.edit hplaced.toEdited
  · intro e' he'
    rw [rcOf, hplaced.unused e' he']
    rfl
  · exact funext hplaced.next
  · exact funext hplaced.prev

theorem LifeInv.write (hinv : LifeInv s) {f : FlowEntry → FlowEntry}
    (hused : s.table.Used e)
    (hstep : ((s.table.modifyEntry e f).bind fun t =>
      some { s with table := t }) = some s')
    (hbucket : ∀ entry, (f entry).bucket = entry.bucket)
    (hindex : ∀ entry, (f entry).index = entry.index)
    (hnext : ∀ entry, (f entry).poll.next = entry.poll.next)
    (hprev : ∀ entry, (f entry).poll.prev = entry.poll.prev) :
    LifeInv s' := by
  simp only [Option.bind_eq_some_iff, Option.some.injEq] at hstep
  obtain ⟨t', hmodify, rfl⟩ := hstep
  exact hinv.modify hmodify hused hbucket hindex hnext hprev

theorem LifeInv.add (hinv : LifeInv s) {alloc : Option Nat}
    {hash : BitVec 32} {keyData : KeyData} {color : BitVec 16}
    (hadd : s.table.ftAdd alloc hash keyData color = some (t', some e)) :
    LifeInv { s with table := t' } := by
  have hadded := FlowTable.ftAdd_added hinv.ok.inv hadd
  have hpoll : ∀ e', (t'.content e').poll = (s.table.content e').poll := by
    intro e'
    by_cases he : e' = e
    · rw [he, hadded.added]
      rfl
    · rw [hadded.kept e' he]
  refine ⟨hinv.ok.ftAdd hadd, ?_, ?_⟩
  · intro e' he'
    have hne : e' ≠ e := by
      rintro rfl
      exact he' hadded.usedNew
    have hunused : ¬ s.table.Used e' :=
      fun h => he' ((hadded.used e').mpr (Or.inr h))
    have hzero := hinv.rc e' hunused
    rw [rcOf] at hzero ⊢
    rw [hadded.kept e' hne, hzero]
  · intro e'
    rw [← hinv.linked e', HasLink, HasLink, pollNextOf, pollNextOf,
      pollPrevOf, pollPrevOf, hpoll]

/-- A slot without memory has no link and counts no reference. -/
theorem content_of_not_valid (hvalid : t.valid e.bucket = false) :
    t.content e = FlowEntry.zero := by
  rw [FlowTable.content, hvalid]
  rfl

theorem LifeInv.deref (hinv : LifeInv s) {count : Nat}
    (hderef : s.table.ftDeref e count = some t') (hused : s.table.Used e)
    (hle : (count : Int) ≤ (s.table.entry e).rc) :
    LifeInv { s with
      table := t'
      linked := s.linked.filter fun e' => t'.valid e'.bucket } := by
  simp only [FlowTable.ftDeref, Option.bind_eq_bind,
    Option.bind_eq_some_iff] at hderef
  obtain ⟨t₁, hmodify, hderef⟩ := hderef
  have hinv₁ := hinv.modify hmodify hused (fun _ => rfl) (fun _ => rfl)
    (fun _ => rfl) (fun _ => rfl)
  have hself : rcOf t₁ e = (s.table.entry e).rc - count := by
    obtain ⟨-, hvalid, hcontent⟩ :=
      modifyEntry_spec hmodify (fun _ => rfl) (fun _ => rfl)
    rw [rcOf, hcontent, if_pos rfl, FlowTable.content_of_valid hvalid]
  -- what is left is either all of `t₁`, or `t₁` without the entry
  have hkept : (∀ e', t'.valid e'.bucket = true →
      t'.content e' = t₁.content e') ∧ TableOk t' ∧
      ∀ e', ¬ t'.Used e' → e' = e ∧ rcOf t₁ e = 0 ∨ ¬ t₁.Used e' := by
    split at hderef
    case isTrue hlast =>
      have hremoved := FlowTable.ftRemove_removed hinv₁.ok.inv hinv₁.ok.slots
        hderef
      refine ⟨hremoved.kept, hinv₁.ok.ftRemove hderef, ?_⟩
      intro e' he'
      by_cases heq : e' = e
      · exact Or.inl ⟨heq, by omega⟩
      · exact Or.inr fun h => he' (hremoved.used e' h heq)
    case isFalse =>
      rw [Option.some.injEq] at hderef
      rw [← hderef]
      exact ⟨fun _ _ => rfl, hinv₁.ok, fun _ h => Or.inr h⟩
  obtain ⟨hcontent, hok, hnot⟩ := hkept
  refine ⟨hok, ?_, ?_⟩
  · intro e' he'
    cases hvalid : t'.valid e'.bucket with
    | false =>
        simp only [rcOf]
        rw [content_of_not_valid hvalid]
        rfl
    | true =>
        simp only [rcOf]
        rw [hcontent e' hvalid]
        rcases hnot e' he' with ⟨rfl, hzero⟩ | hunused
        · exact hzero
        · exact hinv₁.rc e' hunused
  · intro e'
    simp only [List.mem_filter]
    cases hvalid : t'.valid e'.bucket with
    | false =>
        refine iff_of_false ?_ (by simp)
        simp [HasLink, pollNextOf, pollPrevOf, content_of_not_valid hvalid,
          FlowEntry.zero]
    | true =>
        have hlinked := hinv₁.linked e'
        simp only [HasLink, pollNextOf, pollPrevOf] at hlinked ⊢
        rw [hcontent e' hvalid, hlinked]
        simp

theorem LifeInv.relink (hinv : LifeInv s) {poll' : PollState}
    (honly : PollOnly s.table t') {written : List EntryPtr}
    (hlink : ∀ e, HasLink t' e ↔ e ∈ written ∨ HasLink s.table e) :
    LifeInv ⟨t', poll', written ++ s.linked⟩ where
  ok := honly.ok hinv.ok
  rc := by
    intro e he
    simp only
    rw [honly.rc]
    exact hinv.rc e fun h => he ((honly.used e).mpr h)
  linked := by
    intro e
    rw [hlink, hinv.linked, List.mem_append]

/-- Every update keeps the invariant. -/
theorem LifeInv.lifeStep (hinv : LifeInv s) {op : LifeOp} (hok : lifeOk s op)
    (hstep : lifeStep cfg s op = some s') : LifeInv s' := by
  cases op with
  | add alloc hash keyData color =>
      simp only [Ntnetflow.lifeStep, Option.bind_eq_bind,
        Option.bind_eq_some_iff, Option.some.injEq] at hstep
      obtain ⟨⟨t', added⟩, hadd, e, he, rfl⟩ := hstep
      simp only at he
      subst he
      exact hinv.add hadd
  | stream e streamId =>
      exact hinv.write hok hstep (fun _ => rfl) (fun _ => rfl)
        (fun _ => rfl) (fun _ => rfl)
  | ref e count =>
      exact hinv.write hok hstep (fun _ => rfl) (fun _ => rfl)
        (fun _ => rfl) (fun _ => rfl)
  | deref e count =>
      simp only [Ntnetflow.lifeStep, Option.bind_eq_bind,
        Option.bind_eq_some_iff, Option.some.injEq] at hstep
      obtain ⟨t', hderef, rfl⟩ := hstep
      exact hinv.deref hderef hok.1 hok.2
  | flagsOr e mask =>
      simp only [Ntnetflow.lifeStep, Option.bind_eq_bind,
        Option.bind_eq_some_iff, Option.some.injEq] at hstep
      obtain ⟨⟨t', flags⟩, hor, rfl⟩ := hstep
      have hstill := (fetchOr_spec hor).2.2.2 hok
      exact hinv.edit hstill.toEdited (fun e _ => hstill.rc e)
        (funext hstill.next) (funext hstill.prev)
  | flagsAnd e mask =>
      simp only [Ntnetflow.lifeStep, Option.bind_eq_bind,
        Option.bind_eq_some_iff, Option.some.injEq] at hstep
      obtain ⟨⟨t', flags⟩, hand, rfl⟩ := hstep
      have hstill := (fetchAnd_spec hand).2.2.2 hok
      exact hinv.edit hstill.toEdited (fun e _ => hstill.rc e)
        (funext hstill.next) (funext hstill.prev)
  | skipAdd e count =>
      exact hinv.write hok hstep (fun _ => rfl) (fun _ => rfl)
        (fun _ => rfl) (fun _ => rfl)
  | skipExchange e =>
      exact hinv.write hok hstep (fun _ => rfl) (fun _ => rfl)
        (fun _ => rfl) (fun _ => rfl)
  | reschedule e nextUpdate =>
      simp only [Ntnetflow.lifeStep, Option.bind_eq_bind,
        Option.bind_eq_some_iff, Option.some.injEq] at hstep
      obtain ⟨t', hset, rfl⟩ := hstep
      obtain ⟨honly, -, hnext, hprev, -⟩ := setNextUpdate_spec hset
      exact hinv.edit honly.toEdited (fun e _ => honly.rc e) hnext hprev
  | update e info =>
      exact hinv.write hok hstep (fun _ => rfl) (fun _ => rfl)
        (fun _ => rfl) (fun _ => rfl)
  | increment e flags ts downstream =>
      exact hinv.write hok hstep (fun _ => rfl) (fun _ => rfl)
        (fun _ => rfl) (fun _ => rfl)
  | addPoll e =>
      simp only [Ntnetflow.lifeStep, Option.bind_eq_bind,
        Option.bind_eq_some_iff, Option.some.injEq] at hstep
      obtain ⟨⟨t', poll'⟩, hadd, rfl⟩ := hstep
      obtain ⟨t₁, hlink, honly, -⟩ := flAddPoll_spec hadd
      exact hinv.relink ((linkPoll_pollOnly hlink).trans honly)
        (flAddPoll_hasLink hadd)
  | removePoll e =>
      simp only [Ntnetflow.lifeStep, Option.bind_eq_bind,
        Option.bind_eq_some_iff, Option.some.injEq] at hstep
      obtain ⟨⟨t', poll'⟩, hremove, rfl⟩ := hstep
      exact hinv.relink (flRemovePoll_spec hremove hok.1).1
        (flRemovePoll_hasLink hremove hok.1)
  | advance =>
      simp only [Ntnetflow.lifeStep, Option.bind_eq_bind,
        Option.bind_eq_some_iff, Option.some.injEq] at hstep
      obtain ⟨h, -, b, -, rfl⟩ := hstep
      exact ⟨hinv.ok, hinv.rc, hinv.linked⟩
  | tick =>
      simp only [Ntnetflow.lifeStep, Option.some.injEq] at hstep
      rw [← hstep]
      exact ⟨hinv.ok, hinv.rc, hinv.linked⟩

theorem LifeReached.inv (hreached : LifeReached s) : LifeInv s := by
  obtain ⟨cfg, calloc, power2, chainSize, bucketSize, t, hinit, hle, hrun⟩ :=
    hreached
  apply hrun.invariant
  · have hzero := fun e => FlowTable.ftInit_content hinit e
    refine ⟨⟨FlowTable.ftInit_tableInv hinit hle,
      FlowTable.ftInit_slotsOk hinit⟩, ?_, ?_⟩
    · intro e _
      simp only [rcOf, lifeStart, hzero]
      rfl
    · intro e
      simp [HasLink, pollNextOf, pollPrevOf, lifeStart, hzero,
        FlowEntry.zero]
  · exact fun hinv hok hstep => hinv.lifeStep hok hstep

/-- The entry `ft_add` returns, field by field. -/
theorem ftAdd_entry (hinv : LifeInv s) {alloc : Option Nat}
    {hash : BitVec 32} {keyData : KeyData} {color : BitVec 16}
    (hadd : s.table.ftAdd alloc hash keyData color = some (t', some e)) :
    t'.content e = { FlowTable.addedEntry e hash keyData color
      (s.table.content e) with rc := 1 } := by
  have hadded := FlowTable.ftAdd_added hinv.ok.inv hadd
  have hzero := hinv.rc e hadded.fresh
  rw [rcOf] at hzero
  rw [hadded.added, FlowTable.addedEntry, hzero]
  rfl

/-- The entry of a reused slot and one of a slot that `calloc` has just cleared
differ in the links and the skip count, or not at all. -/
theorem LifeInv.sameFlow_iff {u' : FlowTable} {f : EntryPtr} {r : Life}
    (hinv : LifeInv s) (hinvFresh : LifeInv r) {alloc alloc' : Option Nat}
    {hash : BitVec 32} {keyData : KeyData} {color : BitVec 16}
    (hadd : s.table.ftAdd alloc hash keyData color = some (t', some e))
    (haddFresh : r.table.ftAdd alloc' hash keyData color =
      some (u', some f))
    (hfresh : r.table.content f = FlowEntry.zero) :
    SameFlow (t'.content e) (u'.content f) ↔
      e ∉ s.linked ∧ (s.table.content e).poll.skip = 0 := by
  rw [ftAdd_entry hinv hadd, ftAdd_entry hinvFresh haddFresh, hfresh,
    ← hinv.linked e, HasLink, pollNextOf, pollPrevOf]
  constructor
  · intro hsame
    have hnext := hsame.next
    have hprev := hsame.prev
    have hskip := hsame.skip
    simp only [FlowTable.addedEntry, FlowEntry.zero] at hnext hprev hskip
    simp [hnext, hprev, hskip]
  · rintro ⟨hlink, hskip⟩
    simp only [ne_eq, not_or, not_not] at hlink
    refine ⟨rfl, rfl, rfl, rfl, ?_, rfl, hlink.1, hlink.2, hskip⟩
    rw [keyEq_eq_true_iff]
    intro i hi
    simp only [FlowTable.addedEntry] at hi ⊢
    simp [memcpy, hi]

/-- A reused slot starts clean exactly when none of the flows before was ever
on the poll list and the last one left no skip count. -/
theorem reusedSlot_clean_iff {u' : FlowTable} {f : EntryPtr} {r : Life}
    (hreached : LifeReached s) (hreachedFresh : LifeReached r)
    {alloc alloc' : Option Nat} {hash : BitVec 32} {keyData : KeyData}
    {color : BitVec 16}
    (hadd : s.table.ftAdd alloc hash keyData color = some (t', some e))
    (haddFresh : r.table.ftAdd alloc' hash keyData color =
      some (u', some f))
    (hfresh : r.table.content f = FlowEntry.zero) :
    SameFlow (t'.content e) (u'.content f) ↔
      e ∉ s.linked ∧ (s.table.content e).poll.skip = 0 :=
  hreached.inv.sameFlow_iff hreachedFresh.inv hadd haddFresh hfresh

/-- One slot; `ops` is the life of its first flow. -/
theorem exists_reused {ops : List LifeOp} {linked : List EntryPtr}
    {skip : Int}
    (hlife : ((FlowTable.ftInit (fun _ _ => none) 0 1 1).bind fun t =>
      (execOk (lifeStep ⟨false, 60#64⟩) (fun s op => decide (lifeOk s op))
        (lifeStart t) ops).bind fun s =>
          (s.table.ftAdd none 0#32 (fun _ => 0#8) 0#16).bind fun added =>
            (t.ftAdd none 0#32 (fun _ => 0#8) 0#16).map fun fresh =>
              (added.2, fresh.2, s.linked,
                (s.table.content ⟨.first 0, 0⟩).poll.skip)) =
      some (some ⟨.first 0, 0⟩, some ⟨.first 0, 0⟩, linked, skip)) :
    ∃ s r t' u', LifeReached s ∧ LifeReached r ∧
      s.table.ftAdd none 0#32 (fun _ => 0#8) 0#16 =
        some (t', some ⟨.first 0, 0⟩) ∧
      r.table.ftAdd none 0#32 (fun _ => 0#8) 0#16 =
        some (u', some ⟨.first 0, 0⟩) ∧
      r.table.content ⟨.first 0, 0⟩ = FlowEntry.zero ∧
      s.linked = linked ∧ (s.table.content ⟨.first 0, 0⟩).poll.skip = skip := by
  simp only [Option.bind_eq_some_iff, Option.map_eq_some_iff,
    Prod.mk.injEq] at hlife
  obtain ⟨t, hinit, s, hexec, ⟨t', added⟩, hadd, ⟨u', fresh⟩, haddFresh,
    rfl, rfl, hlinked, hskip⟩ := hlife
  have hrun := (run_of_execOk _ hexec).mono fun _ _ h => of_decide_eq_true h
  exact ⟨s, lifeStart t, t', u',
    ⟨_, _, _, _, _, t, hinit, by decide, hrun⟩,
    ⟨⟨false, 60#64⟩, _, _, _, _, t, hinit, by decide, Run.refl⟩,
    hadd, haddFresh, FlowTable.ftInit_content hinit _, hlinked, hskip⟩

/-- A flow that was never learnt leaves its slot clean. -/
theorem reusedSlot_clean_iff_unlearnt : ∃ s r t' u', LifeReached s ∧
    LifeReached r ∧
      s.table.ftAdd none 0#32 (fun _ => 0#8) 0#16 =
        some (t', some ⟨.first 0, 0⟩) ∧
      r.table.ftAdd none 0#32 (fun _ => 0#8) 0#16 =
        some (u', some ⟨.first 0, 0⟩) ∧
      SameFlow (t'.content ⟨.first 0, 0⟩) (u'.content ⟨.first 0, 0⟩) := by
  obtain ⟨s, r, t', u', hs, hr, hadd, haddFresh, hfresh, hlinked, hskip⟩ :=
    @exists_reused
      [.add none 1#32 (fun _ => 1#8) 4#16, .flagsOr ⟨.first 0, 0⟩ 0x202#32,
        .increment ⟨.first 0, 0⟩ 2#16 7#64 true,
        .skipAdd ⟨.first 0, 0⟩ 1, .skipExchange ⟨.first 0, 0⟩,
        .deref ⟨.first 0, 0⟩ 1] [] 0 (by decide +kernel)
  refine ⟨s, r, t', u', hs, hr, hadd, haddFresh, ?_⟩
  rw [reusedSlot_clean_iff hs hr hadd haddFresh hfresh, hlinked]
  exact ⟨List.not_mem_nil, hskip⟩

/-- The first flow was polled and taken off the poll list again; the next one
starts with its links. -/
theorem reusedSlot_clean_fails : ∃ s r t' u', LifeReached s ∧
    LifeReached r ∧
      s.table.ftAdd none 0#32 (fun _ => 0#8) 0#16 =
        some (t', some ⟨.first 0, 0⟩) ∧
      r.table.ftAdd none 0#32 (fun _ => 0#8) 0#16 =
        some (u', some ⟨.first 0, 0⟩) ∧
      r.table.content ⟨.first 0, 0⟩ = FlowEntry.zero ∧
      ¬ SameFlow (t'.content ⟨.first 0, 0⟩) (u'.content ⟨.first 0, 0⟩) := by
  obtain ⟨s, r, t', u', hs, hr, hadd, haddFresh, hfresh, hlinked, -⟩ :=
    @exists_reused
      [.add none 1#32 (fun _ => 1#8) 4#16, .ref ⟨.first 0, 0⟩ 1,
        .addPoll ⟨.first 0, 0⟩, .removePoll ⟨.first 0, 0⟩,
        .deref ⟨.first 0, 0⟩ 1, .deref ⟨.first 0, 0⟩ 1]
      [⟨.first 0, 0⟩, ⟨.first 0, 0⟩, ⟨.first 0, 0⟩] 0 (by decide +kernel)
  refine ⟨s, r, t', u', hs, hr, hadd, haddFresh, hfresh, ?_⟩
  rw [hs.inv.sameFlow_iff hr.inv hadd haddFresh hfresh, hlinked]
  simp

end Ntnetflow

end NtapiExamples
