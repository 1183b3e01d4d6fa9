/-
What the steps of the flow threads do to the flow table: which entries they
change, and how.
-/
import NtapiExamples.Ntnetflow.FlowLearn

namespace NtapiExamples

namespace Ntnetflow

variable {t t' t'' : FlowTable} {e : EntryPtr}

def flagsOf (t : FlowTable) (e : EntryPtr) : BitVec 32 := (t.content e).flags

def rcOf (t : FlowTable) (e : EntryPtr) : Int := (t.content e).rc

def pollNextOf (t : FlowTable) (e : EntryPtr) : Option EntryPtr :=
  (t.content e).poll.next

def pollPrevOf (t : FlowTable) (e : EntryPtr) : Option EntryPtr :=
  (t.content e).poll.prev

/-- Entries were written in place: no slot was taken, given back or moved. -/
structure Edited (t t' : FlowTable) : Prop where
  ok : TableOk t → TableOk t'
  valid : ∀ p, t'.valid p = t.valid p
  used : ∀ e, t'.Used e ↔ t.Used e

theorem Edited.refl (t : FlowTable) : Edited t t :=
  ⟨fun h => h, fun _ => rfl, fun _ => Iff.rfl⟩

theorem Edited.trans (h : Edited t t') (h' : Edited t' t'') : Edited t t'' :=
  ⟨fun hok => h'.ok (h.ok hok), fun p => (h'.valid p).trans (h.valid p),
    fun e => (h'.used e).trans (h.used e)⟩

/-- A write through an entry pointer, seen on the whole table. -/
theorem modifyEntry_spec {f : FlowEntry → FlowEntry}
    (hmodify : t.modifyEntry e f = some t')
    (hbucket : ∀ entry, (f entry).bucket = entry.bucket)
    (hindex : ∀ entry, (f entry).index = entry.index) :
    Edited t t' ∧ t.valid e.bucket = true ∧
      ∀ e', t'.content e' =
        if e' = e then f (t.content e) else t.content e' := by
  have hok : TableOk t → TableOk t' :=
    fun hok => hok.modifyEntry hmodify hbucket hindex
  rw [FlowTable.modifyEntry_eq_some_iff] at hmodify
  obtain ⟨hvalid, rfl⟩ := hmodify
  refine ⟨⟨hok, fun p => FlowTable.setEntry_valid e _ p, fun e' =>
    FlowTable.setEntry_used e e' _⟩, hvalid, ?_⟩
  intro e'
  rw [FlowTable.setEntry_content hvalid, FlowTable.content_of_valid hvalid]

theorem statsUpdate_content (stat : Stat) (value : Int) (e : EntryPtr) :
    (t.statsUpdate stat value).content e = t.content e := by
  simp only [FlowTable.content, FlowTable.statsUpdate_valid]
  rfl

theorem statsUpdate_edited (stat : Stat) (value : Int) :
    Edited t (t.statsUpdate stat value) := by
  refine ⟨?_, FlowTable.statsUpdate_valid stat value, ?_⟩
  · rintro ⟨hinv, hslots⟩
    have hsame : FlowTable.SameLinks t (t.statsUpdate stat value) :=
      ⟨rfl, rfl, rfl, rfl, fun _ => rfl, fun _ => rfl, fun _ => rfl,
        fun _ => rfl⟩
    refine ⟨hsame.tableInv hinv, ?_⟩
    intro e
    rw [statsUpdate_content]
    exact hslots e
  · intro e
    simp only [FlowTable.Used, FlowTable.statsUpdate_valid]
    rfl

/-- Used entries were written, and no link of the poll list. -/
structure Placed (t t' : FlowTable) : Prop extends Edited t t' where
  next : ∀ e, pollNextOf t' e = pollNextOf t e
  prev : ∀ e, pollPrevOf t' e = pollPrevOf t e
  unused : ∀ e, ¬ t.Used e → t'.content e = t.content e

/-- No reference count was changed either. -/
structure Still (t t' : FlowTable) : Prop extends Placed t t' where
  rc : ∀ e, rcOf t' e = rcOf t e

theorem Placed.modify {f : FlowEntry → FlowEntry}
    (hmodify : t.modifyEntry e f = some t') (hused : t.Used e)
    (hbucket : ∀ entry, (f entry).bucket = entry.bucket)
    (hindex : ∀ entry, (f entry).index = entry.index)
    (hnext : ∀ entry, (f entry).poll.next = entry.poll.next)
    (hprev : ∀ entry, (f entry).poll.prev = entry.poll.prev) :
    Placed t t' := by
  obtain ⟨hedited, -, hcontent⟩ := modifyEntry_spec hmodify hbucket hindex
  have hsame : ∀ {β : Type} (g : FlowEntry → β),
      (∀ entry, g (f entry) = g entry) →
      ∀ e', g (t'.content e') = g (t.content e') := by
    intro β g hg e'
    rw [hcontent]
    by_cases he : e' = e
    · rw [if_pos he, hg, he]
    · rw [if_neg he]
  refine ⟨hedited, hsame (fun x => x.poll.next) hnext,
    hsame (fun x => x.poll.prev) hprev, ?_⟩
  intro e' he'
  rw [hcontent, if_neg]
  rintro rfl
  exact he' hused

theorem Still.refl (t : FlowTable) : Still t t :=
  ⟨⟨Edited.refl t, fun _ => rfl, fun _ => rfl, fun _ _ => rfl⟩, fun _ => rfl⟩

theorem Still.trans (h : Still t t') (h' : Still t' t'') : Still t t'' where
  toEdited := h.toEdited.trans h'.toEdited
  rc e := (h'.rc e).trans (h.rc e)
  next e := (h'.next e).trans (h.next e)
  prev e := (h'.prev e).trans (h.prev e)
  unused e he := by
    rw [h'.unused e (by rwa [h.used]), h.unused e he]

theorem Still.stats (stat : Stat) (value : Int) :
    Still t (t.statsUpdate stat value) where
  toEdited := statsUpdate_edited stat value
  rc e := by rw [rcOf, statsUpdate_content]; rfl
  next e := by rw [pollNextOf, statsUpdate_content]; rfl
  prev e := by rw [pollPrevOf, statsUpdate_content]; rfl
  unused e _ := statsUpdate_content stat value e

theorem Still.modify {f : FlowEntry → FlowEntry}
    (hmodify : t.modifyEntry e f = some t') (hused : t.Used e)
    (hbucket : ∀ entry, (f entry).bucket = entry.bucket)
    (hindex : ∀ entry, (f entry).index = entry.index)
    (hrc : ∀ entry, (f entry).rc = entry.rc)
    (hnext : ∀ entry, (f entry).poll.next = entry.poll.next)
    (hprev : ∀ entry, (f entry).poll.prev = entry.poll.prev) :
    Still t t' := by
  refine ⟨Placed.modify hmodify hused hbucket hindex hnext hprev, ?_⟩
  obtain ⟨-, -, hcontent⟩ := modifyEntry_spec hmodify hbucket hindex
  intro e'
  rw [rcOf, hcontent]
  by_cases he : e' = e
  · rw [if_pos he, hrc, he]
    rfl
  · rw [if_neg he]
    rfl

/-- A write of the flags alone, with the old flags. -/
theorem modifyFlags_spec {f : BitVec 32 → BitVec 32} {flags : BitVec 32}
    (hmodify : ((t.modifyEntry e fun entry =>
      { entry with flags := f entry.flags }).map fun t' =>
        (t', (t.entry e).flags)) = some (t', flags)) :
    flags = flagsOf t e ∧ Edited t t' ∧
      (∀ e', flagsOf t' e' = if e' = e then f (flagsOf t e) else flagsOf t e') ∧
      (t.Used e → Still t t') := by
  simp only [Option.map_eq_some_iff, Prod.mk.injEq] at hmodify
  obtain ⟨t₁, hmodify, rfl, rfl⟩ := hmodify
  obtain ⟨hedited, hvalid, hcontent⟩ :=
    modifyEntry_spec hmodify (fun _ => rfl) (fun _ => rfl)
  refine ⟨?_, hedited, ?_, ?_⟩
  · rw [flagsOf, FlowTable.content_of_valid hvalid]
  · intro e'
    rw [flagsOf, hcontent]
    by_cases he : e' = e <;> simp [he, flagsOf]
  · exact fun hused => Still.modify hmodify hused (fun _ => rfl)
      (fun _ => rfl) (fun _ => rfl) (fun _ => rfl) (fun _ => rfl)

theorem fetchOr_spec {mask flags : BitVec 32}
    (hor : fetchOr t e mask = some (t', flags)) :
    flags = flagsOf t e ∧ Edited t t' ∧
      (∀ e', flagsOf t' e' =
        if e' = e then flagsOf t e ||| mask else flagsOf t e') ∧
      (t.Used e → Still t t') :=
  @modifyFlags_spec t t' e (fun flags => flags ||| mask) flags hor

theorem fetchAnd_spec {mask flags : BitVec 32}
    (hand : fetchAnd t e mask = some (t', flags)) :
    flags = flagsOf t e ∧ Edited t t' ∧
      (∀ e', flagsOf t' e' =
        if e' = e then flagsOf t e &&& mask else flagsOf t e') ∧
      (t.Used e → Still t t') :=
  @modifyFlags_spec t t' e (fun flags => flags &&& mask) flags hand

/-- A write that keeps the flags of its entry keeps all flags. -/
theorem modifyEntry_flags {f : FlowEntry → FlowEntry}
    (hmodify : t.modifyEntry e f = some t')
    (hbucket : ∀ entry, (f entry).bucket = entry.bucket)
    (hindex : ∀ entry, (f entry).index = entry.index)
    (hflags : ∀ entry, (f entry).flags = entry.flags) (e' : EntryPtr) :
    flagsOf t' e' = flagsOf t e' := by
  obtain ⟨-, -, hcontent⟩ := modifyEntry_spec hmodify hbucket hindex
  rw [flagsOf, hcontent]
  by_cases he : e' = e
  · rw [if_pos he, hflags, he]
    rfl
  · rw [if_neg he]
    rfl

/-- Only fields of `entry->poll` changed. -/
structure PollOnly (t t' : FlowTable) : Prop extends Edited t t' where
  content : ∀ e, ∃ poll, t'.content e = { t.content e with poll := poll }

theorem PollOnly.trans (h : PollOnly t t') (h' : PollOnly t' t'') :
    PollOnly t t'' := by
  refine ⟨h.toEdited.trans h'.toEdited, ?_⟩
  intro e
  obtain ⟨poll, heq⟩ := h.content e
  obtain ⟨poll', heq'⟩ := h'.content e
  exact ⟨poll', by rw [heq', heq]⟩

theorem PollOnly.flags (h : PollOnly t t') (e : EntryPtr) :
    flagsOf t' e = flagsOf t e := by
  obtain ⟨poll, heq⟩ := h.content e
  rw [flagsOf, heq]
  rfl

theorem PollOnly.rc (h : PollOnly t t') (e : EntryPtr) :
    rcOf t' e = rcOf t e := by
  obtain ⟨poll, heq⟩ := h.content e
  rw [rcOf, heq]
  rfl

theorem modifyPoll_spec {f : FlowPollList → FlowPollList}
    (hmodify : (t.modifyEntry e fun entry =>
      { entry with poll := f entry.poll }) = some t') :
    PollOnly t t' ∧ t.valid e.bucket = true ∧
      pollNextOf t' = Function.update (pollNextOf t) e
        (f (t.content e).poll).next ∧
      pollPrevOf t' = Function.update (pollPrevOf t) e
        (f (t.content e).poll).prev ∧
      ∀ e', e' ≠ e → t'.content e' = t.content e' := by
  obtain ⟨hedited, hvalid, hcontent⟩ :=
    modifyEntry_spec hmodify (fun _ => rfl) (fun _ => rfl)
  refine ⟨⟨hedited, ?_⟩, hvalid, ?_, ?_, ?_⟩
  · intro e'
    rw [hcontent]
    by_cases he : e' = e
    · rw [if_pos he, he]
      exact ⟨_, rfl⟩
    · rw [if_neg he]
      exact ⟨(t.content e').poll, rfl⟩
  · funext e'
    rw [pollNextOf, hcontent, Function.update_apply]
    by_cases he : e' = e <;> simp [he, pollNextOf]
  · funext e'
    rw [pollPrevOf, hcontent, Function.update_apply]
    by_cases he : e' = e <;> simp [he, pollPrevOf]
  · intro e' he
    rw [hcontent, if_neg he]

theorem setNext_spec {next : Option EntryPtr} (hset : setNext t e next = some t') :
    PollOnly t t' ∧ t.valid e.bucket = true ∧
      pollNextOf t' = Function.update (pollNextOf t) e next ∧
      pollPrevOf t' = pollPrevOf t ∧
      ∀ e', e' ≠ e → t'.content e' = t.content e' := by
  obtain ⟨honly, hvalid, hnext, hprev, hother⟩ :=
    @modifyPoll_spec t t' e (fun poll => { poll with next := next }) hset
  refine ⟨honly, hvalid, hnext, ?_, hother⟩
  rw [hprev]
  exact Function.update_eq_self e (pollPrevOf t)

theorem setPrev_spec {prev : Option EntryPtr} (hset : setPrev t e prev = some t') :
    PollOnly t t' ∧ t.valid e.bucket = true ∧
      pollNextOf t' = pollNextOf t ∧
      pollPrevOf t' = Function.update (pollPrevOf t) e prev ∧
      ∀ e', e' ≠ e → t'.content e' = t.content e' := by
  obtain ⟨honly, hvalid, hnext, hprev, hother⟩ :=
    @modifyPoll_spec t t' e (fun poll => { poll with prev := prev }) hset
  refine ⟨honly, hvalid, ?_, hprev, hother⟩
  rw [hnext]
  exact Function.update_eq_self e (pollNextOf t)

theorem setNextUpdate_spec {nextUpdate : BitVec 64}
    (hset : setNextUpdate t e nextUpdate = some t') :
    PollOnly t t' ∧ t.valid e.bucket = true ∧
      pollNextOf t' = pollNextOf t ∧ pollPrevOf t' = pollPrevOf t ∧
      ∀ e', e' ≠ e → t'.content e' = t.content e' := by
  obtain ⟨honly, hvalid, hnext, hprev, hother⟩ :=
    @modifyPoll_spec t t' e
      (fun poll => { poll with nextUpdate := nextUpdate }) hset
  refine ⟨honly, hvalid, ?_, ?_, hother⟩
  · rw [hnext]
    exact Function.update_eq_self e (pollNextOf t)
  · rw [hprev]
    exact Function.update_eq_self e (pollPrevOf t)

theorem pollNextOf_of_valid (hvalid : t.valid e.bucket = true) :
    (t.entry e).poll.next = pollNextOf t e := by
  rw [pollNextOf, FlowTable.content_of_valid hvalid]

theorem pollPrevOf_of_valid (hvalid : t.valid e.bucket = true) :
    (t.entry e).poll.prev = pollPrevOf t e := by
  rw [pollPrevOf, FlowTable.content_of_valid hvalid]

/-- `fl_remove_poll` joins the neighbours of the entry. -/
theorem flRemovePoll_spec {poll poll' : PollState}
    (hremove : flRemovePoll t poll e = some (t', poll'))
    (hvalid : t.valid e.bucket = true) :
    PollOnly t t' ∧ ∃ prev next, pollPrevOf t e = some prev ∧
      pollNextOf t e = some next ∧
      pollNextOf t' = Function.update (pollNextOf t) prev (some next) ∧
      pollPrevOf t' = Function.update (pollPrevOf t) next (some prev) ∧
      (∀ e', e' ≠ prev → e' ≠ next → t'.content e' = t.content e') ∧
      poll'.head = if poll.head = some e then
        (if next = e then none else some next) else poll.head := by
  simp only [flRemovePoll, pollNextOf_of_valid hvalid,
    pollPrevOf_of_valid hvalid, Option.bind_eq_bind,
    Option.bind_eq_some_iff, Option.some.injEq, Prod.mk.injEq] at hremove
  obtain ⟨prev, hprev, t₁, hset₁, next, hnext, t₂, hset₂, rfl, rfl⟩ := hremove
  obtain ⟨honly₁, -, hnext₁, hprev₁, hother₁⟩ := setNext_spec hset₁
  have hvalid₁ : t₁.valid e.bucket = true := by
    rw [honly₁.valid]
    exact hvalid
  rw [pollNextOf_of_valid hvalid₁, hnext₁] at hnext
  rw [pollPrevOf_of_valid hvalid₁, hprev₁] at hset₂
  obtain ⟨honly₂, -, hnext₂, hprev₂, hother₂⟩ := setPrev_spec hset₂
  -- Reading `entry->poll.next` again gives the same pointer.
  have hsame : pollNextOf t e = some next := by
    by_cases he : e = prev
    · rw [← he, Function.update_self] at hnext
      exact hnext
    · rwa [Function.update_of_ne he] at hnext
  refine ⟨honly₁.trans honly₂, prev, next, hprev, hsame, ?_, ?_, ?_, ?_⟩
  · rw [hnext₂, hnext₁, hsame]
  · rw [hprev₂, hprev₁, hprev]
  · intro e' hne hne'
    rw [hother₂ e' hne', hother₁ e' hne]
  · simp only [hsame, Option.some.injEq]

/-- `fl_add_poll` on an empty list. -/
theorem linkPoll_empty {head : Option EntryPtr}
    (hlink : linkPoll t none e = some (t', head)) :
    PollOnly t t' ∧ head = some e ∧
      pollNextOf t' = Function.update (pollNextOf t) e (some e) ∧
      pollPrevOf t' = Function.update (pollPrevOf t) e (some e) ∧
      ∀ e', e' ≠ e → t'.content e' = t.content e' := by
  simp only [linkPoll, Option.bind_eq_bind, Option.bind_eq_some_iff,
    Option.some.injEq, Prod.mk.injEq] at hlink
  obtain ⟨t₁, hset₁, t₂, hset₂, rfl, rfl⟩ := hlink
  obtain ⟨honly₁, -, hnext₁, hprev₁, hother₁⟩ := setNext_spec hset₁
  obtain ⟨honly₂, -, hnext₂, hprev₂, hother₂⟩ := setPrev_spec hset₂
  refine ⟨honly₁.trans honly₂, rfl, ?_, ?_, ?_⟩
  · rw [hnext₂, hnext₁]
  · rw [hprev₂, hprev₁]
  · intro e' hne
    rw [hother₂ e' hne, hother₁ e' hne]

/-- `fl_add_poll` in front of `poll_head`. -/
theorem linkPoll_before {h : EntryPtr} {head : Option EntryPtr}
    (hlink : linkPoll t (some h) e = some (t', head))
    (hvalid : t.valid h.bucket = true) :
    PollOnly t t' ∧ head = some h ∧ ∃ prev, pollPrevOf t h = some prev ∧
      pollNextOf t' = Function.update
        (Function.update (pollNextOf t) e (some h)) prev (some e) ∧
      pollPrevOf t' = Function.update
        (Function.update (pollPrevOf t) e (some prev)) h (some e) ∧
      ∀ e', e' ≠ e → e' ≠ h → e' ≠ prev → t'.content e' = t.content e' := by
  simp only [linkPoll, Option.bind_eq_bind, Option.bind_eq_some_iff,
    Option.some.injEq, Prod.mk.injEq] at hlink
  obtain ⟨t₁, hset₁, t₂, hset₂, prev, hprev, t₃, hset₃, t₄, hset₄, rfl,
    rfl⟩ := hlink
  obtain ⟨honly₁, hvalidE, hnext₁, hprev₁, hother₁⟩ := setNext_spec hset₁
  have hvalid₁ : t₁.valid h.bucket = true := by
    rw [honly₁.valid]
    exact hvalid
  rw [pollPrevOf_of_valid hvalid₁, hprev₁] at hset₂
  obtain ⟨honly₂, -, hnext₂, hprev₂, hother₂⟩ := setPrev_spec hset₂
  have hvalid₂ : t₂.valid e.bucket = true := by
    rw [honly₂.valid, honly₁.valid]
    exact hvalidE
  rw [pollPrevOf_of_valid hvalid₂, hprev₂, Function.update_self] at hprev
  obtain ⟨honly₃, -, hnext₃, hprev₃, hother₃⟩ := setNext_spec hset₃
  obtain ⟨honly₄, -, hnext₄, hprev₄, hother₄⟩ := setPrev_spec hset₄
  refine ⟨((honly₁.trans honly₂).trans honly₃).trans honly₄, rfl, prev,
    hprev, ?_, ?_, ?_⟩
  · rw [hnext₄, hnext₃, hnext₂, hnext₁]
  · rw [hprev₄, hprev₃, hprev₂, hprev₁, hprev]
  · intro e' hne₁ hne₂ hne₃
    rw [hother₄ e' hne₂, hother₃ e' hne₃, hother₂ e' hne₁, hother₁ e' hne₁]

/-- `fl_add_poll` is its links and the time of the next update. -/
theorem flAddPoll_spec {cfg : FlConfig} {poll poll' : PollState}
    (hadd : flAddPoll cfg t poll e = some (t', poll')) :
    ∃ t₁, linkPoll t poll.head e = some (t₁, poll'.head) ∧ PollOnly t₁ t' ∧
      pollNextOf t' = pollNextOf t₁ ∧ pollPrevOf t' = pollPrevOf t₁ ∧
      ∀ e', e' ≠ e → t'.content e' = t₁.content e' := by
  simp only [flAddPoll, Option.bind_eq_bind, Option.bind_eq_some_iff,
    Option.some.injEq, Prod.mk.injEq] at hadd
  obtain ⟨⟨t₁, head⟩, hlink, t₂, hset, rfl, rfl⟩ := hadd
  obtain ⟨honly, -, hnext, hprev, hother⟩ := setNextUpdate_spec hset
  exact ⟨t₁, hlink, honly, hnext, hprev, hother⟩

theorem linkPoll_pollOnly {head head' : Option EntryPtr}
    (hlink : linkPoll t head e = some (t', head')) : PollOnly t t' := by
  cases head with
  | none => exact (linkPoll_empty hlink).1
  | some h =>
      simp only [linkPoll, Option.bind_eq_bind, Option.bind_eq_some_iff,
        Option.some.injEq, Prod.mk.injEq] at hlink
      obtain ⟨t₁, hset₁, t₂, hset₂, prev, -, t₃, hset₃, t₄, hset₄, rfl, -⟩ :=
        hlink
      exact (((setNext_spec hset₁).1.trans (setPrev_spec hset₂).1).trans
        (setNext_spec hset₃).1).trans (setPrev_spec hset₄).1

theorem ftRef_spec {count : Nat} (href : t.ftRef e count = some t') :
    Edited t t' ∧ t.valid e.bucket = true ∧
      ∀ e', t'.content e' = if e' = e
        then { t.content e with rc := rcOf t e + count } else t.content e' :=
  modifyEntry_spec href (fun _ => rfl) (fun _ => rfl)

/-- A reference that is not the last one is dropped without freeing. -/
theorem ftDeref_keeps {count : Nat} (hderef : t.ftDeref e count = some t')
    (hvalid : t.valid e.bucket = true) (hrc : (count : Int) < rcOf t e) :
    Edited t t' ∧ ∀ e', t'.content e' = if e' = e
      then { t.content e with rc := rcOf t e - count } else t.content e' := by
  simp only [FlowTable.ftDeref, Option.bind_eq_bind,
    Option.bind_eq_some_iff] at hderef
  obtain ⟨t₁, hmodify, hderef⟩ := hderef
  rw [rcOf, FlowTable.content_of_valid hvalid] at hrc
  rw [if_neg (by omega), Option.some.injEq] at hderef
  subst hderef
  obtain ⟨hedited, -, hcontent⟩ :=
    modifyEntry_spec hmodify (fun _ => rfl) (fun _ => rfl)
  exact ⟨hedited, hcontent⟩

/-- Whatever `ft_deref` does, no flags change, except to those of a freed
bucket. -/
theorem ftDeref_flags {count : Nat} (hok : TableOk t)
    (hderef : t.ftDeref e count = some t') (e' : EntryPtr) :
    flagsOf t' e' = flagsOf t e' ∨ flagsOf t' e' = 0#32 ∧ ¬ t'.Used e' := by
  simp only [FlowTable.ftDeref, Option.bind_eq_bind,
    Option.bind_eq_some_iff] at hderef
  obtain ⟨t₁, hmodify, hderef⟩ := hderef
  have hok₁ : TableOk t₁ :=
    hok.modifyEntry hmodify (fun _ => rfl) (fun _ => rfl)
  have hflags := modifyEntry_flags hmodify (fun _ => rfl) (fun _ => rfl)
    (fun _ => rfl) e'
  rw [← hflags]
  split at hderef
  · have hremoved := FlowTable.ftRemove_removed hok₁.inv hok₁.slots hderef
    by_cases hvalid : t'.valid e'.bucket = true
    · left
      rw [flagsOf, hremoved.kept e' hvalid]
      rfl
    · right
      refine ⟨?_, fun hused => hvalid hused.1⟩
      rw [flagsOf, FlowTable.content, if_neg hvalid]
      rfl
  · rw [Option.some.injEq] at hderef
    rw [hderef]
    exact Or.inl rfl

/-- `ft_deref` takes no slot. -/
theorem ftDeref_used {count : Nat} (hok : TableOk t)
    (hderef : t.ftDeref e count = some t') (e' : EntryPtr)
    (hused : t'.Used e') : t.Used e' := by
  simp only [FlowTable.ftDeref, Option.bind_eq_bind,
    Option.bind_eq_some_iff] at hderef
  obtain ⟨t₁, hmodify, hderef⟩ := hderef
  obtain ⟨hedited, -, -⟩ :=
    modifyEntry_spec hmodify (fun _ => rfl) (fun _ => rfl)
  rw [← hedited.used]
  split at hderef
  · have hok₁ := hedited.ok hok
    exact (FlowTable.ftRemove_removed hok₁.inv hok₁.slots hderef).usedOf e'
      hused
  · rw [Option.some.injEq] at hderef
    rwa [hderef]

/-- The entry `rx_process` adds: a slot that was free, one reference, no flag,
and the poll fields the slot had before. -/
theorem rxAdd_spec {alloc : Option Nat} {streamId : BitVec 32}
    {packet : Packet} (hok : TableOk t)
    (hadd : rxAdd t alloc streamId packet = some (t', e)) :
    ¬ t.Used e ∧ (∀ e', t'.Used e' ↔ e' = e ∨ t.Used e') ∧
      rcOf t' e = rcOf t e + 1 ∧ flagsOf t' e = 0#32 ∧
      (t'.content e).poll = (t.content e).poll ∧
      ∀ e', e' ≠ e → t'.content e' = t.content e' := by
  simp only [rxAdd, Option.bind_eq_bind, Option.bind_eq_some_iff,
    Option.some.injEq, Prod.mk.injEq] at hadd
  obtain ⟨⟨t₁, added⟩, hadd, e', he, t₂, hmodify, rfl, rfl⟩ := hadd
  simp only at he
  subst he
  have hadded := FlowTable.ftAdd_added hok.inv hadd
  obtain ⟨hedited, -, hcontent⟩ :=
    modifyEntry_spec hmodify (fun _ => rfl) (fun _ => rfl)
  have hself := hcontent e'
  rw [if_pos rfl, hadded.added] at hself
  refine ⟨hadded.fresh, ?_, ?_, ?_, ?_, ?_⟩
  · intro other
    rw [hedited.used, hadded.used]
  · rw [rcOf, hself]
    rfl
  · rw [flagsOf, hself]
    rfl
  · rw [hself]
    rfl
  · intro other hne
    rw [hcontent, if_neg hne, hadded.kept other hne]

end Ntnetflow

end NtapiExamples
