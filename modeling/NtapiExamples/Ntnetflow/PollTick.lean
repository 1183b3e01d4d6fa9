/-
One tick of `fl_poll_main` while no other thread inserts or removes: which
entries of the poll list the inner loop visits.
-/
import NtapiExamples.Ntnetflow.FlowLearnRing
import NtapiExamples.Lib.RingTick

namespace NtapiExamples

namespace Ntnetflow

/-- What `fl_poll_main` finds in the entry it visits; the other threads write
both. -/
structure PollFound where
  skip : Int
  flags : BitVec 32

/-- The visit ends with `fl_remove_poll`. -/
def pollRemoves (cfg : FlConfig) (found : PollFound) : Bool :=
  !decide (0 < found.skip) &&
    !test found.flags FLOW_FLAGS_LEARN_PENDING &&
    !test found.flags (FLOW_FLAGS_REFRESH_PENDING |||
      if cfg.hwProbe then 0#32 else FLOW_FLAGS_PROBE_PENDING) &&
    !test found.flags FLOW_FLAGS_UNLEARN_PENDING &&
    (test found.flags FLOW_FLAGS_UNLEARN ||
      !test found.flags FLOW_FLAGS_TRACK)

/-- The inner loop of `fl_poll_main` after the clock has moved on, with the
entries it visits, in order.  Every visited entry gets to the exchange of
`poll.skip`; an operation pushed on the program queue does not concern the
list.  `found n` is what the entry of visit `n` holds then; `none` is a loop
that needs more turns or goes through a bad pointer. -/
def pollLoop (cfg : FlConfig) (found : Nat → PollFound) :
    Nat → Nat → FlowTable → PollState →
      Option (List EntryPtr × FlowTable × PollState)
  | 0, _, _, _ => none
  | fuel + 1, n, t, poll =>
      match poll.head with
      | none => some ([], t, poll)
      | some head =>
          if t.valid head.bucket = false then none
          else if poll.current < (t.entry head).poll.nextUpdate then
            some ([], t, poll)
          else do
            let t ← setNextUpdate t head (poll.current + cfg.pollInterval)
            let e ← (t.entry head).poll.next
            let poll := { poll with head := some e }
            let (t, poll) ←
              if pollRemoves cfg (found n) then do
                let (t, poll) ← flRemovePoll t poll e
                let t ← t.ftDeref e 1
                some (t, poll)
              else some (t, poll)
            let (visited, t, poll) ← pollLoop cfg found fuel (n + 1) t poll
            some (e :: visited, t, poll)

def nextUpdateOf (t : FlowTable) (e : EntryPtr) : BitVec 64 :=
  (t.content e).poll.nextUpdate

variable {t t' : FlowTable} {e : EntryPtr} {poll poll' : PollState}
  {cfg : FlConfig} {l : List EntryPtr}

/-- The poll list `l` in memory, where every entry is one that `ft_add`
returned. -/
structure Listed (t : FlowTable) (poll : PollState) (l : List EntryPtr) :
    Prop where
  ok : TableOk t
  ring : PollRing t poll.head l
  used : ∀ e ∈ l, t.Used e
  own : ∀ e ∈ l, (t.content e).bucket = some e.bucket

/-- `poll_head` moves to the next entry, which is the first one of the list read
from there. -/
theorem PollRing.rotate {head next : EntryPtr} {rest others : List EntryPtr}
    (hring : PollRing t (some head) (head :: rest))
    (hrot : rest ++ [head] = next :: others) :
    pollNextOf t head = some next ∧
      PollRing t (some next) (next :: others) := by
  have hafter := @Seg.next_of_split EntryPtr (pollNextOf t) (pollPrevOf t)
    _ _ [] rest head hring.ring
  have hhead : pollNextOf t head = (rest ++ [head]).head? := by
    rw [hafter, List.head?_append]
    simp
  have hrotate : Ring (pollNextOf t) (pollPrevOf t) (rest ++ [head]) :=
    Ring.rotate (by simpa using hring.ring)
  have hnodup : (rest ++ [head]).Nodup :=
    (List.perm_append_singleton head rest).nodup_iff.mpr hring.nodup
  rw [hrot] at hhead hrotate hnodup
  exact ⟨hhead, rfl, hnodup, hrotate⟩

/-- The list read from another entry, after a write that keeps its links. -/
theorem Listed.edit (hlisted : Listed t poll l) {l' : List EntryPtr}
    (honly : PollOnly t t') (hring : PollRing t' poll'.head l')
    (hmem : ∀ e ∈ l', e ∈ l) : Listed t' poll' l' where
  ok := honly.ok hlisted.ok
  ring := hring
  used := fun e he => (honly.used e).mpr (hlisted.used e (hmem e he))
  own := fun e he => by
    obtain ⟨poll, heq⟩ := honly.content e
    rw [heq]
    exact hlisted.own e (hmem e he)

/-- A write through a pointer to a bucket that exists returns. -/
theorem modifyEntry_total (t : FlowTable) (e : EntryPtr)
    (f : FlowEntry → FlowEntry)
    (hvalid : t.valid e.bucket = true) : ∃ t', t.modifyEntry e f = some t' :=
  ⟨_, FlowTable.modifyEntry_eq_some_iff.mpr ⟨hvalid, rfl⟩⟩

theorem setNext_total (next : Option EntryPtr)
    (hvalid : t.valid e.bucket = true) : ∃ t', setNext t e next = some t' :=
  modifyEntry_total t e _ hvalid

theorem setPrev_total (prev : Option EntryPtr)
    (hvalid : t.valid e.bucket = true) : ∃ t', setPrev t e prev = some t' :=
  modifyEntry_total t e _ hvalid

theorem setNextUpdate_total (nextUpdate : BitVec 64)
    (hvalid : t.valid e.bucket = true) :
    ∃ t', setNextUpdate t e nextUpdate = some t' :=
  modifyEntry_total t e _ hvalid

theorem setNextUpdate_nextUpdate {nextUpdate : BitVec 64}
    (hset : setNextUpdate t e nextUpdate = some t') (e' : EntryPtr) :
    nextUpdateOf t' e' = if e' = e then nextUpdate else nextUpdateOf t e' := by
  obtain ⟨-, -, hcontent⟩ :=
    modifyEntry_spec hset (fun _ => rfl) (fun _ => rfl)
  rw [nextUpdateOf, hcontent]
  by_cases he : e' = e <;> simp [he, nextUpdateOf]

/-- Links are written without the time of the next update. -/
theorem modifyPoll_nextUpdate {f : FlowEntry → FlowEntry}
    (hmodify : t.modifyEntry e f = some t')
    (hbucket : ∀ entry, (f entry).bucket = entry.bucket)
    (hindex : ∀ entry, (f entry).index = entry.index)
    (hkeep : ∀ entry, (f entry).poll.nextUpdate = entry.poll.nextUpdate)
    (e' : EntryPtr) : nextUpdateOf t' e' = nextUpdateOf t e' := by
  obtain ⟨-, -, hcontent⟩ := modifyEntry_spec hmodify hbucket hindex
  rw [nextUpdateOf, hcontent, nextUpdateOf]
  by_cases he : e' = e
  · rw [if_pos he, hkeep, he]
  · rw [if_neg he]

theorem setNext_nextUpdate {next : Option EntryPtr}
    (hset : setNext t e next = some t') (e' : EntryPtr) :
    nextUpdateOf t' e' = nextUpdateOf t e' :=
  modifyPoll_nextUpdate hset (fun _ => rfl) (fun _ => rfl) (fun _ => rfl) e'

theorem setPrev_nextUpdate {prev : Option EntryPtr}
    (hset : setPrev t e prev = some t') (e' : EntryPtr) :
    nextUpdateOf t' e' = nextUpdateOf t e' :=
  modifyPoll_nextUpdate hset (fun _ => rfl) (fun _ => rfl) (fun _ => rfl) e'

/-- `fl_remove_poll` of an entry with valid neighbours returns, and keeps the
clock and the times of the next updates. -/
theorem flRemovePoll_total {before after : EntryPtr}
    (hvalid : t.valid e.bucket = true)
    (hprev : pollPrevOf t e = some before) (hnext : pollNextOf t e = some after)
    (hbefore : t.valid before.bucket = true)
    (hafter : t.valid after.bucket = true) :
    ∃ t' head, flRemovePoll t poll e =
        some (t', { poll with head := head, opCount := poll.opCount + 1#32 }) ∧
      ∀ e', nextUpdateOf t' e' = nextUpdateOf t e' := by
  rw [← pollPrevOf_of_valid hvalid] at hprev
  rw [← pollNextOf_of_valid hvalid] at hnext
  obtain ⟨t₁, hset₁⟩ := setNext_total (t.entry e).poll.next hbefore
  obtain ⟨hedited, -, hcontent⟩ :=
    modifyEntry_spec hset₁ (fun _ => rfl) (fun _ => rfl)
  have hvalid₁ : t₁.valid e.bucket = true := by
    rw [hedited.valid]
    exact hvalid
  have hentry : (t₁.entry e).poll.next = some after ∧
      (t₁.entry e).poll.prev = some before := by
    rw [← FlowTable.content_of_valid hvalid₁, hcontent]
    by_cases he : e = before
    · subst he
      rw [if_pos rfl, FlowTable.content_of_valid hvalid]
      exact ⟨hnext, hprev⟩
    · rw [if_neg he, FlowTable.content_of_valid hvalid]
      exact ⟨hnext, hprev⟩
  obtain ⟨t₂, hset₂⟩ := @setPrev_total t₁ after (t₁.entry e).poll.prev
    (by rw [hedited.valid]; exact hafter)
  refine ⟨t₂, if poll.head = some e then
      if (t.entry e).poll.next = some e then none else (t.entry e).poll.next
    else poll.head, ?_, ?_⟩
  · simp only [flRemovePoll, hprev, hset₁, hentry.1, hset₂, Option.bind_eq_bind,
      Option.bind_some]
  · intro e'
    rw [setPrev_nextUpdate hset₂, setNext_nextUpdate hset₁]

/-- `ft_deref` of an entry that records its own place returns, and leaves the
other entries in use as they were. -/
theorem ftDeref_total (hok : TableOk t) (hvalid : t.valid e.bucket = true)
    (hown : (t.content e).bucket = some e.bucket) (count : Nat) :
    ∃ t', t.ftDeref e count = some t' ∧ TableOk t' ∧
      ∀ e', e' ≠ e → t.Used e' →
        t'.Used e' ∧ t'.content e' = t.content e' := by
  obtain ⟨t₁, hmodify⟩ := modifyEntry_total t e (fun entry =>
    { entry with rc := entry.rc - count }) hvalid
  obtain ⟨hedited, -, hcontent⟩ :=
    modifyEntry_spec hmodify (fun _ => rfl) (fun _ => rfl)
  have hok₁ := hedited.ok hok
  have hvalid₁ : t₁.valid e.bucket = true := by
    rw [hedited.valid]
    exact hvalid
  have hkept : ∀ e', e' ≠ e → t.Used e' →
      t₁.Used e' ∧ t₁.content e' = t.content e' := by
    intro e' hne hused
    rw [hedited.used, hcontent, if_neg hne]
    exact ⟨hused, rfl⟩
  simp only [FlowTable.ftDeref, hmodify, Option.bind_eq_bind,
    Option.bind_some]
  split
  · have hbucket : (t₁.entry e).bucket = some e.bucket := by
      rw [← FlowTable.content_of_valid hvalid₁, hcontent, if_pos rfl]
      exact hown
    obtain ⟨t₂, hremove⟩ :=
      FlowTable.ftRemove_total hok₁.inv hvalid₁ hbucket
    have hremoved := FlowTable.ftRemove_removed hok₁.inv hok₁.slots hremove
    refine ⟨t₂, hremove, hok₁.ftRemove hremove, ?_⟩
    intro e' hne hused
    obtain ⟨hused₁, heq⟩ := hkept e' hne hused
    have hused₂ := hremoved.used e' hused₁ hne
    exact ⟨hused₂, (hremoved.kept e' hused₂.1).trans heq⟩
  · exact ⟨t₁, rfl, hok₁, hkept⟩

/-- The first section of a turn moves the clock of the head on, and the head of
the list. -/
theorem Listed.advance {head next : EntryPtr} {rest others : List EntryPtr}
    (hlisted : Listed t poll (head :: rest))
    (hrot : rest ++ [head] = next :: others) (nextUpdate : BitVec 64) :
    ∃ t', setNextUpdate t head nextUpdate = some t' ∧
      (t'.entry head).poll.next = some next ∧
      Listed t' { poll with head := some next } (next :: others) ∧
      ∀ e, nextUpdateOf t' e =
        if e = head then nextUpdate else nextUpdateOf t e := by
  have hvalid := (hlisted.used head List.mem_cons_self).1
  obtain ⟨t', hset⟩ := setNextUpdate_total nextUpdate hvalid
  obtain ⟨honly, -, hnextOf, hprevOf, -⟩ := setNextUpdate_spec hset
  have hhead : poll.head = some head := hlisted.ring.head
  have hring := hlisted.ring
  rw [hhead] at hring
  obtain ⟨hnext, hring'⟩ := hring.rotate hrot
  refine ⟨t', hset, ?_, ?_, setNextUpdate_nextUpdate hset⟩
  · rw [pollNextOf_of_valid (by rw [honly.valid]; exact hvalid), hnextOf]
    exact hnext
  · apply hlisted.edit honly
    · refine ⟨hring'.head, hring'.nodup, ?_⟩
      rw [hnextOf, hprevOf]
      exact hring'.ring
    · intro e he
      rw [← hrot] at he
      simpa [or_comm] using he

/-- `fl_remove_poll` and `ft_deref` take the head off the list. -/
theorem Listed.drop {others : List EntryPtr}
    (hlisted : Listed t poll (e :: others)) :
    ∃ t₁ poll' t', flRemovePoll t poll e = some (t₁, poll') ∧
      t₁.ftDeref e 1 = some t' ∧ Listed t' poll' others ∧
      poll'.current = poll.current ∧
      ∀ e' ∈ others, nextUpdateOf t' e' = nextUpdateOf t e' := by
  have hmem : e ∈ e :: others := List.mem_cons_self
  have hused := hlisted.used e hmem
  obtain ⟨after, hafter, before, hbefore, hnext, hprev, -, -⟩ :=
    hlisted.ring.ring.neighbours hmem
  obtain ⟨t₁, head, hremove, hkept⟩ := @flRemovePoll_total t e poll _ _
    hused.1 hprev hnext (hlisted.used before hbefore).1
    (hlisted.used after hafter).1
  obtain ⟨honly, hring, -⟩ :=
    @PollRing.remove t t₁ e poll _ [] others hlisted.ring hused.1 hremove
  have hlisted₁ := hlisted.edit honly hring
    (fun e' he' => List.mem_cons_of_mem e he')
  have hfresh := (List.nodup_cons.mp hlisted.ring.nodup).1
  have hne : ∀ e' ∈ others, e' ≠ e := by
    rintro e' he' rfl
    exact hfresh he'
  obtain ⟨t', hderef, hok, hother⟩ := ftDeref_total hlisted₁.ok
    (by rw [honly.valid]; exact hused.1)
    (by
      obtain ⟨links, heq⟩ := honly.content e
      rw [heq]
      exact hlisted.own e hmem) 1
  have hsame : ∀ e' ∈ others, t'.Used e' ∧ t'.content e' = t₁.content e' :=
    fun e' he' => hother e' (hne e' he') (hlisted₁.used e' he')
  refine ⟨t₁, _, t', hremove, hderef, ⟨hok, ⟨hring.head, hring.nodup, ?_⟩,
    fun e' he' => (hsame e' he').1, ?_⟩, rfl, ?_⟩
  · apply hring.ring.congr
    · intro e' he'
      rw [pollNextOf, (hsame e' he').2]
      rfl
    · intro e' he'
      rw [pollPrevOf, (hsame e' he').2]
      rfl
  · intro e' he'
    rw [(hsame e' he').2]
    exact hlisted₁.own e' he'
  · intro e' he'
    rw [nextUpdateOf, (hsame e' he').2]
    exact hkept e'

/-- The inner loop visits what a tick over the list acts on. -/
theorem pollLoop_ringTick {found : Nat → PollFound} {fuel n : Nat}
    {due : EntryPtr → Nat} (hlisted : Listed t poll l)
    (hdue : ∀ e ∈ l, due e = (nextUpdateOf t e).toNat) :
    (pollLoop cfg found fuel n t poll).map Prod.fst =
      ringTick poll.current.toNat (poll.current + cfg.pollInterval).toNat
        (fun n => pollRemoves cfg (found n)) fuel n l due := by
  induction fuel generalizing n t poll l due with
  | zero => rfl
  | succ fuel ih =>
      cases l with
      | nil =>
          have hhead : poll.head = none := hlisted.ring.head
          rw [pollLoop, hhead]
          rfl
      | cons head rest =>
          have hhead : poll.head = some head := hlisted.ring.head
          have hvalid := (hlisted.used head List.mem_cons_self).1
          have htime : (t.entry head).poll.nextUpdate = nextUpdateOf t head := by
            rw [nextUpdateOf, FlowTable.content_of_valid hvalid]
          rw [pollLoop, hhead, ringTick, hdue head List.mem_cons_self]
          simp only [hvalid, Bool.true_eq_false, if_false, htime, BitVec.lt_def]
          split
          · rfl
          · cases hrot : rest ++ [head] with
            | nil => simp at hrot
            | cons next others =>
                obtain ⟨t₁, hset, hnext, hlisted₁, htimes⟩ :=
                  hlisted.advance hrot (poll.current + cfg.pollInterval)
                have hdue₁ : ∀ e ∈ next :: others,
                    Function.update due head
                        (poll.current + cfg.pollInterval).toNat e =
                      (nextUpdateOf t₁ e).toNat := by
                  intro e he
                  rw [htimes, Function.update_apply]
                  split
                  · rfl
                  · apply hdue e
                    rw [← hrot] at he
                    simpa [or_comm] using he
                simp only [hset, hnext, Option.bind_eq_bind, Option.bind_some]
                cases hleave : pollRemoves cfg (found n) with
                | false =>
                    simp only [Bool.false_eq_true, if_false]
                    rw [← @ih t₁ _ _ (n + 1) _ hlisted₁ hdue₁,
                      Option.map_map]
                    cases pollLoop cfg found fuel (n + 1) t₁ _ <;> rfl
                | true =>
                    obtain ⟨t₂, poll', t', hremove, hderef, hlisted', hcurrent,
                      hkept⟩ := hlisted₁.drop
                    simp only [if_true, hremove, hderef, Option.bind_some]
                    have hrest := @ih t' poll' others (n + 1)
                      (Function.update due head
                        (poll.current + cfg.pollInterval).toNat) hlisted'
                      (fun e he => by
                        rw [hkept e he]
                        exact hdue₁ e (List.mem_cons_of_mem next he))
                    simp only [hcurrent] at hrest
                    rw [← hrest, Option.map_map]
                    cases pollLoop cfg found fuel (n + 1) t' poll' <;> rfl

/-- The loop ends, and visits the entries that are due now and no others, once
each. -/
def VisitsDue (cfg : FlConfig) (found : Nat → PollFound) (t : FlowTable)
    (poll : PollState) (l : List EntryPtr) : Prop :=
  ∃ fuel visited t' poll',
    pollLoop cfg found fuel 0 t poll = some (visited, t', poll') ∧
      visited.Nodup ∧
      ∀ e, e ∈ visited ↔ e ∈ l ∧ nextUpdateOf t e ≤ poll.current

/-- The times of the entries, in the order of the list. -/
def SortedByUpdate (t : FlowTable) (l : List EntryPtr) : Prop :=
  l.Pairwise fun a b => nextUpdateOf t a ≤ nextUpdateOf t b

theorem visitsDue_iff_tickExact {found : Nat → PollFound}
    (hlisted : Listed t poll l) :
    VisitsDue cfg found t poll l ↔
      TickExact poll.current.toNat (poll.current + cfg.pollInterval).toNat
        (fun n => pollRemoves cfg (found n)) l
        (fun e => (nextUpdateOf t e).toNat) := by
  have htick := fun fuel => @pollLoop_ringTick t poll cfg l found fuel 0
    (fun e => (nextUpdateOf t e).toNat) hlisted (fun _ _ => rfl)
  constructor
  · rintro ⟨fuel, visited, t', poll', hloop, hrest⟩
    refine ⟨fuel, visited, ?_, hrest⟩
    rw [← htick fuel, hloop]
    rfl
  · rintro ⟨fuel, visited, hring, hrest⟩
    rw [← htick fuel, Option.map_eq_some_iff] at hring
    obtain ⟨⟨visited', t', poll'⟩, hloop, rfl⟩ := hring
    exact ⟨fuel, visited', t', poll', hloop, hrest⟩

/-- On a sorted list the loop visits the due entries when nothing is due, or
when everything is due and either the new times are in the future and no visit
but the last removes its entry, or they are not and every visit does. -/
theorem visitsDue_iff {found : Nat → PollFound} (hlisted : Listed t poll l)
    (hsorted : SortedByUpdate t l) :
    VisitsDue cfg found t poll l ↔
      (∀ e ∈ l, poll.current < nextUpdateOf t e) ∨
        (∀ e ∈ l, nextUpdateOf t e ≤ poll.current) ∧
          if poll.current < poll.current + cfg.pollInterval
          then ∀ i, i + 1 < l.length → pollRemoves cfg (found i) = false
          else ∀ i, i < l.length → pollRemoves cfg (found i) = true := by
  rw [visitsDue_iff_tickExact hlisted]
  exact tickExact_iff hlisted.ring.nodup hsorted

/-- A hardware probe, and an interval of two. -/
def tickConfig : FlConfig := ⟨true, 2#64⟩

/-- The packet of another flow. -/
def otherPacket : Wire :=
  { upstreamPacket with l3 := fun i => if i = 12 then 2#8 else 0#8 }

/-- The packet is missed, and its flow is learnt. -/
def learnPacket (packet : Packet) : List SysAction :=
  [.rxLookup 0 0#32 packet, .rxAdd 0 none, .rxPush 0 true, .rxCount 0,
    .programPull, .programFlags, .programRef, .programAddPoll, .programSkip,
    .programWrite true]

/-- The program on a table with one chain of two slots. -/
def tickRun (actions : List SysAction) : Option Sys :=
  (FlowTable.ftInit (fun _ _ => none) 0 1 2).bind fun t =>
    execOk (sysStep tickConfig) addPollAsserts (sysStart t) actions

def tickList : List EntryPtr := [⟨.first 0, 0⟩, ⟨.first 0, 1⟩]

/-- An entry of the list as it is in memory. -/
structure PollNode where
  bucket : Option BucketPtr
  next : Option EntryPtr
  prev : Option EntryPtr
  nextUpdate : BitVec 64
  deriving DecidableEq

def pollNodeOf (t : FlowTable) (e : EntryPtr) : PollNode :=
  ⟨(t.content e).bucket, pollNextOf t e, pollPrevOf t e, nextUpdateOf t e⟩

/-- The list and its two entries. -/
def tickView (s : Sys) : Option EntryPtr × List EntryPtr × List PollNode :=
  (s.poll.head, s.history.members, tickList.map (pollNodeOf s.table))

/-- Two entries that are each other's neighbours. -/
def tickNodes (first second : BitVec 64) : List PollNode :=
  [⟨some (.first 0), some ⟨.first 0, 1⟩, some ⟨.first 0, 1⟩, first⟩,
    ⟨some (.first 0), some ⟨.first 0, 0⟩, some ⟨.first 0, 0⟩, second⟩]

/-- Both flows are learnt, the second one at time `1`, and the clock shows
`2`. -/
def mixedActions : List SysAction :=
  learnPacket upstreamPacket.packet ++ [.pollTick, .pollNext] ++
    learnPacket otherPacket.packet ++ [.pollTick]

/-- Both flows are learnt at time `0`, and the clock shows `2`. -/
def evenActions : List SysAction :=
  learnPacket upstreamPacket.packet ++ learnPacket otherPacket.packet ++
    [.pollTick, .pollNext, .pollTick]

/-- The list of such a run, read off its memory. -/
theorem listed_of_tickRun {actions : List SysAction} {first second : BitVec 64}
    (hrun : (tickRun actions).map tickView =
      some (some ⟨.first 0, 0⟩, [⟨.first 0, 1⟩, ⟨.first 0, 0⟩],
        tickNodes first second)) :
    ∃ start s, tickRun actions = some s ∧ Started start ∧
      Run (sysStep tickConfig) anyStep start s ∧ Listed s.table s.poll tickList ∧
      nextUpdateOf s.table ⟨.first 0, 0⟩ = first ∧
      nextUpdateOf s.table ⟨.first 0, 1⟩ = second := by
  simp only [Option.map_eq_some_iff] at hrun
  obtain ⟨s, hrun, hview⟩ := hrun
  have hrun' := hrun
  simp only [tickRun, Option.bind_eq_some_iff] at hrun'
  obtain ⟨t, hinit, hexec⟩ := hrun'
  have hstart : Started (sysStart t) := ⟨_, _, _, _, t, hinit, by decide, rfl⟩
  have hreached := run_of_execOk actions hexec
  have hinv := run_inv hstart hreached
  simp only [tickView, tickNodes, tickList, List.map_cons, List.map_nil,
    pollNodeOf, Prod.mk.injEq, List.cons.injEq, PollNode.mk.injEq, and_true]
    at hview
  obtain ⟨hhead, hmembers, ⟨hown₀, hnext₀, hprev₀, htime₀⟩, hown₁, hnext₁,
    hprev₁, htime₁⟩ := hview
  refine ⟨sysStart t, s, hrun, hstart, hreached.mono fun _ _ _ => trivial,
    ⟨hinv.ok, ⟨hhead, by decide, ?_⟩, ?_, ?_⟩, htime₀, htime₁⟩
  · simp [Ring, Seg, tickList, hnext₀, hnext₁, hprev₀, hprev₁]
  · intro e he
    apply hinv.members
    rw [hmembers]
    simpa [tickList, or_comm] using he
  · intro e he
    simp only [tickList, List.mem_cons, List.not_mem_nil, or_false] at he
    rcases he with rfl | rfl
    · exact hown₀
    · exact hown₁

/-- Two due entries, whose next update is then in the future, are visited once
each. -/
theorem visitsDue_even : ∃ s, tickRun evenActions = some s ∧
    VisitsDue tickConfig (fun _ => ⟨0, FLOW_FLAGS_TRACK⟩) s.table s.poll
      tickList := by
  obtain ⟨start, s, hrun, -, -, hlisted, hfirst, hsecond⟩ :=
    @listed_of_tickRun evenActions 2#64 2#64 (by decide +kernel)
  have hcurrent : (tickRun evenActions).map (fun s => s.poll.current) =
      some 2#64 := by
    decide +kernel
  rw [hrun, Option.map_some, Option.some.injEq] at hcurrent
  refine ⟨s, hrun, (visitsDue_iff hlisted ?_).mpr (Or.inr ⟨?_, ?_⟩)⟩
  · simp [SortedByUpdate, tickList, hfirst, hsecond]
  · simp [tickList, hfirst, hsecond, hcurrent]
  · rw [hcurrent, if_pos (by decide)]
    exact fun _ _ => by decide

/-- The first of two entries is due, and the other one is visited. -/
theorem visitsDue_fails : ∃ start s, Started start ∧
    Run (sysStep tickConfig) anyStep start s ∧
    Listed s.table s.poll tickList ∧ SortedByUpdate s.table tickList ∧
    ∀ found, ¬ VisitsDue tickConfig found s.table s.poll tickList := by
  obtain ⟨start, s, hrun, hstart, hreached, hlisted, hfirst, hsecond⟩ :=
    @listed_of_tickRun mixedActions 2#64 3#64 (by decide +kernel)
  have hcurrent : (tickRun mixedActions).map (fun s => s.poll.current) =
      some 2#64 := by
    decide +kernel
  rw [hrun, Option.map_some, Option.some.injEq] at hcurrent
  refine ⟨start, s, hstart, hreached, hlisted, ?_, fun found => ?_⟩
  · simp [SortedByUpdate, tickList, hfirst, hsecond]
  · rw [visitsDue_iff_tickExact hlisted]
    apply not_tickExact_mixed hlisted.ring.nodup
    · simp [hfirst, hcurrent]
    · exact List.mem_cons_self
    · simp [hsecond, hcurrent]

end Ntnetflow

end NtapiExamples
