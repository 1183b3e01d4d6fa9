/-
The poll list under any order of its operations: it reads from `poll_head` as
the list of the entries that were inserted and not removed.  Every operation
runs under `poll_mutex`.
-/
import NtapiExamples.Ntnetflow.PollTick
import NtapiExamples.Lib.Run

namespace NtapiExamples

namespace Ntnetflow

/-- The entries, and the variables under `poll_mutex`. -/
structure PollHeap where
  table : FlowTable
  poll : PollState

/-- The sections that take `poll_mutex`. -/
inductive PollOp where
  | add (e : EntryPtr)
  | remove (e : EntryPtr)
  | rotate
  | tick

/-- `poll_head->poll.next_update = …; poll_head = poll_head->poll.next`. -/
def pollRotate (cfg : FlConfig) (h : PollHeap) : Option PollHeap :=
  match h.poll.head with
  | none => some h
  | some head => do
      let t ← setNextUpdate h.table head (h.poll.current + cfg.pollInterval)
      let e ← (t.entry head).poll.next
      some ⟨t, { h.poll with head := some e }⟩

/-- `++poll_current; poll_op_count = 0`. -/
def pollTick (poll : PollState) : PollState :=
  { poll with current := poll.current + 1#64, opCount := 0#32 }

def pollStep (cfg : FlConfig) (h : PollHeap) : PollOp → Option PollHeap
  | .add e => (flAddPoll cfg h.table h.poll e).map fun r => ⟨r.1, r.2⟩
  | .remove e => (flRemovePoll h.table h.poll e).map fun r => ⟨r.1, r.2⟩
  | .rotate => pollRotate cfg h
  | .tick => some ⟨h.table, pollTick h.poll⟩

/-- The loop of `fl_deinit` over the list, from `poll_head` until it is back at
`start`: the entries it gives to `fl_flow`. -/
def deinitLoop (t : FlowTable) (start : EntryPtr) :
    Nat → EntryPtr → Option (List EntryPtr)
  | 0, _ => none
  | fuel + 1, head => do
      let next ← (t.entry head).poll.next
      if next = start then some [head]
      else (deinitLoop t start fuel next).map (head :: ·)

/-- The list as `fl_deinit` reads it; `none` is a walk that needs more turns or
goes through a bad pointer. -/
def deinitRead (h : PollHeap) (fuel : Nat) : Option (List EntryPtr) :=
  match h.poll.head with
  | none => some []
  | some start => deinitLoop h.table start fuel start

/-- What an operation is to the list. -/
def PollOp.onList : PollOp → List EntryPtr → List EntryPtr
  | .add e, l => l ++ [e]
  | .remove e, l => l.erase e
  | .rotate, l => l.drop 1 ++ l.take 1
  | .tick, l => l

/-- The ring and the list it stands for. -/
structure PollPair where
  heap : PollHeap
  list : List EntryPtr

def pairStep (cfg : FlConfig) (s : PollPair) (op : PollOp) : Option PollPair :=
  (pollStep cfg s.heap op).map fun h => ⟨h, op.onList s.list⟩

/-- Entries that exist are inserted when they are off the list, and removed when
they are on it. -/
def PollPair.Allows (s : PollPair) : PollOp → Prop
  | .add e => e ∉ s.list ∧ s.heap.table.valid e.bucket = true
  | .remove e => e ∈ s.list
  | .rotate => True
  | .tick => True

/-- The ring stands for the list. -/
structure PollPair.Reads (s : PollPair) : Prop where
  ring : PollRing s.heap.table s.heap.poll.head s.list
  valid : ∀ e ∈ s.list, s.heap.table.valid e.bucket = true

/-- The links of `e` are those of before. -/
def SamePollLinks (t t' : FlowTable) (e : EntryPtr) : Prop :=
  pollNextOf t' e = pollNextOf t e ∧ pollPrevOf t' e = pollPrevOf t e

variable {cfg : FlConfig} {t t' : FlowTable} {e : EntryPtr} {poll : PollState}
variable {l : List EntryPtr}

theorem samePollLinks_of_content (hcontent : t'.content e = t.content e) :
    SamePollLinks t t' e := by
  rw [SamePollLinks, pollNextOf, pollPrevOf, hcontent]
  exact ⟨rfl, rfl⟩

/-- The links of an entry are set between the last entry and the head. -/
theorem linkPoll_total (hring : PollRing t poll.head l)
    (hvalid : t.valid e.bucket = true)
    (hmembers : ∀ e' ∈ l, t.valid e'.bucket = true) (hfresh : e ∉ l) :
    ∃ r, linkPoll t poll.head e = some r := by
  cases l with
  | nil =>
      have hhead : poll.head = none := hring.head
      obtain ⟨t₁, hset₁⟩ := @setNext_total t e (some e) hvalid
      obtain ⟨t₂, hset₂⟩ := @setPrev_total t₁ e (some e) (by
        rw [(setNext_spec hset₁).1.valid]
        exact hvalid)
      exact ⟨(t₂, some e), by simp [linkPoll, hhead, hset₁, hset₂]⟩
  | cons head rest =>
      have hhead : poll.head = some head := hring.head
      obtain ⟨-, -, last, hlast, -, hprev, -, -⟩ :=
        hring.ring.neighbours (List.mem_cons_self)
      have hne : head ≠ e := by
        rintro rfl
        exact hfresh List.mem_cons_self
      obtain ⟨t₁, hset₁⟩ := @setNext_total t e (some head) hvalid
      obtain ⟨honly₁, -, hnext₁, hprev₁, -⟩ := setNext_spec hset₁
      have hvalid₁ : ∀ p, t₁.valid p = t.valid p := honly₁.valid
      have hbefore : (t₁.entry head).poll.prev = some last := by
        rw [pollPrevOf_of_valid, hprev₁]
        · exact hprev
        · rw [hvalid₁]
          exact hmembers head List.mem_cons_self
      obtain ⟨t₂, hset₂⟩ := @setPrev_total t₁ e (some last) (by
        rw [hvalid₁]
        exact hvalid)
      obtain ⟨honly₂, -, hnext₂, hprev₂, -⟩ := setPrev_spec hset₂
      have hvalid₂ : ∀ p, t₂.valid p = t.valid p := fun p => by
        rw [honly₂.valid, hvalid₁]
      have hown : (t₂.entry e).poll.prev = some last := by
        rw [pollPrevOf_of_valid, hprev₂, Function.update_self]
        rw [hvalid₂]
        exact hvalid
      obtain ⟨t₃, hset₃⟩ := @setNext_total t₂ last (some e) (by
        rw [hvalid₂]
        exact hmembers last hlast)
      obtain ⟨t₄, hset₄⟩ := @setPrev_total t₃ head (some e) (by
        rw [(setNext_spec hset₃).1.valid, hvalid₂]
        exact hmembers head List.mem_cons_self)
      exact ⟨(t₄, some head), by
        simp [linkPoll, hhead, hset₁, hbefore, hset₂, hown, hset₃, hset₄]⟩

theorem flAddPoll_total (hring : PollRing t poll.head l)
    (hvalid : t.valid e.bucket = true)
    (hmembers : ∀ e' ∈ l, t.valid e'.bucket = true) (hfresh : e ∉ l) :
    ∃ r, flAddPoll cfg t poll e = some r := by
  obtain ⟨⟨t₁, head⟩, hlink⟩ := linkPoll_total hring hvalid hmembers hfresh
  let offset := if poll.opCount + 1#32 &&& POLL_THROTTLE_MASK = 0#32
    then poll.offset + 1#32 else poll.offset
  obtain ⟨t₂, hset⟩ := @setNextUpdate_total t₁ e
    (poll.current + cfg.pollInterval + offset.setWidth 64) (by
      rw [(linkPoll_pollOnly hlink).valid]
      exact hvalid)
  refine ⟨(t₂, { poll with
    head := head, offset := offset, opCount := poll.opCount + 1#32 }), ?_⟩
  simp only [flAddPoll, hlink, Option.bind_eq_bind, Option.bind_some]
  rw [hset]
  rfl

/-- An operation returns, the ring then stands for the list that the operation
makes, and the links of all other entries are those of before. -/
structure PollEffect (cfg : FlConfig) (s : PollPair) (op : PollOp)
    (h : PollHeap) : Prop where
  step : pollStep cfg s.heap op = some h
  reads : PollPair.Reads ⟨h, op.onList s.list⟩
  links : ∀ e, e ∉ s.list → e ∉ op.onList s.list →
    SamePollLinks s.heap.table h.table e
  valid : ∀ p, h.table.valid p = s.heap.table.valid p

namespace PollPair.Reads

variable {s : PollPair}

theorem add (hreads : s.Reads) (hfresh : e ∉ s.list)
    (hvalid : s.heap.table.valid e.bucket = true) :
    ∃ h, PollEffect cfg s (.add e) h := by
  obtain ⟨⟨t', poll'⟩, hadd⟩ := @flAddPoll_total cfg s.heap.table e s.heap.poll
    s.list hreads.ring hvalid hreads.valid hfresh
  obtain ⟨honly, hring, hother⟩ := hreads.ring.add hfresh hreads.valid hadd
  refine ⟨⟨t', poll'⟩, by rw [pollStep, hadd]; rfl, ⟨hring, ?_⟩, ?_, ?_⟩
  · intro e' he'
    rw [honly.valid]
    rcases List.mem_append.mp he' with hmem | hnew
    · exact hreads.valid e' hmem
    · rw [List.mem_singleton.mp hnew]
      exact hvalid
  · intro e' hold hnew
    have hne : e' ≠ e := by
      rintro rfl
      exact hnew (List.mem_append_right _ List.mem_cons_self)
    exact samePollLinks_of_content (hother e' hne hold)
  · exact honly.valid

theorem remove (hreads : s.Reads) (he : e ∈ s.list) :
    ∃ h, PollEffect cfg s (.remove e) h := by
  obtain ⟨after, hafter, before, hbefore, hnext, hprev, -, -⟩ :=
    hreads.ring.ring.neighbours he
  have hvalid := hreads.valid e he
  obtain ⟨t', head, hremove, -⟩ := @flRemovePoll_total s.heap.table e
    s.heap.poll before after hvalid hprev hnext (hreads.valid before hbefore)
    (hreads.valid after hafter)
  obtain ⟨a, b, hsplit⟩ := List.append_of_mem he
  have hring := hreads.ring
  rw [hsplit] at hring
  obtain ⟨honly, hring', hother⟩ := hring.remove hvalid hremove
  have hfresh : e ∉ a := by
    intro hmem
    have hnodup := hring.nodup
    rw [List.nodup_append] at hnodup
    exact hnodup.2.2 e hmem e List.mem_cons_self rfl
  have herase : s.list.erase e = a ++ b := by
    rw [hsplit, List.erase_append_right _ hfresh, List.erase_cons_head]
  refine ⟨⟨t', _⟩, by rw [pollStep, hremove]; rfl, ⟨?_, ?_⟩, ?_, ?_⟩
  · rw [PollOp.onList, herase]
    exact hring'
  · intro e' he'
    rw [honly.valid]
    exact hreads.valid e' (List.mem_of_mem_erase he')
  · intro e' hold _
    rw [hsplit] at hold
    exact samePollLinks_of_content (hother e' hold)
  · exact honly.valid

theorem rotate (hreads : s.Reads) : ∃ h, PollEffect cfg s .rotate h := by
  obtain ⟨hring, hvalid⟩ := hreads
  cases hlist : s.list with
  | nil =>
      rw [hlist] at hring
      have hhead : s.heap.poll.head = none := hring.head
      refine ⟨s.heap, by rw [pollStep, pollRotate, hhead], ⟨?_, ?_⟩,
        fun _ _ _ => ⟨rfl, rfl⟩, fun _ => rfl⟩
      · rw [hlist]
        exact hring
      · rw [hlist]
        exact fun e' he' => absurd he' List.not_mem_nil
  | cons head rest =>
      rw [hlist] at hring hvalid
      have hhead : s.heap.poll.head = some head := hring.head
      rw [hhead] at hring
      cases hrot : rest ++ [head] with
      | nil => simp at hrot
      | cons next others =>
          obtain ⟨hnext, hring'⟩ := hring.rotate hrot
          have hvalidHead := hvalid head List.mem_cons_self
          obtain ⟨t', hset⟩ := @setNextUpdate_total s.heap.table head
            (s.heap.poll.current + cfg.pollInterval) hvalidHead
          obtain ⟨honly, -, hnextOf, hprevOf, -⟩ := setNextUpdate_spec hset
          have hread : (t'.entry head).poll.next = some next := by
            rw [pollNextOf_of_valid (by rw [honly.valid]; exact hvalidHead),
              hnextOf]
            exact hnext
          have hon : PollOp.onList .rotate s.list = next :: others := by
            rw [hlist, ← hrot]
            rfl
          refine ⟨⟨t', { s.heap.poll with head := some next }⟩, ?_, ⟨?_, ?_⟩, ?_, ?_⟩
          · simp only [pollStep, pollRotate, hhead, hset, hread,
              Option.bind_eq_bind, Option.bind_some]
          · rw [hon]
            refine ⟨hring'.head, hring'.nodup, ?_⟩
            rw [hnextOf, hprevOf]
            exact hring'.ring
          · intro e' he'
            rw [hon, ← hrot] at he'
            rw [honly.valid]
            apply hvalid e'
            simpa [or_comm] using he'
          · intro e' _ _
            rw [SamePollLinks, hnextOf, hprevOf]
            exact ⟨rfl, rfl⟩
          · exact honly.valid

theorem tick (hreads : s.Reads) : ∃ h, PollEffect cfg s .tick h :=
  ⟨⟨s.heap.table, pollTick s.heap.poll⟩, rfl, ⟨hreads.ring, hreads.valid⟩,
    fun _ _ _ => ⟨rfl, rfl⟩, fun _ => rfl⟩

theorem step (hreads : s.Reads) {op : PollOp} (hallows : s.Allows op) :
    ∃ h, PollEffect cfg s op h := by
  cases op with
  | add e => exact hreads.add hallows.1 hallows.2
  | remove e => exact hreads.remove hallows
  | rotate => exact hreads.rotate
  | tick => exact hreads.tick

end PollPair.Reads

/-- In every run the ring stands for the list. -/
theorem reads_of_run {start s : PollPair} (hstart : start.Reads)
    (hrun : Run (pairStep cfg) PollPair.Allows start s) : s.Reads := by
  apply hrun.invariant hstart
  intro s op s' hreads hallows hstep
  obtain ⟨h, heffect⟩ := hreads.step hallows
  rw [pairStep, heffect.step, Option.map_some, Option.some.injEq] at hstep
  rw [← hstep]
  exact heffect.reads

/-- The walk from an entry of the ring to the end of the list. -/
theorem deinitLoop_eq {start head : EntryPtr} {rest : List EntryPtr}
    {before : Option EntryPtr}
    (hseg : Seg (pollNextOf t) (pollPrevOf t) before (some start)
      (head :: rest))
    (hvalid : ∀ e ∈ head :: rest, t.valid e.bucket = true)
    (hstart : start ∉ rest) :
    deinitLoop t start (rest.length + 1) head = some (head :: rest) := by
  induction rest generalizing head before with
  | nil =>
      obtain ⟨-, hnext, -⟩ := hseg
      rw [deinitLoop, pollNextOf_of_valid (hvalid head List.mem_cons_self),
        hnext]
      exact if_pos rfl
  | cons next rest ih =>
      obtain ⟨-, hnext, hrest⟩ := hseg
      rw [List.mem_cons, not_or] at hstart
      have hwalk := ih hrest
        (fun e he => hvalid e (List.mem_cons_of_mem head he)) hstart.2
      rw [List.length_cons, deinitLoop,
        pollNextOf_of_valid (hvalid head List.mem_cons_self), hnext]
      have hother : ¬ next = start := fun heq => hstart.1 heq.symm
      simp only [List.head?_cons, Option.some_or, Option.bind_eq_bind,
        Option.bind_some, if_neg hother, hwalk, Option.map_some]

/-- What `fl_deinit` reads is the list. -/
theorem PollPair.Reads.deinitRead {s : PollPair} (hreads : s.Reads) :
    deinitRead s.heap s.list.length = some s.list := by
  obtain ⟨hring, hvalid⟩ := hreads
  cases hlist : s.list with
  | nil =>
      rw [hlist] at hring
      rw [Ntnetflow.deinitRead, hring.head]
      rfl
  | cons head rest =>
      rw [hlist] at hring hvalid
      rw [Ntnetflow.deinitRead, hring.head]
      exact deinitLoop_eq hring.ring hvalid (List.nodup_cons.mp hring.nodup).1

/-- A ring without entries stands for the empty list, whatever the memory
holds. -/
theorem reads_nil (t : FlowTable) {poll : PollState} (hhead : poll.head = none) :
    PollPair.Reads ⟨⟨t, poll⟩, []⟩ :=
  ⟨⟨hhead, List.nodup_nil, ring_nil⟩, fun _ he => absurd he List.not_mem_nil⟩

/-- The ring implements the list: over every run it is read from `poll_head` as
the list, its links are inverse to each other, and every operation returns, does
to the ring what it does to the list, and keeps the links of all other
entries. -/
theorem pollRing_refines {start s : PollPair} (hstart : start.Reads)
    (hrun : Run (pairStep cfg) PollPair.Allows start s) :
    deinitRead s.heap s.list.length = some s.list ∧
      s.heap.poll.head = s.list.head? ∧ s.list.Nodup ∧
      (∀ e ∈ s.list, ∃ after ∈ s.list, ∃ before ∈ s.list,
        pollNextOf s.heap.table e = some after ∧
        pollPrevOf s.heap.table e = some before ∧
        pollPrevOf s.heap.table after = some e ∧
        pollNextOf s.heap.table before = some e) ∧
      ∀ op, s.Allows op → ∃ h, PollEffect cfg s op h := by
  have hreads := reads_of_run hstart hrun
  exact ⟨hreads.deinitRead, hreads.ring.head, hreads.ring.nodup,
    fun e he => hreads.ring.ring.neighbours he, fun op => hreads.step⟩

/-- The entries of a chain that have never been used. -/
def chainTable : FlowTable where
  tableSize := 1
  bucketSize := 2
  mem := fun _ => FlowBucket.zero
  heap := []
  last := fun _ => some (.first 0)
  stats := fun _ => 0

/-- The start of the program: no entry is on the list. -/
def pollStart (t : FlowTable) : PollPair :=
  ⟨⟨t, ⟨none, 0#64, 0#32, 0#32⟩⟩, []⟩

def chainEntry (slot : Nat) : EntryPtr := ⟨.first 0, slot⟩

/-- Two entries are inserted, and the head moves on to the second. -/
theorem pollRing_refines_two : ∃ s : PollPair,
    Run (pairStep ⟨true, 1#64⟩) PollPair.Allows (pollStart chainTable) s ∧
      s.list = [chainEntry 1, chainEntry 0] ∧
      deinitRead s.heap 2 = some [chainEntry 1, chainEntry 0] := by
  have hstart : (pollStart chainTable).Reads := reads_nil chainTable rfl
  have hpair : ∀ {s : PollPair} {op : PollOp} {h : PollHeap},
      PollEffect ⟨true, 1#64⟩ s op h →
      pairStep ⟨true, 1#64⟩ s op = some ⟨h, op.onList s.list⟩ := by
    intro s op h heffect
    rw [pairStep, heffect.step]
    rfl
  have hfirst : (pollStart chainTable).Allows (.add (chainEntry 0)) :=
    ⟨List.not_mem_nil, rfl⟩
  obtain ⟨h₁, heffect₁⟩ := @PollPair.Reads.step ⟨true, 1#64⟩ _ hstart _ hfirst
  have hsecond : PollPair.Allows ⟨h₁, [chainEntry 0]⟩ (.add (chainEntry 1)) :=
    ⟨show chainEntry 1 ∉ [chainEntry 0] by decide, heffect₁.valid _⟩
  obtain ⟨h₂, heffect₂⟩ :=
    @PollPair.Reads.step ⟨true, 1#64⟩ _ heffect₁.reads _ hsecond
  have hthird : PollPair.Allows ⟨h₂, [chainEntry 0, chainEntry 1]⟩ .rotate :=
    trivial
  obtain ⟨h₃, heffect₃⟩ :=
    @PollPair.Reads.step ⟨true, 1#64⟩ _ heffect₂.reads _ hthird
  have hrun := ((Run.refl.tail _ hfirst (hpair heffect₁)).tail _ hsecond
    (hpair heffect₂)).tail _ hthird (hpair heffect₃)
  exact ⟨_, hrun, rfl, (pollRing_refines hstart hrun).1⟩

end Ntnetflow

end NtapiExamples
