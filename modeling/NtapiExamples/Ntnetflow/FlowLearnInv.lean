/-
What holds in every run of the flow threads as long as `fl_add_poll` is only
called for entries without links: the poll list is a circle, and the reference
count of an entry is one more than its memberships of that list.
-/
import NtapiExamples.Ntnetflow.FlowLearnFlags

namespace NtapiExamples

namespace Ntnetflow

/-- The entry `fl_program_main` took a reference for and has not linked yet. -/
def ProgramPc.took : ProgramPc → Option EntryPtr
  | .addPoll e _ => some e
  | _ => none

/-- The entry `fl_poll_main` has unlinked and not dereferenced yet. -/
def PollPc.drops : PollPc → Option EntryPtr
  | .deref e => some e
  | _ => none

/-- The entry `fl_poll_main` took from the list and may still unlink. -/
def PollPc.listed : PollPc → Option EntryPtr
  | .skip e => some e
  | .flags e => some e
  | .remove e => some e
  | _ => none

/-- `l` is the poll list, read from `poll_head` on. -/
structure PollRing (t : FlowTable) (head : Option EntryPtr)
    (l : List EntryPtr) : Prop where
  head : head = l.head?
  nodup : l.Nodup
  ring : Ring (pollNextOf t) (pollPrevOf t) l

/-- Every entry a thread, the queue, the adapter or the poll list holds on to is
in use. -/
structure Held (s : Sys) : Prop where
  rx : ∀ thread e, (s.rx thread).entry = some e → s.table.Used e
  queue : ∀ op e, (op, e) ∈ s.queue → s.table.Used e
  program : ∀ e, s.program.entry = some e → s.table.Used e
  status : ∀ e, s.status.entry = some e → s.table.Used e
  record : ∀ e, s.record.entry = some e → s.table.Used e
  poller : ∀ e, s.poller.entry = some e → s.table.Used e
  written : ∀ e, e ∈ s.history.written.map Prod.fst → s.table.Used e
  members : ∀ e ∈ s.history.members, s.table.Used e

/-- The part of the invariant that is not about reference counts. -/
structure InvBase (s : Sys) : Prop extends Held s where
  ok : TableOk s.table
  unused : ∀ e, ¬ s.table.Used e → s.table.content e = FlowEntry.zero
  inserted : ∀ e ∈ s.history.members, e ∈ s.history.inserted
  ring : ∃ l, PollRing s.table s.poll.head l ∧ l.Perm s.history.members
  listed : ∀ e, s.poller.listed = some e → e ∈ s.history.members
  fresh : ∀ e, e ∉ s.history.inserted →
    pollNextOf s.table e = none ∧ pollPrevOf s.table e = none

/-- One reference is `ft_add`'s own, the others stand for memberships. -/
def RcOk (s : Sys) : Prop :=
  ∀ e, s.table.Used e → rcOf s.table e = 1 + s.history.members.count e +
    (if s.program.took = some e then 1 else 0) +
    (if s.poller.drops = some e then 1 else 0)

structure Inv (s : Sys) : Prop extends InvBase s where
  rc : RcOk s

variable {s s' : Sys} {t' : FlowTable}

theorem InvBase.members_nodup (hinv : InvBase s) :
    s.history.members.Nodup := by
  obtain ⟨l, hring, hperm⟩ := hinv.ring
  exact hperm.nodup_iff.mp hring.nodup

/-- Entries on the list have both links. -/
theorem InvBase.member_links (hinv : InvBase s) {e : EntryPtr}
    (he : e ∈ s.history.members) : pollNextOf s.table e ≠ none := by
  obtain ⟨l, hring, hperm⟩ := hinv.ring
  obtain ⟨next, -, -, -, hnext, -⟩ :=
    hring.ring.neighbours (hperm.mem_iff.mpr he)
  simp [hnext]

theorem Held.setTable (hheld : Held s)
    (hmono : ∀ e, s.table.Used e → t'.Used e) :
    Held { s with table := t' } where
  rx thread e he := hmono e (hheld.rx thread e he)
  queue op e he := hmono e (hheld.queue op e he)
  program e he := hmono e (hheld.program e he)
  status e he := hmono e (hheld.status e he)
  record e he := hmono e (hheld.record e he)
  poller e he := hmono e (hheld.poller e he)
  written e he := hmono e (hheld.written e he)
  members e he := hmono e (hheld.members e he)

theorem InvBase.setTable (hinv : InvBase s) (hplaced : Placed s.table t') :
    InvBase { s with table := t' } := by
  have hnext : pollNextOf t' = pollNextOf s.table := funext hplaced.next
  have hprev : pollPrevOf t' = pollPrevOf s.table := funext hplaced.prev
  constructor
  · exact hinv.toHeld.setTable fun e he => (hplaced.used e).mpr he
  · exact hplaced.ok hinv.ok
  · intro e he
    rw [hplaced.used] at he
    rw [hplaced.unused e he]
    exact hinv.unused e he
  · exact hinv.inserted
  · obtain ⟨l, hring, hperm⟩ := hinv.ring
    refine ⟨l, ⟨hring.head, hring.nodup, ?_⟩, hperm⟩
    rw [hnext, hprev]
    exact hring.ring
  · exact hinv.listed
  · intro e he
    rw [hnext, hprev]
    exact hinv.fresh e he

theorem Inv.setTable (hinv : Inv s) (hstill : Still s.table t') :
    Inv { s with table := t' } := by
  refine ⟨hinv.toInvBase.setTable hstill.toPlaced, ?_⟩
  intro e he
  rw [hstill.rc]
  exact hinv.rc e ((hstill.used e).mp he)

theorem Inv.setRx (hinv : Inv s) (thread : Nat) {pc : RxPc}
    (hpc : ∀ e, pc.entry = some e → s.table.Used e) :
    Inv (setRx s thread pc) := by
  refine { hinv with rx := ?_ }
  intro other e he
  by_cases heq : other = thread
  · subst heq
    simp only [Ntnetflow.setRx, Function.update_self] at he
    exact hpc e he
  · simp only [Ntnetflow.setRx, Function.update_of_ne heq] at he
    exact hinv.rx other e he

theorem Inv.setProgram (hinv : Inv s) {pc : ProgramPc}
    (hpc : ∀ e, pc.entry = some e → s.table.Used e)
    (htook : pc.took = s.program.took) : Inv { s with program := pc } := by
  refine { hinv with program := hpc, rc := ?_ }
  intro e he
  have hrc := hinv.rc e he
  rw [← htook] at hrc
  exact hrc

theorem Inv.setStatus (hinv : Inv s) {pc : StatusPc}
    (hpc : ∀ e, pc.entry = some e → s.table.Used e) :
    Inv { s with status := pc } :=
  { hinv with status := hpc }

theorem Inv.setRecord (hinv : Inv s) {pc : RecordPc}
    (hpc : ∀ e, pc.entry = some e → s.table.Used e) :
    Inv { s with record := pc } :=
  { hinv with record := hpc }

theorem Inv.setPoller (hinv : Inv s) {pc : PollPc}
    (hpc : ∀ e, pc.entry = some e → s.table.Used e)
    (hdrops : pc.drops = s.poller.drops)
    (hlisted : ∀ e, pc.listed = some e → e ∈ s.history.members) :
    Inv { s with poller := pc } := by
  refine { hinv with poller := hpc, listed := hlisted, rc := ?_ }
  intro e he
  have hrc := hinv.rc e he
  rw [← hdrops] at hrc
  exact hrc

/-- A push leaves everything but the queue alone. -/
theorem Inv.flProgram (hinv : Inv s) {e : EntryPtr} {op : FlOp}
    {success : Bool} (he : s.table.Used e)
    (hpush : flProgram s e op success = some s') :
    Inv s' ∧ (∀ e', s'.table.Used e' ↔ s.table.Used e') ∧
      s'.history = s.history ∧ s'.poller = s.poller := by
  simp only [Ntnetflow.flProgram] at hpush
  split at hpush
  · rw [Option.some.injEq] at hpush
    subst hpush
    exact ⟨hinv, fun _ => Iff.rfl, rfl, rfl⟩
  · split at hpush
    · rw [Option.some.injEq] at hpush
      subst hpush
      have hstill : Still s.table (s.table.statsUpdate .queue 1) :=
        Still.stats .queue 1
      refine ⟨?_, hstill.used, rfl, rfl⟩
      refine { hinv.setTable hstill with queue := ?_ }
      intro op' e' hmem
      rw [hstill.used]
      rcases List.mem_append.mp hmem with hmem | hmem
      · exact hinv.queue op' e' hmem
      · simp only [List.mem_singleton, Prod.mk.injEq] at hmem
        rw [hmem.2]
        exact he
    · simp at hpush

theorem Inv.stepRxLookup (hinv : Inv s) {thread : Nat}
    {streamId : BitVec 32} {packet : Packet}
    (hstep : stepRxLookup s thread streamId packet = some s') : Inv s' := by
  simp only [Ntnetflow.stepRxLookup] at hstep
  cases hpc : s.rx thread with
  | idle =>
      simp only [hpc] at hstep
      split at hstep
      · cases hlookup : rxLookup s.table packet with
        | none => simp [hlookup] at hstep
        | some found =>
            cases found with
            | none =>
                simp only [hlookup, Option.some.injEq] at hstep
                subst hstep
                exact hinv.setRx thread (by simp [RxPc.entry])
            | some e =>
                simp only [hlookup, Option.some.injEq] at hstep
                subst hstep
                apply hinv.setRx thread
                intro e' he'
                simp only [RxPc.entry, Option.some.injEq] at he'
                rw [← he']
                exact (FlowTable.ftLookup_eq_some hinv.ok.inv hlookup).1
      · rw [Option.some.injEq] at hstep
        rw [← hstep]
        exact hinv
  | add _ _ => simp [hpc] at hstep
  | learn _ _ => simp [hpc] at hstep
  | count _ _ => simp [hpc] at hstep

/-- A new entry starts with one reference, off the list. -/
theorem Inv.rxAdd (hinv : Inv s) {alloc : Option Nat} {streamId : BitVec 32}
    {packet : Packet} {e : EntryPtr}
    (hadd : rxAdd s.table alloc streamId packet = some (t', e)) :
    Inv { s with table := t' } ∧ t'.Used e := by
  obtain ⟨hfresh, hused, hrc, -, hpoll, hother⟩ := rxAdd_spec hinv.ok hadd
  have hnext : pollNextOf t' = pollNextOf s.table := by
    funext e'
    by_cases he : e' = e
    · rw [he, pollNextOf, hpoll]
      rfl
    · rw [pollNextOf, hother e' he]
      rfl
  have hprev : pollPrevOf t' = pollPrevOf s.table := by
    funext e'
    by_cases he : e' = e
    · rw [he, pollPrevOf, hpoll]
      rfl
    · rw [pollPrevOf, hother e' he]
      rfl
  refine ⟨⟨?_, ?_⟩, (hused e).mpr (Or.inl rfl)⟩
  · constructor
    · exact hinv.toHeld.setTable fun e' he' => (hused e').mpr (Or.inr he')
    · exact hinv.ok.rxAdd hadd
    · intro e' he'
      rw [hused] at he'
      rw [hother e' (fun h => he' (Or.inl h))]
      exact hinv.unused e' (fun h => he' (Or.inr h))
    · exact hinv.inserted
    · obtain ⟨l, hring, hperm⟩ := hinv.ring
      refine ⟨l, ⟨hring.head, hring.nodup, ?_⟩, hperm⟩
      rw [hnext, hprev]
      exact hring.ring
    · exact hinv.listed
    · intro e' he'
      rw [hnext, hprev]
      exact hinv.fresh e' he'
  · intro e' he'
    by_cases he : e' = e
    · subst he
      have hzero : rcOf s.table e' = 0 := by
        rw [rcOf, hinv.unused e' hfresh]
        rfl
      have hcount : s.history.members.count e' = 0 := by
        rw [List.count_eq_zero]
        exact fun h => hfresh (hinv.members e' h)
      have htook : s.program.took ≠ some e' := by
        intro h
        apply hfresh
        apply hinv.program
        cases hpc : s.program <;> simp [hpc, ProgramPc.took] at h
        rw [h]
        rfl
      have hdrops : s.poller.drops ≠ some e' := by
        intro h
        apply hfresh
        apply hinv.poller
        cases hpc : s.poller <;> simp [hpc, PollPc.drops] at h
        rw [h]
        rfl
      simp only [hrc, hzero, hcount, htook, hdrops, if_false]
      rfl
    · rw [rcOf, hother e' he]
      exact hinv.rc e' (((hused e').mp he').resolve_left he)

theorem Inv.stepRxAdd (hinv : Inv s) {thread : Nat} {alloc : Option Nat}
    (hstep : stepRxAdd s thread alloc = some s') : Inv s' := by
  simp only [Ntnetflow.stepRxAdd] at hstep
  cases hpc : s.rx thread with
  | add streamId packet =>
      simp only [hpc, Option.bind_eq_bind, Option.bind_eq_some_iff,
        Option.some.injEq] at hstep
      obtain ⟨⟨t', e⟩, hadd, rfl⟩ := hstep
      obtain ⟨hinv', hused⟩ := hinv.rxAdd hadd
      apply hinv'.setRx thread
      intro e' he'
      split at he' <;>
        · simp only [RxPc.entry, Option.some.injEq] at he'
          rw [← he']
          exact hused
  | idle => simp [hpc] at hstep
  | learn _ _ => simp [hpc] at hstep
  | count _ _ => simp [hpc] at hstep

theorem Inv.stepRxPush (hinv : Inv s) {thread : Nat} {success : Bool}
    (hstep : stepRxPush s thread success = some s') : Inv s' := by
  simp only [Ntnetflow.stepRxPush] at hstep
  cases hpc : s.rx thread with
  | learn e packet =>
      simp only [hpc, Option.bind_eq_bind, Option.bind_eq_some_iff,
        Option.some.injEq] at hstep
      obtain ⟨s₁, hpush, rfl⟩ := hstep
      have he := hinv.rx thread e (by rw [hpc]; rfl)
      obtain ⟨hinv₁, hused, -, -⟩ := hinv.flProgram he hpush
      apply hinv₁.setRx thread
      intro e' he'
      simp only [RxPc.entry, Option.some.injEq] at he'
      rw [← he', hused]
      exact he
  | idle => simp [hpc] at hstep
  | add _ _ => simp [hpc] at hstep
  | count _ _ => simp [hpc] at hstep

theorem Inv.stepRxCount (hinv : Inv s) {thread : Nat}
    (hstep : stepRxCount s thread = some s') : Inv s' := by
  simp only [Ntnetflow.stepRxCount] at hstep
  cases hpc : s.rx thread with
  | count e packet =>
      simp only [hpc, Option.bind_eq_bind, Option.bind_eq_some_iff,
        Option.some.injEq] at hstep
      obtain ⟨t', hcount, rfl⟩ := hstep
      simp only [rxCount] at hcount
      have he := hinv.rx thread e (by rw [hpc]; rfl)
      have hstill : Still s.table t' := Still.modify hcount he
        (fun _ => rfl) (fun _ => rfl) (fun _ => rfl) (fun _ => rfl)
        (fun _ => rfl)
      exact (hinv.setTable hstill).setRx thread (by simp [RxPc.entry])
  | idle => simp [hpc] at hstep
  | add _ _ => simp [hpc] at hstep
  | learn _ _ => simp [hpc] at hstep

theorem Inv.stepProgramPull (hinv : Inv s)
    (hstep : stepProgramPull s = some s') : Inv s' := by
  simp only [Ntnetflow.stepProgramPull] at hstep
  cases hpc : s.program with
  | idle =>
      cases hqueue : s.queue with
      | nil => simp [hpc, hqueue] at hstep
      | cons item queue =>
          obtain ⟨op, e⟩ := item
          simp only [hpc, hqueue, Option.some.injEq] at hstep
          subst hstep
          have he := hinv.queue op e (by rw [hqueue]; simp)
          have hstill : Still s.table (s.table.statsUpdate .queue (-1)) :=
            Still.stats .queue (-1)
          have hpull : Inv { s with
              queue := queue, table := s.table.statsUpdate .queue (-1) } := by
            refine { hinv.setTable hstill with queue := ?_ }
            intro op' e' hmem
            rw [hstill.used]
            apply hinv.queue op' e'
            rw [hqueue]
            exact List.mem_cons_of_mem _ hmem
          apply hpull.setProgram
          · intro e' he'
            simp only [ProgramPc.entry, Option.some.injEq] at he'
            rw [← he']
            exact (hstill.used e).mpr he
          · change none = s.program.took
            rw [hpc]
            rfl
  | handle _ _ => simp [hpc] at hstep
  | ref _ _ => simp [hpc] at hstep
  | addPoll _ _ => simp [hpc] at hstep
  | skip _ _ => simp [hpc] at hstep
  | write _ _ => simp [hpc] at hstep
  | exited => simp [hpc] at hstep

theorem programNext_cases (cfg : FlConfig) (op : FlOp) (e : EntryPtr)
    (flags : BitVec 32) :
    (∀ e', (programNext cfg op e flags).entry = some e' → e' = e) ∧
      (programNext cfg op e flags).took = none := by
  simp only [programNext]
  split
  · simp [ProgramPc.entry, ProgramPc.took]
  · cases op with
    | probe => simp [ProgramPc.entry, ProgramPc.took, eq_comm]
    | unlearn => simp [ProgramPc.entry, ProgramPc.took, eq_comm]
    | refresh => simp [ProgramPc.entry, ProgramPc.took, eq_comm]
    | learn =>
        simp only
        split <;> simp [ProgramPc.entry, ProgramPc.took, eq_comm]

theorem Inv.stepProgramFlags (hinv : Inv s) {cfg : FlConfig}
    (hstep : stepProgramFlags cfg s = some s') : Inv s' := by
  simp only [Ntnetflow.stepProgramFlags] at hstep
  cases hpc : s.program with
  | handle op e =>
      simp only [hpc, Option.bind_eq_bind, Option.bind_eq_some_iff,
        Option.some.injEq] at hstep
      obtain ⟨⟨t', flags⟩, hor, rfl⟩ := hstep
      have he := hinv.program e (by rw [hpc]; rfl)
      obtain ⟨-, -, -, hstill⟩ := fetchOr_spec hor
      obtain ⟨hentry, htook⟩ := programNext_cases cfg op e flags
      apply (hinv.setTable (hstill he)).setProgram
      · intro e' he'
        rw [hentry e' he']
        exact ((hstill he).used e).mpr he
      · rw [htook]
        change none = s.program.took
        rw [hpc]
        rfl
  | idle => simp [hpc] at hstep
  | ref _ _ => simp [hpc] at hstep
  | addPoll _ _ => simp [hpc] at hstep
  | skip _ _ => simp [hpc] at hstep
  | write _ _ => simp [hpc] at hstep
  | exited => simp [hpc] at hstep

theorem Inv.stepProgramRef (hinv : Inv s)
    (hstep : stepProgramRef s = some s') : Inv s' := by
  simp only [Ntnetflow.stepProgramRef] at hstep
  cases hpc : s.program with
  | ref e flags =>
      simp only [hpc, Option.bind_eq_bind, Option.bind_eq_some_iff,
        Option.some.injEq] at hstep
      obtain ⟨t', href, rfl⟩ := hstep
      have he := hinv.program e (by rw [hpc]; rfl)
      have hplaced : Placed s.table t' := Placed.modify href he
        (fun _ => rfl) (fun _ => rfl) (fun _ => rfl) (fun _ => rfl)
      obtain ⟨-, -, hcontent⟩ := ftRef_spec href
      refine ⟨{ hinv.toInvBase.setTable hplaced with program := ?_ }, ?_⟩
      · intro e' he'
        simp only [ProgramPc.entry, Option.some.injEq] at he'
        rw [← he']
        exact (hplaced.used e).mpr he
      · intro e' he'
        have hrc := hinv.rc e' ((hplaced.used e').mp he')
        simp only [hpc, ProgramPc.took] at hrc
        rw [rcOf, hcontent]
        by_cases heq : e' = e
        · subst heq
          simp only [ProgramPc.took, if_true, hrc]
          simp
          omega
        · simp only [ProgramPc.took, Option.some.injEq, Ne.symm heq,
            if_neg heq, if_false]
          simpa [rcOf] using hrc
  | idle => simp [hpc] at hstep
  | handle _ _ => simp [hpc] at hstep
  | addPoll _ _ => simp [hpc] at hstep
  | skip _ _ => simp [hpc] at hstep
  | write _ _ => simp [hpc] at hstep
  | exited => simp [hpc] at hstep

theorem skipAdd_still {e : EntryPtr} {count : Int}
    (hadd : skipAdd s.table e count = some t') (he : s.table.Used e) :
    Still s.table t' :=
  Still.modify hadd he (fun _ => rfl) (fun _ => rfl) (fun _ => rfl)
    (fun _ => rfl) (fun _ => rfl)

theorem Inv.stepProgramSkip (hinv : Inv s)
    (hstep : stepProgramSkip s = some s') : Inv s' := by
  simp only [Ntnetflow.stepProgramSkip] at hstep
  cases hpc : s.program with
  | skip e flags =>
      have he := hinv.program e (by rw [hpc]; rfl)
      obtain ⟨t', hstill, rfl⟩ : ∃ t', Still s.table t' ∧
          { s with table := t', program := .write e .learn } = s' := by
        simp only [hpc] at hstep
        split at hstep <;> simp only [Option.bind_eq_bind,
          Option.bind_eq_some_iff, Option.some.injEq] at hstep
        · obtain ⟨t', hskip, rfl⟩ := hstep
          exact ⟨t', skipAdd_still hskip he, rfl⟩
        · obtain ⟨t', rfl, rfl⟩ := hstep
          exact ⟨s.table, Still.refl s.table, rfl⟩
      apply (hinv.setTable hstill).setProgram
      · intro e' he'
        simp only [ProgramPc.entry, Option.some.injEq] at he'
        rw [← he']
        exact (hstill.used e).mpr he
      · change none = s.program.took
        rw [hpc]
        rfl
  | idle => simp [hpc] at hstep
  | handle _ _ => simp [hpc] at hstep
  | ref _ _ => simp [hpc] at hstep
  | addPoll _ _ => simp [hpc] at hstep
  | write _ _ => simp [hpc] at hstep
  | exited => simp [hpc] at hstep

theorem Inv.stepProgramWrite (hinv : Inv s) {success : Bool}
    (hstep : stepProgramWrite s success = some s') : Inv s' := by
  simp only [Ntnetflow.stepProgramWrite] at hstep
  cases hpc : s.program with
  | write e command =>
      have he := hinv.program e (by rw [hpc]; rfl)
      have hdone : ∀ pc : ProgramPc, pc.entry = none → pc.took = none →
          Inv { s with program := pc } := by
        intro pc hentry htook
        apply hinv.setProgram
        · simp [hentry]
        · rw [htook, hpc]
          rfl
      simp only [hpc] at hstep
      split at hstep
      · rw [Option.some.injEq] at hstep
        subst hstep
        refine { hdone .idle rfl rfl with written := ?_ }
        intro e' he'
        rcases List.mem_cons.mp he' with rfl | he'
        · exact he
        · exact hinv.written e' he'
      · rw [Option.some.injEq] at hstep
        subst hstep
        exact hdone .exited rfl rfl
  | idle => simp [hpc] at hstep
  | handle _ _ => simp [hpc] at hstep
  | ref _ _ => simp [hpc] at hstep
  | addPoll _ _ => simp [hpc] at hstep
  | skip _ _ => simp [hpc] at hstep
  | exited => simp [hpc] at hstep

theorem statusStats_still (t : FlowTable) (kind : FlowStatus)
    (flags : BitVec 32) : Still t (statusStats t kind flags) := by
  simp only [statusStats]
  split
  · exact Still.stats .refresh 1
  · exact Still.refl t

theorem Inv.stepStatusFlags (hinv : Inv s) {cfg : FlConfig} {e : EntryPtr}
    {kind : FlowStatus} (hstep : stepStatusFlags cfg s e kind = some s') :
    Inv s' := by
  simp only [Ntnetflow.stepStatusFlags] at hstep
  cases hpc : s.status with
  | idle =>
      simp only [hpc] at hstep
      split at hstep
      case isTrue hmem =>
        have he := hinv.written e hmem
        cases hclears : statusClears cfg kind with
        | none =>
            simp only [hclears, Option.some.injEq] at hstep
            subst hstep
            exact { hinv with status := by simp [StatusPc.entry] }
        | some mask =>
            simp only [hclears, Option.bind_eq_bind,
              Option.bind_eq_some_iff, Option.some.injEq] at hstep
            obtain ⟨⟨t', flags⟩, hand, rfl⟩ := hstep
            obtain ⟨-, -, -, hstill⟩ := fetchAnd_spec hand
            have hstill := (hstill he).trans (statusStats_still t' kind flags)
            refine { hinv.setTable hstill with status := ?_ }
            intro e' he'
            simp only [StatusPc.entry, Option.some.injEq] at he'
            rw [← he']
            exact (hstill.used e).mpr he
      case isFalse => simp at hstep
  | skip _ _ => simp [hpc] at hstep

theorem Inv.stepStatusSkip (hinv : Inv s)
    (hstep : stepStatusSkip s = some s') : Inv s' := by
  simp only [Ntnetflow.stepStatusSkip] at hstep
  cases hpc : s.status with
  | skip e count =>
      simp only [hpc, Option.bind_eq_bind, Option.bind_eq_some_iff,
        Option.some.injEq] at hstep
      obtain ⟨t', hskip, rfl⟩ := hstep
      have he := hinv.status e (by rw [hpc]; rfl)
      exact (hinv.setTable (skipAdd_still hskip he)).setStatus
        (by simp [StatusPc.entry])
  | idle => simp [hpc] at hstep

theorem Inv.stepRecordFlags (hinv : Inv s) {e : EntryPtr}
    {info : NtFlowInfo} (hstep : stepRecordFlags s e info = some s') :
    Inv s' := by
  simp only [Ntnetflow.stepRecordFlags] at hstep
  cases hpc : s.record with
  | idle =>
      simp only [hpc] at hstep
      split at hstep
      case isTrue hmem =>
        have he := hinv.written e hmem
        simp only [Option.bind_eq_bind, Option.bind_eq_some_iff,
          Option.some.injEq] at hstep
        obtain ⟨⟨t', flags⟩, hor, rfl⟩ := hstep
        obtain ⟨-, -, -, hstill⟩ := fetchOr_spec hor
        apply (hinv.setTable (hstill he)).setRecord
        intro e' he'
        simp only [RecordPc.entry, Option.some.injEq] at he'
        rw [← he']
        exact ((hstill he).used e).mpr he
      case isFalse => simp at hstep
  | update _ _ _ => simp [hpc] at hstep
  | probe _ => simp [hpc] at hstep
  | push _ _ => simp [hpc] at hstep
  | track _ => simp [hpc] at hstep

theorem recordNext_entry {cfg : FlConfig} {e e' : EntryPtr}
    {info : NtFlowInfo} {changed : Bool} {flags : BitVec 32}
    (he : (recordNext cfg e info changed flags).entry = some e') :
    e' = e := by
  simp only [recordNext] at he
  split at he
  · split at he <;> simpa [RecordPc.entry, eq_comm] using he
  · split at he
    · split at he
      · simpa [RecordPc.entry, eq_comm] using he
      · simp [RecordPc.entry] at he
    · simpa [RecordPc.entry, eq_comm] using he

theorem Inv.stepRecordUpdate (hinv : Inv s) {cfg : FlConfig}
    (hstep : stepRecordUpdate cfg s = some s') : Inv s' := by
  simp only [Ntnetflow.stepRecordUpdate] at hstep
  cases hpc : s.record with
  | update e info flags =>
      simp only [hpc, Option.bind_eq_bind, Option.bind_eq_some_iff,
        Option.some.injEq] at hstep
      obtain ⟨t', hmodify, rfl⟩ := hstep
      have he := hinv.record e (by rw [hpc]; rfl)
      have hmodified : Still s.table t' := Still.modify hmodify he
        (fun _ => rfl) (fun _ => rfl) (fun _ => rfl) (fun _ => rfl)
        (fun _ => rfl)
      have hstill : Still s.table
          (if recordSwProbe cfg info flags || info.cause == 4#8
            then t'.statsUpdate .probe 1 else t') := by
        split
        · exact hmodified.trans (Still.stats .probe 1)
        · exact hmodified
      apply (hinv.setTable hstill).setRecord
      intro e' he'
      rw [recordNext_entry he']
      exact (hstill.used e).mpr he
  | idle => simp [hpc] at hstep
  | probe _ => simp [hpc] at hstep
  | push _ _ => simp [hpc] at hstep
  | track _ => simp [hpc] at hstep

theorem Inv.stepRecordProbe (hinv : Inv s)
    (hstep : stepRecordProbe s = some s') : Inv s' := by
  simp only [Ntnetflow.stepRecordProbe] at hstep
  cases hpc : s.record with
  | probe e =>
      simp only [hpc, Option.bind_eq_bind, Option.bind_eq_some_iff,
        Option.some.injEq] at hstep
      obtain ⟨⟨t', flags⟩, hand, rfl⟩ := hstep
      have he := hinv.record e (by rw [hpc]; rfl)
      obtain ⟨-, -, -, hstill⟩ := fetchAnd_spec hand
      apply (hinv.setTable (hstill he)).setRecord
      intro e' he'
      simp only [RecordPc.entry, Option.some.injEq] at he'
      rw [← he']
      exact ((hstill he).used e).mpr he
  | idle => simp [hpc] at hstep
  | update _ _ _ => simp [hpc] at hstep
  | push _ _ => simp [hpc] at hstep
  | track _ => simp [hpc] at hstep

theorem Inv.stepRecordPush (hinv : Inv s) {success : Bool}
    (hstep : stepRecordPush s success = some s') : Inv s' := by
  simp only [Ntnetflow.stepRecordPush] at hstep
  cases hpc : s.record with
  | push e op =>
      simp only [hpc, Option.bind_eq_bind, Option.bind_eq_some_iff,
        Option.some.injEq] at hstep
      obtain ⟨s₁, hpush, rfl⟩ := hstep
      have he := hinv.record e (by rw [hpc]; rfl)
      obtain ⟨hinv₁, -, -, -⟩ := hinv.flProgram he hpush
      exact hinv₁.setRecord (by simp [RecordPc.entry])
  | idle => simp [hpc] at hstep
  | update _ _ _ => simp [hpc] at hstep
  | probe _ => simp [hpc] at hstep
  | track _ => simp [hpc] at hstep

theorem Inv.stepRecordTrack (hinv : Inv s)
    (hstep : stepRecordTrack s = some s') : Inv s' := by
  simp only [Ntnetflow.stepRecordTrack] at hstep
  cases hpc : s.record with
  | track e =>
      simp only [hpc, Option.bind_eq_bind, Option.bind_eq_some_iff,
        Option.some.injEq] at hstep
      obtain ⟨⟨t', flags⟩, hand, rfl⟩ := hstep
      have he := hinv.record e (by rw [hpc]; rfl)
      obtain ⟨-, -, -, hstill⟩ := fetchAnd_spec hand
      exact (hinv.setTable (hstill he)).setRecord (by simp [RecordPc.entry])
  | idle => simp [hpc] at hstep
  | update _ _ _ => simp [hpc] at hstep
  | probe _ => simp [hpc] at hstep
  | push _ _ => simp [hpc] at hstep

end Ntnetflow

end NtapiExamples
