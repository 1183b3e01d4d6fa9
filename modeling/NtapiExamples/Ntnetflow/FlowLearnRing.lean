/-
The steps that change the poll list or drop a reference, and what follows for
whole runs.
-/
import NtapiExamples.Ntnetflow.FlowLearnInv

namespace NtapiExamples

namespace Ntnetflow

variable {s s' : Sys} {t t' : FlowTable} {e : EntryPtr}

/-- `fl_add_poll` of an entry off the list puts it at the end of the list. -/
theorem PollRing.add {cfg : FlConfig} {poll poll' : PollState}
    {l : List EntryPtr} (hring : PollRing t poll.head l) (he : e ∉ l)
    (hvalid : ∀ e' ∈ l, t.valid e'.bucket = true)
    (hadd : flAddPoll cfg t poll e = some (t', poll')) :
    PollOnly t t' ∧ PollRing t' poll'.head (l ++ [e]) ∧
      ∀ e', e' ≠ e → e' ∉ l → t'.content e' = t.content e' := by
  obtain ⟨t₁, hlink, honly, hnext, hprev, hother⟩ := flAddPoll_spec hadd
  cases l with
  | nil =>
      rw [hring.head, List.head?_nil] at hlink
      obtain ⟨honly₁, hhead, hnext₁, hprev₁, hother₁⟩ := linkPoll_empty hlink
      refine ⟨honly₁.trans honly, ⟨?_, by simp, ?_⟩, ?_⟩
      · rw [hhead]
        rfl
      · apply ring_singleton
        · rw [hnext, hnext₁, Function.update_self]
        · rw [hprev, hprev₁, Function.update_self]
      · intro e' hne _
        rw [hother e' hne, hother₁ e' hne]
  | cons h r =>
      rw [hring.head, List.head?_cons] at hlink
      obtain ⟨honly₁, hhead, last, hlast, hnext₁, hprev₁, hother₁⟩ :=
        linkPoll_before hlink (hvalid h List.mem_cons_self)
      have hlastEq : (h :: r).getLast? = some last := by
        rw [← hlast]
        exact hring.ring.1.symm
      have hlastMem : last ∈ h :: r := List.mem_of_getLast? hlastEq
      have hne : ∀ e' ∈ h :: r, e' ≠ e := by
        rintro e' he' rfl
        exact he he'
      refine ⟨honly₁.trans honly, ⟨?_, ?_, ?_⟩, ?_⟩
      · rw [hhead]
        rfl
      · rw [List.nodup_append]
        refine ⟨hring.nodup, by simp, ?_⟩
        intro a ha b hb
        rw [List.mem_singleton] at hb
        rw [hb]
        exact hne a ha
      · rw [hnext, hnext₁, hprev, hprev₁]
        apply hring.ring.insert hring.nodup
        · rw [Function.update_of_ne (hne last hlastMem).symm,
            Function.update_self]
        · rw [Function.update_of_ne (hne h List.mem_cons_self).symm,
            Function.update_self, hlastEq]
        · intro other hother
          rw [hlastEq, Option.some.injEq] at hother
          rw [← hother, Function.update_self]
        · rw [Function.update_self]
        · intro other hmem hnot
          rw [hlastEq, ne_eq, Option.some.injEq] at hnot
          rw [Function.update_of_ne (Ne.symm hnot),
            Function.update_of_ne (hne other hmem)]
        · intro other hmem hnot
          rw [Function.update_of_ne hnot,
            Function.update_of_ne (hne other hmem)]
      · intro e' hne' hmem
        rw [hother e' hne']
        apply hother₁ e' hne'
        · rintro rfl
          exact hmem List.mem_cons_self
        · rintro rfl
          exact hmem hlastMem

/-- `fl_remove_poll` of an entry on the list takes it out of the list. -/
theorem PollRing.remove {poll poll' : PollState} {a b : List EntryPtr}
    (hring : PollRing t poll.head (a ++ e :: b))
    (hvalid : t.valid e.bucket = true)
    (hremove : flRemovePoll t poll e = some (t', poll')) :
    PollOnly t t' ∧ PollRing t' poll'.head (a ++ b) ∧
      ∀ e', e' ∉ a ++ e :: b → t'.content e' = t.content e' := by
  obtain ⟨honly, before, after, hbefore, hafter, hnext, hprev, hother, hhead⟩ :=
    flRemovePoll_spec hremove hvalid
  have hmem : e ∈ a ++ e :: b := by simp
  obtain ⟨after', hafterMem, before', hbeforeMem, hafter', hbefore', -, -⟩ :=
    hring.ring.neighbours hmem
  rw [hafter, Option.some.injEq] at hafter'
  rw [hbefore, Option.some.injEq] at hbefore'
  subst hafter' hbefore'
  have hnodup := hring.nodup
  have hafterEq : some after = b.head?.or (a ++ e :: b).head? := by
    rw [← hafter]
    exact Seg.next_of_split hring.ring
  refine ⟨honly, ⟨?_, ?_, ?_⟩, ?_⟩
  · -- `poll_head` moves on only when it is the entry itself.
    rw [hhead, hring.head]
    obtain ⟨-, hcons, hdisj⟩ := List.nodup_append.mp hnodup
    obtain ⟨hfresh, -⟩ := List.nodup_cons.mp hcons
    cases a with
    | nil =>
        simp only [List.nil_append, List.head?_cons, if_true]
        cases b with
        | nil =>
            simp only [List.head?_nil, Option.none_or, List.nil_append,
              List.head?_cons, Option.some.injEq] at hafterEq
            rw [if_pos hafterEq]
            rfl
        | cons c b =>
            simp only [List.head?_cons, Option.some_or,
              Option.some.injEq] at hafterEq
            subst hafterEq
            rw [if_neg]
            · rfl
            · rintro rfl
              exact hfresh List.mem_cons_self
    | cons c a =>
        have hne : c ≠ e := hdisj c List.mem_cons_self e List.mem_cons_self
        simp [hne]
  · exact hnodup.sublist
      (List.Sublist.append_left (List.sublist_cons_self e b) a)
  · rw [hnext, hprev]
    apply hring.ring.remove hnodup
    · intro other hother _
      rw [hbefore, Option.some.injEq] at hother
      rw [← hother, Function.update_self, hafter]
    · intro other hother _
      rw [hafter, Option.some.injEq] at hother
      rw [← hother, Function.update_self, hbefore]
    · intro other _ hnot
      rw [hbefore, ne_eq, Option.some.injEq] at hnot
      rw [Function.update_of_ne (Ne.symm hnot)]
    · intro other _ hnot
      rw [hafter, ne_eq, Option.some.injEq] at hnot
      rw [Function.update_of_ne (Ne.symm hnot)]
  · intro e' hnot
    apply hother
    · rintro rfl
      exact hnot hbeforeMem
    · rintro rfl
      exact hnot hafterMem

/-- A change of the links of used entries leaves the threads' entries in use
and the other entries as they were. -/
theorem InvBase.links_frame (hinv : InvBase s) (honly : PollOnly s.table t')
    (hother : ∀ e, ¬ s.table.Used e → t'.content e = s.table.content e) :
    TableOk t' ∧ (∀ e, ¬ t'.Used e → t'.content e = FlowEntry.zero) ∧
      Held { s with table := t' } := by
  refine ⟨honly.ok hinv.ok, ?_, ?_⟩
  · intro e he
    rw [honly.used] at he
    rw [hother e he, hinv.unused e he]
  · exact hinv.toHeld.setTable fun e he => (honly.used e).mpr he

theorem Inv.stepProgramAddPoll (hinv : Inv s) {cfg : FlConfig}
    (hfree : ∀ e flags, s.program = .addPoll e flags →
      pollNextOf s.table e = none)
    (hstep : stepProgramAddPoll cfg s = some s') : Inv s' := by
  simp only [Ntnetflow.stepProgramAddPoll] at hstep
  cases hpc : s.program with
  | addPoll e flags =>
      simp only [hpc, Option.bind_eq_bind, Option.bind_eq_some_iff,
        Option.some.injEq] at hstep
      obtain ⟨⟨t', poll'⟩, hadd, rfl⟩ := hstep
      have he := hinv.program e (by rw [hpc]; rfl)
      have hoff : e ∉ s.history.members :=
        fun h => hinv.member_links h (hfree e flags hpc)
      obtain ⟨l, hring, hperm⟩ := hinv.ring
      have hmemL : ∀ e', e' ∈ l ↔ e' ∈ s.history.members :=
        fun _ => hperm.mem_iff
      obtain ⟨honly, hring', hother⟩ := hring.add
        (fun h => hoff ((hmemL e).mp h))
        (fun e' he' => (hinv.members e' ((hmemL e').mp he')).1) hadd
      obtain ⟨hok, hunused, hheld⟩ := hinv.toInvBase.links_frame honly (by
        intro e' he'
        apply hother e'
        · rintro rfl
          exact he' he
        · exact fun h => he' (hinv.members e' ((hmemL e').mp h)))
      have hmembers : ∀ e' ∈ e :: s.history.members, t'.Used e' := by
        intro e' he'
        rw [honly.used]
        rcases List.mem_cons.mp he' with rfl | he'
        · exact he
        · exact hinv.members e' he'
      refine ⟨⟨{ hheld with program := ?_, members := hmembers }, hok,
        hunused, ?_, ⟨l ++ [e], hring', ?_⟩, ?_, ?_⟩, ?_⟩
      · intro e' he'
        simp only [ProgramPc.entry, Option.some.injEq] at he'
        rw [← he']
        exact (honly.used e).mpr he
      · intro e' he'
        rcases List.mem_cons.mp he' with rfl | he'
        · exact List.mem_cons_self
        · exact List.mem_cons_of_mem e (hinv.inserted e' he')
      · exact (List.perm_append_singleton e l).trans (hperm.cons e)
      · intro e' he'
        exact List.mem_cons_of_mem e (hinv.listed e' he')
      · intro e' he'
        rw [List.mem_cons, not_or] at he'
        have hcontent := hother e' he'.1
          (fun h => he'.2 (hinv.inserted e' ((hmemL e').mp h)))
        simp only [pollNextOf, pollPrevOf, hcontent]
        exact hinv.fresh e' he'.2
      · intro e' he'
        have hrc := hinv.rc e' ((honly.used e').mp he')
        simp only [hpc, ProgramPc.took] at hrc
        rw [honly.rc, hrc]
        by_cases heq : e' = e
        · subst heq
          simp only [ProgramPc.took, List.count_cons_self, if_true]
          simp
          omega
        · simp only [ProgramPc.took, Option.some.injEq, Ne.symm heq,
            List.count_cons_of_ne (Ne.symm heq)]
          simp
  | idle => simp [hpc] at hstep
  | handle _ _ => simp [hpc] at hstep
  | ref _ _ => simp [hpc] at hstep
  | skip _ _ => simp [hpc] at hstep
  | write _ _ => simp [hpc] at hstep
  | exited => simp [hpc] at hstep

theorem Inv.stepPollTick (hinv : Inv s)
    (hstep : stepPollTick s = some s') : Inv s' := by
  simp only [Ntnetflow.stepPollTick] at hstep
  cases hpc : s.poller with
  | asleep =>
      simp only [hpc, Option.some.injEq] at hstep
      subst hstep
      have hnext : Inv { s with poller := .next } :=
        hinv.setPoller (by simp [PollPc.entry]) (by rw [hpc]; rfl)
          (by simp [PollPc.listed])
      exact { hnext with }
  | next => simp [hpc] at hstep
  | skip _ => simp [hpc] at hstep
  | flags _ => simp [hpc] at hstep
  | push _ _ => simp [hpc] at hstep
  | remove _ => simp [hpc] at hstep
  | deref _ => simp [hpc] at hstep

/-- `poll_head` moves to the next entry of the circle. -/
theorem PollRing.next {head : EntryPtr} {l : List EntryPtr} {e : EntryPtr}
    (hring : PollRing t (some head) l) (hnext : pollNextOf t head = some e) :
    ∃ l', PollRing t (some e) l' ∧ l'.Perm l ∧ e ∈ l := by
  cases l with
  | nil => exact absurd hring.head (by simp)
  | cons h r =>
      have hhead := hring.head
      rw [List.head?_cons, Option.some.injEq] at hhead
      subst hhead
      have hrotate : Ring (pollNextOf t) (pollPrevOf t) (r ++ [head]) :=
        Ring.rotate (by simpa using hring.ring)
      have hperm : (r ++ [head]).Perm (head :: r) :=
        List.perm_append_singleton head r
      have hfirst : some e = (r ++ [head]).head? := by
        have hafter := @Seg.next_of_split EntryPtr (pollNextOf t)
          (pollPrevOf t) _ _ [] r head hring.ring
        rw [← hnext, hafter, List.head?_append]
        simp
      refine ⟨r ++ [head], ⟨hfirst, hperm.nodup_iff.mpr hring.nodup,
        hrotate⟩, hperm, ?_⟩
      exact hperm.mem_iff.mp (List.mem_of_head? hfirst.symm)

theorem Inv.stepPollNext (hinv : Inv s) {cfg : FlConfig}
    (hstep : stepPollNext cfg s = some s') : Inv s' := by
  simp only [Ntnetflow.stepPollNext] at hstep
  cases hpc : s.poller with
  | next =>
      have hasleep : Inv { s with poller := .asleep } :=
        hinv.setPoller (by simp [PollPc.entry]) (by rw [hpc]; rfl)
          (by simp [PollPc.listed])
      simp only [hpc] at hstep
      cases hhead : s.poll.head with
      | none =>
          simp only [hhead, Option.some.injEq] at hstep
          rw [← hstep]
          exact hasleep
      | some head =>
          simp only [hhead] at hstep
          split at hstep
          · simp at hstep
          · split at hstep
            · rw [Option.some.injEq] at hstep
              rw [← hstep]
              exact hasleep
            · simp only [Option.bind_eq_bind, Option.bind_eq_some_iff,
                Option.some.injEq] at hstep
              obtain ⟨t', hset, e, hentry, rfl⟩ := hstep
              obtain ⟨l, hring, hperm⟩ := hinv.ring
              rw [hhead] at hring
              have hmem : head ∈ s.history.members :=
                hperm.mem_iff.mp (List.mem_of_head? hring.head.symm)
              have hused := hinv.members head hmem
              obtain ⟨-, hvalid, hnext, -, -⟩ := setNextUpdate_spec hset
              have hstill : Still s.table t' := Still.modify hset hused
                (fun _ => rfl) (fun _ => rfl) (fun _ => rfl) (fun _ => rfl)
                (fun _ => rfl)
              rw [pollNextOf_of_valid (by rw [hstill.valid]; exact hvalid),
                hnext] at hentry
              obtain ⟨l', hring', hperm', he⟩ := hring.next hentry
              have heMem := hperm.mem_iff.mp he
              have htable := hinv.setTable hstill
              have hnextOf : pollNextOf t' = pollNextOf s.table :=
                funext hstill.next
              have hprevOf : pollPrevOf t' = pollPrevOf s.table :=
                funext hstill.prev
              have hinv' : Inv { s with
                  table := t', poll := { s.poll with head := some e } } := by
                refine { htable with
                  ring := ⟨l', ⟨hring'.head, hring'.nodup, ?_⟩,
                    hperm'.trans hperm⟩ }
                rw [hnextOf, hprevOf]
                exact hring'.ring
              apply hinv'.setPoller
              · intro e' he'
                simp only [PollPc.entry, Option.some.injEq] at he'
                rw [← he']
                exact (hstill.used e).mpr (hinv.members e heMem)
              · change none = s.poller.drops
                rw [hpc]
                rfl
              · intro e' he'
                simp only [PollPc.listed, Option.some.injEq] at he'
                rw [← he']
                exact heMem
  | asleep => simp [hpc] at hstep
  | skip _ => simp [hpc] at hstep
  | flags _ => simp [hpc] at hstep
  | push _ _ => simp [hpc] at hstep
  | remove _ => simp [hpc] at hstep
  | deref _ => simp [hpc] at hstep

theorem Inv.stepPollSkip (hinv : Inv s)
    (hstep : stepPollSkip s = some s') : Inv s' := by
  simp only [Ntnetflow.stepPollSkip] at hstep
  cases hpc : s.poller with
  | skip e =>
      simp only [hpc, Option.bind_eq_bind, Option.bind_eq_some_iff,
        Option.some.injEq] at hstep
      obtain ⟨t', hmodify, rfl⟩ := hstep
      have he := hinv.poller e (by rw [hpc]; rfl)
      have hlisted := hinv.listed e (by rw [hpc]; rfl)
      have hstill : Still s.table t' := Still.modify hmodify he
        (fun _ => rfl) (fun _ => rfl) (fun _ => rfl) (fun _ => rfl)
        (fun _ => rfl)
      apply (hinv.setTable hstill).setPoller
      · intro e' he'
        split at he'
        · simp [PollPc.entry] at he'
        · simp only [PollPc.entry, Option.some.injEq] at he'
          rw [← he']
          exact (hstill.used e).mpr he
      · change _ = s.poller.drops
        rw [hpc]
        split <;> rfl
      · intro e' he'
        split at he'
        · simp [PollPc.listed] at he'
        · simp only [PollPc.listed, Option.some.injEq] at he'
          rw [← he']
          exact hlisted
  | asleep => simp [hpc] at hstep
  | next => simp [hpc] at hstep
  | flags _ => simp [hpc] at hstep
  | push _ _ => simp [hpc] at hstep
  | remove _ => simp [hpc] at hstep
  | deref _ => simp [hpc] at hstep

/-- Whatever `fl_poll_main` does next, it is about the entry it read. -/
theorem pollNext_cases (cfg : FlConfig) (e : EntryPtr) (flags : BitVec 32) :
    (∃ op, pollNext cfg e flags = .push e op) ∨
      pollNext cfg e flags = .next ∨
      (pollNext cfg e flags = .remove e ∧
        (test flags FLOW_FLAGS_UNLEARN || !test flags FLOW_FLAGS_TRACK) =
          true) := by
  unfold pollNext
  by_cases hlearn : test flags FLOW_FLAGS_LEARN_PENDING = true
  · exact Or.inl ⟨.learn, if_pos hlearn⟩
  rw [if_neg hlearn]
  by_cases hrefresh : test flags (FLOW_FLAGS_REFRESH_PENDING |||
      if cfg.hwProbe then 0#32 else FLOW_FLAGS_PROBE_PENDING) = true
  · exact Or.inl ⟨.refresh, if_pos hrefresh⟩
  rw [if_neg hrefresh]
  by_cases hunlearn : test flags FLOW_FLAGS_UNLEARN_PENDING = true
  · exact Or.inl ⟨.unlearn, if_pos hunlearn⟩
  rw [if_neg hunlearn]
  by_cases hremove : (test flags FLOW_FLAGS_UNLEARN ||
      !test flags FLOW_FLAGS_TRACK) = true
  · exact Or.inr (Or.inr ⟨if_pos hremove, hremove⟩)
  rw [if_neg hremove]
  split
  · exact Or.inl ⟨.probe, rfl⟩
  · exact Or.inr (Or.inl rfl)

theorem Inv.stepPollFlags (hinv : Inv s) {cfg : FlConfig}
    (hstep : stepPollFlags cfg s = some s') : Inv s' := by
  simp only [Ntnetflow.stepPollFlags] at hstep
  cases hpc : s.poller with
  | flags e =>
      simp only [hpc, Option.bind_eq_bind, Option.bind_eq_some_iff,
        Option.some.injEq] at hstep
      obtain ⟨⟨t', flags⟩, hand, rfl⟩ := hstep
      have he := hinv.poller e (by rw [hpc]; rfl)
      have hlisted := hinv.listed e (by rw [hpc]; rfl)
      obtain ⟨-, -, -, hstill⟩ := fetchAnd_spec hand
      have hstill := hstill he
      have hset : ∀ pc : PollPc, (∀ e', pc.entry = some e' → e' = e) →
          pc.drops = none → (∀ e', pc.listed = some e' → e' = e) →
          Inv { s with table := t', poller := pc } := by
        intro pc hentry hdrops hlist
        apply (hinv.setTable hstill).setPoller
        · intro e' he'
          rw [hentry e' he']
          exact (hstill.used e).mpr he
        · rw [hdrops]
          change none = s.poller.drops
          rw [hpc]
          rfl
        · intro e' he'
          rw [hlist e' he']
          exact hlisted
      rcases pollNext_cases cfg e flags with ⟨op, hnext⟩ | hnext | ⟨hnext, -⟩
      all_goals
        rw [hnext]
        apply hset <;> simp [PollPc.entry, PollPc.drops, PollPc.listed]
  | asleep => simp [hpc] at hstep
  | next => simp [hpc] at hstep
  | skip _ => simp [hpc] at hstep
  | push _ _ => simp [hpc] at hstep
  | remove _ => simp [hpc] at hstep
  | deref _ => simp [hpc] at hstep

theorem Inv.stepPollPush (hinv : Inv s) {success : Bool}
    (hstep : stepPollPush s success = some s') : Inv s' := by
  simp only [Ntnetflow.stepPollPush] at hstep
  cases hpc : s.poller with
  | push e op =>
      simp only [hpc, Option.bind_eq_bind, Option.bind_eq_some_iff,
        Option.some.injEq] at hstep
      obtain ⟨s₁, hpush, rfl⟩ := hstep
      have he := hinv.poller e (by rw [hpc]; rfl)
      obtain ⟨hinv₁, -, -, hpoller⟩ := hinv.flProgram he hpush
      apply hinv₁.setPoller
      · simp [PollPc.entry]
      · rw [hpoller, hpc]
        rfl
      · simp [PollPc.listed]
  | asleep => simp [hpc] at hstep
  | next => simp [hpc] at hstep
  | skip _ => simp [hpc] at hstep
  | flags _ => simp [hpc] at hstep
  | remove _ => simp [hpc] at hstep
  | deref _ => simp [hpc] at hstep

theorem Inv.stepPollRemove (hinv : Inv s)
    (hstep : stepPollRemove s = some s') : Inv s' := by
  simp only [Ntnetflow.stepPollRemove] at hstep
  cases hpc : s.poller with
  | remove e =>
      simp only [hpc, Option.bind_eq_bind, Option.bind_eq_some_iff,
        Option.some.injEq] at hstep
      obtain ⟨⟨t', poll'⟩, hremove, rfl⟩ := hstep
      have hlisted := hinv.listed e (by rw [hpc]; rfl)
      have he := hinv.members e hlisted
      obtain ⟨l, hring, hperm⟩ := hinv.ring
      obtain ⟨a, b, rfl⟩ := List.append_of_mem (hperm.mem_iff.mpr hlisted)
      obtain ⟨honly, hring', hother⟩ := hring.remove he.1 hremove
      have hoff : ∀ e', e' ∉ s.history.members →
          t'.content e' = s.table.content e' :=
        fun e' he' => hother e' fun h => he' (hperm.mem_iff.mp h)
      obtain ⟨hok, hunused, hheld⟩ := hinv.toInvBase.links_frame honly
        fun e' he' => hoff e' fun h => he' (hinv.members e' h)
      have hnodup := hinv.members_nodup
      have hfresh : e ∉ s.history.members.erase e :=
        fun h => (hnodup.mem_erase_iff.mp h).1 rfl
      have hsub : ∀ e', e' ∈ s.history.members.erase e →
          e' ∈ s.history.members := fun _ => List.mem_of_mem_erase
      have hperm' : (a ++ b).Perm (s.history.members.erase e) := by
        have herase := hperm.erase e
        have hnot : e ∉ a := by
          intro h
          exact (List.nodup_append.mp hring.nodup).2.2 e h e
            List.mem_cons_self rfl
        rwa [List.erase_append_right _ hnot, List.erase_cons_head] at herase
      refine ⟨⟨{ hheld with poller := ?_, members := ?_ }, hok, hunused, ?_,
        ⟨a ++ b, hring', hperm'⟩, ?_, ?_⟩, ?_⟩
      · intro e' he'
        simp only [PollPc.entry, Option.some.injEq] at he'
        rw [← he']
        exact (honly.used e).mpr he
      · exact fun e' he' => hheld.members e' (hsub e' he')
      · exact fun e' he' => hinv.inserted e' (hsub e' he')
      · simp [PollPc.listed]
      · intro e' he'
        have hcontent := hoff e' fun h => he' (hinv.inserted e' h)
        simp only [pollNextOf, pollPrevOf, hcontent]
        exact hinv.fresh e' he'
      · intro e' he'
        have hrc := hinv.rc e' ((honly.used e').mp he')
        simp only [hpc, PollPc.drops] at hrc
        rw [honly.rc, hrc]
        by_cases heq : e' = e
        · subst heq
          rw [List.count_eq_one_of_mem hnodup hlisted,
            List.count_eq_zero.mpr hfresh]
          simp only [PollPc.drops, if_true]
          simp
          omega
        · simp only [PollPc.drops, Option.some.injEq, Ne.symm heq,
            List.count_erase_of_ne heq]
          simp
  | asleep => simp [hpc] at hstep
  | next => simp [hpc] at hstep
  | skip _ => simp [hpc] at hstep
  | flags _ => simp [hpc] at hstep
  | push _ _ => simp [hpc] at hstep
  | deref _ => simp [hpc] at hstep

/-- `ft_deref` after `fl_remove_poll` is never the last reference: `ft_add`'s
own is never dropped. -/
theorem Inv.stepPollDeref (hinv : Inv s)
    (hstep : stepPollDeref s = some s') :
    Inv s' ∧ ∀ e, s.poller = .deref e → s'.table.Used e := by
  simp only [Ntnetflow.stepPollDeref] at hstep
  cases hpc : s.poller with
  | deref e =>
      simp only [hpc, Option.bind_eq_bind, Option.bind_eq_some_iff,
        Option.some.injEq] at hstep
      obtain ⟨t', hderef, rfl⟩ := hstep
      have he := hinv.poller e (by rw [hpc]; rfl)
      have hrc := hinv.rc e he
      have hpositive : (1 : Int) < rcOf s.table e := by
        simp only [hpc, PollPc.drops, if_true] at hrc
        rw [hrc]
        split <;> omega
      obtain ⟨hedited, hcontent⟩ := ftDeref_keeps hderef he.1 hpositive
      have hsame : ∀ {β : Type} (g : FlowEntry → β),
          (∀ entry (rc : Int), g { entry with rc := rc } = g entry) →
          ∀ e', g (t'.content e') = g (s.table.content e') := by
        intro β g hg e'
        rw [hcontent]
        by_cases heq : e' = e
        · rw [if_pos heq, hg, heq]
        · rw [if_neg heq]
      have hplaced : Placed s.table t' := by
        refine ⟨hedited, hsame (fun x => x.poll.next) (fun _ _ => rfl),
          hsame (fun x => x.poll.prev) (fun _ _ => rfl), ?_⟩
        intro e' he'
        rw [hcontent, if_neg]
        rintro rfl
        exact he' he
      constructor
      · refine ⟨{ hinv.toInvBase.setTable hplaced with
          poller := by simp [PollPc.entry]
          listed := by simp [PollPc.listed] }, ?_⟩
        intro e' he'
        have hrc' := hinv.rc e' ((hedited.used e').mp he')
        simp only [hpc, PollPc.drops] at hrc'
        rw [rcOf, hcontent]
        by_cases heq : e' = e
        · subst heq
          simp only [if_true, hrc', PollPc.drops]
          simp
        · simp only [if_neg heq, PollPc.drops]
          simpa [rcOf, Ne.symm heq] using hrc'
      · intro e' he'
        simp only [PollPc.deref.injEq] at he'
        rw [← he']
        exact (hedited.used e).mpr he
  | asleep => simp [hpc] at hstep
  | next => simp [hpc] at hstep
  | skip _ => simp [hpc] at hstep
  | flags _ => simp [hpc] at hstep
  | push _ _ => simp [hpc] at hstep
  | remove _ => simp [hpc] at hstep

/-- The two assertions of `fl_add_poll`, which an NDEBUG build does not
check. -/
def addPollAsserts (s : Sys) (action : SysAction) : Bool :=
  match action, s.program with
  | .programAddPoll, .addPoll e _ =>
      (pollNextOf s.table e).isNone && (pollPrevOf s.table e).isNone
  | _, _ => true

theorem Inv.sysStep (hinv : Inv s) {cfg : FlConfig} {action : SysAction}
    (hasserts : addPollAsserts s action = true)
    (hstep : sysStep cfg s action = some s') : Inv s' := by
  cases action with
  | rxLookup thread streamId packet => exact hinv.stepRxLookup hstep
  | rxAdd thread alloc => exact hinv.stepRxAdd hstep
  | rxPush thread success => exact hinv.stepRxPush hstep
  | rxCount thread => exact hinv.stepRxCount hstep
  | programPull => exact hinv.stepProgramPull hstep
  | programFlags => exact hinv.stepProgramFlags hstep
  | programRef => exact hinv.stepProgramRef hstep
  | programAddPoll =>
      apply hinv.stepProgramAddPoll _ hstep
      intro e flags hpc
      simp only [addPollAsserts, hpc, Bool.and_eq_true,
        Option.isNone_iff_eq_none] at hasserts
      exact hasserts.1
  | programSkip => exact hinv.stepProgramSkip hstep
  | programWrite success => exact hinv.stepProgramWrite hstep
  | statusFlags e kind => exact hinv.stepStatusFlags hstep
  | statusSkip => exact hinv.stepStatusSkip hstep
  | recordFlags e info => exact hinv.stepRecordFlags hstep
  | recordUpdate => exact hinv.stepRecordUpdate hstep
  | recordProbe => exact hinv.stepRecordProbe hstep
  | recordPush success => exact hinv.stepRecordPush hstep
  | recordTrack => exact hinv.stepRecordTrack hstep
  | pollTick => exact hinv.stepPollTick hstep
  | pollNext => exact hinv.stepPollNext hstep
  | pollSkip => exact hinv.stepPollSkip hstep
  | pollFlags => exact hinv.stepPollFlags hstep
  | pollPush success => exact hinv.stepPollPush hstep
  | pollRemove => exact hinv.stepPollRemove hstep
  | pollDeref => exact (hinv.stepPollDeref hstep).1

theorem Started.inv (hstart : Started s) : Inv s := by
  obtain ⟨calloc, power2, chainSize, bucketSize, t, hinit, hle, rfl⟩ := hstart
  have hnone := FlowTable.ftInit_not_used hinit hle
  have hzero := FlowTable.ftInit_content hinit
  have hlinks : ∀ e, pollNextOf t e = none ∧ pollPrevOf t e = none := by
    intro e
    simp [pollNextOf, pollPrevOf, hzero e, FlowEntry.zero]
  refine ⟨⟨⟨?_, ?_, ?_, ?_, ?_, ?_, ?_, ?_⟩, ?_, fun e _ => hzero e, ?_,
    ⟨[], ⟨rfl, List.nodup_nil, ring_nil⟩, List.Perm.refl _⟩, ?_,
    fun e _ => hlinks e⟩, fun e he => absurd he (hnone e)⟩
  · simp [sysStart, RxPc.entry]
  · simp [sysStart]
  · simp [sysStart, ProgramPc.entry]
  · simp [sysStart, StatusPc.entry]
  · simp [sysStart, RecordPc.entry]
  · simp [sysStart, PollPc.entry]
  · simp [sysStart]
  · simp [sysStart]
  · exact ⟨FlowTable.ftInit_tableInv hinit hle, FlowTable.ftInit_slotsOk hinit⟩
  · simp [sysStart]
  · simp [sysStart, PollPc.listed]

theorem run_inv {cfg : FlConfig} {start : Sys} (hstart : Started start)
    (hrun : Run (sysStep cfg)
      (fun s action => addPollAsserts s action = true) start s) : Inv s :=
  hrun.invariant hstart.inv fun hinv hasserts hstep =>
    hinv.sysStep hasserts hstep

end Ntnetflow

end NtapiExamples
