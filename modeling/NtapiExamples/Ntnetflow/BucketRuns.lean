/-
Runs of `ft_add` and `ft_remove` in several threads: how the buckets that are no
longer used are freed.
-/
import NtapiExamples.Ntnetflow.BucketSteps

namespace NtapiExamples

namespace Ntnetflow

namespace FlowTable

/-- What every section keeps. -/
structure BucketInv (s : BucketThreads) : Prop where
  chain : ChainPart s.table s.pc s.failed
  mark : MarkPart s.table s.pc
  walk : WalkPart s.table s.pc s.threads.readers
  hold : HoldPart s.table s.pc s.live

variable {s s' : BucketThreads} {thread : Nat} {pc₁ : TablePc}

/-- A section that marks no bucket, unlinks and frees none. -/
theorem sectionOk_of_kept
    (hsize : s'.table.tableSize = s.table.tableSize)
    (hclaims : ∀ e, ¬ s.table.Used e → s'.table.Used e →
      s.table.valid e.bucket = true → ¬ s.table.ToFree e.bucket)
    (hmarks : ∀ p, s.table.valid p = true → s'.table.ToFree p →
      s.table.ToFree p)
    (hlinked : ∀ p, Linked s.table s.pc p → Linked s'.table s'.pc p)
    (hvalid : ∀ p, s.table.valid p = true → s'.table.valid p = true) :
    SectionOk s s' where
  size := hsize
  claims := hclaims
  marks := fun p hp hnot h => absurd (hmarks p hp h) hnot
  unlinks := fun p h hnot => absurd (hlinked p h) hnot
  frees := fun p hp hnot => by
    rw [hvalid p hp] at hnot
    simp at hnot

/-- A thread goes to another place and the table stays as it is. -/
theorem BucketInv.goto (hinv : BucketInv s) (htable : s'.table = s.table)
    (hpc : s'.pc = Function.update s.pc thread pc₁)
    (hfailed : s'.failed = s.failed)
    (hold : ∀ p, s.pc thread ≠ .removeFree p)
    (hnew : ∀ p, pc₁ ≠ .removeFree p)
    (hfrees : frees pc₁ = frees (s.pc thread))
    (hwalk : WalkPart s.table (Function.update s.pc thread pc₁)
      s'.threads.readers)
    (hhold : HoldPart s.table (Function.update s.pc thread pc₁) s'.live) :
    BucketInv s' ∧ SectionOk s s' := by
  have hlinked : ∀ p, Linked s.table (Function.update s.pc thread pc₁) p ↔
      Linked s.table s.pc p := fun p => linked_update (hold p) (hnew p)
  refine ⟨⟨?_, ?_, ?_, ?_⟩, sectionOk_of_kept (by rw [htable]) ?_ ?_ ?_ ?_⟩
  · rw [htable, hpc, hfailed]
    exact hinv.chain.setPc hlinked
  · rw [htable, hpc]
    exact hinv.mark.setPc hfrees
  · rw [htable, hpc]
    exact hwalk
  · rw [htable, hpc]
    exact hhold
  · intro e hnot h
    rw [htable] at h
    exact absurd h hnot
  · intro p _ h
    rwa [htable] at h
  · intro p h
    rw [htable, hpc, hlinked]
    exact h
  · intro p h
    rw [htable]
    exact h

/-- A section that writes to slots and counters and may mark a bucket. -/
theorem BucketInv.write (hinv : BucketInv s)
    (hsame : SameChain s.table s'.table)
    (hpc : s'.pc = Function.update s.pc thread pc₁)
    (hfailed : s'.failed = s.failed)
    (hreaders : s'.threads.readers = s.threads.readers)
    (hold : ∀ p, s.pc thread ≠ .removeFree p)
    (hnew : ∀ p, pc₁ ≠ .removeFree p)
    (hwalker : walker pc₁ = walker (s.pc thread))
    (hmark : MarkPart s'.table s'.pc)
    (hhold : HoldPart s'.table s'.pc s'.live)
    (hused : ∀ e, s'.table.Used e → s.table.Used e)
    (hmarks : ∀ p, s'.table.ToFree p →
      s.table.ToFree p ∨ s'.pc thread = .removeUnlink p) :
    BucketInv s' ∧ SectionOk s s' := by
  have hlinked : ∀ p, Linked s'.table s'.pc p ↔ Linked s.table s.pc p := by
    intro p
    rw [hsame.linked, hpc, linked_update (hold p) (hnew p)]
  refine ⟨⟨?_, hmark, ?_, hhold⟩, hsame.tableSize, ?_, ?_, ?_, ?_⟩
  · rw [hfailed, hpc]
    exact (hinv.chain.same hsame).setPc fun p =>
      linked_update (hold p) (hnew p)
  · rw [hreaders]
    apply (hinv.walk.setPc hold hnew hwalker).table hsame.tableSize
    · intro other
      rw [hpc]
    · intro other args p _ hp
      rw [hlinked, ← linked_update (hold p) (hnew p)]
      exact ⟨hp, hsame.parent p⟩
  · exact fun e hnot h => absurd (hused e h) hnot
  · exact fun p _ hnot h => ⟨thread, (hmarks p h).resolve_left hnot⟩
  · exact fun p h hnot => absurd ((hlinked p).mpr h) hnot
  · intro p hp hnot
    rw [hsame.valid, hp] at hnot
    simp at hnot

/-- The embedded bucket of a chain is always in the list. -/
theorem BucketInv.first_linked (hinv : BucketInv s) {c : Nat}
    (hc : c < s.table.tableSize) : Linked s.table s.pc (.first c) := by
  refine ⟨by simpa [valid] using hc, fun other h => ?_⟩
  have hfreed := hinv.mark.freed other (.first c) (by rw [h]; rfl)
  exact hinv.chain.firstStatic c hc hfreed.2.2

/-- The bucket behind a linked bucket is linked, in the same chain. -/
theorem BucketInv.next_linked (hinv : BucketInv s) {p q : BucketPtr}
    (hp : Linked s.table s.pc p) (hnext : s.table.nextOf p = some q) :
    Linked s.table s.pc q ∧ s.table.parentOf q = s.table.parentOf p := by
  obtain ⟨a, b, hlink, -⟩ := hinv.chain.split hp
  exact (hlink.mem q).mp (hlink.neighbours (Or.inr hnext))

theorem BucketInv.add (hinv : BucketInv s) {args : FlowArgs}
    (hstep : bucketStep s (.add thread args) = some s') :
    BucketInv s' ∧ SectionOk s s' := by
  simp only [bucketStep, BucketThreads.withThreads,
    Option.map_eq_some_iff, Threads.stepCall] at hstep
  obtain ⟨threads, hcall, rfl⟩ := hstep
  split at hcall
  case h_2 => simp at hcall
  case h_1 hidle =>
    rw [Option.some.injEq] at hcall
    subst hcall
    have hpc : s.pc thread = .idle := hidle
    have hold := @ne_removeFree (s.pc thread) (by rw [hpc]; rfl)
    have hc := chainIndex_lt hinv.chain.table args.hash
    refine hinv.goto rfl rfl rfl hold (ne_removeFree rfl) (by rw [hpc]; rfl) ?_
      (hinv.hold.drop rfl)
    exact hinv.walk.enter hold (ne_removeFree rfl) (by rw [hpc]; rfl) rfl
      (hinv.first_linked hc) (hinv.chain.firstParent _ hc)

/-- `while ((bucket = bucket->next))`. -/
theorem BucketInv.addAdvance (hinv : BucketInv s) {args : FlowArgs}
    {p : BucketPtr} (hpc : walker (s.pc thread) = some (args, p))
    (hthreads : s'.threads =
      s.threads.addAdvance thread args (s.table.mem p))
    (hlive : s'.live = s.live) (hfailed : s'.failed = s.failed) :
    BucketInv s' ∧ SectionOk s s' := by
  have hfrees : frees (s.pc thread) = none := by
    cases h : s.pc thread <;> rw [h] at hpc <;>
      first | rfl | simp [walker] at hpc
  have hold := ne_removeFree hfrees
  obtain ⟨hlinked, hparent⟩ := hinv.walk.walks thread args p hpc
  cases hnext : (s.table.mem p).next with
  | some q =>
      have heq : s'.threads = s.threads.setPc thread (.addTest args q) := by
        rw [hthreads, Threads.addAdvance, hnext]
      obtain ⟨hq, hqParent⟩ := hinv.next_linked hlinked hnext
      have htable : s'.table = s.table := by
        rw [BucketThreads.table, heq]
        rfl
      have hpc' : s'.pc = Function.update s.pc thread (.addTest args q) := by
        rw [BucketThreads.pc, heq]
        rfl
      refine hinv.goto htable hpc' hfailed hold (ne_removeFree rfl)
        (by rw [hfrees]; rfl) ?_ (by rw [hlive]; exact hinv.hold.drop rfl)
      rw [heq]
      exact hinv.walk.move hold (ne_removeFree rfl) hpc rfl hq
        (hqParent.trans hparent)
  | none =>
      have heq : s'.threads = (s.threads.unlockChain args.hash).setPc thread
          (.addAppend args) := by
        rw [hthreads, Threads.addAdvance, hnext]
      have htable : s'.table = s.table := by
        rw [BucketThreads.table, heq]
        rfl
      have hpc' : s'.pc = Function.update s.pc thread (.addAppend args) := by
        rw [BucketThreads.pc, heq]
        rfl
      refine hinv.goto htable hpc' hfailed hold (ne_removeFree rfl)
        (by rw [hfrees]; rfl) ?_ (by rw [hlive]; exact hinv.hold.drop rfl)
      rw [heq]
      exact hinv.walk.leave hold (ne_removeFree rfl) hpc rfl

theorem BucketInv.addTest (hinv : BucketInv s)
    (hstep : bucketStep s (.addTest thread) = some s') :
    BucketInv s' ∧ SectionOk s s' := by
  simp only [bucketStep, BucketThreads.withThreads,
    Option.map_eq_some_iff, Threads.stepAddTest] at hstep
  obtain ⟨threads, htest, rfl⟩ := hstep
  split at htest
  case h_2 => simp at htest
  case h_1 args p hpc =>
    simp only [Option.map_eq_some_iff, deref_eq_some_iff] at htest
    obtain ⟨b, ⟨-, rfl⟩, rfl⟩ := htest
    have hpc' : s.pc thread = .addTest args p := hpc
    split
    case isTrue hfree =>
      have hold := @ne_removeFree (s.pc thread) (by rw [hpc']; rfl)
      refine hinv.goto rfl rfl rfl hold (ne_removeFree rfl)
        (by rw [hpc']; rfl) ?_ (hinv.hold.drop rfl)
      exact hinv.walk.setPc hold (ne_removeFree rfl) (by rw [hpc']; rfl)
    case isFalse => exact hinv.addAdvance (by rw [hpc']; rfl) rfl rfl rfl

theorem BucketInv.addClaim (hinv : BucketInv s) {acquired : Bool}
    (hstep : bucketStep s (.addClaim thread acquired) = some s') :
    BucketInv s' ∧ SectionOk s s' := by
  simp only [bucketStep, BucketThreads.withThreads,
    Option.map_eq_some_iff, Threads.stepAddClaim] at hstep
  obtain ⟨threads, hclaim, rfl⟩ := hstep
  split at hclaim
  case h_2 => simp at hclaim
  case h_1 args p hpc =>
    simp only [Option.map_eq_some_iff, deref_eq_some_iff] at hclaim
    obtain ⟨b, ⟨hvalid, rfl⟩, rfl⟩ := hclaim
    have hpc' : s.pc thread = .addClaim args p := hpc
    split
    case isFalse => exact hinv.addAdvance (by rw [hpc']; rfl) rfl rfl rfl
    case isTrue hboth =>
      rw [Bool.and_eq_true] at hboth
      have hfree : s.table.hasUnused (s.table.mem p) = true := hboth.2
      have hsize := hinv.chain.toSizeOk
      have hold := @ne_removeFree (s.pc thread) (by rw [hpc']; rfl)
      have hsame := (@claimSlot_sameLinks s.table p).sameChain
      have hfresh := claimSlot_fresh hsize hfree
      let e := (s.table.claimSlot p).2
      have hnew := @ne_removeFree (.addInit args e) rfl
      have hleave := hinv.walk.leave hold hnew (by rw [hpc']; rfl) rfl
      have hkept : HoldPart (s.table.claimSlot p).1 s.pc s.live :=
        hinv.hold.table (fun _ _ => claimSlot_kept hsize hfree)
          fun _ _ _ => claimSlot_kept hsize hfree
      refine ⟨⟨?_, ?_, ?_, ?_⟩, sectionOk_of_kept rfl ?_ ?_ ?_ ?_⟩
      · exact (hinv.chain.same hsame).setPc fun q =>
          linked_update (hold q) (hnew q)
      · exact (claimSlot_marks hfree hinv.mark).setPc (by rw [hpc']; rfl)
      · exact hleave.table rfl (fun _ => rfl) fun _ _ q _ h =>
          ⟨(hsame.linked q).mpr h, hsame.parent q⟩
      · apply hkept.update
        · intro e' he'
          simp only [holds, Option.some.injEq] at he'
          subst he'
          refine ⟨claimSlot_used hsize hfree hvalid, fun hmem => ?_, ?_,
            fun h => absurd rfl (h args), by simp⟩
          · exact hfresh (hinv.hold.lives _ hmem).1
          · exact claimSlot_index p
        · intro e' he' other _ hother
          simp only [holds, Option.some.injEq] at he'
          subst he'
          exact hfresh (hinv.hold.held other _ hother).used
      · exact fun _ hnot hused _ =>
          claimSlot_claims hsize hfree hvalid hnot hused
      · exact fun q _ => (@claimSlot_sameLinks s.table p).toFree.mp
      · exact fun q hq => (linked_update (hold q) (hnew q)).mpr
          ((hsame.linked q).mpr hq)
      · exact fun q hq => (hsame.valid q).trans hq

theorem BucketInv.last_valid (hinv : BucketInv s) {c : Nat}
    (hc : c < s.table.tableSize) {tail : BucketPtr}
    (hlast : s.table.last c = some tail) : s.table.valid tail = true := by
  obtain ⟨-, front, hlink⟩ := hinv.chain.tail hc hlast
  exact ((hlink.mem tail).mp (by simp)).1.1

/-- `ft_add` returns NULL and has lost `chain->last`. -/
theorem BucketInv.callocFailed (hinv : BucketInv s) {c : Nat}
    (hc : c < s.table.tableSize) {tail : BucketPtr}
    (hlast : s.table.last c = some tail)
    (hold : ∀ q, s.pc thread ≠ .removeFree q)
    (hfrees : frees (s.pc thread) = none)
    (hwalker : walker (s.pc thread) = none)
    (htable : s'.table = { s.table.cut tail with
      last := Function.update s.table.last c none })
    (hpc : s'.pc = Function.update s.pc thread .idle)
    (hfailed : s'.failed = Function.update s.failed c true)
    (hreaders : s'.threads.readers = s.threads.readers)
    (hlive : s'.live = s.live) : BucketInv s' ∧ SectionOk s s' := by
  have hnew := @ne_removeFree .idle rfl
  have hvalid : ∀ q, s'.table.valid q = s.table.valid q := by
    intro q
    rw [htable, ← @cut_valid s.table tail q]
    cases q <;> rfl
  have hfields : ∀ q, (s'.table.mem q).parent = (s.table.mem q).parent ∧
      (s'.table.mem q).prev = (s.table.mem q).prev ∧
      (s'.table.mem q).flags = (s.table.mem q).flags ∧
      (s'.table.mem q).unused = (s.table.mem q).unused ∧
      (s'.table.mem q).entries = (s.table.mem q).entries := by
    rw [htable]
    exact cut_fields
  have hsizes : s'.table.tableSize = s.table.tableSize ∧
      s'.table.bucketSize = s.table.bucketSize := by
    rw [htable]
    exact ⟨rfl, rfl⟩
  have hlinked : ∀ q, Linked s'.table s'.pc q ↔ Linked s.table s.pc q := by
    intro q
    rw [hpc, ← linked_update (hold q) (hnew q), Linked, hvalid]
    exact Iff.rfl
  have hkept : ∀ e, s.table.Used e → Kept s.table s'.table e := by
    intro e hused
    obtain ⟨-, -, -, hunused, hentries⟩ := hfields e.bucket
    apply kept_of_mem (hvalid _) hsizes.2 _ _ hused
    · rw [hunused]
    · rw [hentries]
      exact ⟨rfl, rfl⟩
  refine ⟨⟨?_, ?_, ?_, ?_⟩, sectionOk_of_kept hsizes.1 ?_ ?_ ?_ ?_⟩
  · rw [htable, hpc, hfailed]
    exact (hinv.chain.callocFailed hc hlast).setPc fun q =>
      linked_update (hold q) (hnew q)
  · rw [hpc]
    refine MarkPart.setPc (hinv.mark.table hsizes.2 ?_ ?_)
      (by rw [hfrees]; rfl)
    · exact fun q hq _ =>
        ⟨(hvalid q).trans hq, (hfields q).2.2.1, (hfields q).2.2.2.1⟩
    · intro q hq hmarked
      rw [hvalid] at hq
      rw [ToFree, (hfields q).2.2.1] at hmarked
      exact ⟨hq, hmarked⟩
  · rw [hreaders]
    apply (hinv.walk.setPc hold hnew hwalker.symm).table hsizes.1
    · intro other
      rw [hpc]
    · intro other args q _ hq
      rw [hlinked, ← linked_update (hold q) (hnew q)]
      exact ⟨hq, (hfields q).1⟩
  · rw [hpc, hlive]
    exact (hinv.hold.table (fun e _ => hkept e) fun _ e _ => hkept e).drop rfl
  · intro e hnot hused
    obtain ⟨-, -, -, hunused, -⟩ := hfields e.bucket
    rw [Used, hvalid, hsizes.2, hunused] at hused
    exact absurd hused hnot
  · intro q _ hmarked
    rw [ToFree, (hfields q).2.2.1] at hmarked
    exact hmarked
  · exact fun q hq => (hlinked q).mpr hq
  · exact fun q hq => (hvalid q).trans hq

/-- `ft_add` appends a bucket and takes its slot 0. -/
theorem BucketInv.appended (hinv : BucketInv s) {args : FlowArgs} {c addr : Nat}
    (hc : c < s.table.tableSize) {tail : BucketPtr}
    (hlast : s.table.last c = some tail)
    (hgrown : Grown s.table s'.table addr tail { appendedBucket c tail with
      entries := Function.update (fun _ => FlowEntry.zero) 0 FlowEntry.zero })
    (hbucket : s'.table.bucketSize = s.table.bucketSize)
    (hlast' : s'.table.last =
      Function.update s.table.last c (some (.heap addr)))
    (hpc : s.pc thread = .addAppend args)
    (hpc' : s'.pc =
      Function.update s.pc thread (.addInit args ⟨.heap addr, 0⟩))
    (hfailed : s'.failed = s.failed)
    (hreaders : s'.threads.readers = s.threads.readers)
    (hlive : s'.live = s.live) : BucketInv s' ∧ SectionOk s s' := by
  have hold := @ne_removeFree (s.pc thread) (by rw [hpc]; rfl)
  have hnew := @ne_removeFree (.addInit args ⟨.heap addr, 0⟩) rfl
  have hheap : ∀ other, s.pc other ≠ .removeFree (.heap addr) := by
    intro other h
    have hfreed := hinv.mark.freed other (.heap addr) (by rw [h]; rfl)
    exact hgrown.ne_new hfreed.1 rfl
  have hkeptLink : ∀ q, Linked s.table s.pc q →
      Linked s'.table s'.pc q := by
    intro q hq
    rw [hpc', linked_update (hold q) (hnew q), hgrown.linked_iff hheap]
    exact Or.inr hq
  have hkept : HoldPart s'.table s.pc s.live :=
    hinv.hold.table (fun _ _ => grown_kept hgrown hbucket)
      fun _ _ _ => grown_kept hgrown hbucket
  have hfresh : ∀ slot, ¬ s.table.Used ⟨.heap addr, slot⟩ :=
    fun slot hused => hgrown.ne_new hused.1 rfl
  obtain ⟨hused, hindex⟩ := grown_used hgrown hbucket hinv.chain.pos
  refine ⟨⟨?_, ?_, ?_, ?_⟩, sectionOk_of_kept hgrown.tableSize ?_ ?_ ?_ ?_⟩
  · rw [hpc', hfailed]
    exact (hinv.chain.grown hgrown rfl hbucket hc hlast hlast' hheap).setPc
      fun q => linked_update (hold q) (hnew q)
  · rw [hpc']
    exact (grown_marks hgrown hbucket hinv.mark).setPc (by rw [hpc]; rfl)
  · rw [hreaders]
    apply (hinv.walk.setPc hold hnew (by rw [hpc]; rfl)).table
      hgrown.tableSize
    · intro other
      rw [hpc']
    · intro other args' q _ hq
      rw [linked_update (hold q) (hnew q)] at hq
      exact ⟨hkeptLink q hq,
        (hgrown.fields_old (hgrown.ne_new hq.1)).2.1⟩
  · rw [hpc', hlive]
    apply hkept.update
    · intro e he
      simp only [holds, Option.some.injEq] at he
      subst he
      exact ⟨hused, fun hmem => hfresh 0 (hinv.hold.lives _ hmem).1, hindex,
        fun h => absurd rfl (h args), by simp⟩
    · intro e he other _ hother
      simp only [holds, Option.some.injEq] at he
      subst he
      exact hfresh 0 (hinv.hold.held other _ hother).used
  · intro e hnot hused' hvalid
    have hne := hgrown.ne_new hvalid
    obtain ⟨-, hlt, hclear⟩ := hused'
    rw [hbucket] at hlt
    rw [(hgrown.fields_old hne).2.2.2.1] at hclear
    exact absurd ⟨hvalid, hlt, hclear⟩ hnot
  · intro q hq hmarked
    rw [ToFree, (hgrown.fields_old (hgrown.ne_new hq)).2.2.1] at hmarked
    exact hmarked
  · exact hkeptLink
  · exact fun q hq => (hgrown.valid_iff q).mpr (Or.inr hq)

theorem BucketInv.addAppend (hinv : BucketInv s) {alloc : Option Nat}
    (hstep : bucketStep s (.addAppend thread alloc) = some s') :
    BucketInv s' ∧ SectionOk s s' := by
  simp only [bucketStep, BucketThreads.addAppend] at hstep
  split at hstep
  case h_2 => simp at hstep
  case h_1 args hpc =>
    have hpc' : s.threads.pc thread = .addAppend args := hpc
    simp only [Option.map_eq_some_iff, Threads.stepAddAppend, hpc'] at hstep
    obtain ⟨threads, happend, rfl⟩ := hstep
    split at happend
    case isFalse => simp at happend
    case isTrue =>
      simp only [Option.map_eq_some_iff] at happend
      obtain ⟨⟨t', added⟩, happend, rfl⟩ := happend
      have hc := chainIndex_lt hinv.chain.table args.hash
      have hold := @ne_removeFree (s.pc thread) (by rw [hpc]; rfl)
      obtain ⟨tail, hlast, ⟨rfl, rfl, rfl⟩ |
        ⟨addr, rfl, rfl, hgrown, hbucket, hlast'⟩⟩ :=
          appendBucket_cases (fun _ => hinv.last_valid hc) happend
      · refine hinv.callocFailed hc hlast hold (by rw [hpc]; rfl)
          (by rw [hpc]; rfl) rfl rfl ?_ rfl rfl
        simp
      · refine hinv.appended hc hlast hgrown hbucket hlast' hpc rfl ?_ rfl rfl
        simp

theorem BucketInv.addInit (hinv : BucketInv s)
    (hstep : bucketStep s (.addInit thread) = some s') :
    BucketInv s' ∧ SectionOk s s' := by
  simp only [bucketStep, BucketThreads.withThreads,
    Option.map_eq_some_iff, Threads.stepAddInit] at hstep
  obtain ⟨threads, hadd, rfl⟩ := hstep
  split at hadd
  case h_2 => simp at hadd
  case h_1 args e hpc =>
    simp only [Option.map_eq_some_iff, initEntry,
      modifyEntry_eq_some_iff] at hadd
    obtain ⟨t', ⟨-, htable⟩, rfl⟩ := hadd
    have hpc' : s.pc thread = .addInit args e := hpc
    have hholds : holds (s.pc thread) = some e := by rw [hpc']; rfl
    have hholding := hinv.hold.held thread e hholds
    have hold := @ne_removeFree (s.pc thread) (by rw [hpc']; rfl)
    have hsame : SameLinks s.table t' := by
      rw [htable]
      exact setEntry_sameLinks e _
    have hunused : ∀ q, (t'.mem q).unused = (s.table.mem q).unused := by
      rw [htable]
      exact setEntry_unused e _
    have hkept : ∀ e', e' ≠ e → s.table.Used e' → Kept s.table t' e' := by
      intro e' hne hused
      rw [htable]
      exact setEntry_kept rfl (fun h => absurd h hne) hused
    have hentry : t'.Used e ∧ (t'.entry e).index = e.slot ∧
        (t'.entry e).bucket = some e.bucket := by
      rw [htable, setEntry_entry, if_pos rfl]
      exact ⟨(setEntry_used e e _).mpr hholding.used, hholding.index, rfl⟩
    -- Nobody else is at the entry while the thread writes it.
    have hothers : HoldPart t' (Function.update s.pc thread .idle) s.live :=
      hinv.hold.leave hholds rfl hkept
    have hhold : HoldPart t' (Function.update s.pc thread (.addRef e))
        s.live := by
      rw [← Function.update_idem (a := thread) (.idle) (.addRef e) s.pc]
      apply hothers.update
      · intro e' he'
        simp only [holds, Option.some.injEq] at he'
        subst he'
        exact ⟨hentry.1, hholding.notLive, hentry.2.1,
          fun _ => hentry.2.2, by simp⟩
      · intro e' he' other hother h
        simp only [holds, Option.some.injEq] at he'
        subst he'
        rw [Function.update_of_ne hother] at h
        exact hother (hinv.hold.one other thread e h hholds)
    refine hinv.write hsame.sameChain rfl rfl rfl hold (ne_removeFree rfl)
      (by rw [hpc']; rfl) ?_ hhold ?_ ?_
    · exact (hinv.mark.sameLinks hsame hunused).setPc (by rw [hpc']; rfl)
    · exact fun e' => (hsame.used hunused).mp
    · exact fun p hmarked => Or.inl (hsame.toFree.mp hmarked)

/-- `ft_add` returns a live entry. -/
theorem BucketInv.addRef (hinv : BucketInv s)
    (hstep : bucketStep s (.addRef thread) = some s') :
    BucketInv s' ∧ SectionOk s s' := by
  simp only [bucketStep, BucketThreads.addRef] at hstep
  split at hstep
  case h_2 => simp at hstep
  case h_1 e hpc =>
    have hpc' : s.threads.pc thread = .addRef e := hpc
    simp only [Option.map_eq_some_iff, Threads.stepAddRef, hpc'] at hstep
    obtain ⟨threads, ⟨t', hfinish, rfl⟩, rfl⟩ := hstep
    have hold := @ne_removeFree (s.pc thread) (by rw [hpc]; rfl)
    obtain ⟨hsame, hunused⟩ := finishAdd_sameLinks hfinish
    refine hinv.write hsame.sameChain rfl rfl rfl hold (ne_removeFree rfl)
      (by rw [hpc]; rfl) ?_ ?_ ?_ ?_
    · exact (hinv.mark.sameLinks hsame hunused).setPc (by rw [hpc]; rfl)
    · exact HoldPart.returned (hinv.hold.table
        (fun _ _ => finishAdd_kept hfinish)
        fun _ _ _ => finishAdd_kept hfinish) hpc
    · exact fun e' => (hsame.used hunused).mp
    · exact fun p hmarked => Or.inl (hsame.toFree.mp hmarked)

end FlowTable

end Ntnetflow

end NtapiExamples
