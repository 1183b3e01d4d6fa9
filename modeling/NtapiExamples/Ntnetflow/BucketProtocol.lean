/-
How the buckets that `ft_add` appended are freed, over all orders of the
sections of `ft_add` and `ft_remove`.
-/
import NtapiExamples.Ntnetflow.BucketRemoves

namespace NtapiExamples

namespace Ntnetflow

namespace FlowTable

variable {t : FlowTable} {s s' : BucketThreads}

theorem BucketInv.step (hinv : BucketInv s) {act : BucketAct}
    (hstep : bucketStep s act = some s') :
    BucketInv s' ∧ SectionOk s s' := by
  cases act with
  | add thread args => exact hinv.add hstep
  | addTest thread => exact hinv.addTest hstep
  | addClaim thread acquired => exact hinv.addClaim hstep
  | addAppend thread alloc => exact hinv.addAppend hstep
  | addInit thread => exact hinv.addInit hstep
  | addRef thread => exact hinv.addRef hstep
  | remove thread e => exact hinv.remove hstep
  | removeCheck thread => exact hinv.removeCheck hstep
  | removeMark thread => exact hinv.removeMark hstep
  | removeUnlink thread => exact hinv.removeUnlink hstep
  | removeFree thread => exact hinv.removeFree hstep

theorem BucketInv.freeingOk (hinv : BucketInv s) : FreeingOk s where
  unused := fun p _ hmarked slot hused =>
    hinv.mark.not_toFree hused hmarked
  claimed := fun thread e h =>
    hinv.mark.not_toFree (hinv.hold.held thread e h).used
  freer := fun p hp => by
    constructor
    · intro hmarked
      obtain ⟨thread, hthread⟩ := hinv.mark.freer p hp hmarked
      exact ⟨thread, hthread, fun other hother =>
        hinv.mark.one other thread p hother hthread⟩
    · rintro ⟨thread, hthread, -⟩
      exact (hinv.mark.freed thread p hthread).2.1
  freed := fun thread p h => by
    obtain ⟨hp, hmarked, -⟩ := hinv.mark.freed thread p h
    exact ⟨hp, hmarked⟩
  live := fun e he => (hinv.hold.lives e he).1
  held := fun thread e h => (hinv.hold.held thread e h).used
  walks := fun thread args p h => (hinv.walk.walks thread args p h).1

/-- A list has a tail. -/
theorem ChainsOk.last (hok : ChainsOk s) {c : Nat}
    (hc : c < s.table.tableSize) : s.table.last c ≠ none := by
  obtain ⟨l, hlink, hlast⟩ := hok c hc
  intro hnone
  rw [hnone] at hlast
  have hhead := hlink.head
  rw [List.getLast?_eq_none_iff.mp hlast.symm] at hhead
  simp at hhead

/-- `chain->last` is the tail of the list unless a `calloc` failed there. -/
theorem BucketInv.chainsOk_iff (hinv : BucketInv s) :
    ChainsOk s ↔ ∀ c, c < s.table.tableSize → s.failed c = false := by
  constructor
  · intro hok c hc
    obtain ⟨l, -, hlast⟩ := hinv.chain.chains c hc
    cases hfailed : s.failed c with
    | false => rfl
    | true =>
        rw [hfailed, if_pos rfl] at hlast
        exact absurd hlast (hok.last hc)
  · intro hfailed c hc
    obtain ⟨l, hlink, hlast⟩ := hinv.chain.chains c hc
    rw [hfailed c hc, if_neg Bool.false_ne_true] at hlast
    exact ⟨l, hlink, hlast⟩

theorem BucketInv.canFree (hinv : BucketInv s) : CanFree s where
  unlink := fun thread p hpc hreaders => by
    have hp := hinv.marked_linked hpc
    obtain ⟨a, b, hlink, -⟩ := hinv.chain.split hp
    obtain ⟨t', hunlink⟩ := unlinkBucket_total hp.1 fun q hq =>
      ((hlink.mem q).mp (hlink.neighbours hq)).1.1
    have hpc' : s.threads.pc thread = .removeUnlink p := hpc
    have hderef : s.threads.table.deref p = some (s.threads.table.mem p) :=
      deref_eq_some_iff.mpr ⟨hp.1, rfl⟩
    have hunlink' : s.threads.table.unlinkBucket p = some t' := hunlink
    have hzero : s.threads.readers (s.threads.table.mem p).parent = 0 :=
      hreaders
    simp only [bucketStep, BucketThreads.withThreads,
      Threads.stepRemoveUnlink, hpc', hderef, Option.bind_eq_bind,
      Option.bind_some, if_pos hzero, hunlink', Option.map_some]
    exact ⟨_, rfl⟩
  free := fun thread p hpc => by
    obtain ⟨hp, -, hdynamic⟩ := hinv.mark.freed thread p (by rw [hpc]; rfl)
    have hpc' : s.threads.pc thread = .removeFree p := hpc
    cases p with
    | first c =>
        simp only [valid, decide_eq_true_iff] at hp
        exact absurd hdynamic (hinv.chain.firstStatic c hp)
    | heap addr =>
        simp only [valid, decide_eq_true_iff] at hp
        have hmem : addr ∈ s.threads.table.heap := hp
        simp only [bucketStep, BucketThreads.withThreads,
          Threads.stepRemoveFree, hpc', freeBucket, if_pos hmem,
          Option.map_some]
        exact ⟨_, rfl⟩

theorem bucketInv_start {calloc : Nat → Nat → Option Nat}
    {power2 bucketSize : Nat}
    (hinit : ftInit calloc power2 1 bucketSize = some t)
    (hle : bucketSize ≤ 32) : BucketInv (bucketStart t) := by
  have htable := ftInit_tableInv hinit hle
  have hwhole := ftInit_whole hinit rfl
  have hunmarked : ∀ p, t.valid p = true → ¬ t.ToFree p := by
    intro p hp
    rw [ToFree, htable.notToFree p hp]
    exact Bool.false_ne_true
  have hlinked : ∀ p, Linked t (fun _ => .idle) p ↔ t.valid p = true :=
    fun p => and_iff_left fun _ => ne_removeFree rfl p
  refine ⟨⟨htable.toSizeOk, htable.firstParent, htable.firstStatic,
    htable.parent_lt, htable.heapNodup, ?_⟩, ⟨?_, ?_, ?_, ?_⟩, ⟨?_, ?_⟩,
    ⟨?_, ?_, ?_, ?_⟩⟩
  · intro c hc
    obtain ⟨front, tail, hlist, hall⟩ := hwhole c hc
    refine ⟨front ++ [tail], ⟨hlist.head, hlist.nodup, hlist.seg, ?_⟩, ?_⟩
    · intro p
      change _ ↔ Linked t (fun _ => .idle) p ∧ _
      rw [hlinked]
      exact ⟨fun hp => ⟨hlist.valid p hp, hlist.parent p hp⟩,
        fun hp => hall p hp.1 hp.2⟩
    · rw [List.getLast?_concat]
      exact hlist.last
  · exact fun p hp hmarked => absurd hmarked (hunmarked p hp)
  · exact fun _ _ h => by cases h
  · exact fun p hp hmarked => absurd hmarked (hunmarked p hp)
  · exact fun _ _ _ h => by cases h
  · exact fun c => Counts.none fun _ => not_walksIn rfl c
  · exact fun _ _ _ h => by cases h
  · exact List.nodup_nil
  · exact fun _ h => by cases h
  · exact fun _ _ h => by cases h
  · exact fun _ _ _ h => by cases h

/-- `calloc` fails in the section. -/
def callocFails : BucketAct → Prop
  | .addAppend _ none => True
  | _ => False

instance : DecidablePred callocFails
  | .addAppend _ none => isTrue trivial
  | .addAppend _ (some _) => isFalse not_false
  | .add .. | .addTest _ | .addClaim .. | .addInit _ | .addRef _
  | .remove .. | .removeCheck _ | .removeMark _ | .removeUnlink _
  | .removeFree _ => isFalse not_false

theorem bucketStep_failed {act : BucketAct} (hpos : 0 < s.table.tableSize)
    (hstep : bucketStep s act = some s') :
    (¬ callocFails act ∧ s'.failed = s.failed) ∨
      ∃ c, callocFails act ∧ c < s.table.tableSize ∧
        s'.failed = Function.update s.failed c true := by
  cases act with
  | addAppend thread alloc =>
      simp only [bucketStep, BucketThreads.addAppend] at hstep
      split at hstep
      case h_2 => simp at hstep
      case h_1 args hpc =>
        simp only [Option.map_eq_some_iff] at hstep
        obtain ⟨threads, -, rfl⟩ := hstep
        cases alloc with
        | none =>
            refine Or.inr ⟨s.table.chainIndex args.hash, trivial,
              chainIndex_lt hpos args.hash, ?_⟩
            simp
        | some addr =>
            refine Or.inl ⟨fun h => h, ?_⟩
            simp
  | addRef thread =>
      simp only [bucketStep, BucketThreads.addRef] at hstep
      split at hstep
      case h_2 => simp at hstep
      case h_1 e hpc =>
        simp only [Option.map_eq_some_iff] at hstep
        obtain ⟨threads, -, rfl⟩ := hstep
        exact Or.inl ⟨fun h => h, rfl⟩
  | remove thread e =>
      simp only [bucketStep, BucketThreads.remove] at hstep
      split at hstep
      case h_2 => simp at hstep
      case h_1 hpc =>
        split at hstep
        case isFalse => simp at hstep
        case isTrue he =>
          rw [Option.some.injEq] at hstep
          subst hstep
          exact Or.inl ⟨fun h => h, rfl⟩
  | _ =>
      simp only [bucketStep, BucketThreads.withThreads,
        Option.map_eq_some_iff] at hstep
      obtain ⟨threads, -, rfl⟩ := hstep
      exact Or.inl ⟨fun h => h, rfl⟩

/-- Some chain has lost its `last`. -/
def Lost (s : BucketThreads) : Prop :=
  ∃ c, c < s.table.tableSize ∧ s.failed c = true

theorem BucketInv.exec (hinv : BucketInv s) {acts : List BucketAct}
    (hexec : exec bucketStep s acts = some s') :
    BucketInv s' ∧ (Lost s' ↔ Lost s ∨ ∃ act ∈ acts, callocFails act) := by
  induction acts generalizing s with
  | nil =>
      simp only [NtapiExamples.exec, Option.some.injEq] at hexec
      subst hexec
      exact ⟨hinv, by simp⟩
  | cons act acts ih =>
      simp only [NtapiExamples.exec] at hexec
      split at hexec
      case h_1 => simp at hexec
      case h_2 s₁ hstep =>
        obtain ⟨hinv₁, hsection⟩ := hinv.step hstep
        obtain ⟨hinv', hlost⟩ := ih hinv₁ hexec
        refine ⟨hinv', ?_⟩
        have hstepLost : Lost s₁ ↔ Lost s ∨ callocFails act := by
          rw [Lost, Lost, hsection.size]
          rcases bucketStep_failed hinv.chain.table hstep with
            ⟨hok, hsame⟩ | ⟨c, hfails, hc, hupdate⟩
          · rw [hsame]
            exact (or_iff_left hok).symm
          · refine iff_of_true ⟨c, hc, ?_⟩ (Or.inr hfails)
            rw [hupdate, Function.update_self]
        rw [hlost, hstepLost, or_assoc]
        simp

/-- In every order of the sections after `ft_init`, marked buckets are not used
and are unlinked and freed by the thread that marked them, and the chains are
lists of the linked buckets; `chain->last` is their tail exactly when no
`calloc` of an `ft_add` has failed. -/
theorem freesBuckets_iff {calloc : Nat → Nat → Option Nat}
    {power2 bucketSize : Nat}
    (hinit : ftInit calloc power2 1 bucketSize = some t)
    (hle : bucketSize ≤ 32) {acts : List BucketAct}
    (hexec : exec bucketStep (bucketStart t) acts = some s) :
    FreeingOk s ∧ CanFree s ∧
      (∀ act s', bucketStep s act = some s' → SectionOk s s') ∧
      (ChainsOk s ↔ ∀ act ∈ acts, ¬ callocFails act) := by
  obtain ⟨hinv, hlost⟩ := (bucketInv_start hinit hle).exec hexec
  refine ⟨hinv.freeingOk, hinv.canFree, fun act s' hstep =>
    (hinv.step hstep).2, ?_⟩
  have hstart : ¬ Lost (bucketStart t) := by
    rintro ⟨c, -, h⟩
    simp [bucketStart] at h
  rw [hinv.chainsOk_iff]
  constructor
  · intro hfailed act hact hfails
    obtain ⟨c, hc, h⟩ := hlost.mpr (Or.inr ⟨act, hact, hfails⟩)
    rw [hfailed c hc] at h
    simp at h
  · intro hok c hc
    by_contra hne
    have hbad := hlost.mp ⟨c, hc, Bool.eq_true_of_not_eq_false hne⟩
    obtain ⟨act, hact, hfails⟩ := hbad.resolve_left hstart
    exact hok act hact hfails

/-- `ft_add` walks over the full buckets of the chain and appends. -/
def appending (thread walked : Nat) (args : FlowArgs) (alloc : Option Nat) :
    List BucketAct :=
  .add thread args :: List.replicate walked (.addTest thread) ++
    [.addAppend thread alloc]

/-- One slot a bucket: a flow in the embedded bucket and one in the bucket 10,
which is removed as far as the mark. -/
def markedBucket : List BucketAct :=
  [.add 0 firstArgs, .addTest 0, .addClaim 0 true, .addInit 0, .addRef 0] ++
    appending 0 1 secondArgs (some 10) ++ [.addInit 0, .addRef 0,
      .remove 0 ⟨.heap 10, 0⟩, .removeCheck 0, .removeMark 0]

/-- Another thread walks past the marked bucket and appends one behind it before
it is unlinked and freed. -/
theorem freesBuckets_iff_behind : ∃ t s,
    ftInit (fun _ _ => none) 0 1 1 = some t ∧
    exec bucketStep (bucketStart t) (markedBucket ++
      appending 1 2 secondArgs (some 11) ++
        [.removeUnlink 0, .removeFree 0, .addInit 1, .addRef 1]) = some s ∧
    s.table.heap = [11] ∧ s.table.last 0 = some (.heap 11) ∧
    s.live = [⟨.heap 11, 0⟩, ⟨.first 0, 0⟩] ∧
    FreeingOk s ∧ ChainsOk s := by
  have hrun : ((ftInit (fun _ _ => none) 0 1 1).bind fun t =>
      (exec bucketStep (bucketStart t) (markedBucket ++
        appending 1 2 secondArgs (some 11) ++
          [.removeUnlink 0, .removeFree 0, .addInit 1, .addRef 1])).map
            fun s => (s.table.heap, s.table.last 0, s.live)) =
      some ([11], some (.heap 11), [⟨.heap 11, 0⟩, ⟨.first 0, 0⟩]) := by
    decide +kernel
  simp only [Option.bind_eq_some_iff, Option.map_eq_some_iff,
    Prod.mk.injEq] at hrun
  obtain ⟨t, hinit, s, hexec, hheap, hlast, hlive⟩ := hrun
  obtain ⟨hfreeing, -, -, hchains⟩ :=
    freesBuckets_iff hinit (by decide) hexec
  exact ⟨t, s, hinit, hexec, hheap, hlast, hlive, hfreeing,
    hchains.mpr (by decide)⟩

/-- The `calloc` of a third flow fails before the bucket 10 is unlinked:
`chain->last` is NULL. -/
theorem freesBuckets_fails : ∃ t s,
    ftInit (fun _ _ => none) 0 1 1 = some t ∧
    exec bucketStep (bucketStart t) (markedBucket ++
      appending 1 2 secondArgs none ++ [.removeUnlink 0]) = some s ∧
    frees (s.pc 0) = some (.heap 10) ∧ ¬ ChainsOk s := by
  have hrun : ((ftInit (fun _ _ => none) 0 1 1).bind fun t =>
      (exec bucketStep (bucketStart t) (markedBucket ++
        appending 1 2 secondArgs none ++ [.removeUnlink 0])).map
          fun s => (frees (s.pc 0), s.table.tableSize, s.table.last 0)) =
      some (some (.heap 10), 1, none) := by
    decide +kernel
  simp only [Option.bind_eq_some_iff, Option.map_eq_some_iff,
    Prod.mk.injEq] at hrun
  obtain ⟨t, hinit, s, hexec, hfrees, hsize, hlast⟩ := hrun
  refine ⟨t, s, hinit, hexec, hfrees, fun hok => hok.last ?_ hlast⟩
  rw [hsize]
  exact Nat.one_pos

end FlowTable

end Ntnetflow

end NtapiExamples
