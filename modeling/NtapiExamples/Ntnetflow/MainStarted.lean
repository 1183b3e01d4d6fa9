/-
When `main` runs to its end, the threads were started on what its checks promise: the
options in their ranges, the adapter with the records switched on that the threads
wait for, the streams that were not in use, and the whole configuration applied.
-/
import NtapiExamples.Ntnetflow.MainLives

namespace NtapiExamples

open Text

namespace Ntnetflow

variable {o : Options} {env : Env} {s : Shell} {e : MainEnd}

/-- The loop over the settings gives 1 when every one it reads is set. -/
theorem flowStatusLoop_pos {probe : Bool} {settings : List (Text × Bool)}
    {enabled : Int} (h : 0 < flowStatusLoop env probe settings enabled) :
    enabled ≠ 0 ∧ ∀ name forProbe, (name, forProbe) ∈ settings →
      (forProbe = true → probe = true) → ∃ i, env.property name = some i ∧
        i ≠ 0 := by
  induction settings generalizing enabled with
  | nil =>
      rw [flowStatusLoop] at h
      exact ⟨by omega, fun name forProbe hmem => by simp at hmem⟩
  | cons setting rest ih =>
      obtain ⟨name, forProbe⟩ := setting
      rw [flowStatusLoop] at h
      split at h
      · rename_i hskip
        obtain ⟨henabled, hrest⟩ := ih h
        refine ⟨henabled, fun name' forProbe' hmem hprobe => ?_⟩
        rcases List.mem_cons.mp hmem with heq | hmem
        · rw [Prod.mk.injEq] at heq
          obtain ⟨rfl, rfl⟩ := heq
          simp_all
        · exact hrest name' forProbe' hmem hprobe
      · split at h
        · exact absurd h (by decide)
        · rename_i i hread
          obtain ⟨henabled, hrest⟩ := ih h
          have hboth : enabled ≠ 0 ∧ i ≠ 0 := by
            by_contra hnot
            rw [if_neg hnot] at henabled
            exact henabled rfl
          refine ⟨hboth.1, fun name' forProbe' hmem hprobe => ?_⟩
          rcases List.mem_cons.mp hmem with heq | hmem
          · rw [Prod.mk.injEq] at heq
            obtain ⟨rfl, rfl⟩ := heq
            exact ⟨i, hread, hboth.2⟩
          · exact hrest name' forProbe' hmem hprobe

/-- A version that the loop of `fs_init` ends with was read. -/
theorem fsDetect_success {n : Nat} {detected version : Int}
    (h : fsDetect env n = (detected, version)) (hdetected : 0 ≤ detected)
    (hversion : 0 ≤ version) :
    version < n ∧ env.statRead version.toNat = .success := by
  induction n with
  | zero =>
      rw [fsDetect, Prod.mk.injEq] at h
      omega
  | succ n ih =>
      rw [fsDetect] at h
      split at h
      · rename_i hread
        rw [Prod.mk.injEq] at h
        rw [← h.2]
        exact ⟨by omega, hread⟩
      · obtain ⟨hlt, hread⟩ := ih h
        exact ⟨by omega, hread⟩
      · rw [Prod.mk.injEq] at h
        omega

/-- `fl_init` as far as the queue and the statements go. -/
theorem flInit_cases (env : Env) (s : Shell) :
    (∃ s' stop, flInit env s = (s', some stop) ∧ stop ≠ .finished) ∨
      ∃ s' queue, flInit env s = (s', none) ∧ s'.ntpl = s.ntpl ∧
        mpmcQueueInit env.memalign (BitVec.ofNat 32 QUEUE_SIZE) = some queue := by
  rw [flInit]
  split
  · exact Or.inl ⟨_, _, rfl, by simp⟩
  · rename_i queue hqueue
    split
    · exact Or.inl ⟨_, _, rfl, by simp⟩
    · dsimp only
      have hntpl := @createLoop_ntpl env.flThread .flThread THREAD_FLOW_COUNT 0
        ((s.acquire .programQueue).acquire .flowStream)
      split
      · rename_i s' hloop
        rw [hloop] at hntpl
        exact Or.inr ⟨_, queue, rfl, hntpl, hqueue⟩
      · exact Or.inl ⟨_, _, rfl, by simp⟩

theorem rxInit_cases (env : Env) (count : Nat) (s : Shell) :
    (∃ s' stop, rxInit env count s = (s', some stop) ∧ stop ≠ .finished) ∨
      ∃ s', rxInit env count s = (s', none) ∧ s'.ntpl = s.ntpl := by
  rw [rxInit]
  obtain ⟨opened, ok, hloop, -, -, -, hntpl, -⟩ := rxOpenLoop_spec env count 0 s
  generalize hs₁ : (rxOpenLoop env count 0 s).1 = s₁ at *
  have heq : rxOpenLoop env count 0 s = (s₁, opened, ok) := Prod.ext hs₁ hloop
  simp only [heq]
  cases ok with
  | false => exact Or.inl ⟨_, _, rfl, by simp⟩
  | true =>
      have hntpl' := @createLoop_ntpl env.rxThread .rxThread count 0 s₁
      dsimp only
      split
      · rename_i s' hcreate
        rw [hcreate] at hntpl'
        exact Or.inr ⟨_, rfl, hntpl'.trans hntpl⟩
      · exact Or.inl ⟨_, _, rfl, by simp⟩

theorem stop_of_map {stop : Stop} {status : Int} {result : Option Shell}
    (h : result.map (fun s => (⟨stop, status, s, none⟩ : MainEnd)) = some e) :
    e.stop = stop := by
  obtain ⟨s', -, rfl⟩ := Option.map_eq_some_iff.mp h
  rfl

theorem joinEach_ntpl {wait : Nat → Wait} {f : Nat → Resource} {n : Nat}
    {s' : Shell} (h : joinEach env wait f n s = some s') : s'.ntpl = s.ntpl := by
  rw [joinEach_eq] at h
  split at h
  case isTrue =>
    cases h
    exact releaseEach_ntpl f n s
  case isFalse => cases h

theorem labelDeinitFl_ntpl {s' : Shell} (h : labelDeinitFl env s = some s') :
    ntplDeinit env.ntpl s.ntpl = some s'.ntpl := by
  simp only [labelDeinitFl, labelDeinitNtpl] at h
  split at h
  case isTrue =>
    obtain ⟨ntpl, hdeinit, rfl⟩ := Option.map_eq_some_iff.mp h
    exact hdeinit
  case isFalse => cases h

/-- The threads were started on a new table and a new queue. -/
structure Launched (o : Options) (env : Env) (probe : Bool) (e : MainEnd) :
    Prop where
  status : e.status = 0
  started : ∃ queue table,
    mpmcQueueInit env.memalign (BitVec.ofNat 32 QUEUE_SIZE) = some queue ∧
    FlowTable.ftInit env.calloc o.power.toNat o.chainSize.toNat
      o.bucketSize.toNat = some table ∧
    e.started = some (⟨!o.emulateProbe && probe, o.pollInterval⟩, queue,
      sysStart table)

theorem mainFlows_finished {probe : Bool} {count : Nat}
    (h : mainFlows o env probe count s = some e) (hstop : e.stop = .finished) :
    Launched o env probe e ∧
      ntplDeinit env.ntpl s.ntpl = some e.shell.ntpl := by
  rw [mainFlows] at h
  split at h
  · rw [stop_of_map h] at hstop
    simp at hstop
  rename_i table htable
  rcases flInit_cases env (s.acquire .flowTable) with
    ⟨s₁, stop, hinit, hne⟩ | ⟨s₁, queue, hinit, hntpl, hqueue⟩
  · simp only [hinit] at h
    exact absurd ((stop_of_map h).symm.trans hstop) hne
  simp only [hinit] at h
  rcases rxInit_cases env count s₁ with
    ⟨s₂, stop, hrx, hne⟩ | ⟨s₂, hrx, hntpl₂⟩
  · simp only [hrx, Option.bind_eq_bind, Option.bind_eq_some_iff,
      Option.some.injEq] at h
    obtain ⟨_, -, _, -, rfl⟩ := h
    exact absurd hstop hne
  simp only [hrx] at h
  split at h
  case isFalse => cases h
  simp only [hqueue, Option.map_some, Option.bind_eq_bind,
    Option.bind_eq_some_iff, Option.some.injEq] at h
  obtain ⟨s₃, hfl, s₄, hrxJoin, s₅, hdeinit, rfl⟩ := h
  refine ⟨⟨rfl, queue, table, hqueue, htable, rfl⟩, ?_⟩
  have hsame : (releaseEach .rxStream count s₄).ntpl = s.ntpl := by
    rw [releaseEach_ntpl, joinEach_ntpl hrxJoin, joinEach_ntpl hfl, hntpl₂, hntpl]
    rfl
  rw [← hsame]
  exact labelDeinitFl_ntpl hdeinit

/-- The whole configuration was applied and is deleted again. -/
def Applied (env : Env) (args : NtplArgs) (e : MainEnd) : Prop :=
  ∃ n, n = (ntplStatements args env.common env.config).length ∧
    Accepted env.ntpl n ∧
    e.shell.ntpl.sent = ntplStatements args env.common env.config ++
      (assigned env.ntpl n).reverse.map deleteText

theorem mainNtpl_finished {probe : Bool} {streams : List (BitVec 32)}
    (hroom : 2 * (15 + env.common.length + env.config.length) ≤ MAX_NTPL)
    (h : mainNtpl o env probe streams s = some e) (hs : s.ntpl = ⟨[], []⟩)
    (hstop : e.stop = .finished) :
    Launched o env probe e ∧ Applied env (ntplArgs o env streams) e := by
  rw [mainNtpl] at h
  generalize ntplArgs o env streams = args at *
  rw [← length_ntplStatements args] at hroom
  split at h
  · rw [Option.some.injEq] at h
    rw [← h] at hstop
    simp at hstop
  have hempty : (s.acquire .configStream).ntpl = ⟨[], []⟩ := hs
  obtain ⟨ntpl, n, status, hcommon, hsentUpTo, hstops⟩ :=
    ntplCommonApply_spec env.ntpl args env.common env.config (by omega)
  simp only [hempty, hcommon] at h
  rcases hstops with ⟨rfl, hn, hok⟩ | ⟨rfl, -⟩
  · obtain ⟨ntpl', n, status, happly, hsentUpTo', hstops⟩ :=
      ntplApply_spec hsentUpTo hn hok (by omega)
    simp only [happly] at h
    rcases hstops with ⟨rfl, hn', hok'⟩ | ⟨rfl, -⟩
    · obtain ⟨hlaunched, hdeinit⟩ := mainFlows_finished h hstop
      obtain ⟨ntpl'', hdeinit', hsent⟩ := hsentUpTo'.deinit hroom
      have hsame : e.shell.ntpl = ntpl'' :=
        Option.some.inj (hdeinit.symm.trans hdeinit')
      refine ⟨hlaunched, n, hn', hok', ?_⟩
      rw [hsame, hsent, hn', List.take_length]
    · rw [stop_of_map h] at hstop
      simp at hstop
  · rw [stop_of_map h] at hstop
    simp at hstop

theorem mainStats_finished {probe : Bool} {streams : List (BitVec 32)}
    (hroom : 2 * (15 + env.common.length + env.config.length) ≤ MAX_NTPL)
    (h : mainStats o env probe streams s = some e) (hs : s.ntpl = ⟨[], []⟩)
    (hstop : e.stop = .finished) :
    Launched o env probe e ∧ Applied env (ntplArgs o env streams) e := by
  rw [mainStats] at h
  split at h
  · rcases statsInit_spec env s with hinit | ⟨s', hinit, -⟩
    · simp only [hinit] at h
      split at h
      · rw [Option.some.injEq] at h
        rw [← h] at hstop
        simp at hstop
      · exact mainNtpl_finished hroom h hs hstop
    · simp only [hinit, Option.some.injEq] at h
      rw [← h] at hstop
      simp at hstop
  · exact mainNtpl_finished hroom h hs hstop

/-- The options that `main` lets through. -/
structure Checked (o : Options) : Prop where
  streamCount : 1 ≤ o.streamCount ∧ o.streamCount ≤ 128
  power : FT_POWER_LB ≤ o.power ∧ o.power ≤ FT_POWER_UB
  chainSize : 1 ≤ o.chainSize ∧ o.chainSize ≤ 32
  bucketSize : 1 ≤ o.bucketSize ∧ o.bucketSize ≤ 32
  bucketPower : o.bucketSize.toNat &&& (o.bucketSize - 1).toNat = 0

theorem mainOptions_finished {probe : Bool}
    (hroom : 2 * (15 + env.common.length + env.config.length) ≤ MAX_NTPL)
    (h : mainOptions o env probe s = some e) (hs : s.ntpl = ⟨[], []⟩)
    (hstop : e.stop = .finished) :
    Checked o ∧ Launched o env probe e ∧ ∃ filled,
      infoStreamsUnused env.activeStreams o.streamCount.toNat env.streams =
        (o.streamCount, filled) ∧
      Applied env (ntplArgs o env ((List.range o.streamCount.toNat).map
        fun i => BitVec.ofNat 32 (filled i))) e := by
  have hother : ∀ {stop : Stop}, stop ≠ .finished →
      some ⟨stop, env.timestampType, labelDeinitFs s, none⟩ ≠ some e := by
    rintro stop hne heq
    rw [Option.some.injEq] at heq
    exact hne (by rw [← hstop, ← heq])
  rw [mainOptions] at h
  split at h
  · exact absurd h (hother (by simp))
  split at h
  · exact absurd h (hother (by simp))
  split at h
  · exact absurd h (hother (by simp))
  split at h
  · exact absurd h (hother (by simp))
  rename_i hcount hpower hchain hbucket
  simp only [not_or, Int.not_lt] at hcount hpower hchain hbucket
  have hle := infoStreamsUnused_le env.activeStreams o.streamCount.toNat
    env.streams
  generalize hunused : infoStreamsUnused env.activeStreams o.streamCount.toNat
    env.streams = unused at *
  obtain ⟨count, filled⟩ := unused
  simp only at hle h
  split at h
  · exact absurd h (hother (by simp))
  split at h
  · exact absurd h (hother (by simp))
  have hsame : count = o.streamCount := by omega
  subst hsame
  rcases signalInit_spec env s with ⟨hinit, hefd⟩ | ⟨efd, hefd, hinit⟩
  · simp only [hinit, if_neg (Int.not_lt.mpr hefd)] at h
    obtain ⟨hlaunched, happlied⟩ := mainStats_finished hroom h hs hstop
    exact ⟨⟨hcount, hpower, hchain, ⟨hbucket.1, hbucket.2.1⟩,
      Decidable.not_not.mp hbucket.2.2⟩, hlaunched, filled, rfl, happlied⟩
  · simp only [hinit, if_pos hefd] at h
    exact absurd h (hother (by simp))

/-- The adapter supports what the threads use. -/
structure Supported (env : Env) (probe : Bool) : Prop where
  version : ∃ version < 3, env.statRead version = .success ∧
    (probe = true ↔ version = 2)
  settings : ∀ name forProbe, (name, forProbe) ∈ flowStatusSettings →
    (forProbe = true → probe = true) →
      ∃ i, env.property name = some i ∧ i ≠ 0
  timestamp : env.timestamp = .nativeUnix ∨ env.timestamp = .unixNanotime

theorem mainAdapter_finished
    (hroom : 2 * (15 + env.common.length + env.config.length) ≤ MAX_NTPL)
    (h : mainAdapter o env s = some e) (hs : s.ntpl = ⟨[], []⟩)
    (hstop : e.stop = .finished) :
    ∃ probe filled, Supported env probe ∧ Checked o ∧
      Launched o env probe e ∧
      infoStreamsUnused env.activeStreams o.streamCount.toNat env.streams =
        (o.streamCount, filled) ∧
      Applied env (ntplArgs o env ((List.range o.streamCount.toNat).map
        fun i => BitVec.ofNat 32 (filled i))) e := by
  have hother : ∀ {stop : Stop} {status : Int} {s' : Shell},
      stop ≠ .finished → some ⟨stop, status, s', none⟩ ≠ some e := by
    rintro stop status s' hne heq
    rw [Option.some.injEq] at heq
    exact hne (by rw [← hstop, ← heq])
  rw [mainAdapter] at h
  split at h
  · exact absurd h (hother (by simp))
  generalize hdetect : fsDetect env 3 = found at h
  obtain ⟨detected, version⟩ := found
  simp only at h
  split at h
  · exact absurd h (hother (by simp))
  split at h
  · exact absurd h (hother (by simp))
  split at h
  · exact absurd h (hother (by simp))
  split at h
  · exact absurd h (hother (by simp))
  split at h
  · exact absurd h (hother (by simp))
  split at h
  · exact absurd h (hother (by simp))
  rename_i hdetected hversion hread henabled _ htimestamp
  obtain ⟨hchecked, hlaunched, filled, hunused, happlied⟩ :=
    mainOptions_finished hroom h hs hstop
  refine ⟨_, filled, ⟨?_, ?_, ?_⟩, hchecked, hlaunched, hunused, happlied⟩
  · obtain ⟨hlt, hsuccess⟩ :=
      fsDetect_success hdetect (by omega) (by omega)
    refine ⟨version.toNat, by omega, hsuccess, ?_⟩
    rw [decide_eq_true_eq]
    omega
  · have hpos : 0 < infoAdapterFlowstatusEnabled env (decide (2 ≤ version)) := by
      omega
    exact (flowStatusLoop_pos hpos).2
  · cases htype : env.timestamp
    · exact Or.inr rfl
    · exact Or.inl rfl
    · exact absurd htype htimestamp

/-- The streams that are handed over are the first ones that are not in use. -/
theorem streamsUnused_map {active : List Nat} (hnodup : active.Nodup)
    (hbelow : ∀ id ∈ active, id < 256) {count : Int} {filled : Nat → Nat}
    (hunused : infoStreamsUnused (some active) count.toNat env.streams =
      (count, filled)) (hcount : 1 ≤ count) :
    (List.range count.toNat).map (fun i => BitVec.ofNat 32 (filled i)) =
        ((unusedIds active).take count.toNat).map (BitVec.ofNat 32) ∧
      ((unusedIds active).take count.toNat).length = count.toNat := by
  have hlength := length_unusedIds hnodup hbelow
  rw [infoStreamsUnused_eq hnodup hbelow, Prod.mk.injEq] at hunused
  obtain ⟨hmin, hfilled⟩ := hunused
  have heq : min count.toNat (256 - active.length) = count.toNat := by omega
  have htake : ((unusedIds active).take count.toNat).length = count.toNat := by
    rw [List.length_take]
    omega
  have hmap := map_overlay env.streams ((unusedIds active).take count.toNat)
  rw [htake, ← heq, hfilled, heq] at hmap
  refine ⟨?_, htake⟩
  rw [← hmap, List.map_map]
  rfl

end Ntnetflow

end NtapiExamples
