/-
What `main` acquires it releases once, on every way through its labels, but for the
flow table and what three failures leave behind.
-/
import NtapiExamples.Ntnetflow.Main

namespace NtapiExamples

namespace Ntnetflow

def Event.resource : Event → Resource
  | .acquire resource => resource
  | .release resource => resource

/-- What happened to one resource. -/
def life (r : Resource) (s : Shell) : List Event :=
  s.log.filter fun event => event.resource = r

/-- What is never released: the table, the stream of `fs_init` when a read fails,
the timer when `stats_start` fails, and the buffer of the queue when `fl_init` fails
behind it. -/
def Stop.leaks : Stop → Resource → Bool
  | .statRead, .statStream => true
  | .statsStart, .timer => true
  | .flowOpen, .programQueue => true
  | .programQueue, .flowTable => true
  | .flowOpen, .flowTable => true
  | .rxOpen, .flowTable => true
  | .finished, .flowTable => true
  | _, _ => false

/-- `main` passes `deinit_stats`. -/
def Stop.deletesTimer : Stop → Bool
  | .configOpen | .ntplCommon | .ntplApply | .ftInit | .programQueue | .flowOpen
  | .rxOpen | .finished => true
  | _ => false

/-- What is released without being there: the timer without statistics, and the
threads that were not created when they are joined. -/
def unmatched (o : Options) (env : Env) : Stop → Resource → Bool
  | stop, .timer => stop.deletesTimer && !(o.stat || o.csv)
  | .rxOpen, .flThread i | .finished, .flThread i =>
      decide (i < THREAD_FLOW_COUNT) && env.flThread i != 0
  | .finished, .rxThread i =>
      decide ((i : Int) < o.streamCount) && env.rxThread i != 0
  | _, _ => false

/-- What `main` has waited for when it ends in this way. -/
def Stop.waits (o : Options) : Stop → List Wait
  | .rxOpen => (List.range THREAD_FLOW_COUNT).map .flJoin ++ [.flDrain]
  | .finished =>
      .statsLoop :: ((List.range THREAD_FLOW_COUNT).map .flJoin ++
        (List.range o.streamCount.toNat).map .rxJoin) ++ [.flDrain]
  | _ => []

/-- The life of a resource at the end of `main`. -/
def LifeOk (o : Options) (env : Env) (e : MainEnd) (r : Resource) : Prop :=
  if e.stop.leaks r then life r e.shell = [.acquire r]
  else if unmatched o env e.stop r then life r e.shell = [.release r]
  else life r e.shell = [] ∨ life r e.shell = [.acquire r, .release r]

variable {o : Options} {env : Env} {s : Shell} {r : Resource}
  {rs : List Resource}

@[simp] theorem life_acquire (r r' : Resource) (s : Shell) :
    life r (s.acquire r') =
      life r s ++ if r' = r then [.acquire r'] else [] := by
  rw [life, Shell.acquire, List.filter_append]
  congr 1
  by_cases hr : r' = r <;> simp [Event.resource, hr]

@[simp] theorem life_release (r r' : Resource) (s : Shell) :
    life r (s.release r') =
      life r s ++ if r' = r then [.release r'] else [] := by
  rw [life, Shell.release, List.filter_append]
  congr 1
  by_cases hr : r' = r <;> simp [Event.resource, hr]

@[simp] theorem life_ntpl (r : Resource) (s : Shell) (ntpl : NtplState) :
    life r { s with ntpl := ntpl } = life r s := rfl

theorem releaseEach_succ (f : Nat → Resource) (n : Nat) (s : Shell) :
    releaseEach f (n + 1) s = (releaseEach f n s).release (f n) := by
  simp [releaseEach, List.range_succ]

theorem life_releaseEach_of_ne {f : Nat → Resource} (hne : ∀ i, f i ≠ r)
    (n : Nat) (s : Shell) : life r (releaseEach f n s) = life r s := by
  induction n with
  | zero => rfl
  | succ n ih => rw [releaseEach_succ, life_release, if_neg (hne n),
      List.append_nil, ih]

theorem life_releaseEach {f : Nat → Resource} (hf : Function.Injective f)
    (i n : Nat) (s : Shell) :
    life (f i) (releaseEach f n s) =
      life (f i) s ++ if i < n then [.release (f i)] else [] := by
  induction n with
  | zero => simp [releaseEach]
  | succ n ih =>
      rw [releaseEach_succ, life_release, ih, List.append_assoc]
      congr 1
      rcases Nat.lt_trichotomy i n with hlt | rfl | hgt
      · have hne : f n ≠ f i := fun h => absurd (hf h) (Nat.ne_of_gt hlt)
        rw [if_pos hlt, if_neg hne, if_pos (Nat.lt_succ_of_lt hlt)]
        rfl
      · rw [if_neg (Nat.lt_irrefl i), if_pos rfl, if_pos (Nat.lt_succ_self i)]
        rfl
      · have hne : f n ≠ f i := fun h => absurd (hf h) (Nat.ne_of_lt hgt)
        rw [if_neg (Nat.lt_asymm hgt), if_neg hne,
          if_neg (Nat.not_lt.mpr hgt)]
        rfl

theorem life_releaseEach_eq {f : Nat → Resource} (hf : Function.Injective f)
    (r : Resource) (n : Nat) (s : Shell) :
    life r (releaseEach f n s) = life r s ++
      if r ∈ (List.range n).map f then [.release r] else [] := by
  by_cases hr : ∃ i, f i = r
  · obtain ⟨i, rfl⟩ := hr
    rw [life_releaseEach hf]
    simp [hf.eq_iff]
  · have hne : ∀ i, f i ≠ r := fun i hi => hr ⟨i, hi⟩
    rw [life_releaseEach_of_ne hne]
    simp [hne]

@[simp] theorem releaseEach_ntpl (f : Nat → Resource) (n : Nat) (s : Shell) :
    (releaseEach f n s).ntpl = s.ntpl := by
  induction n with
  | zero => rfl
  | succ n ih => rw [releaseEach_succ, ← ih]; rfl

/-- All threads are joined, or the end of one of them never comes. -/
theorem joinEach_eq (env : Env) (wait : Nat → Wait) (f : Nat → Resource)
    (n : Nat) (s : Shell) :
    joinEach env wait f n s =
      if ∀ i, i < n → env.ends (wait i) = true then some (releaseEach f n s)
      else none := by
  induction n with
  | zero => simp [joinEach, releaseEach]
  | succ n ih =>
      rw [joinEach, List.range_succ, List.foldlM_append, ← joinEach, ih,
        releaseEach_succ]
      simp only [Nat.forall_lt_succ_right, Option.bind_eq_bind]
      by_cases hall : ∀ i, i < n → env.ends (wait i) = true
      · rw [if_pos hall]
        by_cases hlast : env.ends (wait n) = true
        · rw [if_pos ⟨hall, hlast⟩]
          simp [hlast]
        · rw [if_neg fun h => hlast h.2]
          simp [hlast]
      · rw [if_neg hall, if_neg fun h => hall h.1, Option.bind_none]

theorem life_createLoop_of_ne {create : Nat → Int} {f : Nat → Resource}
    (hne : ∀ i, f i ≠ r) (count i : Nat) (s : Shell) :
    life r (createLoop create f count i s).1 = life r s := by
  induction count generalizing i s with
  | zero => rfl
  | succ count ih =>
      rw [createLoop]
      split
      · rfl
      · rw [ih]
        split
        · rw [life_acquire, if_neg (hne i), List.append_nil]
        · rfl

/-- With no negative result the loop goes on to its end. -/
theorem createLoop_snd {create : Nat → Int} {f : Nat → Resource}
    (hcreate : ∀ i, 0 ≤ create i) (count i : Nat) (s : Shell) :
    (createLoop create f count i s).2 = true := by
  induction count generalizing i s with
  | zero => rfl
  | succ count ih =>
      rw [createLoop, if_neg (Int.not_lt.mpr (hcreate i))]
      exact ih _ _

theorem createLoop_ntpl {create : Nat → Int} {f : Nat → Resource}
    (count i : Nat) (s : Shell) :
    (createLoop create f count i s).1.ntpl = s.ntpl := by
  induction count generalizing i s with
  | zero => rfl
  | succ count ih =>
      rw [createLoop]
      split
      · rfl
      · rw [ih]
        split <;> rfl

/-- The threads that are there behind the loop. -/
theorem life_createLoop {create : Nat → Int} {f : Nat → Resource}
    (hf : Function.Injective f) (hcreate : ∀ i, 0 ≤ create i)
    (k count i : Nat) (s : Shell) :
    life (f k) (createLoop create f count i s).1 = life (f k) s ++
      if i ≤ k ∧ k < i + count ∧ create k = 0 then [.acquire (f k)] else [] := by
  induction count generalizing i s with
  | zero =>
      rw [createLoop, if_neg (by omega), List.append_nil]
  | succ count ih =>
      rw [createLoop, if_neg (Int.not_lt.mpr (hcreate i)), ih]
      have hlife : life (f k) (if create i = 0 then s.acquire (f i) else s) =
          life (f k) s ++
            if create i = 0 ∧ i = k then [.acquire (f k)] else [] := by
        by_cases hzero : create i = 0
        · rw [if_pos hzero, life_acquire]
          by_cases hik : i = k
          · subst hik
            simp [hzero]
          · rw [if_neg fun h => hik (hf h), if_neg fun h => hik h.2]
        · simp [hzero]
      rw [hlife, List.append_assoc]
      congr 1
      rcases Nat.lt_trichotomy i k with hlt | rfl | hgt
      · rw [if_neg (by omega), List.nil_append]
        congr 1
        simp only [eq_iff_iff]
        constructor <;> rintro ⟨h, h', h''⟩ <;> exact ⟨by omega, by omega, h''⟩
      · have hnot : ¬ (i + 1 ≤ i ∧ i < i + 1 + count ∧ create i = 0) := by omega
        rw [if_neg hnot, List.append_nil]
        simp
      · rw [if_neg (by omega), if_neg (by omega), if_neg (by omega)]
        rfl

/-- The threads that were created. -/
def created (create : Nat → Int) (n i : Nat) : Bool :=
  decide (i < n) && create i == 0

theorem createLoop_spec (create : Nat → Int) {f : Nat → Resource}
    (hf : Function.Injective f) (hcreate : ∀ i, 0 ≤ create i) (count : Nat)
    (s : Shell) :
    ∃ s', createLoop create f count 0 s = (s', true) ∧ s'.ntpl = s.ntpl ∧
      (∀ r, (∀ i, f i ≠ r) → life r s' = life r s) ∧
      ∀ k, life (f k) s' = life (f k) s ++
        if created create count k then [.acquire (f k)] else [] := by
  refine ⟨(createLoop create f count 0 s).1,
    Prod.ext rfl (createLoop_snd hcreate count 0 s),
    createLoop_ntpl count 0 s,
    fun r hr => life_createLoop_of_ne hr count 0 s, fun k => ?_⟩
  rw [life_createLoop hf hcreate]
  congr 1
  simp [created]

theorem rxOpenLoop_spec (env : Env) (count i : Nat) (s : Shell) :
    ∃ opened ok, (rxOpenLoop env count i s).2 = (opened, ok) ∧
      i ≤ opened ∧ opened ≤ i + count ∧ (ok = true → opened = i + count) ∧
      (rxOpenLoop env count i s).1.ntpl = s.ntpl ∧
      (∀ r, (∀ k, Resource.rxStream k ≠ r) →
        life r (rxOpenLoop env count i s).1 = life r s) ∧
      ∀ k, life (.rxStream k) (rxOpenLoop env count i s).1 =
        life (.rxStream k) s ++
          if i ≤ k ∧ k < opened then [.acquire (.rxStream k)] else [] := by
  induction count generalizing i s with
  | zero =>
      refine ⟨i, true, rfl, le_rfl, le_rfl, fun _ => rfl, rfl, fun _ _ => rfl,
        fun k => ?_⟩
      rw [if_neg (by omega), List.append_nil]
      rfl
  | succ count ih =>
      rw [rxOpenLoop]
      split
      · refine ⟨i, false, rfl, le_rfl, Nat.le_add_right _ _, ?_, rfl,
          fun _ _ => rfl, fun k => ?_⟩
        · intro hok
          exact absurd hok Bool.false_ne_true
        · rw [if_neg (by omega), List.append_nil]
      · obtain ⟨opened, ok, heq, hle, hbound, hok, hntpl, hother, hlife⟩ :=
          ih (i + 1) (s.acquire (.rxStream i))
        refine ⟨opened, ok, heq, by omega, by omega,
          fun h => (hok h).trans (by omega), hntpl, fun r hr => ?_,
          fun k => ?_⟩
        · rw [hother r hr, life_acquire, if_neg (hr i), List.append_nil]
        · rw [hlife, life_acquire, List.append_assoc]
          congr 1
          rcases Nat.lt_trichotomy i k with hlt | rfl | hgt
          · rw [if_neg (by simp; omega), List.nil_append]
            congr 1
            simp only [eq_iff_iff]
            omega
          · rw [if_pos rfl, if_neg (by omega), if_pos (by omega)]
            rfl
          · rw [if_neg (by simp; omega), if_neg (by omega), if_neg (by omega)]
            rfl

/-- Each resource of a list has been acquired, and no other one was touched. -/
def Holding (s : Shell) (rs : List Resource) : Prop :=
  ∀ r, life r s = if r ∈ rs then [.acquire r] else []

theorem Holding.acquire (h : Holding s rs) (hr : r ∉ rs) :
    Holding (s.acquire r) (r :: rs) := by
  intro r'
  rw [life_acquire, h r']
  by_cases hrr : r = r'
  · subst hrr
    simp [hr]
  · have hne : ¬ r' = r := fun heq => hrr heq.symm
    simp [hrr, hne]

/-- What the labels from `deinit_ntpl` on release. -/
def ladder : List Resource :=
  [.configStream, .timer, .eventFd, .statStream, .infoStream, .ntapi]

/-- `stats_init` was called and has its timer. -/
def timers (o : Options) : List Resource :=
  if o.stat || o.csv then [.timer] else []

@[simp] theorem mem_timers : r ∈ timers o ↔
    r = .timer ∧ (o.stat || o.csv) = true := by
  rw [timers]
  split <;> simp_all

/-- What is held when `ntpl_init` is left. -/
def heldNtpl (o : Options) : List Resource :=
  .configStream :: (timers o ++ [.eventFd, .statStream, .infoStream, .ntapi])

theorem labelDeinitNtpl_spec {ntpl : NtplState}
    (hdeinit : ntplDeinit env.ntpl s.ntpl = some ntpl) :
    ∃ s', labelDeinitNtpl env s = some s' ∧ ∀ r, life r s' =
      life r s ++ if r ∈ ladder then [.release r] else [] := by
  refine ⟨_, by rw [labelDeinitNtpl, hdeinit, Option.map_some], fun r => ?_⟩
  simp only [labelDeinitStats, labelDeinitSignal, labelDeinitFs,
    labelDeinitInfo, labelDone, life_release, life_ntpl, ladder]
  cases r <;> simp

theorem labelDeinitFl_spec {ntpl : NtplState}
    (hdeinit : ntplDeinit env.ntpl s.ntpl = some ntpl) :
    ∃ s', labelDeinitFl env s =
        (if env.ends .flDrain = true then some s' else none) ∧
      ∀ r, life r s' = life r s ++
        if r ∈ .programQueue :: .flowStream :: ladder then [.release r]
        else [] := by
  have hdeinit' : ntplDeinit env.ntpl
      ((s.release .programQueue).release .flowStream).ntpl = some ntpl := hdeinit
  obtain ⟨s', heq, hlife⟩ := labelDeinitNtpl_spec hdeinit'
  refine ⟨s', by rw [labelDeinitFl, heq], fun r => ?_⟩
  rw [hlife, life_release, life_release]
  cases r <;> simp [ladder]

theorem flThread_injective : Function.Injective Resource.flThread :=
  fun _ _ h => by injection h

theorem rxThread_injective : Function.Injective Resource.rxThread :=
  fun _ _ h => by injection h

theorem rxStream_injective : Function.Injective Resource.rxStream :=
  fun _ _ h => by injection h

/-- What `fl_init` acquires when it succeeds. -/
def flHeld (env : Env) : Resource → Bool
  | .programQueue | .flowStream => true
  | .flThread i => created env.flThread THREAD_FLOW_COUNT i
  | _ => false

theorem flInit_spec (hcreate : ∀ i, 0 ≤ env.flThread i) (s : Shell) :
    ∃ s' stop, flInit env s = (s', stop) ∧ s'.ntpl = s.ntpl ∧
      (stop = some .programQueue ∧ (∀ r, life r s' = life r s) ∨
        stop = some .flowOpen ∧ (∀ r, life r s' = life r s ++
          if r = .programQueue then [.acquire r] else []) ∨
        stop = none ∧ ∀ r, life r s' = life r s ++
          if flHeld env r then [.acquire r] else []) := by
  rw [flInit]
  split
  · exact ⟨s, _, rfl, rfl, Or.inl ⟨rfl, fun _ => rfl⟩⟩
  · split
    · refine ⟨_, _, rfl, rfl, Or.inr (Or.inl ⟨rfl, fun r => ?_⟩)⟩
      rw [life_acquire]
      cases r <;> simp
    · obtain ⟨s', hloop, hntpl, hother, hthread⟩ :=
        createLoop_spec env.flThread flThread_injective hcreate
          THREAD_FLOW_COUNT ((s.acquire .programQueue).acquire .flowStream)
      simp only [hloop]
      refine ⟨s', none, rfl, hntpl, Or.inr (Or.inr ⟨rfl, fun r => ?_⟩)⟩
      by_cases hr : ∃ k, Resource.flThread k = r
      · obtain ⟨k, rfl⟩ := hr
        have hheld : flHeld env (.flThread k) =
            created env.flThread THREAD_FLOW_COUNT k := rfl
        rw [hthread, hheld]
        simp
      · have hne : ∀ k, Resource.flThread k ≠ r := fun k hk => hr ⟨k, hk⟩
        rw [hother r hne]
        cases r <;> simp_all [flHeld]

/-- What `rx_init` acquires when it succeeds. -/
def rxHeld (env : Env) (count : Nat) : Resource → Bool
  | .rxStream i => decide (i < count)
  | .rxThread i => created env.rxThread count i
  | _ => false

theorem rxInit_spec (hcreate : ∀ i, 0 ≤ env.rxThread i) (count : Nat)
    (s : Shell) :
    ∃ s' stop, rxInit env count s = (s', stop) ∧ s'.ntpl = s.ntpl ∧
      (stop = some .rxOpen ∧ (∃ opened, ∀ r, life r s' = life r s ++ match r with
          | .rxStream i => if i < opened then [.acquire r, .release r] else []
          | _ => []) ∨
        stop = none ∧ ∀ r, life r s' = life r s ++
          if rxHeld env count r then [.acquire r] else []) := by
  obtain ⟨opened, ok, hloop, -, -, hok, hntpl, hother, hstream⟩ :=
    rxOpenLoop_spec env count 0 s
  generalize hs₁ : (rxOpenLoop env count 0 s).1 = s₁ at *
  have heq : rxOpenLoop env count 0 s = (s₁, opened, ok) := Prod.ext hs₁ hloop
  simp only [rxInit, heq]
  cases ok with
  | false =>
      refine ⟨_, _, rfl, by rw [releaseEach_ntpl, hntpl],
        Or.inl ⟨rfl, opened, fun r => ?_⟩⟩
      by_cases hr : ∃ k, Resource.rxStream k = r
      · obtain ⟨k, rfl⟩ := hr
        rw [life_releaseEach rxStream_injective, hstream]
        by_cases hk : k < opened <;> simp [hk]
      · have hne : ∀ k, Resource.rxStream k ≠ r := fun k hk => hr ⟨k, hk⟩
        rw [life_releaseEach_of_ne hne, hother r hne]
        cases r <;> simp_all
  | true =>
      obtain ⟨s₂, hcreated, hntpl', hother', hthread⟩ :=
        createLoop_spec env.rxThread rxThread_injective hcreate count s₁
      simp only [hcreated]
      refine ⟨s₂, none, rfl, hntpl'.trans hntpl, Or.inr ⟨rfl, fun r => ?_⟩⟩
      have hopened : opened = count := by simpa using hok rfl
      cases r with
      | rxThread k =>
          rw [hthread, hother _ (by simp)]
          rfl
      | rxStream k =>
          rw [hother' _ (by simp), hstream, hopened]
          simp [rxHeld]
      | _ =>
          rw [hother' _ (by simp), hother _ (by simp)]
          simp [rxHeld]

/-- `main` comes to an end when all that it waits for on its way there does, and then
every resource has the life it should. -/
def EndsWell (o : Options) (env : Env) (result : Option MainEnd) : Prop :=
  ∃ e, (result = if ∀ w ∈ e.stop.waits o, env.ends w = true then some e
    else none) ∧ ∀ r, LifeOk o env e r

theorem waits_rxOpen (o : Options) (env : Env) :
    (∀ w ∈ Stop.rxOpen.waits o, env.ends w = true) ↔
      (∀ i, i < THREAD_FLOW_COUNT → env.ends (.flJoin i) = true) ∧
        env.ends .flDrain = true := by
  simp [Stop.waits, or_imp, forall_and]

theorem waits_finished (o : Options) (env : Env) :
    (∀ w ∈ Stop.finished.waits o, env.ends w = true) ↔
      env.ends .statsLoop = true ∧
        (∀ i, i < THREAD_FLOW_COUNT → env.ends (.flJoin i) = true) ∧
        (∀ i, i < o.streamCount.toNat → env.ends (.rxJoin i) = true) ∧
        env.ends .flDrain = true := by
  simp [Stop.waits, or_imp, forall_and]

theorem ite_bind {α β : Type} (p : Prop) [Decidable p] (a : α)
    (next : α → Option β) :
    (if p then some a else none).bind next = if p then next a else none := by
  split <;> rfl

/-- A way without waiting. -/
theorem endsWell_some {e : MainEnd} (hwaits : e.stop.waits o = [])
    (h : ∀ r, LifeOk o env e r) : EndsWell o env (some e) := by
  refine ⟨e, ?_, h⟩
  rw [hwaits, if_pos (by simp)]

/-- The timer on the ways through `deinit_stats`. -/
theorem lifeOk_timer {e : MainEnd} (hdeletes : e.stop.deletesTimer = true)
    (hleaks : e.stop.leaks .timer = false)
    (h : life .timer e.shell =
      (if .timer ∈ heldNtpl o then [.acquire .timer] else []) ++
        [.release .timer]) :
    LifeOk o env e .timer := by
  have hunmatched : unmatched o env e.stop .timer = !(o.stat || o.csv) := by
    rw [unmatched, hdeletes, Bool.true_and]
  rw [LifeOk, hleaks, hunmatched, h]
  cases hs : o.stat <;> cases hc : o.csv <;> simp [heldNtpl, hs, hc]

/-- The way through `deinit_ntpl` before there is a table. -/
theorem endsWell_deinitNtpl {stop : Stop} {status : Int} {ntpl : NtplState}
    (hwaits : stop.waits o = []) (hleaks : ∀ r, stop.leaks r = false)
    (hunmatched : ∀ r, r ≠ .timer → unmatched o env stop r = false)
    (hdeletes : stop.deletesTimer = true) (h : Holding s (heldNtpl o))
    (hdeinit : ntplDeinit env.ntpl s.ntpl = some ntpl) :
    EndsWell o env ((labelDeinitNtpl env s).map fun s =>
      ⟨stop, status, s, none⟩) := by
  obtain ⟨s', heq, hlife⟩ := labelDeinitNtpl_spec hdeinit
  simp only [heq, Option.map_some]
  refine endsWell_some hwaits fun r => ?_
  by_cases hr : r = .timer
  · subst hr
    refine lifeOk_timer hdeletes (hleaks _) ?_
    simp [hlife, h .timer, ladder]
  · simp only [LifeOk, hlife, h r, hleaks, hunmatched r hr]
    cases r <;> simp_all [heldNtpl, ladder]

theorem mainFlows_endsWell {probe : Bool} {count : Nat} {ntpl : NtplState}
    (hfl : ∀ i, 0 ≤ env.flThread i) (hrx : ∀ i, 0 ≤ env.rxThread i)
    (hcount : (count : Int) = o.streamCount) (h : Holding s (heldNtpl o))
    (hdeinit : ntplDeinit env.ntpl s.ntpl = some ntpl) :
    EndsWell o env (mainFlows o env probe count s) := by
  rw [mainFlows]
  split
  · refine endsWell_deinitNtpl rfl (fun _ => rfl) (fun r hr => ?_) rfl h hdeinit
    cases r <;> first | rfl | exact absurd rfl hr
  · obtain ⟨s₁, stop, hinit, hntpl, hcases⟩ :=
      flInit_spec hfl (s.acquire .flowTable)
    have hdeinit₁ : ntplDeinit env.ntpl s₁.ntpl = some ntpl := by
      rw [hntpl]
      exact hdeinit
    simp only [hinit]
    rcases hcases with ⟨rfl, hlife₁⟩ | ⟨rfl, hlife₁⟩ | ⟨rfl, hlife₁⟩
    · obtain ⟨s', heq, hlife⟩ := labelDeinitNtpl_spec hdeinit₁
      simp only [heq, Option.map_some]
      refine endsWell_some rfl fun r => ?_
      cases r with
      | timer =>
          refine lifeOk_timer rfl rfl ?_
          simp [hlife, hlife₁, h .timer, ladder]
      | _ =>
          simp only [LifeOk, hlife, hlife₁, life_acquire, h _]
          simp [Stop.leaks, unmatched, heldNtpl, ladder]
    · obtain ⟨s', heq, hlife⟩ := labelDeinitNtpl_spec hdeinit₁
      simp only [heq, Option.map_some]
      refine endsWell_some rfl fun r => ?_
      cases r with
      | timer =>
          refine lifeOk_timer rfl rfl ?_
          simp [hlife, hlife₁, h .timer, ladder]
      | _ =>
          simp only [LifeOk, hlife, hlife₁, life_acquire, h _]
          simp [Stop.leaks, unmatched, heldNtpl, ladder]
    · obtain ⟨s₂, stop, hrxInit, hntpl₂, hcases⟩ := rxInit_spec hrx count s₁
      have hdeinit₂ : ntplDeinit env.ntpl s₂.ntpl = some ntpl := by
        rw [hntpl₂]
        exact hdeinit₁
      simp only [hrxInit]
      rcases hcases with ⟨rfl, opened, hlife₂⟩ | ⟨rfl, hlife₂⟩
      · obtain ⟨s', heq, hlife⟩ := @labelDeinitFl_spec env
          (releaseEach .flThread THREAD_FLOW_COUNT s₂) ntpl
          (by rw [releaseEach_ntpl, hdeinit₂])
        simp only [life_releaseEach_eq flThread_injective, hlife₂, hlife₁,
          life_acquire, h _] at hlife
        refine ⟨⟨.rxOpen, env.timestampType, s', none⟩, ?_, fun r => ?_⟩
        · simp only [joinEach_eq, waits_rxOpen, ite_bind, heq,
            Option.bind_eq_bind, ite_and]
        cases r with
        | timer =>
            refine lifeOk_timer rfl rfl ?_
            simp [hlife, ladder, flHeld]
        | flThread i =>
            simp only [LifeOk, hlife]
            by_cases hi : i < THREAD_FLOW_COUNT <;>
              by_cases hzero : env.flThread i = 0 <;>
              simp [Stop.leaks, unmatched, heldNtpl, ladder, flHeld, created, hi,
                hzero]
        | rxStream i =>
            simp only [LifeOk, hlife]
            by_cases hi : i < opened <;>
              simp [Stop.leaks, unmatched, heldNtpl, ladder, flHeld, hi]
        | _ =>
            simp only [LifeOk, hlife]
            simp [Stop.leaks, unmatched, heldNtpl, ladder, flHeld]
      · obtain ⟨s', heq, hlife⟩ := @labelDeinitFl_spec env
          (releaseEach .rxStream count (releaseEach .rxThread count
            (releaseEach .flThread THREAD_FLOW_COUNT s₂))) ntpl
          (by simp only [releaseEach_ntpl, hdeinit₂])
        simp only [life_releaseEach_eq flThread_injective,
          life_releaseEach_eq rxStream_injective,
          life_releaseEach_eq rxThread_injective, hlife₂, hlife₁, life_acquire,
          h _] at hlife
        generalize Option.map _ (mpmcQueueInit _ _) = started
        refine ⟨⟨.finished, 0, s', started⟩, ?_, fun r => ?_⟩
        · have hstreams : o.streamCount.toNat = count := by omega
          simp only [joinEach_eq, waits_finished, ite_bind, heq, hstreams,
            Option.bind_eq_bind, ite_and]
        cases r with
        | timer =>
            refine lifeOk_timer rfl rfl ?_
            simp [hlife, ladder, flHeld, rxHeld]
        | flThread i =>
            simp only [LifeOk, hlife]
            by_cases hi : i < THREAD_FLOW_COUNT <;>
              by_cases hzero : env.flThread i = 0 <;>
              simp [Stop.leaks, unmatched, heldNtpl, ladder, flHeld, rxHeld,
                created, hi, hzero]
        | rxStream i =>
            simp only [LifeOk, hlife]
            by_cases hi : i < count <;>
              simp [Stop.leaks, unmatched, heldNtpl, ladder, flHeld, rxHeld, hi]
        | rxThread i =>
            simp only [LifeOk, hlife]
            by_cases hi : i < count <;>
              by_cases hzero : env.rxThread i = 0 <;>
              simp [Stop.leaks, unmatched, heldNtpl, ladder, flHeld, rxHeld,
                created, ← hcount, hi, hzero]
        | _ =>
            simp only [LifeOk, hlife]
            simp [Stop.leaks, unmatched, heldNtpl, ladder, flHeld, rxHeld]

theorem statsInit_spec (env : Env) (s : Shell) :
    statsInit env s = (s.acquire .timer, true) ∨
      ∃ s', statsInit env s = (s', false) ∧ ∀ r, life r s' = life r s ∨
        r = .timer ∧ life r s' = life r s ++ [.acquire r, .release r] := by
  rw [statsInit]
  split
  · exact Or.inr ⟨s, rfl, fun r => Or.inl rfl⟩
  · split
    · exact Or.inr ⟨s, rfl, fun r => Or.inl rfl⟩
    · split
      · exact Or.inr ⟨s, rfl, fun r => Or.inl rfl⟩
      · split
        · refine Or.inr ⟨_, rfl, fun r => ?_⟩
          cases r <;> simp
        · exact Or.inl rfl

theorem mainNtpl_endsWell {probe : Bool} {streams : List (BitVec 32)}
    (hfl : ∀ i, 0 ≤ env.flThread i) (hrx : ∀ i, 0 ≤ env.rxThread i)
    (hroom : 2 * (15 + env.common.length + env.config.length) ≤ MAX_NTPL)
    (hcount : (streams.length : Int) = o.streamCount)
    (h : Holding s (timers o ++ [.eventFd, .statStream, .infoStream, .ntapi]))
    (hs : s.ntpl = ⟨[], []⟩) :
    EndsWell o env (mainNtpl o env probe streams s) := by
  rw [mainNtpl]
  generalize ntplArgs o env streams = args
  rw [← length_ntplStatements args] at hroom
  split
  · refine endsWell_some rfl fun r => ?_
    cases r with
    | timer =>
        refine lifeOk_timer rfl rfl ?_
        simp [labelDeinitStats, labelDeinitSignal, labelDeinitFs,
          labelDeinitInfo, labelDone, h .timer, heldNtpl]
    | _ =>
        simp [LifeOk, Stop.leaks, unmatched, labelDeinitStats,
          labelDeinitSignal, labelDeinitFs, labelDeinitInfo, labelDone, h _]
  · have hheld : Holding (s.acquire .configStream) (heldNtpl o) :=
      h.acquire (by simp)
    have hempty : (s.acquire .configStream).ntpl = ⟨[], []⟩ := hs
    obtain ⟨ntpl, n, status, hcommon, hsentUpTo, hstop⟩ :=
      ntplCommonApply_spec env.ntpl args env.common env.config (by omega)
    simp only [hempty, hcommon]
    rcases hstop with ⟨rfl, hn, hok⟩ | ⟨rfl, -⟩
    · obtain ⟨ntpl', n, status, happly, hsentUpTo', hstop⟩ :=
        ntplApply_spec hsentUpTo hn hok (by omega)
      obtain ⟨ntpl'', hdeinit, -⟩ := hsentUpTo'.deinit hroom
      simp only [happly]
      rcases hstop with ⟨rfl, -⟩ | ⟨rfl, -⟩
      · exact mainFlows_endsWell hfl hrx hcount hheld hdeinit
      · refine endsWell_deinitNtpl rfl (fun _ => rfl) (fun r hr => ?_) rfl hheld
          hdeinit
        cases r <;> first | rfl | exact absurd rfl hr
    · obtain ⟨ntpl', hdeinit, -⟩ := hsentUpTo.deinit hroom
      refine endsWell_deinitNtpl rfl (fun _ => rfl) (fun r hr => ?_) rfl hheld
        hdeinit
      cases r <;> first | rfl | exact absurd rfl hr

/-- A way that ends before `deinit_stats`. -/
theorem endsWell_of_life {e : MainEnd} (hwaits : e.stop.waits o = [])
    (hdeletes : ∀ r, unmatched o env e.stop r = false)
    (h : ∀ r, if e.stop.leaks r then life r e.shell = [.acquire r]
      else life r e.shell = [] ∨ life r e.shell = [.acquire r, .release r]) :
    EndsWell o env (some e) := by
  refine endsWell_some hwaits fun r => ?_
  rw [LifeOk, hdeletes r]
  exact h r

theorem mainStats_endsWell {probe : Bool} {streams : List (BitVec 32)}
    (hfl : ∀ i, 0 ≤ env.flThread i) (hrx : ∀ i, 0 ≤ env.rxThread i)
    (hroom : 2 * (15 + env.common.length + env.config.length) ≤ MAX_NTPL)
    (hcount : (streams.length : Int) = o.streamCount)
    (h : Holding s [.eventFd, .statStream, .infoStream, .ntapi])
    (hs : s.ntpl = ⟨[], []⟩) :
    EndsWell o env (mainStats o env probe streams s) := by
  rw [mainStats]
  split
  · rename_i hstats
    rcases statsInit_spec env s with hinit | ⟨s', hinit, hlife⟩
    · have hheld := h.acquire (r := .timer) (by simp)
      simp only [hinit]
      cases hstart : env.sigprocmask 1 with
      | false =>
          apply endsWell_of_life rfl
          · intro r
            cases r <;> rfl
          · intro r
            simp only [labelDeinitSignal, labelDeinitFs, labelDeinitInfo,
              labelDone, life_release, hheld r]
            cases r <;> simp [Stop.leaks]
      | true =>
          refine mainNtpl_endsWell hfl hrx hroom hcount ?_ hs
          rw [timers, if_pos hstats]
          exact hheld
    · simp only [hinit]
      apply endsWell_of_life rfl
      · intro r
        cases r <;> rfl
      · intro r
        simp only [labelDeinitSignal, labelDeinitFs, labelDeinitInfo,
          labelDone, life_release]
        have hr := h r
        rcases hlife r with hlife | ⟨rfl, hlife⟩
        · rw [hlife, hr]
          cases r <;> simp [Stop.leaks]
        · rw [hlife, hr]
          simp [Stop.leaks]
  · rename_i hstats
    refine mainNtpl_endsWell hfl hrx hroom hcount ?_ hs
    rw [timers, if_neg hstats]
    exact h

theorem endsWell_deinitFs {stop : Stop} {status : Int}
    (hwaits : stop.waits o = []) (hleaks : ∀ r, stop.leaks r = false)
    (hunmatched : ∀ r, unmatched o env stop r = false)
    (h : Holding s [.statStream, .infoStream, .ntapi]) :
    EndsWell o env (some ⟨stop, status, labelDeinitFs s, none⟩) := by
  apply endsWell_of_life hwaits hunmatched
  intro r
  simp only [hleaks, labelDeinitFs, labelDeinitInfo, labelDone, life_release,
    h r]
  cases r <;> simp

theorem endsWell_deinitInfo {stop : Stop} {status : Int}
    (hwaits : stop.waits o = []) (hleaks : ∀ r, stop.leaks r = false)
    (hunmatched : ∀ r, unmatched o env stop r = false)
    (h : Holding s [.infoStream, .ntapi]) :
    EndsWell o env (some ⟨stop, status, labelDeinitInfo s, none⟩) := by
  apply endsWell_of_life hwaits hunmatched
  intro r
  simp only [hleaks, labelDeinitInfo, labelDone, life_release, h r]
  cases r <;> simp

/-- No more streams are found than were asked for. -/
theorem infoStreamsUnused_le (read : Option (List Nat)) (max : Nat)
    (out : Nat → Nat) : (infoStreamsUnused read max out).1 ≤ max := by
  cases read with
  | none =>
      have hneg : (-1 : Int) ≤ max := by omega
      exact hneg
  | some active =>
      have hmin := Nat.min_le_left max (streamsLeft active.length)
      exact Int.ofNat_le.mpr hmin

theorem signalInit_spec (env : Env) (s : Shell) :
    signalInit env s = (s.acquire .eventFd, env.eventfd) ∧ 0 ≤ env.eventfd ∨
      ∃ efd < 0, signalInit env s = (s, efd) := by
  rw [signalInit]
  split
  · by_cases hnonneg : 0 ≤ env.eventfd
    · exact Or.inl ⟨by rw [if_pos hnonneg], hnonneg⟩
    · exact Or.inr ⟨_, Int.not_le.mp hnonneg, by rw [if_neg hnonneg]⟩
  · exact Or.inr ⟨-1, by decide, rfl⟩

theorem mainOptions_endsWell {probe : Bool}
    (hfl : ∀ i, 0 ≤ env.flThread i) (hrx : ∀ i, 0 ≤ env.rxThread i)
    (hroom : 2 * (15 + env.common.length + env.config.length) ≤ MAX_NTPL)
    (h : Holding s [.statStream, .infoStream, .ntapi])
    (hs : s.ntpl = ⟨[], []⟩) :
    EndsWell o env (mainOptions o env probe s) := by
  have hstop : ∀ {stop : Stop}, stop.waits o = [] → (∀ r, stop.leaks r = false) →
      (∀ r, unmatched o env stop r = false) →
      EndsWell o env (some ⟨stop, env.timestampType, labelDeinitFs s, none⟩) :=
    fun hwaits hleaks hunmatched => endsWell_deinitFs hwaits hleaks hunmatched h
  rw [mainOptions]
  split
  · exact hstop rfl (fun _ => rfl) (fun r => by cases r <;> rfl)
  split
  · exact hstop rfl (fun _ => rfl) (fun r => by cases r <;> rfl)
  split
  · exact hstop rfl (fun _ => rfl) (fun r => by cases r <;> rfl)
  split
  · exact hstop rfl (fun _ => rfl) (fun r => by cases r <;> rfl)
  have hle := infoStreamsUnused_le env.activeStreams o.streamCount.toNat
    env.streams
  generalize infoStreamsUnused env.activeStreams o.streamCount.toNat
    env.streams = unused at *
  obtain ⟨count, streams⟩ := unused
  simp only at hle ⊢
  split
  · exact hstop rfl (fun _ => rfl) (fun r => by cases r <;> rfl)
  split
  · exact hstop rfl (fun _ => rfl) (fun r => by cases r <;> rfl)
  rcases signalInit_spec env s with ⟨hinit, hefd⟩ | ⟨efd, hefd, hinit⟩
  · simp only [hinit, if_neg (Int.not_lt.mpr hefd)]
    refine mainStats_endsWell hfl hrx hroom ?_ (h.acquire (by simp)) hs
    rw [List.length_map, List.length_range]
    omega
  · simp only [hinit, if_pos hefd]
    exact hstop rfl (fun _ => rfl) (fun r => by cases r <;> rfl)

theorem mainAdapter_endsWell
    (hfl : ∀ i, 0 ≤ env.flThread i) (hrx : ∀ i, 0 ≤ env.rxThread i)
    (hroom : 2 * (15 + env.common.length + env.config.length) ≤ MAX_NTPL)
    (h : Holding s [.infoStream, .ntapi]) (hs : s.ntpl = ⟨[], []⟩) :
    EndsWell o env (mainAdapter o env s) := by
  have hheld := h.acquire (r := .statStream) (by simp)
  have hstop : ∀ {stop : Stop} {status : Int}, stop.waits o = [] →
      (∀ r, stop.leaks r = false) →
      (∀ r, unmatched o env stop r = false) →
      EndsWell o env (some ⟨stop, status,
        labelDeinitFs (s.acquire .statStream), none⟩) :=
    fun hwaits hleaks hunmatched => endsWell_deinitFs hwaits hleaks hunmatched hheld
  rw [mainAdapter]
  split
  · exact endsWell_deinitInfo rfl (fun _ => rfl) (fun r => by cases r <;> rfl) h
  simp only
  split
  · apply endsWell_of_life rfl
    · intro r
      cases r <;> rfl
    · intro r
      simp only [labelDeinitInfo, labelDone, life_release, hheld r]
      cases r <;> simp [Stop.leaks]
  split
  · exact hstop rfl (fun _ => rfl) (fun r => by cases r <;> rfl)
  split
  · exact hstop rfl (fun _ => rfl) (fun r => by cases r <;> rfl)
  split
  · exact hstop rfl (fun _ => rfl) (fun r => by cases r <;> rfl)
  split
  · exact hstop rfl (fun _ => rfl) (fun r => by cases r <;> rfl)
  split
  · exact hstop rfl (fun _ => rfl) (fun r => by cases r <;> rfl)
  exact mainOptions_endsWell hfl hrx hroom hheld hs

/-- The defaults with the smallest table and one stream. -/
def smallOptions : Options :=
  ⟨false, false, false, 0, 1, 10#64, 4, 1, 1, 4⟩

/-- Everything succeeds, and stream 0 is in use. -/
def smallEnv : Env where
  vmembits := 48
  ntInit := 0
  infoOpen := true
  numPorts := 2
  portAdapter := fun _ => some 0#32
  statOpen := true
  statRead := fun version => if version = 2 then .notSupported else .success
  property := fun _ => some 1
  timestampType := 3
  timestamp := .unixNanotime
  activeStreams := some [0]
  streams := fun _ => 0
  sigaction := fun _ => true
  eventfd := 3
  statsSigaction := true
  sigprocmask := fun _ => true
  timerCreate := true
  timerSettime := true
  configOpen := true
  pid := 0x1234
  ntpl := fun i => ⟨0, BitVec.ofNat 32 (i + 1)⟩
  common := []
  config := []
  stack := fun _ => '?'
  calloc := fun _ _ => none
  memalign := some fun _ => ⟨0, 0⟩
  flowOpen := true
  flThread := fun _ => 0
  rxOpen := fun _ => true
  rxThread := fun _ => 0
  ends := fun _ => true

end Ntnetflow

end NtapiExamples
