/-
The usage data of the streams as NTAPI reports it, and the loop with which
`bufferProfile` and `hbMonitor` look the streams in use up.
-/
import Mathlib.Algebra.Group.Nat.Defs
import Mathlib.Data.List.Basic
import Mathlib.Data.Nat.Find
import Mathlib.Logic.Function.Basic

namespace NtapiExamples

namespace Ntapi

/-- A host buffer in the usage data of a stream. -/
structure HostBuffer where
  adapterNo : BitVec 32
  numaNode : BitVec 32
  onboardUsed : BitVec 64
  onboardSize : BitVec 64
  enQueuedAdapter : BitVec 64
  deQueued : BitVec 64
  enQueued : BitVec 64
  rxFrames : BitVec 64
  rxBytes : BitVec 64
  dropFrames : BitVec 64

/-- The usage data of a stream. -/
structure Usage where
  numHostBufferUsed : Nat
  hb : Nat → HostBuffer

def MAX_STREAMS : Nat := 256

/-- `(uint8_t) stream_id`. -/
def castId (id : Nat) : Nat := id % 2 ^ 8

theorem castId_of_lt {id : Nat} (hid : id < MAX_STREAMS) : castId id = id :=
  Nat.mod_eq_of_lt hid

/-- What the library reports at one time: the number of streams, and the usage
data for each id of eight bits. -/
structure Snapshot where
  count : Nat
  usage : Nat → Usage

namespace Snapshot

variable (snap : Snapshot)

def isActive (id : Nat) : Bool := decide ((snap.usage id).numHostBufferUsed ≠ 0)

/-- The ids of the streams in use, in increasing order. -/
def active : List Nat := (List.range MAX_STREAMS).filter snap.isActive

theorem mem_active (id : Nat) :
    id ∈ snap.active ↔
      id < MAX_STREAMS ∧ (snap.usage id).numHostBufferUsed ≠ 0 := by
  rw [active, List.mem_filter, List.mem_range, isActive, decide_eq_true_eq]

/-- The count is that of the streams in use, and each of them has one or two
host buffers. -/
structure Valid : Prop where
  count : snap.count = snap.active.length
  buffers : ∀ id, (snap.usage id).numHostBufferUsed ≤ 2

end Snapshot

section Loop

variable {σ : Type} (skip : σ → Nat → Option σ)
  (visit : σ → Nat → Usage → Option σ) (usage : Nat → Usage)

/-- The inner loop: ids are passed over until one is in use.  The id is cast to
eight bits for the query, so that after `MAX_STREAMS` ids all were asked for. -/
def nextStream : Nat → σ → Nat → Option (σ × Nat)
  | 0, _, _ => none
  | fuel + 1, s, id =>
      if (usage (castId id)).numHostBufferUsed = 0 then do
        let s ← skip s id
        nextStream fuel s (id + 1)
      else some (s, id)

/-- The outer loop, once for each stream. -/
def readStreams : Nat → σ → Nat → Option σ
  | 0, s, _ => some s
  | cnt + 1, s, id => do
      let (s, id) ← nextStream skip usage MAX_STREAMS s id
      let s ← visit s id (usage (castId id))
      readStreams cnt s (id + 1)

/-- What the loops do at an id. -/
def atStream (s : σ) (id : Nat) : Option σ :=
  if (usage (castId id)).numHostBufferUsed = 0 then skip s id
  else visit s id (usage (castId id))

variable {skip visit usage}

theorem atStream_unused {s : σ} {id : Nat}
    (hunused : (usage (castId id)).numHostBufferUsed = 0) :
    atStream skip visit usage s id = skip s id :=
  if_pos hunused

theorem atStream_used {s : σ} {id : Nat}
    (hused : (usage (castId id)).numHostBufferUsed ≠ 0) :
    atStream skip visit usage s id = visit s id (usage (castId id)) :=
  if_neg hused

/-- The inner loop passes over the ids in front of the next one in use. -/
theorem nextStream_eq {gap fuel : Nat} (s : σ) (id : Nat)
    (hgap : ∀ j, j < gap → (usage (castId (id + j))).numHostBufferUsed = 0)
    (hused : (usage (castId (id + gap))).numHostBufferUsed ≠ 0)
    (hfuel : gap < fuel) :
    nextStream skip usage fuel s id =
      ((List.range' id gap).foldlM (atStream skip visit usage) s).map
        fun s => (s, id + gap) := by
  induction gap generalizing s id fuel with
  | zero =>
      obtain ⟨fuel, rfl⟩ := Nat.exists_eq_succ_of_ne_zero (by omega :
        fuel ≠ 0)
      rw [Nat.add_zero] at hused
      simp [nextStream, hused]
  | succ gap ih =>
      obtain ⟨fuel, rfl⟩ := Nat.exists_eq_succ_of_ne_zero (by omega :
        fuel ≠ 0)
      have hfirst := hgap 0 (by omega)
      rw [Nat.add_zero] at hfirst
      have hshift : ∀ j, id + 1 + j = id + (j + 1) := by omega
      have hrest : ∀ s, nextStream skip usage fuel s (id + 1) =
          ((List.range' (id + 1) gap).foldlM
            (atStream skip visit usage) s).map fun s => (s, id + (gap + 1)) := by
        intro s
        rw [← hshift gap]
        refine ih s (id + 1) (fun j hj => ?_) ?_ (Nat.lt_of_succ_lt_succ hfuel)
        · rw [hshift]
          exact hgap (j + 1) (by omega)
        · rw [hshift]
          exact hused
      rw [nextStream, if_pos hfirst, List.range'_succ, List.foldlM_cons,
        atStream_unused hfirst]
      cases hskip : skip s id with
      | none => rfl
      | some s' => exact hrest s'

/-- The first id in use from `id` on. -/
theorem exists_gap {id stop : Nat} (hle : id ≤ stop)
    (hused : ((List.range' id (stop - id)).filter fun id =>
      decide ((usage (castId id)).numHostBufferUsed ≠ 0)) ≠ []) :
    ∃ gap, id + gap < stop ∧
      (∀ j, j < gap → (usage (castId (id + j))).numHostBufferUsed = 0) ∧
      (usage (castId (id + gap))).numHostBufferUsed ≠ 0 := by
  obtain ⟨a, ha⟩ := List.exists_mem_of_ne_nil _ hused
  rw [List.mem_filter, List.mem_range'_1, decide_eq_true_eq] at ha
  have hexists : ∃ gap, (usage (castId (id + gap))).numHostBufferUsed ≠ 0 :=
    ⟨a - id, by rw [Nat.add_sub_cancel' ha.1.1]; exact ha.2⟩
  refine ⟨Nat.find hexists, ?_, fun j hj => ?_, Nat.find_spec hexists⟩
  · have hmin : Nat.find hexists ≤ a - id := Nat.find_min' hexists (by
      rw [Nat.add_sub_cancel' ha.1.1]
      exact ha.2)
    omega
  · exact not_not.mp (Nat.find_min hexists hj)

/-- With no more streams than are in use, the loops go through the ids up to some
`stop`, each once, and past that many streams. -/
theorem readStreams_upTo {cnt id : Nat} (hle : id ≤ MAX_STREAMS)
    (hcnt : cnt ≤ ((List.range' id (MAX_STREAMS - id)).filter fun id =>
      decide ((usage (castId id)).numHostBufferUsed ≠ 0)).length) :
    ∃ stop, id ≤ stop ∧ stop ≤ MAX_STREAMS ∧
      ((List.range' id (stop - id)).filter fun id =>
        decide ((usage (castId id)).numHostBufferUsed ≠ 0)).length = cnt ∧
      ∀ s, readStreams skip visit usage cnt s id =
        (List.range' id (stop - id)).foldlM (atStream skip visit usage) s := by
  induction cnt generalizing id with
  | zero =>
      refine ⟨id, Nat.le_refl _, hle, ?_, fun s => ?_⟩
      · rw [Nat.sub_self]
        rfl
      · rw [Nat.sub_self]
        rfl
  | succ cnt ih =>
      obtain ⟨gap, hlt, hgap, hused⟩ := exists_gap hle (by
        intro hnil
        rw [hnil] at hcnt
        exact absurd hcnt (by simp))
      -- the ids in front of the next stream, the stream, and the rest
      have hsplit : ∀ stop, id + gap < stop →
          List.range' id (stop - id) = List.range' id gap ++
            (id + gap) :: List.range' (id + gap + 1)
              (stop - (id + gap + 1)) := by
        intro stop hstop
        have hlen : stop - id = gap + (1 + (stop - (id + gap + 1))) := by
          omega
        rw [hlen, ← List.range'_append_1, Nat.add_comm 1, List.range'_succ]
      have hnone : (List.range' id gap).filter (fun id =>
          decide ((usage (castId id)).numHostBufferUsed ≠ 0)) = [] := by
        rw [List.filter_eq_nil_iff]
        intro i hi
        rw [List.mem_range'_1] at hi
        obtain ⟨j, rfl⟩ := Nat.exists_eq_add_of_le hi.1
        simp [hgap j (by omega)]
      have hcount : ∀ stop, id + gap < stop →
          ((List.range' id (stop - id)).filter fun id =>
            decide ((usage (castId id)).numHostBufferUsed ≠ 0)).length =
          ((List.range' (id + gap + 1) (stop - (id + gap + 1))).filter fun id =>
            decide ((usage (castId id)).numHostBufferUsed ≠ 0)).length + 1 := by
        intro stop hstop
        rw [hsplit stop hstop, List.filter_append, hnone, List.nil_append,
          List.filter_cons_of_pos (by simpa using hused), List.length_cons]
      rw [hcount _ hlt] at hcnt
      obtain ⟨stop, hlow, hhigh, hrest, hread⟩ :=
        @ih (id + gap + 1) (by omega) (by omega)
      refine ⟨stop, by omega, hhigh, by rw [hcount stop hlow, hrest],
        fun s => ?_⟩
      have hnext := @nextStream_eq σ skip visit usage gap MAX_STREAMS s id hgap
        hused (by omega)
      rw [readStreams, hnext, hsplit stop hlow, List.foldlM_append]
      cases (List.range' id gap).foldlM (atStream skip visit usage) s with
      | none => rfl
      | some s' =>
          simp only [Option.map_some, Option.bind_eq_bind, Option.bind_some,
            List.foldlM_cons, atStream_used hused]
          cases visit s' (id + gap) (usage (castId (id + gap))) with
          | none => rfl
          | some s' => exact hread s'

/-- With the number of streams in use, there is none behind `stop`. -/
theorem readStreams_eq {cnt id : Nat} (hle : id ≤ MAX_STREAMS)
    (hcnt : ((List.range' id (MAX_STREAMS - id)).filter fun id =>
      decide ((usage (castId id)).numHostBufferUsed ≠ 0)).length = cnt) :
    ∃ stop, id ≤ stop ∧ stop ≤ MAX_STREAMS ∧
      (∀ i, stop ≤ i → i < MAX_STREAMS →
        (usage (castId i)).numHostBufferUsed = 0) ∧
      ∀ s, readStreams skip visit usage cnt s id =
        (List.range' id (stop - id)).foldlM (atStream skip visit usage) s := by
  obtain ⟨stop, hlow, hhigh, hlength, hread⟩ :=
    @readStreams_upTo σ skip visit usage cnt id hle (Nat.le_of_eq hcnt.symm)
  refine ⟨stop, hlow, hhigh, fun i hi hmax => ?_, hread⟩
  have hsplit : List.range' id (MAX_STREAMS - id) =
      List.range' id (stop - id) ++ List.range' stop (MAX_STREAMS - stop) := by
    have hparts := @List.range'_append_1 id (stop - id) (MAX_STREAMS - stop)
    rw [show id + (stop - id) = stop by omega,
      show stop - id + (MAX_STREAMS - stop) = MAX_STREAMS - id by omega] at hparts
    exact hparts.symm
  rw [hsplit, List.filter_append, List.length_append, hlength,
    Nat.add_eq_left, List.length_eq_zero_iff, List.filter_eq_nil_iff] at hcnt
  have hnot := hcnt i (List.mem_range'_1.mpr ⟨hi, by omega⟩)
  rw [decide_eq_true_eq] at hnot
  exact not_not.mp hnot

end Loop

/-- On a snapshot with the right count, the loops go through all ids below some
`stop` that has no stream in use behind it. -/
theorem Snapshot.readStreams_eq {σ : Type} {snap : Snapshot}
    (hcount : snap.count = snap.active.length) (skip : σ → Nat → Option σ)
    (visit : σ → Nat → Usage → Option σ) :
    ∃ stop, stop ≤ MAX_STREAMS ∧
      (∀ id, id ∈ snap.active ↔
        id < stop ∧ (snap.usage id).numHostBufferUsed ≠ 0) ∧
      ∀ s, readStreams skip visit snap.usage snap.count s 0 =
        (List.range stop).foldlM (atStream skip visit snap.usage) s := by
  have hcnt : ((List.range' 0 MAX_STREAMS).filter fun id =>
      decide ((snap.usage (castId id)).numHostBufferUsed ≠ 0)).length =
        snap.count := by
    rw [hcount, ← List.range_eq_range', active]
    refine congrArg List.length (List.filter_congr fun id hid => ?_)
    rw [isActive, castId_of_lt (List.mem_range.mp hid)]
  obtain ⟨stop, -, hstop, hunused, hread⟩ :=
    @Ntapi.readStreams_eq σ skip visit snap.usage _ 0 (Nat.zero_le _) hcnt
  refine ⟨stop, hstop, fun id => ?_, fun s => ?_⟩
  · rw [mem_active]
    refine ⟨fun h => ⟨?_, h.2⟩, fun h => ⟨by omega, h.2⟩⟩
    by_contra hge
    have hfree := hunused id (by omega) h.1
    rw [castId_of_lt h.1] at hfree
    exact h.2 hfree
  · rw [hread, Nat.sub_zero, ← List.range_eq_range']

/-- A loop gets through when each of its rounds does, whatever the state. -/
theorem foldlM_isSome_iff {σ : Type} {step : σ → Nat → Option σ}
    {ok : Nat → Prop} (hstep : ∀ s j, (step s j).isSome ↔ ok j) (n : Nat)
    (s : σ) :
    ((List.range n).foldlM step s).isSome ↔ ∀ j, j < n → ok j := by
  induction n with
  | zero => simp
  | succ n ih =>
      rw [List.range_succ, List.foldlM_append]
      cases hmid : (List.range n).foldlM step s with
      | none =>
          rw [hmid, Option.isSome_none] at ih
          simp only [Option.bind_eq_bind, Option.bind_none, Option.isSome_none,
            Bool.false_eq_true, false_iff]
          intro hall
          exact absurd (ih.mpr fun j hj => hall j (by omega)) (by decide)
      | some mid =>
          rw [hmid, Option.isSome_some, eq_self, true_iff] at ih
          simp only [Option.bind_eq_bind, Option.bind_some, List.foldlM_cons,
            List.foldlM_nil, Option.pure_def, Option.bind_fun_some, hstep]
          constructor
          · intro hn j hj
            by_cases hjn : j = n
            · rw [hjn]
              exact hn
            · exact ih j (by omega)
          · intro hall
            exact hall n (Nat.lt_succ_self n)

theorem mapM_range_succ {α : Type} (f : Nat → Option α) {n : Nat}
    {levels : List α} {level : α} (hlevels : (List.range n).mapM f = some levels)
    (hlevel : f n = some level) :
    (List.range (n + 1)).mapM f = some (levels ++ [level]) := by
  rw [List.range_succ, List.mapM_append, hlevels]
  simp [hlevel]

/-- A pass over an array that gives each entry below `n` its new value. -/
theorem foldlM_update {T : Type} (f : Nat → T → Option T) (n : Nat)
    (st st' : Nat → T) :
    (List.range n).foldlM
        (fun st i => (f i (st i)).map (Function.update st i)) st = some st' ↔
      (∀ i, i < n → f i (st i) = some (st' i)) ∧
        ∀ i, n ≤ i → st' i = st i := by
  induction n generalizing st' with
  | zero =>
      simp only [List.range_zero, List.foldlM_nil, Option.pure_def,
        Option.some.injEq, Nat.not_lt_zero, false_implies, implies_true,
        true_and, Nat.zero_le, true_implies]
      exact ⟨fun h i => by rw [h], fun h => (funext h).symm⟩
  | succ n ih =>
      rw [List.range_succ, List.foldlM_append]
      simp only [Option.bind_eq_bind, Option.bind_eq_some_iff, ih,
        List.foldlM_cons, List.foldlM_nil, Option.pure_def, Option.map_eq_some_iff]
      constructor
      · rintro ⟨mid, ⟨hbelow, habove⟩, _, ⟨t, ht, rfl⟩, hst'⟩
        rw [habove n (Nat.le_refl _)] at ht
        cases hst'
        refine ⟨fun i hi => ?_, fun i hi => ?_⟩
        · by_cases hin : i = n
          · rw [hin, Function.update_self, ht]
          · rw [Function.update_of_ne hin]
            exact hbelow i (by omega)
        · rw [Function.update_of_ne (by omega)]
          exact habove i (by omega)
      · rintro ⟨hbelow, habove⟩
        refine ⟨Function.update st' n (st n), ⟨fun i hi => ?_, fun i hi => ?_⟩,
          st', ⟨st' n, ?_, ?_⟩, rfl⟩
        · rw [Function.update_of_ne (by omega)]
          exact hbelow i (by omega)
        · by_cases hin : i = n
          · rw [hin, Function.update_self]
          · rw [Function.update_of_ne hin]
            exact habove i (by omega)
        · rw [Function.update_self]
          exact hbelow n (Nat.lt_succ_self n)
        · rw [Function.update_idem, Function.update_eq_self]

/-- The same with a flag that the new values may raise. -/
theorem foldlM_update_any {T : Type} (f : Nat → T → Option T)
    (raises : Nat → T → Bool) (n : Nat) (st : Nat → T) (flag : Bool) :
    (List.range n).foldlM
        (fun (s : (Nat → T) × Bool) i => (f i (s.1 i)).map fun t =>
          (Function.update s.1 i t, s.2 || raises i t)) (st, flag) =
      ((List.range n).foldlM
        (fun st i => (f i (st i)).map (Function.update st i)) st).map
          fun st' =>
            (st', flag || (List.range n).any fun i => raises i (st' i)) := by
  induction n with
  | zero => simp
  | succ n ih =>
      rw [List.range_succ, List.foldlM_append, List.foldlM_append, ih]
      cases (List.range n).foldlM
        (fun st i => (f i (st i)).map (Function.update st i)) st with
      | none => rfl
      | some mid =>
          simp only [Option.map_some, Option.bind_eq_bind, Option.bind_some,
            List.foldlM_cons, List.foldlM_nil, Option.pure_def]
          cases hn : f n (mid n) with
          | none => rfl
          | some t =>
              have hbelow : (List.range n).any (fun i => raises i
                  (Function.update mid n t i)) =
                    (List.range n).any fun i => raises i (mid i) := by
                rw [Bool.eq_iff_iff, List.any_eq_true, List.any_eq_true]
                refine exists_congr fun i => and_congr_right fun hi => ?_
                rw [Function.update_of_ne
                  (Nat.ne_of_lt (List.mem_range.mp hi))]
              simp [hbelow, Bool.or_assoc]

end Ntapi

end NtapiExamples
