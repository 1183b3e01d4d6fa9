/-
The program queue is first in, first out, and holds no more than its capacity:
in every order of the steps of its threads, the compare-and-swaps of the
producers and the reads of the consumer are a history of a bounded queue.
-/
import NtapiExamples.Ntnetflow.MpmcHistory
import NtapiExamples.Ntnetflow.MpmcWait

namespace NtapiExamples

namespace Ntnetflow

def QueuePc.storing : QueuePc → Bool
  | .store _ _ => true
  | _ => false

/-- The thread works on no position. -/
def QueuePc.away : QueuePc → Bool
  | .test _ _ => false
  | .swap _ _ => false
  | .store _ _ => false
  | _ => true

/-- A counter that a thread saw: only the consumer moves `head`. -/
def CounterSeen (h : QueueHistory) (t : QueueThread) (seen : Nat) : Prop :=
  seen ≤ h.counter t.side ∧ (t = .consumer → seen = h.counter t.side)

/-- What a thread knows of the position `seen` it works on. -/
def ThreadSeen (q : MpmcQueue) (h : QueueHistory) (t : QueueThread)
    (seen : Nat) (data : BitVec 64) : QueuePc → Prop
  | .test _ position =>
      position = BitVec.ofNat 32 seen ∧ CounterSeen h t seen
  | .swap _ position =>
      position = BitVec.ofNat 32 seen ∧ CounterSeen h t seen ∧
        (seen = h.counter t.side → q.ready t.side position = true)
  | .store _ position =>
      position = BitVec.ofNat 32 seen ∧
        match t with
        | .producer _ =>
            h.taken ≤ seen ∧ (q.slot seen).sequence = position ∧
              h.pushed[seen]? = some data
        | .consumer =>
            seen = h.pulled.length ∧ h.taken = h.pulled.length + 1
  | _ => True

/-- The cell of a position holds its element. -/
def Published (q : MpmcQueue) (p : Nat) (value : BitVec 64) : Prop :=
  q.slot p = ⟨BitVec.ofNat 32 (p + 1), value⟩

/-- A producer has claimed the cell of a position and not stored to it. -/
def Claimed (x : QueueRun) (p : Nat) : Prop :=
  (x.sys.queue.slot p).sequence = BitVec.ofNat 32 p ∧
    ∃ i, (x.sys.pc (.producer i)).storing = true ∧
      x.history.seen (.producer i) = p

/-- The cells from the first one that was not pulled on, for one turn of the
ring: published or claimed up to `tail`, and free from there. -/
structure FifoInv (n : Nat) (x : QueueRun) : Prop where
  ring : x.sys.queue.PowerRing
  capacity : x.sys.queue.capacity = n
  tail : x.sys.queue.tail = BitVec.ofNat 32 x.history.pushed.length
  head : x.sys.queue.head = BitVec.ofNat 32 x.history.taken
  taken_le : x.history.taken ≤ x.history.pushed.length
  free : ∀ p, x.history.pushed.length ≤ p →
    p < x.history.pulled.length + x.sys.queue.capacity →
    (x.sys.queue.slot p).sequence = BitVec.ofNat 32 p
  live : ∀ p value, x.history.pulled.length ≤ p →
    x.history.pushed[p]? = some value →
    Published x.sys.queue p value ∨ x.history.taken ≤ p ∧ Claimed x p
  threads : ∀ t, ThreadSeen x.sys.queue x.history t (x.history.seen t)
    (x.sys.data t) (x.sys.pc t)
  unique : ∀ i j, (x.sys.pc (.producer i)).storing = true →
    (x.sys.pc (.producer j)).storing = true →
    x.history.seen (.producer i) = x.history.seen (.producer j) → i = j
  idle : (x.sys.pc .consumer).storing = false →
    x.history.taken = x.history.pulled.length
  history : ∃ contents, FifoHistory x.sys.queue.capacity x.history.trace contents

variable {x : QueueRun} {s s' : QueueSys} {h h' : QueueHistory}
  {t : QueueThread} {q : MpmcQueue} {n p : Nat}

theorem exists_store_of_storing {pc : QueuePc} (hstoring : pc.storing = true) :
    ∃ attempt position, pc = .store attempt position := by
  cases pc with
  | store attempt position => exact ⟨attempt, position, rfl⟩
  | _ => simp [QueuePc.storing] at hstoring

theorem ThreadSeen.of_away {pc : QueuePc} {seen : Nat} {data : BitVec 64}
    (haway : pc.away = true) : ThreadSeen q h t seen data pc := by
  cases pc <;> trivial

theorem storing_of_away {pc : QueuePc} (haway : pc.away = true) :
    pc.storing = false := by
  cases pc <;> first | rfl | simp [QueuePc.away] at haway

theorem FifoInv.pulled_le (hinv : FifoInv n x) :
    x.history.pulled.length ≤ x.history.taken := by
  cases hstoring : (x.sys.pc .consumer).storing with
  | false => exact (hinv.idle hstoring).ge
  | true =>
      obtain ⟨attempt, position, hpc⟩ := exists_store_of_storing hstoring
      have hseen := hinv.threads .consumer
      rw [hpc] at hseen
      have htaken := hseen.2.2
      omega

theorem FifoInv.contents (hinv : FifoInv n x) :
    FifoHistory x.sys.queue.capacity x.history.trace
      (x.history.pushed.drop x.history.pulled.length) := by
  obtain ⟨contents, hhistory⟩ := hinv.history
  have heq := hhistory.contents_eq
  rw [heq] at hhistory
  exact hhistory

theorem FifoInv.pushed_le (hinv : FifoInv n x) :
    x.history.pushed.length ≤
      x.history.pulled.length + x.sys.queue.capacity := by
  have hbound := hinv.contents.balance.2
  rw [List.length_drop] at hbound
  omega

/-- A producer that stores works on a claimed position. -/
theorem FifoInv.storing (hinv : FifoInv n x) {i : Nat}
    (hstoring : (x.sys.pc (.producer i)).storing = true) :
    x.history.taken ≤ x.history.seen (.producer i) ∧
      (x.sys.queue.slot (x.history.seen (.producer i))).sequence =
        BitVec.ofNat 32 (x.history.seen (.producer i)) ∧
      x.history.pushed[x.history.seen (.producer i)]? =
        some (x.sys.data (.producer i)) := by
  obtain ⟨attempt, position, hpc⟩ := exists_store_of_storing hstoring
  have hseen := hinv.threads (.producer i)
  rw [hpc] at hseen
  obtain ⟨rfl, hseen⟩ := hseen
  exact hseen

theorem ready_push_iff (q : MpmcQueue) (p : Nat) :
    q.ready .push (BitVec.ofNat 32 p) = true ↔
      (q.slot p).sequence = BitVec.ofNat 32 p := by
  rw [MpmcQueue.ready, beq_iff_eq, MpmcQueue.wanted, MpmcQueue.slot]
  constructor
  · intro hzero
    bv_omega
  · intro hsequence
    rw [hsequence]
    exact BitVec.sub_self _

theorem ready_pull_iff (q : MpmcQueue) (p : Nat) :
    q.ready .pull (BitVec.ofNat 32 p) = true ↔
      (q.slot p).sequence = BitVec.ofNat 32 (p + 1) := by
  rw [MpmcQueue.ready, beq_iff_eq, MpmcQueue.wanted, MpmcQueue.slot]
  have hsucc : BitVec.ofNat 32 (p + 1) = BitVec.ofNat 32 p + 1 := by
    apply BitVec.eq_of_toNat_eq
    simp [BitVec.toNat_add]
  rw [hsucc]
  constructor
  · intro hzero
    bv_omega
  · intro hsequence
    rw [hsequence]
    exact BitVec.sub_self _

/-- The sequence number of a live position is its own or the next. -/
theorem FifoInv.live_sequence (hinv : FifoInv n x) {value : BitVec 64}
    (hle : x.history.pulled.length ≤ p)
    (hget : x.history.pushed[p]? = some value) :
    (x.sys.queue.slot p).sequence = BitVec.ofNat 32 p ∨
      (x.sys.queue.slot p).sequence = BitVec.ofNat 32 (p + 1) := by
  rcases hinv.live p value hle hget with hpublished | ⟨-, hclaimed, -⟩
  · right
    rw [hpublished]
  · exact Or.inl hclaimed

/-- With every cell in use, the cell at `tail` is still that of the first
element. -/
theorem FifoInv.slot_full (hinv : FifoInv n x)
    (hfull : x.history.pushed.length =
      x.history.pulled.length + x.sys.queue.capacity) :
    (x.sys.queue.slot x.history.pushed.length).sequence =
        BitVec.ofNat 32 x.history.pulled.length ∨
      (x.sys.queue.slot x.history.pushed.length).sequence =
        BitVec.ofNat 32 (x.history.pulled.length + 1) := by
  have hcap := hinv.ring.two_le
  have hlt : x.history.pulled.length < x.history.pushed.length := by omega
  rw [hfull, slot_add_capacity hinv.ring]
  exact hinv.live_sequence le_rfl (List.getElem?_eq_getElem hlt)

/-- A free cell at `tail`: the queue is not full. -/
theorem FifoInv.ready_push (hinv : FifoInv n x)
    (hready : x.sys.queue.ready .push
      (BitVec.ofNat 32 x.history.pushed.length) = true) :
    x.history.pushed.length <
      x.history.pulled.length + x.sys.queue.capacity := by
  rw [ready_push_iff] at hready
  have hcap := hinv.ring.two_le
  have hmax := hinv.ring.le
  rcases Nat.lt_or_ge x.history.pushed.length
    (x.history.pulled.length + x.sys.queue.capacity) with hlt | hge
  · exact hlt
  · have hfull := Nat.le_antisymm hinv.pushed_le hge
    rcases hinv.slot_full hfull with hslot | hslot
    · rw [hslot] at hready
      have heq := ofNat_inj_of_lt (by omega) (by omega) hready
      omega
    · rw [hslot] at hready
      have heq := ofNat_inj_of_lt (by omega) (by omega) hready
      omega

/-- A published cell at `head`: it holds the next element. -/
theorem FifoInv.ready_pull (hinv : FifoInv n x)
    (hidle : (x.sys.pc .consumer).storing = false)
    (hready : x.sys.queue.ready .pull
      (BitVec.ofNat 32 x.history.taken) = true) :
    ∃ value, x.history.pushed[x.history.taken]? = some value ∧
      Published x.sys.queue x.history.taken value := by
  rw [ready_pull_iff] at hready
  have htaken := hinv.idle hidle
  have hcap := hinv.ring.two_le
  rcases Nat.lt_or_ge x.history.taken x.history.pushed.length with hlt | hge
  · have hget := List.getElem?_eq_getElem hlt
    rcases hinv.live _ _ htaken.ge hget with hpublished | ⟨-, hclaimed, -⟩
    · exact ⟨_, hget, hpublished⟩
    · rw [hclaimed] at hready
      have heq := ofNat_inj_of_lt (by omega) (by omega) hready
      omega
  · have hfree := hinv.free x.history.taken hge (by omega)
    rw [hfree] at hready
    have heq := ofNat_inj_of_lt (by omega) (by omega) hready
    omega

/-- A thread is where it was, or moves between places outside the store. -/
def ThreadMoves (x x' : QueueRun) (t : QueueThread) : Prop :=
  (x'.sys.pc t = x.sys.pc t ∧ x'.sys.data t = x.sys.data t ∧
      x'.history.seen t = x.history.seen t) ∨
    ((x.sys.pc t).storing = false ∧ (x'.sys.pc t).storing = false ∧
      ThreadSeen x'.sys.queue x'.history t (x'.history.seen t)
        (x'.sys.data t) (x'.sys.pc t))

theorem FifoInv.quiet (hinv : FifoInv n ⟨s, h⟩) {waitEmpty waitFull : BitVec 32}
    (hqueue : s'.queue =
      { s.queue with waitEmpty := waitEmpty, waitFull := waitFull })
    (htaken : h'.taken = h.taken) (htrace : h'.trace = h.trace)
    (hmoves : ∀ t, ThreadMoves ⟨s, h⟩ ⟨s', h'⟩ t) : FifoInv n ⟨s', h'⟩ := by
  obtain ⟨queue', appRunning', sleepers', pc', data', main', publisher'⟩ := s'
  obtain ⟨seen', taken', trace'⟩ := h'
  simp only at hqueue htaken htrace
  subst hqueue htaken htrace
  have hstoring : ∀ t, (pc' t).storing = true →
      (s.pc t).storing = true ∧ seen' t = h.seen t := by
    intro t hpc
    rcases hmoves t with ⟨hsame, -, hseen⟩ | ⟨-, hnot, -⟩
    · exact ⟨(congrArg QueuePc.storing hsame).symm.trans hpc, hseen⟩
    · exact absurd hpc (by rw [hnot]; exact Bool.false_ne_true)
  have hkept : ∀ t, (s.pc t).storing = true →
      (pc' t).storing = true ∧ seen' t = h.seen t := by
    intro t hpc
    rcases hmoves t with ⟨hsame, -, hseen⟩ | ⟨hnot, -, -⟩
    · exact ⟨(congrArg QueuePc.storing hsame).trans hpc, hseen⟩
    · exact absurd hpc (by rw [hnot]; exact Bool.false_ne_true)
  refine ⟨hinv.ring, hinv.capacity, hinv.tail, hinv.head, hinv.taken_le, hinv.free, ?_, ?_, ?_,
    ?_, hinv.history⟩
  · intro p value hle hget
    rcases hinv.live p value hle hget with
      hpublished | ⟨hle, hsequence, i, hi, hseen⟩
    · exact Or.inl hpublished
    · obtain ⟨hpc, hsame⟩ := hkept (.producer i) hi
      exact Or.inr ⟨hle, hsequence, i, hpc, hsame.trans hseen⟩
  · intro t
    rcases hmoves t with ⟨hpc, hdata, hseen⟩ | ⟨-, -, hthread⟩
    · have hthread := hinv.threads t
      simp only at hpc hdata hseen hthread ⊢
      rw [hpc, hdata, hseen]
      revert hthread
      cases t <;> cases s.pc _ <;> exact id
    · exact hthread
  · intro i j hi hj heq
    obtain ⟨hi, hseeni⟩ := hstoring _ hi
    obtain ⟨hj, hseenj⟩ := hstoring _ hj
    exact hinv.unique i j hi hj (hseeni.symm.trans (heq.trans hseenj))
  · intro hnot
    apply hinv.idle
    cases hpc : (s.pc .consumer).storing with
    | false => rfl
    | true => exact (hkept .consumer hpc).1.symm.trans hnot

/-- An element more does not matter to the threads that did not push it. -/
theorem ThreadSeen.pushMore {seen : Nat} {data value : BitVec 64}
    {pc : QueuePc} (hthread : ThreadSeen q h t seen data pc)
    (hpushed : h'.pushed = h.pushed ++ [value]) (hpulled : h'.pulled = h.pulled)
    (htaken : h'.taken = h.taken) : ThreadSeen q h' t seen data pc := by
  have hlength : h'.pushed.length = h.pushed.length + 1 := by
    rw [hpushed]
    exact List.length_append
  cases t with
  | consumer =>
      revert hthread
      cases pc <;> simp only [ThreadSeen, CounterSeen, QueueHistory.counter,
        QueueThread.side, hpulled, htaken] <;> exact id
  | producer j =>
      have hseen : CounterSeen h (.producer j) seen →
          CounterSeen h' (.producer j) seen ∧ seen ≠ h'.pushed.length := by
        intro hcounter
        have hle : seen ≤ h.pushed.length := hcounter.1
        refine ⟨⟨?_, nofun⟩, by omega⟩
        change seen ≤ h'.pushed.length
        omega
      cases pc <;> try exact hthread
      case test => exact ⟨hthread.1, (hseen hthread.2).1⟩
      case swap =>
        obtain ⟨hposition, hcounter, -⟩ := hthread
        exact ⟨hposition, (hseen hcounter).1,
          fun heq => absurd heq (hseen hcounter).2⟩
      case store =>
        obtain ⟨hposition, hle, hsequence, hget⟩ := hthread
        refine ⟨hposition, htaken.trans_le hle, hsequence, ?_⟩
        rw [hpushed, List.getElem?_append_left]
        · exact hget
        · exact (List.getElem?_eq_some_iff.mp hget).1

/-- A cell that a thread does not work on can change: its test stays good, and
so does the cell it claimed. -/
theorem ThreadSeen.cellChange {q' : MpmcQueue} {seen : Nat}
    {data : BitVec 64} {pc : QueuePc} (hthread : ThreadSeen q h t seen data pc)
    (hpushed : h'.pushed = h.pushed) (htaken : h'.taken = h.taken)
    (hpulled : t = .consumer → h'.pulled = h.pulled)
    (hready : seen = h.counter t.side →
      q.ready t.side (BitVec.ofNat 32 seen) = true → pc.storing = false →
      q'.ready t.side (BitVec.ofNat 32 seen) = true)
    (hslot : ∀ value, t ≠ .consumer → pc.storing = true → h.taken ≤ seen →
      h.pushed[seen]? = some value → q'.slot seen = q.slot seen) :
    ThreadSeen q' h' t seen data pc := by
  have hcounter : h'.counter t.side = h.counter t.side := by
    cases t with
    | consumer => exact htaken
    | producer i => exact congrArg List.length hpushed
  have hseen : CounterSeen h t seen → CounterSeen h' t seen := by
    rw [CounterSeen, CounterSeen, hcounter]
    exact id
  cases pc <;> try trivial
  case test => exact ⟨hthread.1, hseen hthread.2⟩
  case swap =>
    obtain ⟨rfl, hcounterSeen, hwas⟩ := hthread
    refine ⟨rfl, hseen hcounterSeen, fun heq => ?_⟩
    rw [hcounter] at heq
    exact hready heq (hwas heq) rfl
  case store =>
    obtain ⟨rfl, hthread⟩ := hthread
    cases t with
    | consumer =>
        refine ⟨rfl, ?_⟩
        simp only [hpulled rfl, htaken]
        exact hthread
    | producer i =>
        obtain ⟨hle, hsequence, hget⟩ := hthread
        refine ⟨rfl, htaken.trans_le hle, ?_, hpushed ▸ hget⟩
        rw [hslot _ (by simp) rfl hle hget]
        exact hsequence

/-- The other threads of a step of one thread. -/
theorem setPc_pc_of_ne (s : QueueSys) {u : QueueThread} (hne : u ≠ t)
    (pc : QueuePc) : (s.setPc t pc).pc u = s.pc u :=
  Function.update_of_ne hne _ _

theorem ofNat_succ (p : Nat) :
    BitVec.ofNat 32 p + 1 = BitVec.ofNat 32 (p + 1) := by
  apply BitVec.eq_of_toNat_eq
  simp [BitVec.toNat_add]

/-- The sequence number the consumer stores frees the cell for one turn
later. -/
theorem released_pull (q : MpmcQueue) (p : Nat) :
    q.released .pull (BitVec.ofNat 32 p) =
      BitVec.ofNat 32 (p + q.capacity) := by
  apply BitVec.eq_of_toNat_eq
  simp only [MpmcQueue.released, MpmcQueue.capacity, BitVec.toNat_add,
    BitVec.toNat_ofNat, BitVec.ofNat_eq_ofNat]
  omega

/-- A producer claims the cell at `tail`. -/
theorem FifoInv.claim (hinv : FifoInv n ⟨s, h⟩) {i : Nat} {attempt : QueueTry}
    {position : BitVec 32} (hpc : s.pc (.producer i) = .swap attempt position)
    (hseen : h.seen (.producer i) = h.pushed.length) :
    FifoInv n ⟨{ s with queue := s.queue.setPosition (position + 1) .push }.setPc
        (.producer i) (.store attempt position),
      { h with trace := h.trace ++ [.push (s.data (.producer i))] }⟩ := by
  have hthread := hinv.threads (.producer i)
  simp only at hthread
  rw [hpc, hseen] at hthread
  obtain ⟨rfl, -, hready⟩ := hthread
  have hready := hready rfl
  have hlt := hinv.ready_push hready
  simp only at hlt
  rw [QueueThread.side, ready_push_iff] at hready
  have hpushed : QueueHistory.pushed
      { h with trace := h.trace ++ [.push (s.data (.producer i))] } =
        h.pushed ++ [s.data (.producer i)] := fifoPushes_append _ _
  have hpulled : QueueHistory.pulled
      { h with trace := h.trace ++ [.push (s.data (.producer i))] } =
        h.pulled := (fifoPulls_append _ _).trans (List.append_nil _)
  have hlength : (h.pushed ++ [s.data (.producer i)]).length =
      h.pushed.length + 1 := List.length_append
  have hother : ∀ u, (s.pc u).storing = true → (Function.update s.pc
      (.producer i) (.store attempt (BitVec.ofNat 32 h.pushed.length))
        u).storing = true := by
    intro u hu
    by_cases hui : u = .producer i
    · rw [hui, Function.update_self]
      rfl
    · rwa [Function.update_of_ne hui]
  refine ⟨hinv.ring, hinv.capacity, ?_, hinv.head, ?_, ?_, ?_, ?_, ?_, ?_, ?_⟩
  · simp only [hpushed, hlength]
    exact ofNat_succ _
  · simp only [hpushed, hlength]
    exact Nat.le_succ_of_le hinv.taken_le
  · simp only [hpushed, hpulled, hlength]
    exact fun p hp => hinv.free p (Nat.le_of_succ_le hp)
  · simp only [hpushed, hpulled]
    intro p value hle hget
    rcases Nat.lt_or_ge p h.pushed.length with hold | hnew
    · rw [List.getElem?_append_left hold] at hget
      rcases hinv.live p value hle hget with
        hpublished | ⟨htaken, hsequence, j, hj, hseenj⟩
      · exact Or.inl hpublished
      · exact Or.inr ⟨htaken, hsequence, j, hother _ hj, hseenj⟩
    · have hp : p = h.pushed.length := by
        have hbound := (List.getElem?_eq_some_iff.mp hget).1
        rw [hlength] at hbound
        omega
      subst hp
      refine Or.inr ⟨hinv.taken_le, hready, i, ?_, hseen⟩
      simp only
      rw [setPc_pc_self]
      rfl
  · intro u
    change ThreadSeen _ _ u (h.seen u) (s.data u) (Function.update s.pc _ _ u)
    by_cases hu : u = .producer i
    · subst hu
      rw [Function.update_self, hseen]
      refine ⟨rfl, hinv.taken_le, hready, ?_⟩
      rw [hpushed, List.getElem?_append_right le_rfl, Nat.sub_self]
      rfl
    · rw [Function.update_of_ne hu]
      exact (hinv.threads u).pushMore hpushed hpulled rfl
  · intro j k hj hk heq
    change (Function.update s.pc _ _ (.producer j)).storing = true at hj
    change (Function.update s.pc _ _ (.producer k)).storing = true at hk
    have hbelow : ∀ j, j ≠ i → (Function.update s.pc (.producer i)
        (.store attempt (BitVec.ofNat 32 h.pushed.length))
          (.producer j)).storing = true →
        h.seen (.producer j) < h.pushed.length := by
      intro j hne hstoring
      rw [Function.update_of_ne (by simpa using hne)] at hstoring
      exact (List.getElem?_eq_some_iff.mp (hinv.storing hstoring).2.2).1
    by_cases hji : j = i
    · by_cases hki : k = i
      · rw [hji, hki]
      · have hlt := hbelow k hki hk
        rw [hji] at heq
        simp only at heq
        omega
    · by_cases hki : k = i
      · have hlt := hbelow j hji hj
        rw [hki] at heq
        simp only at heq
        omega
      · rw [Function.update_of_ne (by simpa using hji)] at hj
        rw [Function.update_of_ne (by simpa using hki)] at hk
        exact hinv.unique j k hj hk heq
  · intro hidle
    simp only [hpulled]
    exact hinv.idle hidle
  · have hcap : 2 ≤ s.queue.capacity := hinv.ring.two_le
    have hroom : (h.pushed.drop h.pulled.length).length < s.queue.capacity := by
      rw [List.length_drop]
      omega
    exact ⟨_, hinv.contents.push hroom _⟩

/-- The consumer claims the cell at `head`. -/
theorem FifoInv.take (hinv : FifoInv n ⟨s, h⟩) {attempt : QueueTry}
    {position : BitVec 32} (hpc : s.pc .consumer = .swap attempt position)
    (hseen : h.seen .consumer = h.taken) :
    FifoInv n ⟨{ s with queue := s.queue.setPosition (position + 1) .pull }.setPc
        .consumer (.store attempt position),
      { h with taken := h.taken + 1 }⟩ := by
  have hthread := hinv.threads .consumer
  simp only at hthread
  rw [hpc, hseen] at hthread
  obtain ⟨rfl, -, hready⟩ := hthread
  have hidle : (s.pc .consumer).storing = false := by rw [hpc]; rfl
  have htaken : h.taken = h.pulled.length := hinv.idle hidle
  obtain ⟨value, hvalue, hpublished⟩ := hinv.ready_pull hidle (hready rfl)
  simp only at hvalue hpublished
  have hlt := (List.getElem?_eq_some_iff.mp hvalue).1
  have hle : h.pushed.length ≤ h.pulled.length + s.queue.capacity :=
    hinv.pushed_le
  have hmax : s.queue.capacity ≤ 2 ^ 31 := hinv.ring.le
  -- the claimed cells keep their own sequence number, the one at `head` is on
  have hother : ∀ p, h.taken ≤ p → p < h.pushed.length →
      (s.queue.slot p).sequence = BitVec.ofNat 32 p → h.taken + 1 ≤ p := by
    intro p hp hpushed hsequence
    rcases Nat.lt_or_ge h.taken p with hgt | hge
    · exact hgt
    · have hp : p = h.taken := by omega
      rw [hp, hpublished] at hsequence
      have heq := ofNat_inj_of_lt (Nat.le_succ _) (by omega) hsequence.symm
      omega
  refine ⟨hinv.ring, hinv.capacity, hinv.tail, ofNat_succ _, hlt, hinv.free, ?_, ?_, ?_, ?_,
    hinv.history⟩
  · intro p v hp hget
    rcases hinv.live p v hp hget with
      hpublished | ⟨hle, hsequence, i, hi, hseeni⟩
    · exact Or.inl hpublished
    · refine Or.inr ⟨hother p hle (List.getElem?_eq_some_iff.mp hget).1 hsequence,
        hsequence, i, ?_, hseeni⟩
      simp only
      rw [setPc_pc_of_ne _ (by simp)]
      exact hi
  · intro u
    change ThreadSeen _ _ u (h.seen u) (s.data u) (Function.update s.pc _ _ u)
    cases u with
    | consumer =>
        rw [Function.update_self, hseen]
        exact ⟨rfl, htaken, congrArg (· + 1) htaken⟩
    | producer i =>
        rw [Function.update_of_ne (by simp)]
        have hthread := hinv.threads (.producer i)
        revert hthread
        cases s.pc (.producer i) <;> try exact id
        case store =>
          rintro ⟨rfl, hle, hsequence, hget⟩
          exact ⟨rfl, hother _ hle (List.getElem?_eq_some_iff.mp hget).1 hsequence,
            hsequence, hget⟩
  · intro i j hi hj heq
    simp only at hi hj
    rw [setPc_pc_of_ne _ (by simp)] at hi hj
    exact hinv.unique i j hi hj heq
  · intro hnot
    simp only at hnot
    rw [setPc_pc_self] at hnot
    exact absurd hnot (by simp [QueuePc.storing])

/-- A test of another cell reads the same. -/
theorem ready_setCell_of_ne (hring : q.PowerRing) {low p p' : Nat}
    {side : QueueSide} (hp : low ≤ p) (hp' : low ≤ p')
    (hlt : p < low + q.capacity) (hlt' : p' < low + q.capacity) (hne : p' ≠ p)
    (cell : QueueCell) :
    (q.setCell (BitVec.ofNat 32 p) cell).ready side (BitVec.ofNat 32 p') =
      q.ready side (BitVec.ofNat 32 p') := by
  have hslot := slot_setCell_of_ne hring hp hp' hlt hlt' hne cell
  exact congrArg (fun c : QueueCell =>
    c.sequence - MpmcQueue.wanted side (BitVec.ofNat 32 p') == 0) hslot

theorem taken_away (attempt : QueueTry) : attempt.taken.away = true := by
  cases attempt <;> rfl

/-- A producer stores its element. -/
theorem FifoInv.publish (hinv : FifoInv n ⟨s, h⟩) {i : Nat} {attempt : QueueTry}
    {position : BitVec 32}
    (hpc : s.pc (.producer i) = .store attempt position) :
    FifoInv n ⟨s.store (.producer i) attempt position, h⟩ := by
  have hposition : position = BitVec.ofNat 32 (h.seen (.producer i)) := by
    have hthread := hinv.threads (.producer i)
    simp only at hthread
    rw [hpc] at hthread
    exact hthread.1
  have hstoring : (s.pc (.producer i)).storing = true := by rw [hpc]; rfl
  obtain ⟨htaken, hsequence, hvalue⟩ := hinv.storing hstoring
  simp only at htaken hsequence hvalue
  have hpulled : h.pulled.length ≤ h.taken := hinv.pulled_le
  have hle : h.pushed.length ≤ h.pulled.length + s.queue.capacity :=
    hinv.pushed_le
  have hring : s.queue.PowerRing := hinv.ring
  have hmax := hring.le
  have hlt := (List.getElem?_eq_some_iff.mp hvalue).1
  generalize hp : h.seen (.producer i) = p at *
  subst hposition
  -- the cells of the other positions in use
  have hslot : ∀ p', h.pulled.length ≤ p' →
      p' < h.pulled.length + s.queue.capacity → p' ≠ p →
      (s.store (.producer i) attempt (BitVec.ofNat 32 p)).queue.slot p' =
        s.queue.slot p' := fun p' hle hlt' hne =>
    slot_setCell_of_ne hring (by omega) hle (by omega) hlt' hne _
  have hready : ∀ side p', h.pulled.length ≤ p' →
      p' < h.pulled.length + s.queue.capacity → p' ≠ p →
      (s.store (.producer i) attempt (BitVec.ofNat 32 p)).queue.ready side
        (BitVec.ofNat 32 p') = s.queue.ready side (BitVec.ofNat 32 p') :=
    fun side p' hle hlt' hne =>
      ready_setCell_of_ne hring (by omega) hle (by omega) hlt' hne _
  refine ⟨hinv.ring, hinv.capacity, hinv.tail, hinv.head, hinv.taken_le, ?_, ?_, ?_, ?_, ?_,
    hinv.history⟩
  · intro p' hge hlt'
    simp only at hge hlt' ⊢
    rw [hslot p' (by omega) hlt' (by omega)]
    exact hinv.free p' hge hlt'
  · intro p' value hle' hget
    simp only at hle' hget
    have hlt' := (List.getElem?_eq_some_iff.mp hget).1
    by_cases hpp : p' = p
    · left
      rw [hpp, hvalue, Option.some.injEq] at hget
      rw [hpp, ← hget, Published, ← ofNat_succ]
      exact slot_setCell_self _ _ _
    · rcases hinv.live p' value hle' hget with
        hpublished | ⟨htaken, hsequence, j, hj, hseenj⟩
      · left
        simp only at hpublished ⊢
        rw [Published, hslot p' hle' (by omega) hpp]
        exact hpublished
      · simp only at htaken hsequence hj hseenj
        refine Or.inr ⟨htaken, ?_, j, ?_, hseenj⟩
        · simp only
          rw [hslot p' hle' (by omega) hpp]
          exact hsequence
        · have hji : QueueThread.producer j ≠ .producer i := by
            rintro heq
            rw [heq, hp] at hseenj
            exact hpp hseenj.symm
          simp only [QueueSys.store]
          rw [setPc_pc_of_ne _ hji]
          exact hj
  · intro u
    simp only
    by_cases hu : u = .producer i
    · have hpc' : (s.store (.producer i) attempt (BitVec.ofNat 32 p)).pc u =
          attempt.taken := by
        rw [hu]
        exact setPc_pc_self _ _ _
      rw [hpc']
      exact ThreadSeen.of_away (taken_away attempt)
    · have hpc' : (s.store (.producer i) attempt (BitVec.ofNat 32 p)).pc u =
          s.pc u := setPc_pc_of_ne _ hu _
      have hthread := hinv.threads u
      simp only at hthread
      rw [hpc']
      change ThreadSeen _ h u (h.seen u) (s.data u) (s.pc u)
      apply hthread.cellChange rfl rfl fun _ => rfl
      · intro hcounter hwas hidle
        cases u with
        | consumer =>
            have hcounter : h.seen .consumer = h.taken := hcounter
            rw [hcounter] at hwas ⊢
            obtain ⟨value, hget, hpublished⟩ := hinv.ready_pull hidle hwas
            have hlt' := (List.getElem?_eq_some_iff.mp hget).1
            simp only at hlt' hpublished
            have hne : h.taken ≠ p := by
              intro heq
              rw [heq] at hpublished
              rw [hpublished] at hsequence
              have heq := ofNat_inj_of_lt (Nat.le_succ p) (by omega)
                hsequence.symm
              omega
            rw [hready _ _ hpulled (by omega) hne]
            exact hwas
        | producer j =>
            have hcounter : h.seen (.producer j) = h.pushed.length := hcounter
            rw [hcounter] at hwas ⊢
            have hroom := hinv.ready_push hwas
            simp only at hroom
            rw [hready _ _ (by omega) hroom (by omega)]
            exact hwas
      · intro value hu' hstoring' hle' hget
        cases u with
        | consumer => exact absurd rfl hu'
        | producer j =>
            have hlt' := (List.getElem?_eq_some_iff.mp hget).1
            apply hslot _ (by omega) (by omega)
            intro heq
            apply hu
            rw [hinv.unique j i hstoring' hstoring (by simp only; rw [heq, hp])]
  · intro j k hj hk heq
    have hstore : ∀ j, ((s.store (.producer i) attempt
        (BitVec.ofNat 32 p)).pc (.producer j)).storing = true →
        (s.pc (.producer j)).storing = true := by
      intro j hj
      by_cases hji : j = i
      · rw [hji]
        exact hstoring
      · simp only [QueueSys.store] at hj
        rw [setPc_pc_of_ne _ (by simpa using hji)] at hj
        exact hj
    exact hinv.unique j k (hstore j hj) (hstore k hk) heq
  · intro hnot
    apply hinv.idle
    simp only [QueueSys.store] at hnot
    rw [setPc_pc_of_ne _ (by simp)] at hnot
    exact hnot

/-- A cell is stored for its position and for the one a turn later. -/
theorem slot_setCell_turn (hring : q.PowerRing) (p : Nat) (cell : QueueCell) :
    (q.setCell (BitVec.ofNat 32 p) cell).slot (p + q.capacity) = cell := by
  have hring' : (q.setCell (BitVec.ofNat 32 p) cell).PowerRing := hring
  exact (slot_add_capacity hring' p).trans (slot_setCell_self q p cell)

/-- The consumer reads the first element and frees its cell. -/
theorem FifoInv.release (hinv : FifoInv n ⟨s, h⟩) {attempt : QueueTry}
    {position : BitVec 32} (hpc : s.pc .consumer = .store attempt position) :
    FifoInv n ⟨s.store .consumer attempt position,
      { h with trace :=
        h.trace ++ [.pull (s.queue.cellAt position).data] }⟩ := by
  have hthread := hinv.threads .consumer
  simp only at hthread
  rw [hpc] at hthread
  obtain ⟨rfl, hseen, htaken⟩ := hthread
  rw [hseen]
  have hle : h.pushed.length ≤ h.pulled.length + s.queue.capacity :=
    hinv.pushed_le
  have hring : s.queue.PowerRing := hinv.ring
  have hcap := hring.two_le
  have htakenLe : h.taken ≤ h.pushed.length := hinv.taken_le
  have hlt : h.pulled.length < h.pushed.length := by omega
  -- the cell is on, since the consumer has claimed it
  have hget := List.getElem?_eq_getElem hlt
  have hpublished : Published s.queue h.pulled.length
      h.pushed[h.pulled.length] := by
    rcases hinv.live _ _ le_rfl hget with hpublished | ⟨habove, -⟩
    · exact hpublished
    · simp only at habove
      omega
  have hdata : (s.queue.cellAt (BitVec.ofNat 32 h.pulled.length)).data =
      h.pushed[h.pulled.length] := congrArg QueueCell.data hpublished
  rw [hdata]
  have hpushed : QueueHistory.pushed
      { h with trace := h.trace ++ [.pull h.pushed[h.pulled.length]] } =
        h.pushed := (fifoPushes_append _ _).trans (List.append_nil _)
  have hpulled : QueueHistory.pulled
      { h with trace := h.trace ++ [.pull h.pushed[h.pulled.length]] } =
        h.pulled ++ [h.pushed[h.pulled.length]] := fifoPulls_append _ _
  have hlength : (h.pulled ++ [h.pushed[h.pulled.length]]).length =
      h.pulled.length + 1 := List.length_append
  generalize hp : h.pulled.length = p at *
  have hslot : ∀ p', p < p' → p' < p + s.queue.capacity →
      (s.store .consumer attempt (BitVec.ofNat 32 p)).queue.slot p' =
        s.queue.slot p' := fun p' hgt hlt' =>
    slot_setCell_of_ne hring le_rfl hgt.le (by omega) hlt' (by omega) _
  have hready : ∀ side p', p < p' → p' < p + s.queue.capacity →
      (s.store .consumer attempt (BitVec.ofNat 32 p)).queue.ready side
        (BitVec.ofNat 32 p') = s.queue.ready side (BitVec.ofNat 32 p') :=
    fun side p' hgt hlt' =>
      ready_setCell_of_ne hring le_rfl hgt.le (by omega) hlt' (by omega) _
  have hpcOther : ∀ i,
      (s.store .consumer attempt (BitVec.ofNat 32 p)).pc (.producer i) =
        s.pc (.producer i) := fun i => setPc_pc_of_ne _ (by simp) _
  have hfree : ((s.store .consumer attempt (BitVec.ofNat 32 p)).queue.slot
      (p + s.queue.capacity)).sequence =
        BitVec.ofNat 32 (p + s.queue.capacity) :=
    (congrArg QueueCell.sequence (slot_setCell_turn hring p _)).trans
      (released_pull _ _)
  refine ⟨hring, hinv.capacity, ?_, hinv.head, ?_, ?_, ?_, ?_, ?_, ?_, ?_⟩
  · simp only [hpushed]
    exact hinv.tail
  · simp only [hpushed]
    exact hinv.taken_le
  · simp only [hpushed, hpulled, hlength]
    intro p' hge hlt'
    rcases Nat.lt_or_ge p' (p + s.queue.capacity) with hin | hout
    · rw [hslot p' (by omega) hin]
      apply hinv.free p' hge
      simp only [hp]
      exact hin
    · have hlast : p' = p + s.queue.capacity := by
        change p' < p + 1 + s.queue.capacity at hlt'
        omega
      rw [hlast]
      exact hfree
  · simp only [hpushed, hpulled, hlength]
    intro p' value hge hget'
    have hlt' := (List.getElem?_eq_some_iff.mp hget').1
    have hkept := hslot p' hge (by omega)
    rcases hinv.live p' value (by simp only [hp]; omega) hget' with
      hpublished | ⟨habove, hsequence, i, hi, hseeni⟩
    · left
      rw [Published, hkept]
      exact hpublished
    · refine Or.inr ⟨habove, ?_, i, ?_, hseeni⟩
      · simp only at hsequence ⊢
        rw [hkept]
        exact hsequence
      · simp only
        rw [hpcOther]
        exact hi
  · intro u
    simp only
    cases u with
    | consumer =>
        have hpc' : (s.store .consumer attempt (BitVec.ofNat 32 p)).pc
            .consumer = attempt.taken := setPc_pc_self _ _ _
        rw [hpc']
        exact ThreadSeen.of_away (taken_away attempt)
    | producer i =>
        rw [hpcOther]
        change ThreadSeen _ _ _ (h.seen (.producer i)) (s.data (.producer i)) _
        apply (hinv.threads (.producer i)).cellChange hpushed rfl nofun
        · intro hcounter hwas _
          have hcounter : h.seen (.producer i) = h.pushed.length := hcounter
          simp only at hwas ⊢
          rw [hcounter] at hwas ⊢
          have hroom := hinv.ready_push hwas
          simp only [hp] at hroom
          rw [hready _ _ (by omega) hroom]
          exact hwas
        · intro value _ _ hle' hget'
          have hlt' := (List.getElem?_eq_some_iff.mp hget').1
          simp only at hle' hlt'
          exact hslot (h.seen (.producer i)) (by omega) (by omega)
  · intro i j hi hj heq
    simp only [hpcOther] at hi hj
    exact hinv.unique i j hi hj heq
  · intro _
    simp only [hpulled, hlength]
    exact htaken
  · have hcontents := hinv.contents
    simp only [hp] at hcontents
    rw [List.drop_eq_getElem_cons hlt] at hcontents
    exact ⟨_, hcontents.pull⟩

/-- One thread moves, with a new counter that it saw. -/
theorem FifoInv.move (hinv : FifoInv n ⟨s, h⟩) {pc : QueuePc} {seen : Nat}
    (hold : (s.pc t).storing = false) (hnew : pc.storing = false)
    (hthread : ThreadSeen s.queue h t seen (s.data t) pc) :
    FifoInv n ⟨s.setPc t pc, { h with seen := Function.update h.seen t seen }⟩ := by
  refine hinv.quiet rfl rfl rfl ?_
  intro u
  by_cases hu : u = t
  · right
    subst hu
    simp only [setPc_pc_self, Function.update_self]
    refine ⟨hold, hnew, ?_⟩
    revert hthread
    cases u <;> cases pc <;> exact id
  · left
    exact ⟨setPc_pc_of_ne s hu pc, rfl, Function.update_of_ne hu _ _⟩

/-- One thread moves away from its position. -/
theorem FifoInv.moveAway (hinv : FifoInv n ⟨s, h⟩) {pc : QueuePc}
    (hold : (s.pc t).storing = false) (haway : pc.away = true) :
    FifoInv n ⟨s.setPc t pc, h⟩ := by
  have hthread : ThreadSeen s.queue h t (h.seen t) (s.data t) pc :=
    ThreadSeen.of_away haway
  have hmove := hinv.move hold (storing_of_away haway) hthread
  rwa [Function.update_eq_self] at hmove

theorem failed_away (attempt : QueueTry) : attempt.failed.away = true := by
  cases attempt with
  | spin tries =>
      rw [QueueTry.failed]
      split <;> rfl
  | wait val => rfl

/-- The branches on `diff`. -/
theorem FifoInv.afterTest (hinv : FifoInv n ⟨s, h⟩) {attempt : QueueTry}
    {position : BitVec 32} (hpc : s.pc t = .test attempt position) :
    FifoInv n ⟨s.setPc t (s.afterTest t attempt position), h⟩ := by
  have hthread := hinv.threads t
  simp only at hthread
  rw [hpc] at hthread
  have hold : (s.pc t).storing = false := by rw [hpc]; rfl
  by_cases hready : s.queue.ready t.side position = true
  · have hafter : s.afterTest t attempt position = .swap attempt position :=
      if_pos hready
    rw [hafter]
    have hswap : ThreadSeen s.queue h t (h.seen t) (s.data t)
        (.swap attempt position) :=
      ⟨hthread.1, hthread.2, fun _ => hready⟩
    have hmove := hinv.move hold rfl hswap
    rwa [Function.update_eq_self] at hmove
  · have hafter : s.afterTest t attempt position =
        if ((s.queue.cellAt position).sequence -
          MpmcQueue.wanted t.side position).slt 0 then attempt.failed
        else .load attempt := if_neg hready
    rw [hafter]
    split
    · exact hinv.moveAway hold (failed_away attempt)
    · exact hinv.moveAway hold rfl

/-- A thread reads its counter. -/
theorem FifoInv.read (hinv : FifoInv n ⟨s, h⟩) (attempt : QueueTry)
    (hold : (s.pc t).storing = false) :
    FifoInv n ⟨s.setPc t (.test attempt (s.queue.position t.side)),
      { h with seen := Function.update h.seen t (h.counter t.side) }⟩ := by
  apply hinv.move hold rfl
  refine ⟨?_, le_rfl, fun _ => rfl⟩
  cases t with
  | consumer => exact hinv.head
  | producer i => exact hinv.tail

/-- Nothing happens to the history where no thread reads or swaps. -/
theorem thread_eq_self {h : QueueHistory} (hreads : s.reads t = false)
    (hswaps : s.swaps t = false) (hevent : s.event t = none) :
    h.thread s t = h := by
  simp [QueueHistory.thread, hreads, hswaps, hevent]

theorem FifoInv.swapFails (hinv : FifoInv n ⟨s, h⟩)
    (hstep : s.stepSwapFails t = some s') :
    FifoInv n ⟨s', { h with
      seen := Function.update h.seen t (h.counter t.side) }⟩ := by
  simp only [QueueSys.stepSwapFails] at hstep
  split at hstep
  case h_1 attempt position hpc =>
    rw [Option.some.injEq] at hstep
    rw [← hstep]
    exact hinv.read attempt (by rw [hpc]; rfl)
  case h_2 => simp at hstep

/-- The compare-and-swap. -/
theorem FifoInv.swap (hinv : FifoInv n ⟨s, h⟩) {attempt : QueueTry}
    {position : BitVec 32} (hpc : s.pc t = .swap attempt position)
    (hnot : s.swaps t = true → h.seen t = h.counter t.side) :
    FifoInv n ⟨s.swap t attempt position, h.thread s t⟩ := by
  have hswaps : s.swaps t = decide (s.queue.position t.side = position) := by
    simp only [QueueSys.swaps, hpc]
  have hreads : s.reads t = !s.swaps t := by simp only [QueueSys.reads, hpc]
  rw [QueueSys.swap]
  split
  case isTrue hposition =>
    have hswaps : s.swaps t = true := by rw [hswaps, decide_eq_true hposition]
    have hseen := hnot hswaps
    cases t with
    | consumer =>
        have hevent : s.event .consumer = none := by
          simp only [QueueSys.event, hpc]
        have hnext : h.thread s .consumer = { h with taken := h.taken + 1 } := by
          simp [QueueHistory.thread, hreads, hswaps, hevent]
        rw [hnext]
        exact hinv.take hpc hseen
    | producer i =>
        have hevent : s.event (.producer i) =
            some (.push (s.data (.producer i))) := by
          simp [QueueSys.event, hpc, hswaps]
        have hnext : h.thread s (.producer i) =
            { h with trace := h.trace ++ [.push (s.data (.producer i))] } := by
          simp [QueueHistory.thread, hreads, hswaps, hevent]
        rw [hnext]
        exact hinv.claim hpc hseen
  case isFalse hposition =>
    have hswaps : s.swaps t = false := by rw [hswaps, decide_eq_false hposition]
    have hevent : s.event t = none := by
      cases t <;> simp [QueueSys.event, hpc, hswaps]
    have hnext : h.thread s t =
        { h with seen := Function.update h.seen t (h.counter t.side) } := by
      simp [QueueHistory.thread, hreads, hswaps, hevent]
    rw [hnext]
    exact hinv.read attempt (by rw [hpc]; rfl)

/-- The access to the data and the store of the sequence number. -/
theorem FifoInv.store (hinv : FifoInv n ⟨s, h⟩) {attempt : QueueTry}
    {position : BitVec 32} (hpc : s.pc t = .store attempt position) :
    FifoInv n ⟨s.store t attempt position, h.thread s t⟩ := by
  have hswaps : s.swaps t = false := by simp only [QueueSys.swaps, hpc]
  have hreads : s.reads t = false := by simp only [QueueSys.reads, hpc]
  cases t with
  | consumer =>
      have hevent : s.event .consumer =
          some (.pull (s.queue.cellAt position).data) := by
        simp only [QueueSys.event, hpc]
      have hnext : h.thread s .consumer = { h with trace :=
          h.trace ++ [.pull (s.queue.cellAt position).data] } := by
        simp [QueueHistory.thread, hreads, hswaps, hevent]
      rw [hnext]
      exact hinv.release hpc
  | producer i =>
      have hevent : s.event (.producer i) = none := by
        simp only [QueueSys.event, hpc]
      rw [thread_eq_self hreads hswaps hevent]
      exact hinv.publish hpc

/-- A step that changes the waiters and moves its thread. -/
theorem FifoInv.wait (hinv : FifoInv n ⟨s, h⟩) {pc : QueuePc}
    {waitEmpty waitFull : BitVec 32}
    (hold : (s.pc t).storing = false)
    (hqueue : s'.queue =
      { s.queue with waitEmpty := waitEmpty, waitFull := waitFull })
    (hdata : s'.data = s.data) (hpc : s'.pc = Function.update s.pc t pc)
    (haway : pc.away = true) : FifoInv n ⟨s', h⟩ := by
  refine hinv.quiet hqueue rfl rfl ?_
  intro u
  by_cases hu : u = t
  · right
    subst hu
    simp only [hpc, hdata, Function.update_self]
    exact ⟨hold, storing_of_away haway, ThreadSeen.of_away haway⟩
  · left
    simp only [hpc, hdata, Function.update_of_ne hu]
    exact ⟨trivial, trivial, trivial⟩

theorem FifoInv.stepThread (hinv : FifoInv n ⟨s, h⟩)
    (hok : notWrapped ⟨s, h⟩ (.thread t) = true)
    (hstep : s.stepThread t = some s') : FifoInv n ⟨s', h.thread s t⟩ := by
  simp only [QueueSys.stepThread] at hstep
  cases hpc : s.pc t <;> simp only [hpc, Option.some.injEq, reduceCtorEq]
    at hstep <;> rw [← hstep]
  case swap attempt position =>
    apply hinv.swap hpc
    intro hswaps
    simpa [notWrapped, hswaps] using hok
  case store attempt position => exact hinv.store hpc
  case load attempt =>
    have hnext : h.thread s t =
        { h with seen := Function.update h.seen t (h.counter t.side) } := by
      cases t <;>
        simp [QueueHistory.thread, QueueSys.reads, QueueSys.swaps,
          QueueSys.event, hpc]
    rw [hnext]
    exact hinv.read attempt (by rw [hpc]; rfl)
  all_goals
    have hsame : h.thread s t = h := by
      apply thread_eq_self
      · simp only [QueueSys.reads, hpc]
      · simp only [QueueSys.swaps, hpc]
      · cases t <;> simp only [QueueSys.event, hpc]
    have hold : (s.pc t).storing = false := by rw [hpc]; rfl
    rw [hsame]
  case test attempt position => exact hinv.afterTest hpc
  case enter =>
    cases t <;>
      exact hinv.wait hold rfl rfl rfl rfl
  case leave success =>
    cases t <;> cases success <;>
      exact hinv.wait hold rfl rfl rfl rfl
  case futexCall val =>
    rw [QueueSys.futexWait]
    split
    · exact hinv.wait hold rfl rfl rfl rfl
    · exact hinv.moveAway hold rfl
  case loadWatched => exact hinv.moveAway hold rfl
  all_goals split <;> exact hinv.moveAway hold rfl

/-- Waking moves sleeping threads only. -/
theorem woken_away (pc : QueuePc) :
    pc.woken = pc ∨ pc.away = true ∧ pc.woken.away = true := by
  cases pc <;> first | exact Or.inl rfl | exact Or.inr ⟨rfl, rfl⟩

/-- Any number of sleepers are woken. -/
theorem FifoInv.woken (hinv : FifoInv n ⟨s, h⟩) (hqueue : s'.queue = s.queue)
    (hdata : s'.data = s.data)
    (hpc : ∀ u, s'.pc u = s.pc u ∨ s'.pc u = (s.pc u).woken) :
    FifoInv n ⟨s', h⟩ := by
  refine hinv.quiet (hqueue.trans rfl) rfl rfl ?_
  intro u
  rcases hpc u with hsame | hwoken
  · exact Or.inl ⟨hsame, congrFun hdata u, rfl⟩
  · rcases woken_away (s.pc u) with hsame | ⟨hold, hnew⟩
    · exact Or.inl ⟨hwoken.trans hsame, congrFun hdata u, rfl⟩
    · right
      simp only [hwoken]
      exact ⟨storing_of_away hold, storing_of_away hnew,
        ThreadSeen.of_away hnew⟩

theorem FifoInv.wakeOne (hinv : FifoInv n ⟨s, h⟩) (t : QueueThread) :
    FifoInv n ⟨s.wakeOne t, h⟩ := by
  refine hinv.woken rfl rfl ?_
  intro u
  by_cases hu : u = t
  · right
    rw [hu]
    exact setPc_pc_self _ _ _
  · exact Or.inl (setPc_pc_of_ne _ hu _)

theorem FifoInv.broadcast (hinv : FifoInv n ⟨s, h⟩) (side : QueueSide)
    (main : JoinPc) :
    FifoInv n ⟨{ s.broadcast side with main := main }, h⟩ := by
  refine hinv.woken rfl rfl ?_
  intro u
  simp only [QueueSys.broadcast]
  split
  · exact Or.inr rfl
  · exact Or.inl rfl

/-- A call starts with a load, and changes the data of its own thread only. -/
theorem FifoInv.stepCall (hinv : FifoInv n ⟨s, h⟩) {data : BitVec 64}
    (hstep : s.stepCall t data = some s') : FifoInv n ⟨s', h⟩ := by
  simp only [QueueSys.stepCall] at hstep
  split at hstep
  case h_1 i hpc =>
    rw [Option.some.injEq] at hstep
    rw [← hstep]
    refine hinv.quiet rfl rfl rfl ?_
    intro u
    by_cases hu : u = .producer i
    · right
      rw [hu]
      refine ⟨by rw [hpc]; rfl, ?_, ThreadSeen.of_away ?_⟩ <;>
        simp only [setPc_pc_self] <;> rfl
    · left
      exact ⟨setPc_pc_of_ne _ hu _, Function.update_of_ne hu _ _, rfl⟩
  case h_2 hpc =>
    rw [Option.some.injEq] at hstep
    rw [← hstep]
    exact hinv.moveAway (by rw [hpc]; rfl) rfl
  case h_3 => simp at hstep

theorem FifoInv.stepWake (hinv : FifoInv n ⟨s, h⟩) {woken : Option QueueThread}
    (hstep : s.stepWake t woken = some s') : FifoInv n ⟨s', h⟩ := by
  simp only [QueueSys.stepWake] at hstep
  split at hstep
  case h_1 hpc =>
    have hold : (s.pc t).storing = false := by rw [hpc]; rfl
    split at hstep
    case h_1 u =>
      split at hstep
      · rw [Option.some.injEq] at hstep
        rw [← hstep]
        have hwoken : ((s.wakeOne u).pc t).storing = false := by
          by_cases htu : t = u
          · rw [← htu]
            simp only [QueueSys.wakeOne]
            rw [setPc_pc_self, hpc]
            rfl
          · simp only [QueueSys.wakeOne]
            rw [setPc_pc_of_ne _ htu]
            exact hold
        exact (hinv.wakeOne u).moveAway hwoken rfl
      · simp at hstep
    case h_2 =>
      split at hstep
      · rw [Option.some.injEq] at hstep
        rw [← hstep]
        exact hinv.moveAway hold rfl
      · simp at hstep
  case h_2 => simp at hstep

theorem FifoInv.stepReturn (hinv : FifoInv n ⟨s, h⟩) {interrupted : Bool}
    (hstep : s.stepReturn t interrupted = some s') : FifoInv n ⟨s', h⟩ := by
  simp only [QueueSys.stepReturn] at hstep
  split at hstep
  case h_1 val hpc =>
    rw [Option.some.injEq] at hstep
    rw [← hstep]
    have hold : ((s.wakeOne t).pc t).storing = false := by
      simp only [QueueSys.wakeOne]
      rw [setPc_pc_self, hpc]
      rfl
    split
    · exact (hinv.wakeOne t).moveAway hold rfl
    · exact hinv.wakeOne t
  case h_2 => simp at hstep

theorem FifoInv.historyStep {x' : QueueRun} {action : QueueAct}
    (hinv : FifoInv n x) (hok : notWrapped x action = true)
    (hstep : historyStep x action = some x') : FifoInv n x' := by
  obtain ⟨s, h⟩ := x
  simp only [Ntnetflow.historyStep, Option.map_eq_some_iff] at hstep
  obtain ⟨s', hstep, rfl⟩ := hstep
  cases action with
  | call t data => exact hinv.stepCall hstep
  | thread t => exact hinv.stepThread hok hstep
  | swapFails t => exact hinv.swapFails hstep
  | wake t woken => exact hinv.stepWake hstep
  | ret t interrupted => exact hinv.stepReturn hstep
  | stop =>
      simp only [queueStep, Option.some.injEq] at hstep
      rw [← hstep]
      refine hinv.quiet rfl rfl rfl fun u => Or.inl ⟨rfl, rfl, rfl⟩
  | join =>
      simp only [queueStep, QueueSys.stepJoin] at hstep
      split at hstep
      · split at hstep
        · simp at hstep
        · rw [Option.some.injEq] at hstep
          rw [← hstep]
          exact hinv.broadcast _ _
      · rw [Option.some.injEq] at hstep
        rw [← hstep]
        exact hinv.broadcast _ _
      · simp at hstep

/-- A word with one bit set is a power of two. -/
theorem powerRing_of_capacityOk {memory : Option (BitVec 32 → QueueCell)}
    {capacity : BitVec 32} {queue : MpmcQueue}
    (hinit : mpmcQueueInit memory capacity = some queue)
    (hcapacity : capacityOk capacity = true) :
    queue.PowerRing ∧ queue.capacity = capacity.toNat := by
  simp only [mpmcQueueInit, Option.map_eq_some_iff] at hinit
  obtain ⟨buffer, -, rfl⟩ := hinit
  simp only [capacityOk, Bool.and_eq_true, decide_eq_true_eq, beq_iff_eq,
    BitVec.le_def] at hcapacity
  obtain ⟨htwo, hand⟩ := hcapacity
  have htwo : 2 ≤ capacity.toNat := htwo
  have hpred : (capacity - 1).toNat = capacity.toNat - 1 := by
    rw [BitVec.toNat_sub_of_le (by rw [BitVec.le_def]; exact Nat.le_of_lt htwo)]
    rfl
  have hcap : capacity.toNat - 1 + 1 = capacity.toNat := by omega
  have hzero : capacity.toNat &&& (capacity.toNat - 1) = 0 := by
    rw [← hpred, ← BitVec.toNat_and, hand]
    rfl
  obtain ⟨k, hk⟩ :=
    (Nat.and_sub_one_eq_zero_iff_isPowerOfTwo (by omega)).mp hzero
  have hlt := capacity.isLt
  have hpos : 0 < k := by
    rcases Nat.eq_zero_or_pos k with hzero | hpos
    · rw [hk, hzero] at htwo
      omega
    · exact hpos
  have hbound : k < 32 := by
    rw [hk] at hlt
    exact (Nat.pow_lt_pow_iff_right (by decide)).mp hlt
  refine ⟨⟨k, hpos, hbound, ?_⟩, ?_⟩ <;>
    simp only [MpmcQueue.capacity, hpred, hcap]
  exact hk

/-- After `mpmc_queue_init` every cell is free for its first turn. -/
theorem mpmcQueueInit_slot {memory : Option (BitVec 32 → QueueCell)}
    {capacity : BitVec 32} {queue : MpmcQueue}
    (hinit : mpmcQueueInit memory capacity = some queue)
    (hcapacity : capacityOk capacity = true) (hlt : p < capacity.toNat) :
    (queue.slot p).sequence = BitVec.ofNat 32 p := by
  obtain ⟨hring, hcap⟩ := powerRing_of_capacityOk hinit hcapacity
  have hp : (BitVec.ofNat 32 p).toNat = p := by
    rw [BitVec.toNat_ofNat, Nat.mod_eq_of_lt (hlt.trans capacity.isLt)]
  have hcell : queue.cellIndex (BitVec.ofNat 32 p) = BitVec.ofNat 32 p := by
    apply BitVec.eq_of_toNat_eq
    rw [cellIndex_ofNat hring, hcap, Nat.mod_eq_of_lt hlt, hp]
  have hbelow : BitVec.ofNat 32 p < capacity := by
    rw [BitVec.lt_def, hp]
    exact hlt
  rw [MpmcQueue.slot, MpmcQueue.cellAt, hcell]
  simp only [mpmcQueueInit, Option.map_eq_some_iff] at hinit
  obtain ⟨buffer, -, rfl⟩ := hinit
  simp only [if_pos hbelow]

theorem FifoInv.start {memory : Option (BitVec 32 → QueueCell)}
    {capacity : BitVec 32} {queue : MpmcQueue}
    (hinit : mpmcQueueInit memory capacity = some queue)
    (hcapacity : capacityOk capacity = true) :
    FifoInv capacity.toNat (historyStart queue) := by
  obtain ⟨hring, hcap⟩ := powerRing_of_capacityOk hinit hcapacity
  have hslot : ∀ p, p < capacity.toNat →
      (queue.slot p).sequence = BitVec.ofNat 32 p :=
    fun p hlt => mpmcQueueInit_slot hinit hcapacity hlt
  have hcounters : queue.tail = 0 ∧ queue.head = 0 := by
    simp only [mpmcQueueInit, Option.map_eq_some_iff] at hinit
    obtain ⟨buffer, -, rfl⟩ := hinit
    exact ⟨rfl, rfl⟩
  refine ⟨hring, hcap, hcounters.1, hcounters.2, le_rfl, ?_, ?_, fun _ => trivial,
    ?_, fun _ => rfl, [], FifoHistory.nil⟩
  · intro p _ hlt
    apply hslot
    have hlt : p < 0 + queue.capacity := hlt
    omega
  · intro p value _ hget
    simp [historyStart, QueueHistory.pushed] at hget
  · intro i j hi
    simp [historyStart, queueStart, QueuePc.storing] at hi

theorem FifoInv.of_run {memory : Option (BitVec 32 → QueueCell)}
    {capacity : BitVec 32} {queue : MpmcQueue}
    (hinit : mpmcQueueInit memory capacity = some queue)
    (hcapacity : capacityOk capacity = true)
    (hrun : Run Ntnetflow.historyStep
      (fun x action => notWrapped x action = true) (historyStart queue) x) :
    FifoInv capacity.toNat x := by
  apply hrun.invariant
  · exact FifoInv.start hinit hcapacity
  · exact fun hinv hok hstep => hinv.historyStep hok hstep

/-- In every run the pushes and pulls are the history of a queue of this
capacity: what is pulled is what was pushed, in order and without gaps, and
what is in never exceeds the capacity. -/
theorem mpmcQueue_fifo {memory : Option (BitVec 32 → QueueCell)}
    {capacity : BitVec 32} {queue : MpmcQueue}
    (hinit : mpmcQueueInit memory capacity = some queue)
    (hcapacity : capacityOk capacity = true)
    (hrun : Run historyStep (fun x action => notWrapped x action = true)
      (historyStart queue) x) :
    ∃ contents, FifoHistory capacity.toNat x.history.trace contents ∧
      x.history.pushed = x.history.pulled ++ contents ∧
      contents.length ≤ capacity.toNat := by
  have hinv := FifoInv.of_run hinit hcapacity hrun
  have hcontents := hinv.contents
  rw [hinv.capacity] at hcontents
  exact ⟨_, hcontents, hcontents.balance⟩

/-- Two producers race for the first cell of a ring of two; the loser takes the
next one, and its element comes out second. -/
def raceForCell : List QueueAct :=
  [.call (.producer 0) 7, .call (.producer 1) 8] ++
    List.replicate 2 (.thread (.producer 0)) ++
    List.replicate 3 (.thread (.producer 1)) ++
    List.replicate 4 (.thread (.producer 0)) ++
    List.replicate 2 (.thread (.producer 1)) ++
    .call .consumer 0 :: List.replicate 4 (.thread .consumer)

theorem mpmcQueue_fifo_race : ∃ queue x,
    mpmcQueueInit (some fun _ => ⟨0, 0⟩) 2 = some queue ∧
    Run historyStep (fun x action => notWrapped x action = true)
      (historyStart queue) x ∧
    x.history.trace = [.push 8, .push 7, .pull 8] ∧
    ∃ contents, FifoHistory (2 : BitVec 32).toNat x.history.trace contents ∧
      x.history.pushed = x.history.pulled ++ contents ∧
      contents.length ≤ (2 : BitVec 32).toNat := by
  have hrun : ((mpmcQueueInit (some fun _ => ⟨0, 0⟩) 2).bind fun queue =>
      (execOk historyStep notWrapped (historyStart queue) raceForCell).map
        fun x => x.history.trace) = some [.push 8, .push 7, .pull 8] := by
    decide +kernel
  simp only [Option.bind_eq_some_iff, Option.map_eq_some_iff] at hrun
  obtain ⟨queue, hinit, x, hexec, htrace⟩ := hrun
  exact ⟨queue, x, hinit, run_of_execOk _ hexec, htrace,
    mpmcQueue_fifo hinit (by decide) (run_of_execOk _ hexec)⟩

end Ntnetflow

end NtapiExamples
