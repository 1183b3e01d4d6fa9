/-
The range of the fill levels.  The size of a host buffer is summed from three
counters, each rounded down to kB, and the high-water mark is taken off; the
part that is filled is rounded on its own.
-/
import NtapiExamples.Ntapi.FillLevel

namespace NtapiExamples

namespace Ntapi

namespace HostBuffer

/-- The whole kB of the three counters. -/
def kilobytes (b : HostBuffer) : Nat :=
  b.enQueuedAdapter.toNat / 1024 + b.deQueued.toNat / 1024 +
    b.enQueued.toNat / 1024

/-- The counters of a host buffer of at least 1 MB that has an on-board
buffer. -/
structure IsReport (b : HostBuffer) : Prop where
  onboard : 0 < b.onboardSize.toNat
  used : b.onboardUsed.toNat ≤ b.onboardSize.toNat
  atLeast : 2 ^ 20 ≤
    b.enQueuedAdapter.toNat + b.deQueued.toNat + b.enQueued.toNat
  size : b.enQueuedAdapter.toNat + b.deQueued.toNat + b.enQueued.toNat < 2 ^ 64

/-- The high-water mark is no higher than the buffer, and the part that is
filled stays below 101 per cent of what is left: in 64 bits for the filled part
and in 32 bits for what is left and for the level. -/
def Fits (highwater : BitVec 64) (b : HostBuffer) : Prop :=
  highwater.toNat ≤ b.kilobytes ∧
    (100 * b.deQueued.toNat % 2 ^ 64 / 1024) %
        (2 ^ 32 * ((b.kilobytes - highwater.toNat) % 2 ^ 32)) <
      101 * ((b.kilobytes - highwater.toNat) % 2 ^ 32)

instance (highwater : BitVec 64) (b : HostBuffer) :
    Decidable (b.Fits highwater) :=
  inferInstanceAs (Decidable (_ ∧ _))

variable {b : HostBuffer} {highwater : BitVec 64}

theorem onboardFill_le (hb : b.IsReport) :
    ∃ v, b.onboardFill = some v ∧ v.toNat ≤ 100 := by
  have hsize := hb.onboard
  have hne : b.onboardSize ≠ 0 := by
    rintro hzero
    rw [hzero] at hsize
    cases hsize
  refine ⟨_, if_neg hne, ?_⟩
  rw [BitVec.toNat_udiv, BitVec.toNat_mul]
  have hmod : (100 : BitVec 64).toNat * b.onboardUsed.toNat % 2 ^ 64 ≤
      100 * b.onboardSize.toNat :=
    Nat.le_trans (Nat.mod_le _ _) (Nat.mul_le_mul_left 100 hb.used)
  apply Nat.div_le_of_le_mul
  rwa [Nat.mul_comm b.onboardSize.toNat]

theorem toNat_bufSize (hle : highwater.toNat ≤ b.kilobytes) :
    (b.bufSize highwater).toNat =
      (b.kilobytes - highwater.toNat) % 2 ^ 32 := by
  have h₁ := b.enQueuedAdapter.isLt
  have h₂ := b.deQueued.isLt
  have h₃ := b.enQueued.isLt
  have hkb : (1024 : BitVec 64).toNat = 1024 := rfl
  have hsum : (b.enQueuedAdapter / 1024 + b.deQueued / 1024 +
      b.enQueued / 1024).toNat = b.kilobytes := by
    rw [kilobytes, BitVec.toNat_add, BitVec.toNat_add, BitVec.toNat_udiv,
      BitVec.toNat_udiv, BitVec.toNat_udiv, hkb]
    omega
  rw [bufSize, BitVec.toNat_setWidth, BitVec.toNat_sub_of_le, hsum]
  rw [BitVec.le_def, hsum]
  exact hle

/-- The level is defined and at most 100 exactly when the buffer fits. -/
theorem hostFill_le_iff :
    (highwater.toNat ≤ b.kilobytes ∧
      ∃ v, b.hostFill highwater = some v ∧ v.toNat ≤ 100) ↔
        b.Fits highwater := by
  apply and_congr_right
  intro hle
  have hsize := toNat_bufSize hle
  have hwide : ((b.bufSize highwater).setWidth 64).toNat =
      (b.kilobytes - highwater.toNat) % 2 ^ 32 := by
    rw [BitVec.toNat_setWidth_of_le (by decide), hsize]
  have hshare : (100 * b.deQueued / 1024).toNat =
      100 * b.deQueued.toNat % 2 ^ 64 / 1024 := by
    rw [BitVec.toNat_udiv, BitVec.toNat_mul]
    rfl
  generalize (b.kilobytes - highwater.toNat) % 2 ^ 32 = room at *
  generalize 100 * b.deQueued.toNat % 2 ^ 64 / 1024 = share at *
  by_cases hzero : room = 0
  · have hnone : b.hostFill highwater = none := by
      rw [hostFill, div, if_pos]
      · rfl
      · exact BitVec.eq_of_toNat_eq (hwide.trans hzero)
    rw [hnone, hzero]
    simp
  · have hpos : 0 < room := Nat.pos_of_ne_zero hzero
    have hsome : b.hostFill highwater =
        some ((100 * b.deQueued / 1024 /
          (b.bufSize highwater).setWidth 64).setWidth 32) := by
      rw [hostFill, div, if_neg]
      · rfl
      · intro hbuf
        rw [hbuf] at hwide
        exact hzero hwide.symm
    have hlevel : ((100 * b.deQueued / 1024 /
        (b.bufSize highwater).setWidth 64).setWidth 32).toNat =
          share % (2 ^ 32 * room) / room := by
      rw [BitVec.toNat_setWidth, BitVec.toNat_udiv, hshare, hwide,
        Nat.mul_comm, Nat.mod_mul_right_div_self]
    rw [hsome]
    simp only [Option.some.injEq, exists_eq_left', hlevel]
    rw [← Nat.lt_succ_iff, Nat.div_lt_iff_lt_mul hpos]

/-- The two levels of a host buffer, in any width and with the on-board level
held at a bound, are defined and at most 100 exactly when the buffer fits. -/
theorem levels_iff {w : Nat} (hb : b.IsReport)
    {onboard : BitVec 64 → BitVec w} {host : BitVec 32 → BitVec w}
    (honboard : ∀ x, (onboard x).toNat ≤ x.toNat)
    (hhost : ∀ x, (host x).toNat = x.toNat) :
    (highwater.toNat ≤ b.kilobytes ∧
      ∃ l, (b.onboardFill.bind fun ob => (b.hostFill highwater).bind fun hb =>
          some (onboard ob, host hb)) = some l ∧
        l.1.toNat ≤ 100 ∧ l.2.toNat ≤ 100) ↔ b.Fits highwater := by
  obtain ⟨ob, hob, hle⟩ := onboardFill_le hb
  rw [← hostFill_le_iff]
  apply and_congr_right
  intro _
  cases hfill : b.hostFill highwater with
  | none => simp [hob]
  | some v =>
      have hlevel := Nat.le_trans (honboard ob) hle
      simp only [hob, Option.bind_some, Option.some.injEq, exists_eq_left',
        hlevel, hhost, true_and]

end HostBuffer

/-- The fill levels of the host buffers of a stream, on-board and host, and
their averages. -/
structure Levels (w : Nat) where
  hb : List (BitVec w × BitVec w)
  aveOB : BitVec 32
  aveHB : BitVec 32

/-- An average as the loop over the host buffers leaves it; streams without host
buffers are skipped before. -/
def average {w : Nat} (n : Nat) (levels : List (BitVec w)) : BitVec 32 :=
  levels.foldl (fun sum level => sum + level.setWidth 32) 0 / BitVec.ofNat 32 n

/-- The levels of a stream, from those of one host buffer. -/
def fillLevels {w : Nat} (level : HostBuffer → Option (BitVec w × BitVec w))
    (cap : BitVec 32 → BitVec 32) (usage : Usage) : Option (Levels w) :=
  ((List.range usage.numHostBufferUsed).mapM fun j => level (usage.hb j)).map
    fun hb =>
      { hb := hb
        aveOB := cap (average usage.numHostBufferUsed (hb.map Prod.fst))
        aveHB := cap (average usage.numHostBufferUsed (hb.map Prod.snd)) }

/-- The high-water mark is never higher than the buffer, no division is by zero,
and all levels are at most 100. -/
def LevelsDefined {w : Nat} (highwater : BitVec 64) (usage : Usage)
    (levels : Option (Levels w)) : Prop :=
  (∀ j, j < usage.numHostBufferUsed →
    highwater.toNat ≤ (usage.hb j).kilobytes) ∧
  ∃ l, levels = some l ∧
    (∀ level ∈ l.hb, level.1.toNat ≤ 100 ∧ level.2.toNat ≤ 100) ∧
    l.aveOB.toNat ≤ 100 ∧ l.aveHB.toNat ≤ 100

/-- A list computed element by element has a property when its elements do. -/
theorem mapM_forall {α β : Type} {f : α → Option β} {p : β → Prop} (xs : List α) :
    (∃ ys, xs.mapM f = some ys ∧ ∀ y ∈ ys, p y) ↔
      ∀ x ∈ xs, ∃ y, f x = some y ∧ p y := by
  induction xs with
  | nil => simp
  | cons x xs ih =>
      rw [List.forall_mem_cons, ← ih, List.mapM_cons]
      simp only [Option.bind_eq_bind, Option.bind_eq_some_iff, Option.pure_def,
        Option.some.injEq]
      constructor
      · rintro ⟨_, ⟨y, hy, ys, hys, rfl⟩, hall⟩
        rw [List.forall_mem_cons] at hall
        exact ⟨⟨y, hy, hall.1⟩, ys, hys, hall.2⟩
      · rintro ⟨⟨y, hy, hp⟩, ys, hys, hall⟩
        refine ⟨y :: ys, ⟨y, hy, ys, hys, rfl⟩, ?_⟩
        rw [List.forall_mem_cons]
        exact ⟨hp, hall⟩

theorem toNat_foldl_le {w : Nat} {levels : List (BitVec w)} {bound : Nat}
    (hall : ∀ level ∈ levels, level.toNat ≤ bound) (sum : BitVec 32) :
    (levels.foldl (fun sum level => sum + level.setWidth 32) sum).toNat ≤
      sum.toNat + bound * levels.length := by
  induction levels generalizing sum with
  | nil => simp
  | cons level levels ih =>
      rw [List.forall_mem_cons] at hall
      have hrest := ih hall.2 (sum + level.setWidth 32)
      have hadd : (sum + level.setWidth 32).toNat ≤ sum.toNat + bound := by
        rw [BitVec.toNat_add, BitVec.toNat_setWidth]
        have hlevel := Nat.le_trans (Nat.mod_le level.toNat (2 ^ 32)) hall.1
        exact Nat.le_trans (Nat.mod_le _ _) (Nat.add_le_add_left hlevel _)
      rw [List.foldl_cons, List.length_cons, Nat.mul_succ]
      omega

/-- The average of levels in range is in range, whatever their number. -/
theorem average_le {w n : Nat} {levels : List (BitVec w)}
    (hall : ∀ level ∈ levels, level.toNat ≤ 100) (hn : levels.length = n)
    (hlt : n < 2 ^ 32) : (average n levels).toNat ≤ 100 := by
  have hsum := toNat_foldl_le hall 0
  rw [hn] at hsum
  rw [average, BitVec.toNat_udiv, BitVec.toNat_ofNat, Nat.mod_eq_of_lt hlt]
  apply Nat.div_le_of_le_mul
  rw [Nat.mul_comm n]
  exact Nat.le_trans hsum (by simp)

theorem length_mapM {α β : Type} {f : α → Option β} {xs : List α} {ys : List β}
    (hmap : xs.mapM f = some ys) : ys.length = xs.length := by
  induction xs generalizing ys with
  | nil =>
      cases hmap
      rfl
  | cons x xs ih =>
      rw [List.mapM_cons] at hmap
      simp only [Option.bind_eq_bind, Option.bind_eq_some_iff, Option.pure_def,
        Option.some.injEq] at hmap
      obtain ⟨y, _, ys, hys, rfl⟩ := hmap
      rw [List.length_cons, List.length_cons, ih hys]

/-- The levels of a stream are in range exactly when its host buffers fit, for
levels that are in range exactly when the host buffer fits. -/
theorem levelsDefined_iff_fits {w : Nat} {highwater : BitVec 64} {usage : Usage}
    {level : HostBuffer → Option (BitVec w × BitVec w)}
    {cap : BitVec 32 → BitVec 32} (hcap : ∀ x, (cap x).toNat ≤ x.toNat)
    (hlt : usage.numHostBufferUsed < 2 ^ 32)
    (hlevel : ∀ j, j < usage.numHostBufferUsed →
      ((highwater.toNat ≤ (usage.hb j).kilobytes ∧
        ∃ l, level (usage.hb j) = some l ∧
          l.1.toNat ≤ 100 ∧ l.2.toNat ≤ 100) ↔
        (usage.hb j).Fits highwater)) :
    LevelsDefined highwater usage (fillLevels level cap usage) ↔
      ∀ j, j < usage.numHostBufferUsed → (usage.hb j).Fits highwater := by
  have hlist := @mapM_forall Nat (BitVec w × BitVec w)
    (fun j => level (usage.hb j)) (fun l => l.1.toNat ≤ 100 ∧ l.2.toNat ≤ 100)
    (List.range usage.numHostBufferUsed)
  simp only [List.mem_range] at hlist
  constructor
  · rintro ⟨hhigh, l, hl, hall, _⟩ j hj
    obtain ⟨hb, hmap, rfl⟩ := Option.map_eq_some_iff.mp hl
    exact (hlevel j hj).mp ⟨hhigh j hj, hlist.mp ⟨hb, hmap, hall⟩ j hj⟩
  · intro hfits
    obtain ⟨hb, hmap, hall⟩ := hlist.mpr fun j hj =>
      ((hlevel j hj).mpr (hfits j hj)).2
    have hlength : hb.length = usage.numHostBufferUsed := by
      rw [length_mapM hmap, List.length_range]
    have haverage : ∀ f : BitVec w × BitVec w → BitVec w,
        (∀ l ∈ hb, (f l).toNat ≤ 100) →
        (cap (average usage.numHostBufferUsed (hb.map f))).toNat ≤ 100 := by
      intro f hf
      refine Nat.le_trans (hcap _) (average_le ?_ ?_ hlt)
      · intro x hx
        obtain ⟨l, hl, rfl⟩ := List.mem_map.mp hx
        exact hf l hl
      · rw [List.length_map, hlength]
    refine ⟨fun j hj => ((hlevel j hj).mpr (hfits j hj)).1, _,
      by rw [fillLevels, hmap]; rfl, hall, ?_, ?_⟩
    · exact haverage Prod.fst fun l hl => (hall l hl).1
    · exact haverage Prod.snd fun l hl => (hall l hl).2

/-- A loop that stores the levels of each host buffer and adds them up computes
them and their sums. -/
theorem levels_of_foldlM {σ : Type} {w : Nat} {step : σ → Nat → Option σ}
    {level : Nat → Option (BitVec w × BitVec w)} {ob hb : σ → BitVec 32}
    {stored : σ → Nat → BitVec w × BitVec w}
    (hstep : ∀ s s' j, step s j = some s' → ∃ l, level j = some l ∧
      ob s' = ob s + l.1.setWidth 32 ∧ hb s' = hb s + l.2.setWidth 32 ∧
      stored s' j = l ∧ ∀ i, i ≠ j → stored s' i = stored s i)
    {n : Nat} {s s' : σ} (hloop : (List.range n).foldlM step s = some s') :
    (List.range n).mapM level = some ((List.range n).map (stored s')) ∧
      ob s' = (((List.range n).map (stored s')).map Prod.fst).foldl
        (fun sum level => sum + level.setWidth 32) (ob s) ∧
      hb s' = (((List.range n).map (stored s')).map Prod.snd).foldl
        (fun sum level => sum + level.setWidth 32) (hb s) := by
  induction n generalizing s' with
  | zero =>
      cases hloop
      exact ⟨rfl, rfl, rfl⟩
  | succ n ih =>
      rw [List.range_succ, List.foldlM_append] at hloop
      simp only [Option.bind_eq_bind, Option.bind_eq_some_iff,
        List.foldlM_cons, List.foldlM_nil, Option.pure_def,
        Option.some.injEq] at hloop
      obtain ⟨mid, hmid, last, hlast, heq⟩ := hloop
      rw [heq] at hlast
      obtain ⟨hmap, hob, hhb⟩ := ih hmid
      obtain ⟨l, hl, hobStep, hhbStep, hstored, hkept⟩ := hstep _ _ _ hlast
      have hsame : (List.range n).map (stored mid) =
          (List.range n).map (stored s') := by
        apply List.map_congr_left
        intro i hi
        rw [List.mem_range] at hi
        exact (hkept i (Nat.ne_of_lt hi)).symm
      rw [hsame] at hmap hob hhb
      rw [List.range_succ, List.map_append, List.map_singleton, hstored]
      refine ⟨?_, ?_, ?_⟩
      · rw [List.mapM_append, hmap, List.mapM_cons, hl]
        rfl
      · rw [List.map_append, List.foldl_append, ← hob, hobStep]
        rfl
      · rw [List.map_append, List.foldl_append, ← hhb, hhbStep]
        rfl

/-- What such a loop leaves behind, with the sums divided, are the levels of the
stream. -/
theorem fillLevels_of_foldlM {σ : Type} {w : Nat} {usage : Usage}
    {step : σ → Nat → Option σ}
    {level : HostBuffer → Option (BitVec w × BitVec w)} {ob hb : σ → BitVec 32}
    {stored : σ → Nat → BitVec w × BitVec w}
    (hstep : ∀ s s' j, step s j = some s' → ∃ l, level (usage.hb j) = some l ∧
      ob s' = ob s + l.1.setWidth 32 ∧ hb s' = hb s + l.2.setWidth 32 ∧
      stored s' j = l ∧ ∀ i, i ≠ j → stored s' i = stored s i)
    (cap : BitVec 32 → BitVec 32) {s s' : σ} (hob : ob s = 0) (hhb : hb s = 0)
    (hloop : (List.range usage.numHostBufferUsed).foldlM step s = some s') :
    fillLevels level cap usage = some
      { hb := (List.range usage.numHostBufferUsed).map (stored s')
        aveOB := cap (ob s' / BitVec.ofNat 32 usage.numHostBufferUsed)
        aveHB := cap (hb s' / BitVec.ofNat 32 usage.numHostBufferUsed) } := by
  obtain ⟨hmap, hobSum, hhbSum⟩ := levels_of_foldlM hstep hloop
  rw [hob] at hobSum
  rw [hhb] at hhbSum
  rw [fillLevels, hmap, Option.map_some, average, average, hobSum, hhbSum]

end Ntapi

end NtapiExamples
