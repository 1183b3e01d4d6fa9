/-
`ft_visit` with its two loops, the flag and the entry they carry, and its
assertions; and what `ft_lookup` returns on a chain that is well formed.
-/
import NtapiExamples.Ntnetflow.FlowTableAccount

namespace NtapiExamples

namespace Ntnetflow

/-- What ends a visit early: a walk that does not end within its fuel, freed
memory, or a failed assertion. -/
inductive VisitStop where
  | fuel | freed | assertion
deriving DecidableEq, Repr

/-- The variables `entry` and `not_found` of `ft_visit`. -/
structure VisitState where
  entry : Option EntryPtr
  notFound : Bool
deriving DecidableEq, Repr

namespace FlowTable

variable {t : FlowTable}

/-- `while (not_found && used)`, with both assertions. -/
def visitUsedLoop (t : FlowTable) (visitor : FlowEntry → Bool)
    (p : BucketPtr) : Nat → BitVec 64 → VisitState →
      Except VisitStop VisitState
  | 0, _, _ => .error .fuel
  | fuel + 1, used, s =>
      if s.notFound = false ∨ used = 0#64 then .ok s
      else
        let usedIndex := ctz (used.setWidth 32)
        if ¬ usedIndex < t.bucketSize then .error .assertion
        else if usedIndex ≠ (t.entry ⟨p, usedIndex⟩).index then
          .error .assertion
        else
          visitUsedLoop t visitor p fuel (used &&& (used - 1#64))
            ⟨some ⟨p, usedIndex⟩, !visitor (t.entry ⟨p, usedIndex⟩)⟩

/-- `do … while (not_found && (bucket = bucket->next))`.  The inner loop clears
one of 64 bits a turn. -/
def visitBucketLoop (t : FlowTable) (visitor : FlowEntry → Bool) :
    Nat → BucketPtr → VisitState → Except VisitStop VisitState
  | 0, _, _ => .error .fuel
  | fuel + 1, p, s =>
      if t.valid p = false then .error .freed
      else
        match t.visitUsedLoop visitor p 65
            (~~~(t.mem p).unused &&& t.bucketMask) s with
        | .error stop => .error stop
        | .ok s =>
            if s.notFound = false then .ok s
            else match (t.mem p).next with
              | none => .ok s
              | some next => visitBucketLoop t visitor fuel next s

/-- `ft_lookup`, loop by loop, for at most `fuel` buckets. -/
def ftLookupLoop (t : FlowTable) (fuel : Nat) (hash : BitVec 32)
    (keyData : KeyData) (color : BitVec 16) :
    Except VisitStop (Option EntryPtr) :=
  (t.visitBucketLoop (fun entry => ftCompare entry hash keyData color) fuel
    (.first (t.chainIndex hash)) ⟨none, true⟩).map fun s =>
      if s.notFound then none else s.entry

/-- The buckets that `next` reads behind a bucket, up to NULL. -/
def NextList (t : FlowTable) : BucketPtr → List BucketPtr → Prop
  | p, [] => t.nextOf p = none
  | p, q :: l => t.nextOf p = some q ∧ NextList t q l

/-- A chain with finitely many buckets, whose used slots carry their index. -/
structure WellFormed (t : FlowTable) (c : Nat) (behind : List BucketPtr) :
    Prop where
  links : t.NextList (.first c) behind
  valid : ∀ p ∈ .first c :: behind, t.valid p = true
  index : ∀ e, e.bucket ∈ .first c :: behind → t.Used e →
    (t.entry e).index = e.slot

/-- A used slot with the hash, the colour type and the key. -/
structure Holds (t : FlowTable) (hash : BitVec 32) (keyData : KeyData)
    (color : BitVec 16) (e : EntryPtr) : Prop where
  used : t.Used e
  hash : (t.entry e).hash = hash
  type : (t.entry e).color &&& FLOW_COLOR_TYPE_MASK =
    color &&& FLOW_COLOR_TYPE_MASK
  key : ∀ i : Fin FLOW_MAX_KEY_LEN, i.val < keyLen color →
    (t.entry e).keyData i = keyData i

theorem holds_iff {hash : BitVec 32} {keyData : KeyData}
    {color : BitVec 16} {e : EntryPtr} :
    t.Holds hash keyData color e ↔
      t.Used e ∧ ftCompare (t.entry e) hash keyData color = true := by
  simp only [ftCompare, Bool.and_eq_true, beq_iff_eq, keyEq_eq_true_iff]
  constructor
  · rintro ⟨hused, hhash, htype, hkey⟩
    exact ⟨hused, ⟨hhash, htype⟩, hkey⟩
  · rintro ⟨hused, ⟨hhash, htype⟩, hkey⟩
    exact ⟨hused, hhash, htype, hkey⟩

section Inner

variable {visitor : FlowEntry → Bool} {p : BucketPtr}

theorem visitUsedLoop_done {fuel : Nat} {used : BitVec 64}
    {s : VisitState} (hdone : s.notFound = false ∨ used = 0#64) :
    t.visitUsedLoop visitor p (fuel + 1) used s = .ok s := by
  rw [visitUsedLoop, if_pos hdone]

/-- The inner loop has found nothing below `start` and goes on with the bits
from `start` on: it stops at the first slot the visitor accepts, with that slot
in `entry`, or runs to the end with `not_found` set. -/
theorem visitUsedLoop_spec {fuel start : Nat} {used : BitVec 64}
    {s : VisitState} (hflag : s.notFound = true)
    (hhigh : ∀ i, used.getLsbD i = true → i < 32 ∧ i < t.bucketSize)
    (hindex : ∀ i, used.getLsbD i = true → (t.entry ⟨p, i⟩).index = i)
    (hlow : ∀ i, i < start → used.getLsbD i = false)
    (hfuel : 33 ≤ start + fuel) (hstart : start ≤ 32) :
    ∃ s', t.visitUsedLoop visitor p fuel used s = .ok s' ∧
      match (List.range 32).find? fun i =>
        used.getLsbD i && visitor (t.entry ⟨p, i⟩) with
      | some i => s' = ⟨some ⟨p, i⟩, false⟩
      | none => s'.notFound = true := by
  induction fuel generalizing used start s with
  | zero => omega
  | succ fuel ih =>
      by_cases hzero : used = 0#64
      · have hnone : ((List.range 32).find? fun i =>
            used.getLsbD i && visitor (t.entry ⟨p, i⟩)) = none := by
          rw [List.find?_range_eq_none]
          simp [hzero]
        rw [hnone]
        exact ⟨s, visitUsedLoop_done (Or.inr hzero), hflag⟩
      · obtain ⟨i, hset⟩ : ∃ i, used.getLsbD i = true := by
          by_contra hnone
          apply hzero
          apply BitVec.eq_of_getLsbD_eq
          intro i _
          rw [BitVec.getLsbD_zero]
          by_contra hset
          exact hnone ⟨i, by simpa using hset⟩
        obtain ⟨-, hctz, hbelow⟩ := ctz_setWidth_spec (hhigh i hset).1 hset
        obtain ⟨hlt, hsize⟩ := hhigh _ hctz
        have hrest := getLsbD_and_pred hctz hbelow
        have hge : start ≤ ctz (used.setWidth 32) := by
          by_contra hlt
          rw [hlow _ (by omega)] at hctz
          contradiction
        have hnot : ¬ (s.notFound = false ∨ used = 0#64) := by
          simp [hflag, hzero]
        rw [visitUsedLoop, if_neg hnot]
        simp only [hsize, not_true_eq_false, if_false, hindex _ hctz,
          ne_eq]
        cases hvisit : visitor (t.entry ⟨p, ctz (used.setWidth 32)⟩) with
        | true =>
            -- the flag is cleared, and the next test leaves the loop
            have hfirst : ((List.range 32).find? fun i =>
                used.getLsbD i && visitor (t.entry ⟨p, i⟩)) =
                some (ctz (used.setWidth 32)) := by
              rw [List.find?_range_eq_some]
              refine ⟨by rw [hctz, hvisit]; rfl, List.mem_range.mpr hlt, ?_⟩
              intro j hj
              simp [hbelow j hj]
            obtain ⟨fuel, rfl⟩ : ∃ n, fuel = n + 1 :=
              ⟨fuel - 1, by omega⟩
            rw [hfirst]
            exact ⟨_, visitUsedLoop_done (Or.inl rfl), rfl⟩
        | false =>
            obtain ⟨s', hloop, hfound⟩ := @ih (ctz (used.setWidth 32) + 1)
              (used &&& (used - 1#64))
              ⟨some ⟨p, ctz (used.setWidth 32)⟩, true⟩ rfl
              (fun j hj => by
                rw [hrest, Bool.and_eq_true] at hj
                exact hhigh j hj.1)
              (fun j hj => by
                rw [hrest, Bool.and_eq_true] at hj
                exact hindex j hj.1)
              (fun j hj => by
                rw [hrest]
                by_cases heq : j = ctz (used.setWidth 32)
                · simp [heq]
                · rw [hbelow j (by omega), Bool.false_and])
              (by omega) (by omega)
            refine ⟨s', hloop, ?_⟩
            have hsame : ((List.range 32).find? fun i =>
                (used &&& (used - 1#64)).getLsbD i &&
                  visitor (t.entry ⟨p, i⟩)) =
                (List.range 32).find? fun i =>
                  used.getLsbD i && visitor (t.entry ⟨p, i⟩) := by
              congr 1
              funext j
              rw [hrest]
              by_cases heq : j = ctz (used.setWidth 32)
              · simp [heq, hvisit]
              · simp [heq]
            rw [hsame] at hfound
            exact hfound

end Inner

section Outer

variable {visitor : FlowEntry → Bool}

/-- The slots the inner loop reads are the used ones. -/
theorem getLsbD_used (hsize : SizeOk t) {p : BucketPtr}
    (hvalid : t.valid p = true) (i : Nat) :
    (~~~(t.mem p).unused &&& t.bucketMask).getLsbD i = true ↔
      t.Used ⟨p, i⟩ := by
  have hle := hsize.le
  rw [BitVec.getLsbD_and, BitVec.getLsbD_not, getLsbD_bucketMask hsize,
    Used, hvalid]
  by_cases hi : i < t.bucketSize
  · have hi64 : i < 64 := by omega
    simp [hi, hi64]
  · simp [hi]

/-- The first used slot of a bucket that the visitor accepts. -/
def firstIn (t : FlowTable) (visitor : FlowEntry → Bool) (p : BucketPtr) :
    Option EntryPtr :=
  ((List.range 32).find? fun i =>
    decide (t.Used ⟨p, i⟩) && visitor (t.entry ⟨p, i⟩)).map (EntryPtr.mk p)

theorem visitUsedLoop_bucket (hsize : SizeOk t) {p : BucketPtr}
    (hvalid : t.valid p = true)
    (hindex : ∀ i, t.Used ⟨p, i⟩ → (t.entry ⟨p, i⟩).index = i)
    {s : VisitState} (hflag : s.notFound = true) :
    ∃ s', t.visitUsedLoop visitor p 65
        (~~~(t.mem p).unused &&& t.bucketMask) s = .ok s' ∧
      match t.firstIn visitor p with
      | some e => s' = ⟨some e, false⟩
      | none => s'.notFound = true := by
  have hused := getLsbD_used hsize hvalid
  obtain ⟨s', hloop, hfound⟩ := @visitUsedLoop_spec t visitor p 65 0 _ s
    hflag
    (fun i hi => by
      have hlt := ((hused i).mp hi).2.1
      exact ⟨Nat.lt_of_lt_of_le hlt hsize.le, hlt⟩)
    (fun i hi => hindex i ((hused i).mp hi))
    (fun i hi => absurd hi (Nat.not_lt_zero i)) (by omega) (by omega)
  refine ⟨s', hloop, ?_⟩
  have hsame : (fun i => (~~~(t.mem p).unused &&& t.bucketMask).getLsbD i &&
      visitor (t.entry ⟨p, i⟩)) =
      fun i => decide (t.Used ⟨p, i⟩) && visitor (t.entry ⟨p, i⟩) := by
    funext i
    congr 1
    rw [Bool.eq_iff_iff, hused, decide_eq_true_iff]
  rw [hsame] at hfound
  rw [firstIn]
  cases hfind : (List.range 32).find? fun i =>
      decide (t.Used ⟨p, i⟩) && visitor (t.entry ⟨p, i⟩) with
  | none =>
      rw [hfind] at hfound
      exact hfound
  | some i =>
      rw [hfind] at hfound
      exact hfound

/-- Along the buckets of a chain the outer loop stops in the first one in which
the inner loop did. -/
theorem visitBucketLoop_spec (hsize : SizeOk t) {fuel : Nat} {p : BucketPtr}
    {behind : List BucketPtr} (hlinks : t.NextList p behind)
    (hvalid : ∀ q ∈ p :: behind, t.valid q = true)
    (hindex : ∀ e, e.bucket ∈ p :: behind → t.Used e →
      (t.entry e).index = e.slot)
    (hfuel : behind.length < fuel) {s : VisitState}
    (hflag : s.notFound = true) :
    ∃ s', t.visitBucketLoop visitor fuel p s = .ok s' ∧
      match (p :: behind).findSome? (t.firstIn visitor) with
      | some e => s' = ⟨some e, false⟩
      | none => s'.notFound = true := by
  induction behind generalizing p fuel s with
  | nil =>
      obtain ⟨fuel, rfl⟩ : ∃ n, fuel = n + 1 := ⟨fuel - 1, by simp at hfuel; omega⟩
      have hp := hvalid p List.mem_cons_self
      have hnext : (t.mem p).next = none := hlinks
      obtain ⟨s₁, hloop, hfound⟩ := @visitUsedLoop_bucket t visitor hsize p hp
        (fun i => hindex ⟨p, i⟩ List.mem_cons_self) s hflag
      refine ⟨s₁, ?_, ?_⟩
      · simp only [visitBucketLoop, hp, Bool.true_eq_false, if_false, hloop,
          hnext]
        split <;> rfl
      · rw [List.findSome?_cons, List.findSome?_nil]
        cases hfirst : t.firstIn visitor p with
        | none => simpa [hfirst] using hfound
        | some e => simpa [hfirst] using hfound
  | cons q behind ih =>
      obtain ⟨fuel, rfl⟩ : ∃ n, fuel = n + 1 := ⟨fuel - 1, by simp at hfuel; omega⟩
      have hp := hvalid p List.mem_cons_self
      have hnext : (t.mem p).next = some q := hlinks.1
      obtain ⟨s₁, hloop, hfound⟩ := @visitUsedLoop_bucket t visitor hsize p hp
        (fun i => hindex ⟨p, i⟩ List.mem_cons_self) s hflag
      rw [List.findSome?_cons]
      cases hfirst : t.firstIn visitor p with
      | some e =>
          rw [hfirst] at hfound
          simp only at hfound
          refine ⟨s₁, ?_, hfound⟩
          simp only [visitBucketLoop, hp, Bool.true_eq_false, if_false,
            hloop]
          rw [if_pos (by rw [hfound])]
      | none =>
          rw [hfirst] at hfound
          simp only at hfound
          obtain ⟨s₂, hrest, hfound₂⟩ := ih hlinks.2
            (fun r hr => hvalid r (List.mem_cons_of_mem p hr))
            (fun e he => hindex e (List.mem_cons_of_mem p he))
            (by simpa using hfuel) hfound
          refine ⟨s₂, ?_, hfound₂⟩
          simp only [visitBucketLoop, hp, Bool.true_eq_false, if_false,
            hloop, hfound, hnext]
          exact hrest

theorem firstIn_eq_none_iff (hsize : SizeOk t) {p : BucketPtr} :
    t.firstIn visitor p = none ↔
      ∀ i, t.Used ⟨p, i⟩ → visitor (t.entry ⟨p, i⟩) = false := by
  rw [firstIn, Option.map_eq_none_iff, List.find?_range_eq_none]
  constructor
  · intro hnone i hused
    have hlt := Nat.lt_of_lt_of_le hused.2.1 hsize.le
    simpa [hused] using hnone i hlt
  · intro hall i _
    by_cases hused : t.Used ⟨p, i⟩
    · simp [hall i hused]
    · simp [hused]

theorem firstIn_eq_some {p : BucketPtr} {e : EntryPtr}
    (hfirst : t.firstIn visitor p = some e) :
    e.bucket = p ∧ t.Used e ∧ visitor (t.entry e) = true ∧
      ∀ i, i < e.slot → t.Used ⟨p, i⟩ →
        visitor (t.entry ⟨p, i⟩) = false := by
  rw [firstIn, Option.map_eq_some_iff] at hfirst
  obtain ⟨slot, hfind, rfl⟩ := hfirst
  rw [List.find?_range_eq_some] at hfind
  obtain ⟨hfound, -, hbelow⟩ := hfind
  simp only [Bool.and_eq_true, decide_eq_true_iff] at hfound
  refine ⟨rfl, hfound.1, hfound.2, ?_⟩
  intro i hi hused
  simpa [hused] using hbelow i hi

end Outer

section Lookup

variable {hash : BitVec 32} {keyData : KeyData} {color : BitVec 16}

/-- `e` is the first holder in bucket order and, in its bucket, in slot order. -/
structure FirstHolder (t : FlowTable) (buckets : List BucketPtr)
    (hash : BitVec 32) (keyData : KeyData) (color : BitVec 16)
    (e : EntryPtr) : Prop where
  holds : t.Holds hash keyData color e
  bucket : ∃ before after, buckets = before ++ e.bucket :: after ∧
    ∀ e', e'.bucket ∈ before → ¬ t.Holds hash keyData color e'
  slot : ∀ i, i < e.slot → ¬ t.Holds hash keyData color ⟨e.bucket, i⟩

theorem firstHolder_of_findSome {buckets : List BucketPtr} {e : EntryPtr}
    (hsize : SizeOk t)
    (hfind : buckets.findSome? (t.firstIn fun entry =>
      ftCompare entry hash keyData color) = some e) :
    t.FirstHolder buckets hash keyData color e := by
  obtain ⟨before, p, after, hsplit, hfirst, hnone⟩ :=
    List.findSome?_eq_some_iff.mp hfind
  obtain ⟨rfl, hused, hmatch, hbelow⟩ := firstIn_eq_some hfirst
  refine ⟨holds_iff.mpr ⟨hused, hmatch⟩, ⟨before, after, hsplit, ?_⟩, ?_⟩
  · intro e' he' hholds
    obtain ⟨hused', hmatch'⟩ := holds_iff.mp hholds
    have hreject := (firstIn_eq_none_iff hsize).mp (hnone _ he') e'.slot hused'
    rw [hmatch'] at hreject
    contradiction
  · intro i hi hholds
    obtain ⟨hused', hmatch'⟩ := holds_iff.mp hholds
    have hreject := hbelow i hi hused'
    rw [hmatch'] at hreject
    contradiction

theorem findSome_eq_none_iff_holds {buckets : List BucketPtr}
    (hsize : SizeOk t) :
    buckets.findSome? (t.firstIn fun entry =>
        ftCompare entry hash keyData color) = none ↔
      ∀ e, e.bucket ∈ buckets → ¬ t.Holds hash keyData color e := by
  rw [List.findSome?_eq_none_iff]
  constructor
  · intro hnone e he hholds
    obtain ⟨hused, hmatch⟩ := holds_iff.mp hholds
    have hreject := (firstIn_eq_none_iff hsize).mp (hnone _ he) e.slot hused
    rw [hmatch] at hreject
    contradiction
  · intro hall p hp
    rw [firstIn_eq_none_iff hsize]
    intro i hused
    rw [← Bool.not_eq_true]
    exact fun hmatch => hall ⟨p, i⟩ hp (holds_iff.mpr ⟨hused, hmatch⟩)

end Lookup

theorem nextList_of_seg {p : BucketPtr} {behind : List BucketPtr}
    {before : Option BucketPtr}
    (hseg : Seg t.nextOf t.prevOf before none (p :: behind)) :
    t.NextList p behind := by
  induction behind generalizing p before with
  | nil => exact hseg.2.1
  | cons q behind ih => exact ⟨hseg.2.1, ih hseg.2.2⟩

/-- Every chain is well formed, whatever calls were made, and its buckets are
no more than the fuel the model gives to a walk. -/
theorem Accounted.wellFormed {s : Calls} (hacc : Accounted s) {c : Nat}
    (hc : c < s.table.tableSize) :
    ∃ behind, s.table.WellFormed c behind ∧
      behind.length < s.table.walkBound := by
  obtain ⟨t, lost, htable, hinv⟩ := hacc
  have hlive := hinv.live
  rw [htable] at hc ⊢
  obtain ⟨front, tail, rest, hlist⟩ := hlive.table.chains c hc
  obtain ⟨behind, hsplit⟩ := hlist.split_head
  have hseg := hlist.seg
  have hvalid := hlist.valid
  have hlength := hlist.length_le hlive.table
  rw [hsplit] at hseg hvalid hlength
  refine ⟨behind, ⟨?_, ?_, ?_⟩, hlength⟩
  · exact @nextList_of_seg (t.lose lost) _ _ _ hseg
  · intro p hp
    rw [lose_valid]
    exact hvalid p hp
  · intro e _ hused
    rw [lose_used] at hused
    have hmem := (hinv.balanced.used e).mp hused
    exact (hlive.slots.own hused.1 (hlive.own e hmem)).2.1

section Lookup

variable {hash : BitVec 32} {keyData : KeyData} {color : BitVec 16}

/-- On a well-formed chain `ft_lookup` ends without a failed assertion; it
returns NULL when no used slot matches, and the first match otherwise. -/
theorem ftLookup_sound_complete {behind : List BucketPtr}
    (hpos : 1 ≤ t.bucketSize) (hle : t.bucketSize ≤ 32)
    (hwell : t.WellFormed (t.chainIndex hash) behind) :
    ∀ fuel, behind.length < fuel →
      ∃ found, t.ftLookupLoop fuel hash keyData color = .ok found ∧
        (found = none ↔
          ∀ e, e.bucket ∈ .first (t.chainIndex hash) :: behind →
            ¬ t.Holds hash keyData color e) ∧
        ∀ e, found = some e →
          t.FirstHolder (.first (t.chainIndex hash) :: behind) hash keyData
            color e := by
  intro fuel hfuel
  have htable : 0 < t.tableSize := by
    have hfirst := hwell.valid _ List.mem_cons_self
    simp only [valid, decide_eq_true_iff] at hfirst
    omega
  have hsize : SizeOk t := ⟨htable, hpos, hle⟩
  obtain ⟨s, hloop, hfound⟩ := @visitBucketLoop_spec t
    (fun entry => ftCompare entry hash keyData color) hsize fuel _ behind
    hwell.links hwell.valid hwell.index hfuel ⟨none, true⟩ rfl
  rw [ftLookupLoop, hloop]
  cases hfind : (.first (t.chainIndex hash) :: behind).findSome?
      (t.firstIn fun entry => ftCompare entry hash keyData color) with
  | none =>
      rw [hfind] at hfound
      simp only at hfound
      refine ⟨none, by simp [Except.map, hfound], ?_, by simp⟩
      exact iff_of_true rfl ((findSome_eq_none_iff_holds hsize).mp hfind)
  | some e =>
      rw [hfind] at hfound
      simp only at hfound
      have hholder := firstHolder_of_findSome hsize hfind
      refine ⟨some e, by simp [Except.map, hfound], ?_, ?_⟩
      · refine iff_of_false (by simp) fun hnone => ?_
        rw [← findSome_eq_none_iff_holds hsize, hfind] at hnone
        simp at hnone
      · rintro e' he'
        rw [Option.some.injEq] at he'
        rw [← he']
        exact hholder

/-- A chain of two buckets with two slots, the second one appended. -/
theorem ftLookup_sound_complete_two : ∃ (t : FlowTable) (behind : List BucketPtr),
    t.WellFormed (t.chainIndex 0#32) behind ∧
      ∃ found, t.ftLookupLoop (behind.length + 1) 0#32 (fun _ => 3#8) 0#16 =
        .ok found ∧
      (found = none ↔
        ∀ e, e.bucket ∈ .first (t.chainIndex 0#32) :: behind →
          ¬ t.Holds 0#32 (fun _ => 3#8) 0#16 e) ∧
      ∀ e, found = some e →
        t.FirstHolder (.first (t.chainIndex 0#32) :: behind) 0#32
          (fun _ => 3#8) 0#16 e := by
  have hrun : (((ftInit (fun _ _ => none) 0 1 2).bind fun t =>
      execOk slotStep (fun s call => decide (notLastSlot s call)) ⟨t, []⟩
        [.add none 0#32 (fun _ => 1#8) 0#16,
          .add none 0#32 (fun _ => 2#8) 0#16,
          .add (some 5) 0#32 (fun _ => 3#8) 0#16]).map fun s =>
            (s.table.tableSize, s.table.bucketSize)) = some (1, 2) := by
    decide +kernel
  simp only [Option.map_eq_some_iff, Option.bind_eq_some_iff,
    Prod.mk.injEq] at hrun
  obtain ⟨s, ⟨t, hinit, hexec⟩, htable, hbucket⟩ := hrun
  have hrun := (run_of_execOk _ hexec).mono fun _ _ h => of_decide_eq_true h
  have hacc := accounted_of_run hinit (by decide) hrun
  obtain ⟨behind, hwell, -⟩ := hacc.wellFormed
    (chainIndex_lt (by omega) 0#32)
  exact ⟨s.table, behind, hwell, ftLookup_sound_complete (by omega) (by omega)
    hwell _ (Nat.lt_succ_self _)⟩

end Lookup

section Walk

variable {visitor : FlowEntry → Bool}

/-- Without its flag and its assertions the inner loop is `visitUsed`. -/
theorem visitUsedLoop_visitUsed {p : BucketPtr} {fuel : Nat}
    {used : BitVec 64} {s s' : VisitState} (hflag : s.notFound = true)
    (hloop : t.visitUsedLoop visitor p (fuel + 1) used s = .ok s') :
    match visitUsed visitor (t.mem p).entries fuel used with
    | some slot => s' = ⟨some ⟨p, slot⟩, false⟩
    | none => s'.notFound = true := by
  induction fuel generalizing used s with
  | zero =>
      rw [visitUsedLoop] at hloop
      split at hloop
      · simp only [Except.ok.injEq] at hloop
        rw [← hloop]
        exact hflag
      · simp only [visitUsedLoop] at hloop
        repeat' split at hloop
        all_goals simp at hloop
  | succ fuel ih =>
      by_cases hzero : used = 0#64
      · rw [visitUsedLoop_done (Or.inr hzero), Except.ok.injEq] at hloop
        rw [visitUsed, if_pos hzero, ← hloop]
        exact hflag
      · have hnot : ¬ (s.notFound = false ∨ used = 0#64) := by
          simp [hflag, hzero]
        rw [visitUsedLoop, if_neg hnot] at hloop
        simp only at hloop
        split at hloop
        · simp at hloop
        · split at hloop
          · simp at hloop
          · rw [visitUsed, if_neg hzero]
            simp only [FlowTable.entry] at hloop
            cases hvisit : visitor
                ((t.mem p).entries (ctz (used.setWidth 32))) with
            | true =>
                rw [hvisit, visitUsedLoop_done (Or.inl rfl),
                  Except.ok.injEq] at hloop
                simp only [hvisit, if_true]
                exact hloop.symm
            | false =>
                rw [hvisit] at hloop
                simp only [hvisit, Bool.false_eq_true, if_false]
                exact ih rfl hloop

/-- When no assertion fails, `ft_visit` returns what the walk without flag and
assertions returns. -/
theorem visitBucketLoop_ftVisit {fuel : Nat} {p : BucketPtr}
    {s s' : VisitState} (hflag : s.notFound = true)
    (hloop : t.visitBucketLoop visitor fuel p s = .ok s') :
    t.ftVisit visitor fuel p =
      some (if s'.notFound then none else s'.entry) := by
  induction fuel generalizing p s with
  | zero => simp [visitBucketLoop] at hloop
  | succ fuel ih =>
      rw [visitBucketLoop] at hloop
      split at hloop
      case isTrue => simp at hloop
      case isFalse hvalid =>
        rw [Bool.not_eq_false] at hvalid
        cases hinner : t.visitUsedLoop visitor p 65
            (~~~(t.mem p).unused &&& t.bucketMask) s with
        | error stop => simp [hinner] at hloop
        | ok s₁ =>
            have hfound := visitUsedLoop_visitUsed hflag hinner
            simp only [hinner] at hloop
            simp only [ftVisit, deref, hvalid, if_true, Option.bind_eq_bind,
              Option.bind_some, visitBucket]
            cases hvisit : visitUsed visitor (t.mem p).entries 64
                (~~~(t.mem p).unused &&& t.bucketMask) with
            | some slot =>
                rw [hvisit] at hfound
                simp only at hfound
                rw [hfound, if_pos rfl, Except.ok.injEq] at hloop
                rw [← hloop]
                rfl
            | none =>
                rw [hvisit] at hfound
                simp only at hfound
                rw [if_neg (by rw [hfound]; simp)] at hloop
                cases hnext : (t.mem p).next with
                | none =>
                    simp only [hnext, Except.ok.injEq] at hloop
                    rw [← hloop, hfound]
                    rfl
                | some next =>
                    simp only [hnext] at hloop
                    exact ih hfound hloop

end Walk

end FlowTable

end Ntnetflow

end NtapiExamples
