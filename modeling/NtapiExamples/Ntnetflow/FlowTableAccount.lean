/-
The slots over sequences of `ft_add` and `ft_remove`: which ones are taken, and
what the counters of `stats.c` say about them.
-/
import NtapiExamples.Ntnetflow.FlowTableFailed

namespace NtapiExamples

namespace Ntnetflow

inductive SlotCall where
  | add (alloc : Option Nat) (hash : BitVec 32) (keyData : KeyData)
      (color : BitVec 16)
  | remove (e : EntryPtr)

/-- One call; `alloc` is the answer of `calloc`. -/
def slotStep (s : Calls) : SlotCall → Option Calls
  | .add alloc hash keyData color => do
      let (t, added) ← s.table.ftAdd alloc hash keyData color
      some ⟨t, added.toList ++ s.live⟩
  | .remove e => do
      let t ← s.table.ftRemove e
      some ⟨t, s.live.erase e⟩

/-- A live entry that is removed is not in slot 31. -/
def notLastSlot (s : Calls) : SlotCall → Prop
  | .add .. => True
  | .remove e => e ∈ s.live → e.slot ≠ 31

instance (s : Calls) (call : SlotCall) : Decidable (notLastSlot s call) :=
  match call with
  | .add .. => inferInstanceAs (Decidable True)
  | .remove e => inferInstanceAs (Decidable (e ∈ s.live → e.slot ≠ 31))

/-- The taken slots are those of the live entries, and the counters say how many
there are. -/
structure Balanced (s : Calls) : Prop where
  nodup : s.live.Nodup
  used : ∀ e, s.table.Used e ↔ e ∈ s.live
  stats : s.table.stats .flow =
    s.table.stats .learn - s.table.stats .unlearn
  flow : s.table.stats .flow = s.live.length

/-- What a call has to do to the slots. -/
def Accounts (s : Calls) (call : SlotCall) (s' : Calls) : Prop :=
  Balanced s' ∧
    match call with
    | .add alloc hash keyData color => ∀ t' e,
        s.table.ftAdd alloc hash keyData color = some (t', some e) →
          ¬ s.table.Used e
    | .remove e =>
        (e ∈ s.live → ∀ e', s'.table.Used e' ↔ s.table.Used e' ∧ e' ≠ e) ∧
          (¬ s.table.Used e → s'.table = s.table)

namespace FlowTable

variable {t t' : FlowTable} {e : EntryPtr} {hash : BitVec 32}
  {keyData : KeyData} {color : BitVec 16}

/-- The bit above the widest bucket stays set. -/
def HighOk (t : FlowTable) : Prop :=
  ∀ p, t.valid p = true → (t.mem p).unused.getLsbD 32 = true

theorem Claimed.highOk {p : BucketPtr}
    (hclaimed : Claimed t t' p e hash keyData color) (hsize : SizeOk t)
    (hhigh : HighOk t) : HighOk t' := by
  have hunused := (findUnused_valid hclaimed.found).2
  obtain ⟨hlt, -⟩ := lowest_of_hasUnused hsize hunused
  have hle := hsize.le
  intro q hq
  rw [hclaimed.sameLinks.valid] at hq
  rw [hclaimed.eq]
  by_cases hqp : q = p
  · rw [hqp] at hq
    simp only [hqp, Function.update_self]
    rw [getLsbD_claimed hsize hunused, hhigh p hq, Bool.true_and,
      decide_eq_true_iff]
    omega
  · simp only [Function.update_of_ne hqp]
    exact hhigh q hq

theorem Appended.highOk {addr : Nat} {tail : BucketPtr}
    (happ : Appended t t' addr tail e hash keyData color)
    (hhigh : HighOk t) : HighOk t' := by
  intro q hq
  by_cases hnew : q = .heap addr
  · rw [hnew, happ.grown.mem_new]
    change (~~~1#64).getLsbD 32 = true
    decide
  · rw [(happ.grown.fields_old hnew).2.2.2.1]
    rw [happ.grown.valid_iff] at hq
    exact hhigh q (hq.resolve_left hnew)

theorem Released.highOk {p : BucketPtr} (hreleased : Released t t' e p)
    (hhigh : HighOk t) : HighOk t' := by
  intro q hq
  rw [hreleased.sameLinks.valid] at hq
  rw [hreleased.eq]
  by_cases hqp : q = p
  · rw [hqp] at hq
    simp only [hqp, Function.update_self]
    exact releaseSlot_unused (hhigh p hq)
  · simp only [Function.update_of_ne hqp]
    exact hhigh q hq

theorem Freed.highOk {addr : Nat} (hfreed : Freed t t' e addr)
    (hinv : TableInv t) (hhigh : HighOk t) : HighOk t' := by
  intro q hq
  rw [hfreed.valid_iff hinv.heapNodup] at hq
  rw [hfreed.eq]
  simp only [unlinkedMem, Function.update_of_ne hq.2]
  exact hhigh q hq.1

theorem ftInit_highOk {calloc : Nat → Nat → Option Nat}
    {power2 chainSize bucketSize : Nat}
    (hinit : ftInit calloc power2 chainSize bucketSize = some t) :
    HighOk t := by
  intro p hp
  rw [ftInit_unused hinit hp]
  rfl

theorem used_iff_unused (hvalid : t.valid e.bucket = true)
    (hlt : e.slot < t.bucketSize) :
    t.Used e ↔ (t.mem e.bucket).unused.getLsbD e.slot = false := by
  simp [Used, hvalid, hlt]

/-- What `ft_remove` finds when it tests the slot. -/
theorem Removing.own {p : BucketPtr} (hremoving : Removing t e p)
    (hslots : SlotsOk t) :
    p = e.bucket ∧ (t.entry e).index = e.slot ∧ e.slot < t.bucketSize :=
  hslots.own hremoving.holder hremoving.bucket

/-- A slot that is unused, or that is slot 31, is left as it is. -/
theorem ftRemove_same (hsize : SizeOk t) (hslots : SlotsOk t)
    (hhigh : HighOk t) (hnot : ¬ t.Used e ∨ e.slot = 31)
    (hremove : t.ftRemove e = some t') : t' = t := by
  have hle := hsize.le
  have htest : ∀ p, Removing t e p →
      alreadyUnused (t.mem p) (t.entry e).index = true := by
    intro p hremoving
    obtain ⟨rfl, hindex, hlt⟩ := hremoving.own hslots
    rw [hindex]
    rcases hnot with hunused | hlast
    · rw [used_iff_unused hremoving.valid hlt, Bool.not_eq_false] at hunused
      exact alreadyUnused_of_unused (by omega) hunused
    · rw [hlast]
      exact alreadyUnused_last (hhigh _ hremoving.valid)
  rcases ftRemove_cases hremove with ⟨p, -, -, rfl⟩ | ⟨p, hreleased⟩ |
    ⟨addr, hfreed⟩
  · rfl
  · have hunused := htest p hreleased.removing
    rw [hreleased.used] at hunused
    simp at hunused
  · have hunused := htest _ hfreed.removing
    rw [hfreed.used] at hunused
    simp at hunused

theorem Released.not_used {p : BucketPtr} (hreleased : Released t t' e p)
    (hsize : SizeOk t) (hslots : SlotsOk t) : ¬ t'.Used e := by
  have hle := hsize.le
  obtain ⟨rfl, hindex, hlt⟩ := hreleased.removing.own hslots
  rintro ⟨-, -, hclear⟩
  rw [hreleased.eq] at hclear
  simp only [Function.update_self] at hclear
  rw [hindex, getLsbD_released (by omega) (by omega)] at hclear
  simp at hclear

theorem Freed.not_used {addr : Nat} (hfreed : Freed t t' e addr)
    (hinv : TableInv t) (hslots : SlotsOk t) : ¬ t'.Used e := by
  obtain ⟨hown, -⟩ := hfreed.removing.own hslots
  rintro ⟨hvalid, -⟩
  rw [hfreed.valid_iff hinv.heapNodup] at hvalid
  exact hvalid.2 hown.symm

/-- A used slot below 31 is given back, and no other. -/
theorem ftRemove_used (hinv : TableInv t) (hslots : SlotsOk t)
    (hused : t.Used e) (hslot : e.slot ≠ 31)
    (hremove : t.ftRemove e = some t') :
    (∀ e', t'.Used e' ↔ t.Used e' ∧ e' ≠ e) ∧
      t'.stats = removedStats t.stats := by
  have hle := hinv.le
  have hremoved := ftRemove_removed hinv hslots hremove
  have hiff : ¬ t'.Used e → ∀ e', t'.Used e' ↔ t.Used e' ∧ e' ≠ e := by
    intro hnot e'
    refine ⟨fun h => ⟨hremoved.usedOf e' h, ?_⟩,
      fun h => hremoved.used e' h.1 h.2⟩
    rintro rfl
    exact hnot h
  rcases ftRemove_cases hremove with ⟨p, hremoving, hunused, -⟩ |
    ⟨p, hreleased⟩ | ⟨addr, hfreed⟩
  · obtain ⟨rfl, hindex, hlt⟩ := hremoving.own hslots
    rw [hindex, alreadyUnused_of_lt (by omega), hused.2.2] at hunused
    simp at hunused
  · refine ⟨hiff (hreleased.not_used hinv.toSizeOk hslots), ?_⟩
    rw [hreleased.eq]
  · refine ⟨hiff (hfreed.not_used hinv hslots), ?_⟩
    rw [hfreed.eq]

section Calls

variable {lost : Nat → Bool}

theorem Claimed.unlose {p : BucketPtr}
    (hclaimed : Claimed (t.lose lost) t' p e hash keyData color) :
    ∃ t₁, t' = t₁.lose lost ∧ Claimed t t₁ p e hash keyData color := by
  refine ⟨{ t with mem := t'.mem, stats := t'.stats }, ?_, ?_⟩
  · rw [hclaimed.eq]
    rfl
  · have hfound := hclaimed.found
    have hvalid := hclaimed.valid
    rw [lose_findUnused] at hfound
    rw [lose_valid] at hvalid
    refine ⟨hfound, hvalid, hclaimed.ptr, ?_⟩
    rw [hclaimed.eq]
    rfl

theorem Appended.unlose {addr : Nat} {tail : BucketPtr}
    (happ : Appended (t.lose lost) t' addr tail e hash keyData color) :
    ∃ t₁, t' = t₁.lose lost ∧
      Appended t t₁ addr tail e hash keyData color := by
  have hlast := happ.last
  have hkept : lost (t.chainIndex hash) = false := by
    cases hlost : lost (t.chainIndex hash) with
    | false => rfl
    | true =>
        change (if lost (t.chainIndex hash) then _ else _) = _ at hlast
        rw [hlost] at hlast
        simp at hlast
  change (if lost (t.chainIndex hash) then _ else _) = _ at hlast
  rw [hkept] at hlast
  refine ⟨{ t with
    mem := t'.mem
    heap := t'.heap
    last := Function.update t.last (t.chainIndex hash) (some (.heap addr))
    stats := t'.stats }, ?_, ?_⟩
  · rw [happ.eq]
    simp only [lose, mk.injEq, true_and, and_true]
    funext c
    change Function.update (t.lose lost).last (t.chainIndex hash) _ c =
      if lost c then none else Function.update t.last (t.chainIndex hash) _ c
    by_cases hc : c = t.chainIndex hash
    · rw [hc, hkept, Function.update_self, Function.update_self]
      rfl
    · rw [Function.update_of_ne hc, Function.update_of_ne hc]
      rfl
  · have hfull := happ.full
    have hvalid := happ.valid
    rw [lose_findUnused] at hfull
    rw [lose_valid] at hvalid
    refine ⟨hfull, hlast, hvalid, happ.fresh, happ.ptr, ?_⟩
    rw [happ.eq]
    rfl

/-- A successful `ft_add` does not depend on the chains that lost their
`last`. -/
theorem ftAdd_unlose {alloc : Option Nat} (hinv : TableInv t)
    (hhigh : HighOk t)
    (hadd : (t.lose lost).ftAdd alloc hash keyData color =
      some (t', some e)) :
    ∃ t₁, t' = t₁.lose lost ∧ Added t t₁ e hash keyData color ∧
      TableInv t₁ ∧ HighOk t₁ ∧ t₁.stats = addedStats t.stats := by
  have hlast : ∀ tail, (t.lose lost).last ((t.lose lost).chainIndex hash) =
      some tail → (t.lose lost).valid tail = true := by
    intro tail hlast
    change (if lost (t.chainIndex hash) then _ else _) = _ at hlast
    rw [lose_valid]
    split at hlast
    · simp at hlast
    · exact (hinv.last_valid (chainIndex_lt hinv.table hash) hlast).1
  rcases ftAdd_cases hadd hlast with ⟨p, hclaimed⟩ | ⟨addr, tail, -, happ⟩
  · obtain ⟨t₁, heq, hclaimed⟩ := hclaimed.unlose
    refine ⟨t₁, heq, hclaimed.added hinv, hclaimed.sameLinks.tableInv hinv,
      hclaimed.highOk hinv.toSizeOk hhigh, ?_⟩
    rw [hclaimed.eq]
  · obtain ⟨t₁, heq, happ⟩ := happ.unlose
    refine ⟨t₁, heq, happ.added hinv, happ.tableInv hinv,
      happ.highOk hhigh, ?_⟩
    rw [happ.eq]

theorem ftRemove_highOk (hinv : TableInv t) (hhigh : HighOk t)
    (hremove : t.ftRemove e = some t') : HighOk t' := by
  rcases ftRemove_cases hremove with ⟨p, -, -, rfl⟩ | ⟨p, hreleased⟩ |
    ⟨addr, hfreed⟩
  · exact hhigh
  · exact hreleased.highOk hhigh
  · exact hfreed.highOk hinv hhigh

end Calls

/-- What holds before the first failed `calloc`. -/
structure AccountInv (s : Calls) : Prop where
  live : LiveInv s
  balanced : Balanced s
  high : HighOk s.table

/-- The same with some chains that lost their `last`. -/
def Accounted (s : Calls) : Prop :=
  ∃ t lost, s.table = t.lose lost ∧ AccountInv ⟨t, s.live⟩

theorem balanced_lose {lost : Nat → Bool} {live : List EntryPtr}
    (hbalanced : Balanced ⟨t, live⟩) : Balanced ⟨t.lose lost, live⟩ where
  nodup := hbalanced.nodup
  used := fun e => (lose_used e).trans (hbalanced.used e)
  stats := hbalanced.stats
  flow := hbalanced.flow

theorem addedStats_eq (stats : Stat → Int) :
    addedStats stats .flow = stats .flow + 1 ∧
      addedStats stats .learn = stats .learn + 1 ∧
      addedStats stats .unlearn = stats .unlearn := by
  simp [addedStats]

theorem removedStats_eq (stats : Stat → Int) :
    removedStats stats .flow = stats .flow - 1 ∧
      removedStats stats .learn = stats .learn ∧
      removedStats stats .unlearn = stats .unlearn + 1 := by
  simp [removedStats]

theorem balanced_added {live : List EntryPtr}
    (hbalanced : Balanced ⟨t, live⟩)
    (hadded : Added t t' e hash keyData color)
    (hstats : t'.stats = addedStats t.stats) :
    Balanced ⟨t', e :: live⟩ := by
  obtain ⟨hnodup, hused, hbefore, hflow⟩ := hbalanced
  obtain ⟨hflow', hlearn', hunlearn'⟩ := addedStats_eq t.stats
  rw [← hstats] at hflow' hlearn' hunlearn'
  simp only at hbefore hflow
  constructor
  · exact List.nodup_cons.mpr
      ⟨fun he => hadded.fresh ((hused e).mpr he), hnodup⟩
  · intro e'
    rw [hadded.used, hused, List.mem_cons]
  · simp only
    omega
  · simp only [List.length_cons]
    omega

theorem balanced_removed {live : List EntryPtr}
    (hbalanced : Balanced ⟨t, live⟩) (he : e ∈ live)
    (hclears : ∀ e', t'.Used e' ↔ t.Used e' ∧ e' ≠ e)
    (hstats : t'.stats = removedStats t.stats) :
    Balanced ⟨t', live.erase e⟩ := by
  obtain ⟨hnodup, hused, hbefore, hflow⟩ := hbalanced
  obtain ⟨hflow', hlearn', hunlearn'⟩ := removedStats_eq t.stats
  rw [← hstats] at hflow' hlearn' hunlearn'
  have hlength := List.length_erase_of_mem he
  have hpos := List.length_pos_of_mem he
  simp only at hbefore hflow
  constructor
  · exact hnodup.erase e
  · intro e'
    rw [hclears, hused, hnodup.mem_erase_iff, and_comm]
  · simp only
    omega
  · simp only
    omega

theorem AccountInv.cut {s : Calls} (hinv : AccountInv s) {c : Nat}
    (hc : c < s.table.tableSize) {tail : BucketPtr}
    (hlast : s.table.last c = some tail) :
    AccountInv ⟨s.table.cut tail, s.live⟩ where
  live := hinv.live.cut hc hlast
  balanced :=
    { nodup := hinv.balanced.nodup
      used := fun e => (cut_used e).trans (hinv.balanced.used e)
      stats := hinv.balanced.stats
      flow := hinv.balanced.flow }
  high := fun p hp => by
    rw [cut_valid] at hp
    rw [(cut_fields p).2.2.2.1]
    exact hinv.high p hp

/-- `ft_add` keeps the account, whether it returns an entry or NULL. -/
theorem Accounted.add {s s' : Calls} {alloc : Option Nat}
    (hacc : Accounted s)
    (hstep : slotStep s (.add alloc hash keyData color) = some s') :
    Accounted s' := by
  obtain ⟨t, lost, htable, hinv⟩ := hacc
  simp only [slotStep, Option.bind_eq_bind, Option.bind_eq_some_iff,
    Option.some.injEq] at hstep
  obtain ⟨⟨t', added⟩, hadd, rfl⟩ := hstep
  rw [htable] at hadd
  have htab := hinv.live.table
  cases added with
  | some e =>
      obtain ⟨t₁, heq, hadded, hinv₁, hhigh, hstats⟩ :=
        ftAdd_unlose htab hinv.high hadd
      exact ⟨t₁, lost, heq, hinv.live.added hadded hinv₁,
        balanced_added hinv.balanced hadded hstats, hhigh⟩
  | none =>
      obtain ⟨tail, hlast, heq⟩ := ftAdd_failed hadd
      change (if lost (t.chainIndex hash) then _ else _) = _ at hlast
      split at hlast
      case isTrue => simp at hlast
      case isFalse hkept =>
        refine ⟨t.cut tail, fun c => decide (c = t.chainIndex hash) || lost c,
          ?_, hinv.cut (chainIndex_lt htab.table hash) hlast⟩
        rw [heq]
        simp only [lose, cut, setBucket, mk.injEq, true_and, and_true]
        funext c
        change (if decide (c = t.chainIndex hash) then none
          else if lost c then none else t.last c) = _
        by_cases hc : c = t.chainIndex hash
        · simp [hc]
        · simp [hc]

theorem Accounted.fresh {s : Calls} {alloc : Option Nat}
    (hacc : Accounted s)
    (hadd : s.table.ftAdd alloc hash keyData color = some (t', some e)) :
    ¬ s.table.Used e := by
  obtain ⟨t, lost, htable, hinv⟩ := hacc
  rw [htable] at hadd ⊢
  obtain ⟨t₁, -, hadded, -⟩ := ftAdd_unlose hinv.live.table hinv.high hadd
  rw [lose_used]
  exact hadded.fresh

/-- `ft_remove` works on the table as if no chain had lost its `last`. -/
theorem Accounted.remove_cases {s s' : Calls} (hacc : Accounted s)
    (hstep : slotStep s (.remove e) = some s') :
    ∃ t t₁ lost, s.table = t.lose lost ∧ AccountInv ⟨t, s.live⟩ ∧
      t.ftRemove e = some t₁ ∧ s' = ⟨t₁.lose lost, s.live.erase e⟩ := by
  obtain ⟨t, lost, htable, hinv⟩ := hacc
  simp only [slotStep, htable, lose_ftRemove, Option.bind_eq_bind,
    Option.bind_eq_some_iff, Option.map_eq_some_iff,
    Option.some.injEq] at hstep
  obtain ⟨-, ⟨t₁, hremove, rfl⟩, rfl⟩ := hstep
  exact ⟨t, t₁, lost, htable, hinv, hremove, rfl⟩

theorem Accounted.balanced {s : Calls} (hacc : Accounted s) :
    Balanced s := by
  obtain ⟨t, lost, htable, hinv⟩ := hacc
  have hbalanced := @balanced_lose t lost s.live hinv.balanced
  rw [← htable] at hbalanced
  exact hbalanced

theorem Accounted.remove {s s' : Calls} (hacc : Accounted s)
    (hslot : e ∈ s.live → e.slot ≠ 31)
    (hstep : slotStep s (.remove e) = some s') :
    Accounted s' ∧
      (e ∈ s.live → ∀ e', s'.table.Used e' ↔ s.table.Used e' ∧ e' ≠ e) ∧
      (¬ s.table.Used e → s'.table = s.table) := by
  obtain ⟨t, t₁, lost, htable, hinv, hremove, rfl⟩ := hacc.remove_cases hstep
  have hlive := hinv.live
  rw [htable]
  simp only [lose_used]
  by_cases he : e ∈ s.live
  · have hused := (hinv.balanced.used e).mpr he
    obtain ⟨hiff, hstats⟩ := ftRemove_used hlive.table hlive.slots hused
      (hslot he) hremove
    have hcall : callStep ⟨t, s.live⟩ (.remove e) =
        some ⟨t₁, s.live.erase e⟩ := by
      simp [callStep, hremove]
    exact ⟨⟨t₁, lost, rfl, hlive.remove hcall,
      balanced_removed hinv.balanced he hiff hstats,
      ftRemove_highOk hlive.table hinv.high hremove⟩, fun _ => hiff,
      fun hnot => absurd hused hnot⟩
  · have hnot : ¬ t.Used e := fun h => he ((hinv.balanced.used e).mp h)
    have hsame := ftRemove_same hlive.table.toSizeOk hlive.slots hinv.high
      (Or.inl hnot) hremove
    rw [hsame, List.erase_of_not_mem he]
    exact ⟨⟨t, lost, rfl, hinv⟩, fun h => absurd h he, fun _ => rfl⟩

/-- For the live entry of slot 31 `ft_remove` takes the slot for unused. -/
theorem Accounted.remove_last {s s' : Calls} (hacc : Accounted s)
    (hslot : e.slot = 31) (hstep : slotStep s (.remove e) = some s') :
    s'.table = s.table := by
  obtain ⟨t, t₁, lost, htable, hinv, hremove, rfl⟩ := hacc.remove_cases hstep
  have hsame := ftRemove_same hinv.live.table.toSizeOk hinv.live.slots
    hinv.high (Or.inr hslot) hremove
  rw [htable, hsame]

theorem Accounted.not_accounts {s s' : Calls} (hacc : Accounted s)
    (he : e ∈ s.live) (hslot : e.slot = 31)
    (hstep : slotStep s (.remove e) = some s') :
    ¬ Accounts s (.remove e) s' := by
  rintro ⟨-, hclears, -⟩
  have hused := (hacc.balanced.used e).mpr he
  rw [hacc.remove_last hslot hstep] at hclears
  exact ((hclears he e).mp hused).2 rfl

theorem accounted_init {calloc : Nat → Nat → Option Nat}
    {power2 chainSize bucketSize : Nat}
    (hinit : ftInit calloc power2 chainSize bucketSize = some t)
    (hle : bucketSize ≤ 32) : Accounted ⟨t, []⟩ := by
  refine ⟨t, fun _ => false, lose_none.symm, ?_, ?_, ftInit_highOk hinit⟩
  · exact run_liveInv hinit hle Run.refl
  · refine ⟨List.nodup_nil, fun e => ?_, ?_, ?_⟩
    · exact iff_of_false (ftInit_not_used hinit hle e) List.not_mem_nil
    · simp only [ftInit_stats hinit]
      rfl
    · rw [ftInit_stats hinit]
      rfl

section Runs

variable {calloc : Nat → Nat → Option Nat} {power2 chainSize bucketSize : Nat}

theorem accounted_of_run
    (hinit : ftInit calloc power2 chainSize bucketSize = some t)
    (hle : bucketSize ≤ 32) {s : Calls}
    (hrun : Run slotStep notLastSlot ⟨t, []⟩ s) : Accounted s := by
  apply hrun.invariant
  · exact accounted_init hinit hle
  · intro s call s' hacc hok hstep
    cases call with
    | add alloc hash keyData color => exact hacc.add hstep
    | remove e => exact (hacc.remove hok hstep).1

/-- `ft_remove` of a live entry returns, and so does that of an entry that was
handed out before, whose bucket is still there. -/
theorem Accounted.remove_total {s : Calls} (hacc : Accounted s) :
    (∀ e ∈ s.live, ∃ s', slotStep s (.remove e) = some s') ∧
      ∀ e, s.table.valid e.bucket = true →
        (s.table.entry e).bucket ≠ none → ¬ s.table.Used e →
          slotStep s (.remove e) = some s := by
  obtain ⟨t, lost, htable, hinv⟩ := hacc
  have hlive := hinv.live
  have hstep : ∀ e, t.valid e.bucket = true →
      (t.entry e).bucket ≠ none → ∃ t₁, t.ftRemove e = some t₁ := by
    intro e hvalid hbucket
    obtain ⟨p, hp⟩ := Option.ne_none_iff_exists'.mp hbucket
    have hown := (hlive.slots.own hvalid hp).1
    exact ftRemove_total hlive.table hvalid (by rw [hp, hown])
  simp only [slotStep, htable, lose_ftRemove, Option.bind_eq_bind,
    lose_valid, lose_used]
  refine ⟨fun e he => ?_, fun e hvalid hbucket hnot => ?_⟩
  · have hused := hlive.used e he
    obtain ⟨t₁, hremove⟩ := hstep e hused.1 (by simp [hlive.own e he])
    exact ⟨_, by rw [hremove]; rfl⟩
  · obtain ⟨t₁, hremove⟩ := hstep e hvalid hbucket
    have hsame := ftRemove_same hlive.table.toSizeOk hlive.slots hinv.high
      (Or.inl hnot) hremove
    have he : e ∉ s.live := fun he => hnot (hlive.used e he)
    rw [hremove, hsame, List.erase_of_not_mem he]
    simp [← htable]

/-- As long as no live entry of slot 31 was removed, the slots and the counters
are right, and the next call leaves them right exactly when it does not remove
such an entry. -/
theorem accounts_iff
    (hinit : ftInit calloc power2 chainSize bucketSize = some t)
    (hle : bucketSize ≤ 32) {s : Calls}
    (hrun : Run slotStep notLastSlot ⟨t, []⟩ s) :
    Balanced s ∧
      (∀ e ∈ s.live, ∃ s', slotStep s (.remove e) = some s') ∧
      (∀ e, s.table.valid e.bucket = true →
        (s.table.entry e).bucket ≠ none → ¬ s.table.Used e →
          slotStep s (.remove e) = some s) ∧
      ∀ call s', slotStep s call = some s' →
        (Accounts s call s' ↔ notLastSlot s call) := by
  have hacc := accounted_of_run hinit hle hrun
  refine ⟨hacc.balanced, hacc.remove_total.1, hacc.remove_total.2, ?_⟩
  intro call s' hstep
  cases call with
  | add alloc hash keyData color =>
      exact iff_of_true ⟨(hacc.add hstep).balanced, fun t' e => hacc.fresh⟩
        trivial
  | remove e =>
      constructor
      · exact fun haccounts he hslot =>
          hacc.not_accounts he hslot hstep haccounts
      · intro hok
        obtain ⟨hacc', hclears, hsame⟩ := hacc.remove hok hstep
        exact ⟨hacc'.balanced, hclears, hsame⟩

/-- An entry is given back and its slot taken again, `calloc` fails, and the
account is right. -/
theorem accounts_iff_failed : ∃ t s,
    ftInit (fun _ _ => none) 0 1 1 = some t ∧
      Run slotStep notLastSlot ⟨t, []⟩ s ∧ s.live = [⟨.first 0, 0⟩] ∧
      s.table.last 0 = none ∧ Balanced s := by
  let add : SlotCall := .add none 0#32 (fun _ => 0#8) 0#16
  have hrun : (((ftInit (fun _ _ => none) 0 1 1).bind fun t =>
      execOk slotStep (fun s call => decide (notLastSlot s call)) ⟨t, []⟩
        [add, .remove ⟨.first 0, 0⟩, add, add]).map fun s =>
          (s.live, s.table.last 0)) = some ([⟨.first 0, 0⟩], none) := by
    decide +kernel
  simp only [Option.map_eq_some_iff, Option.bind_eq_some_iff,
    Prod.mk.injEq] at hrun
  obtain ⟨s, ⟨t, hinit, hexec⟩, hlive, hlast⟩ := hrun
  have hrun := (run_of_execOk _ hexec).mono fun _ _ h => of_decide_eq_true h
  exact ⟨t, s, hinit, hrun, hlive, hlast,
    (accounts_iff hinit (by decide) hrun).1⟩

end Runs

/-- The lowest `n` slots of the only bucket, of 32 slots, are taken. -/
structure Filled (s : Calls) (n : Nat) : Prop where
  tableSize : s.table.tableSize = 1
  bucketSize : s.table.bucketSize = 32
  flags : (s.table.mem (.first 0)).flags = 0#64
  unused : (s.table.mem (.first 0)).unused = BitVec.allOnes 64 <<< n

def addZero : SlotCall := .add none 0#32 (fun _ => 0#8) 0#16

theorem getLsbD_ones_shiftLeft (n j : Nat) :
    (BitVec.allOnes 64 <<< n).getLsbD j = decide (n ≤ j ∧ j < 64) := by
  rw [BitVec.getLsbD_shiftLeft, BitVec.getLsbD_allOnes, Bool.eq_iff_iff]
  simp only [Bool.and_eq_true, Bool.not_eq_true', decide_eq_true_iff,
    decide_eq_false_iff_not]
  omega

theorem Filled.add {s : Calls} {n : Nat} (hfilled : Filled s n)
    (hlt : n < 32) : ∃ s', slotStep s addZero = some s' ∧
      s'.live = ⟨.first 0, n⟩ :: s.live ∧ Filled s' (n + 1) := by
  obtain ⟨htable, hbucket, hflags, hunused⟩ := hfilled
  have hsize : SizeOk s.table := ⟨by omega, by omega, by omega⟩
  have hvalid : s.table.valid (.first 0) = true := by
    simp [valid, htable]
  have hfree : s.table.hasUnused (s.table.mem (.first 0)) = true := by
    rw [hasUnused, hflags, BUCKET_TO_FREE, test_bit, BitVec.getLsbD_zero,
      hunused, Bool.not_false, Bool.true_and, test_eq_true_iff]
    refine ⟨n, by omega, ?_, ?_⟩
    · rw [getLsbD_ones_shiftLeft, decide_eq_true_iff]
      omega
    · rw [getLsbD_bucketMask hsize, decide_eq_true_iff]
      omega
  have hfind : s.table.findUnused s.table.walkBound
      (.first (s.table.chainIndex 0#32)) = some (some (.first 0)) := by
    have hchain : s.table.chainIndex 0#32 = 0 := by simp [chainIndex]
    rw [hchain, walkBound, findUnused, deref, if_pos hvalid]
    simp [hfree]
  -- the lowest unused slot is `n`
  have hslot : ctz ((s.table.mem (.first 0)).unused.setWidth 32) = n := by
    obtain ⟨-, hset, hlow⟩ := lowest_of_hasUnused hsize hfree
    rw [hunused, getLsbD_ones_shiftLeft, decide_eq_true_iff] at hset
    rw [hunused] at hlow ⊢
    refine Nat.le_antisymm (Nat.le_of_not_lt fun hlt' => ?_) hset.1
    have hclear := hlow n hlt'
    rw [getLsbD_ones_shiftLeft, decide_eq_false_iff_not] at hclear
    omega
  have hclaimed := fun j => getLsbD_claimed hsize hfree j
  rw [hslot] at hclaimed
  have hptr : (s.table.claimSlot (.first 0)).2 = ⟨.first 0, n⟩ := by
    rw [claimSlot, hslot]
  obtain ⟨t₁, t₂, hinit, hfinish⟩ := @initEntry_finishAdd_total
    (s.table.claimSlot (.first 0)).1 (s.table.claimSlot (.first 0)).2 0#32
    (fun _ => 0#8) 0#16 (by simpa [claimSlot] using hvalid)
  obtain ⟨-, heq⟩ := initEntry_finishAdd hinit hfinish
    (by simp [claimSlot, entry])
  have hadd : s.table.ftAdd none 0#32 (fun _ => 0#8) 0#16 =
      some (t₂, some ⟨.first 0, n⟩) := by
    rw [← hptr]
    simp only [ftAdd, hfind, Option.bind_eq_bind, Option.bind_some, hinit,
      hfinish]
  refine ⟨⟨t₂, ⟨.first 0, n⟩ :: s.live⟩, ?_, rfl, ?_, ?_, ?_, ?_⟩
  · simp only [slotStep, addZero, hadd, Option.bind_eq_bind,
      Option.bind_some, Option.toList_some, List.singleton_append]
  · rw [heq]
    exact htable
  · rw [heq]
    exact hbucket
  · rw [heq]
    simpa [claimSlot] using hflags
  · rw [heq]
    apply BitVec.eq_of_getLsbD_eq
    intro j hj
    simp only [claimSlot, setBucket, Function.update_self]
    rw [hclaimed, hunused, getLsbD_ones_shiftLeft, getLsbD_ones_shiftLeft,
      Bool.eq_iff_iff]
    simp only [Bool.and_eq_true, decide_eq_true_iff]
    omega

theorem exists_filled {t : FlowTable}
    (hinit : ftInit (fun _ _ => none) 0 1 32 = some t) {n : Nat}
    (hle : n ≤ 32) : ∃ s, Run slotStep notLastSlot ⟨t, []⟩ s ∧ Filled s n := by
  induction n with
  | zero =>
      obtain ⟨hdone, htable, hbucket, -⟩ := ftInit_spec hinit
      refine ⟨⟨t, []⟩, Run.refl, htable, hbucket, hdone.flags _, ?_⟩
      have hvalid : t.valid (.first 0) = true := by
        simp [valid, htable]
      rw [BitVec.shiftLeft_zero]
      exact ftInit_unused hinit hvalid
  | succ n ih =>
      obtain ⟨s, hrun, hfilled⟩ := ih (by omega)
      obtain ⟨s', hstep, -, hfilled'⟩ := hfilled.add (by omega)
      exact ⟨s', Run.tail addZero hrun trivial hstep, hfilled'⟩

/-- The 32nd flow of a chain with one bucket of 32 slots is given slot 31, and
`ft_remove` leaves the slot taken. -/
theorem accounts_fails : ∃ t s s',
    ftInit (fun _ _ => none) 0 1 32 = some t ∧
      Run slotStep notLastSlot ⟨t, []⟩ s ∧ ⟨.first 0, 31⟩ ∈ s.live ∧
      slotStep s (.remove ⟨.first 0, 31⟩) = some s' ∧
      ¬ Accounts s (.remove ⟨.first 0, 31⟩) s' := by
  have hsome : (ftInit (fun _ _ => none) 0 1 32).isSome = true := by decide
  obtain ⟨t, hinit⟩ := Option.isSome_iff_exists.mp hsome
  obtain ⟨s, hrun, hfilled⟩ := exists_filled hinit (show 31 ≤ 32 by decide)
  obtain ⟨s', hstep, hlive, -⟩ := hfilled.add (by decide)
  have hrun' := Run.tail addZero hrun trivial hstep
  have hacc := accounted_of_run hinit (by decide) hrun'
  have hmem : ⟨.first 0, 31⟩ ∈ s'.live := by
    rw [hlive]
    exact List.mem_cons_self
  obtain ⟨s'', hremove⟩ := hacc.remove_total.1 _ hmem
  exact ⟨t, s', s'', hinit, hrun', hmem, hremove,
    hacc.not_accounts hmem rfl hremove⟩

end FlowTable

end Ntnetflow

end NtapiExamples
