/-
What a failed `ft_add` leaves behind: `chain->last` is NULL, and the next call
that has to append to that chain goes through it.
-/
import NtapiExamples.Ntnetflow.FlowTableAccount
import Mathlib.Data.Fintype.EquivFin

namespace NtapiExamples

namespace Ntnetflow

inductive TableCall where
  | add (alloc : Option Nat) (hash : BitVec 32) (keyData : KeyData)
      (color : BitVec 16)
  | remove (e : EntryPtr)
  | lookup (hash : BitVec 32) (keyData : KeyData) (color : BitVec 16)

namespace FlowTable

variable {t t' : FlowTable} {alloc : Option Nat} {hash : BitVec 32}
  {keyData : KeyData} {color : BitVec 16}

/-- One call with the pointer it returns; `ft_remove` returns nothing. -/
def answer (t : FlowTable) :
    TableCall → Option (FlowTable × Option EntryPtr)
  | .add alloc hash keyData color => t.ftAdd alloc hash keyData color
  | .remove e => (t.ftRemove e).map fun t' => (t', none)
  | .lookup hash keyData color =>
      (t.ftLookup hash keyData color).map fun found => (t, found)

/-- The pointers a sequence of calls returns; `none` when one of them goes
through NULL or through freed memory, or does not end. -/
def answers (t : FlowTable) : List TableCall → Option (List (Option EntryPtr))
  | [] => some []
  | call :: calls => do
      let (t', found) ← t.answer call
      let rest ← answers t' calls
      some (found :: rest)

/-- Every chain and every counter is the same. -/
structure SameTable (t t' : FlowTable) : Prop where
  buckets : ∀ p, t'.deref p = t.deref p
  last : ∀ c, t'.last c = t.last c
  stats : t'.stats = t.stats

/-- Later calls cannot tell the two tables apart. -/
def SameAnswers (t t' : FlowTable) : Prop :=
  ∀ calls, t'.answers calls = t.answers calls

/-- A full chain that is cut short is still full. -/
theorem cut_findUnused {tail : BucketPtr} {fuel : Nat} {p : BucketPtr}
    (hfull : t.findUnused fuel p = some none) :
    (t.cut tail).findUnused fuel p = some none := by
  induction fuel generalizing p with
  | zero => simp [findUnused] at hfull
  | succ fuel ih =>
      simp only [findUnused, deref, Option.bind_eq_bind,
        Option.bind_eq_some_iff, Option.ite_none_right_eq_some,
        Option.some.injEq] at hfull
      obtain ⟨b, ⟨hvalid, rfl⟩, hfull⟩ := hfull
      split at hfull
      case isTrue => simp at hfull
      case isFalse hused =>
        obtain ⟨-, -, hflags, hunused, -⟩ := @cut_fields t tail p
        have hsame : (t.cut tail).hasUnused ((t.cut tail).mem p) =
            t.hasUnused (t.mem p) := by
          rw [hasUnused, hasUnused, hflags, hunused]
          rfl
        simp only [findUnused, deref, cut_valid, hvalid, if_true,
          Option.bind_eq_bind, Option.bind_some, hsame, hused,
          Bool.false_eq_true, if_false]
        by_cases hp : p = tail
        · have hcut := @cut_next_self t tail
          rw [nextOf] at hcut
          rw [hp, hcut]
        · have hkept := @cut_next_ne t tail p hp
          rw [nextOf, nextOf] at hkept
          rw [hkept]
          cases hnext : (t.mem p).next with
          | none => rfl
          | some next =>
              rw [hnext] at hfull
              exact ih hfull

/-- `calloc` can always answer with a block that is not in use. -/
theorem exists_fresh (t : FlowTable) : ∃ addr, addr ∉ t.heap := by
  obtain ⟨addr, hfresh⟩ := Infinite.exists_notMem_finset t.heap.toFinset
  exact ⟨addr, fun hmem => hfresh (List.mem_toFinset.mpr hmem)⟩

theorem ftAdd_of_full {addr : Nat} {tail : BucketPtr}
    (hfull : t.findUnused t.walkBound (.first (t.chainIndex hash)) =
      some none) (hlast : t.last (t.chainIndex hash) = some tail)
    (hvalid : t.valid tail = true) (hfresh : addr ∉ t.heap) :
    ∃ t', t.ftAdd (some addr) hash keyData color =
      some (t', some ⟨.heap addr, 0⟩) := by
  obtain ⟨t₁, happend, hnew⟩ := appendBucket_total hfresh hvalid hlast
  obtain ⟨t₂, t₃, hinit, hfinish⟩ := @initEntry_finishAdd_total t₁
    ⟨.heap addr, 0⟩ hash keyData color hnew
  refine ⟨t₃, ?_⟩
  simp only [ftAdd, hfull, Option.bind_eq_bind, Option.bind_some, happend,
    hinit, hfinish]

/-- A chain that is full and lost its `last` is not extended any more. -/
theorem ftAdd_of_lost
    (hfull : t.findUnused t.walkBound (.first (t.chainIndex hash)) =
      some none) (hlast : t.last (t.chainIndex hash) = none) :
    t.ftAdd alloc hash keyData color = none := by
  simp only [ftAdd, hfull, appendBucket, hlast, Option.bind_eq_bind,
    Option.bind_some, Option.bind_none, Option.bind_eq_none_iff]
  simp

section Failed

variable {tail : BucketPtr}

theorem AddFailed.last_null (hfailed : AddFailed t t' hash tail) :
    t'.last (t.chainIndex hash) = none := by
  rw [hfailed.eq]
  simp [lose]

theorem AddFailed.not_sameTable (hfailed : AddFailed t t' hash tail) :
    ¬ SameTable t t' := by
  intro hsame
  have hlast := hsame.last (t.chainIndex hash)
  rw [hfailed.last_null, hfailed.last] at hlast
  simp at hlast

/-- The same arguments with enough memory tell the tables apart: one call
appends a bucket, the other one goes through NULL. -/
theorem AddFailed.not_sameAnswers (hfailed : AddFailed t t' hash tail) :
    ¬ SameAnswers t t' := by
  intro hsame
  obtain ⟨addr, hfresh⟩ := t.exists_fresh
  obtain ⟨t₁, hgood⟩ := @ftAdd_of_full t hash (fun _ => 0#8) 0#16 addr tail
    hfailed.full hfailed.last hfailed.valid hfresh
  have hbad : t'.ftAdd (some addr) hash (fun _ => 0#8) 0#16 = none := by
    have hfull := @cut_findUnused t tail _ _ hfailed.full
    apply ftAdd_of_lost
    · rw [hfailed.eq]
      exact (lose_findUnused _ _).trans hfull
    · rw [hfailed.eq]
      simp [lose, cut, chainIndex, setBucket]
  have hcalls := hsame [.add (some addr) hash (fun _ => 0#8) 0#16]
  simp [answers, answer, hgood, hbad] at hcalls

end Failed

/-- A failed `ft_add` never leaves the table intact: the tail of its chain is
NULL, and a later call that has to append to the chain goes through it. -/
theorem ftAdd_not_intact
    (hadd : t.ftAdd alloc hash keyData color = some (t', none)) :
    ¬ SameTable t t' ∧ ¬ SameAnswers t t' := by
  obtain ⟨tail, hfailed⟩ := ftAdd_addFailed hadd
  exact ⟨hfailed.not_sameTable, hfailed.not_sameAnswers⟩

/-- One bucket with one slot, which is taken. -/
theorem exists_ftAdd_failed : ∃ t s t',
    ftInit (fun _ _ => none) 0 1 1 = some t ∧
      Run slotStep anyStep ⟨t, []⟩ s ∧
      s.table.ftAdd none 0#32 (fun _ => 0#8) 0#16 = some (t', none) := by
  have hrun : (((ftInit (fun _ _ => none) 0 1 1).bind fun t =>
      (exec slotStep ⟨t, []⟩ [addZero]).bind fun s =>
        s.table.ftAdd none 0#32 (fun _ => 0#8) 0#16).map Prod.snd) =
      some none := by
    decide +kernel
  simp only [Option.map_eq_some_iff, Option.bind_eq_some_iff] at hrun
  obtain ⟨⟨t', added⟩, ⟨t, hinit, s, hexec, hadd⟩, rfl⟩ := hrun
  exact ⟨t, s, t', hinit, run_of_exec _ hexec, hadd⟩

theorem ftAdd_not_intact_full : ∃ s t' : FlowTable,
    s.ftAdd none 0#32 (fun _ => 0#8) 0#16 = some (t', none) ∧
      ¬ SameTable s t' ∧ ¬ SameAnswers s t' := by
  obtain ⟨-, s, t', -, -, hadd⟩ := exists_ftAdd_failed
  exact ⟨s.table, t', hadd, ftAdd_not_intact hadd⟩

theorem ftAdd_intact_fails : ∃ t s t',
    ftInit (fun _ _ => none) 0 1 1 = some t ∧
      Run slotStep anyStep ⟨t, []⟩ s ∧
      s.table.ftAdd none 0#32 (fun _ => 0#8) 0#16 = some (t', none) ∧
      ¬ (SameTable s.table t' ∧ SameAnswers s.table t') := by
  obtain ⟨t, s, t', hinit, hrun, hadd⟩ := exists_ftAdd_failed
  obtain ⟨tail, hfailed⟩ := ftAdd_addFailed hadd
  exact ⟨t, s, t', hinit, hrun, hadd, fun h => hfailed.not_sameTable h.1⟩

section Later

variable {lost : Nat → Bool}

/-- The call has to append to a chain that lost its `last`. -/
def overflows (t : FlowTable) (lost : Nat → Bool) : TableCall → Prop
  | .add _ hash _ _ => lost (t.chainIndex hash) = true ∧
      t.findUnused t.walkBound (.first (t.chainIndex hash)) = some none
  | _ => False

/-- No call of a sequence overflows a chain that lost its `last`. -/
def NoOverflow (lost : Nat → Bool) : FlowTable → List TableCall → Prop
  | _, [] => True
  | t, call :: calls => ¬ t.overflows lost call ∧
      ∀ t' found, t.answer call = some (t', found) → NoOverflow lost t' calls

theorem lose_chainIndex : (t.lose lost).chainIndex hash = t.chainIndex hash :=
  rfl

theorem lose_walkBound : (t.lose lost).walkBound = t.walkBound :=
  rfl

theorem lose_modifyEntry (e : EntryPtr) (f : FlowEntry → FlowEntry) :
    (t.lose lost).modifyEntry e f =
      (t.modifyEntry e f).map (·.lose lost) := by
  rw [modifyEntry, lose_valid, modifyEntry]
  split <;> rfl

theorem lose_ftInitBucket (p : BucketPtr) (parent : Nat)
    (prev : Option BucketPtr) (dynamic : Bool) :
    (t.lose lost).ftInitBucket p parent prev dynamic =
      (t.ftInitBucket p parent prev dynamic).map (·.lose lost) := by
  cases prev with
  | none => exact lose_modifyBucket p _
  | some prev =>
      simp only [ftInitBucket, Option.bind_eq_bind]
      rw [lose_modifyBucket, Option.map_bind, Option.bind_map]
      exact Option.bind_congr fun t₁ _ => lose_modifyBucket p _

theorem lose_ftAddBucket (chain : Nat) (prev : Option BucketPtr)
    (dynamic : Bool) :
    (t.lose lost).ftAddBucket alloc chain prev dynamic =
      (t.ftAddBucket alloc chain prev dynamic).map
        (Prod.map (·.lose lost) id) := by
  cases alloc with
  | none => rfl
  | some addr =>
      have hheap : (t.lose lost).heap = t.heap := rfl
      simp only [ftAddBucket, hheap]
      split
      · rfl
      · let fresh : FlowTable :=
          { t.setBucket (.heap addr) FlowBucket.zero with
            heap := addr :: t.heap }
        have hinit := @lose_ftInitBucket fresh lost (.heap addr) chain prev
          dynamic
        change ((fresh.lose lost).ftInitBucket _ _ _ _).bind _ = _
        rw [hinit, Option.bind_map, Option.bind_eq_bind, Option.map_bind]
        rfl

/-- An intact chain is extended as before. -/
theorem lose_appendBucket {chain : Nat} (hkept : lost chain = false) :
    (t.lose lost).appendBucket alloc chain =
      (t.appendBucket alloc chain).map (Prod.map (·.lose lost) id) := by
  have hlast : (t.lose lost).last chain = t.last chain := by
    simp [lose, hkept]
  simp only [appendBucket, Option.bind_eq_bind, hlast]
  rw [lose_ftAddBucket, Option.bind_map, Option.map_bind]
  refine Option.bind_congr fun r _ => ?_
  obtain ⟨t₁, bucket⟩ := r
  simp only [Function.comp_apply, Prod.map_apply, id_eq]
  rw [Option.map_bind]
  refine Option.bind_congr fun tail _ => ?_
  simp only [Function.comp_apply]
  rw [lose_modifyBucket, Option.bind_map, Option.map_bind]
  refine Option.bind_congr fun t₂ _ => ?_
  simp only [Function.comp_apply]
  have hupdate : ∀ t₂ : FlowTable,
      { t₂.lose lost with
        last := Function.update (t₂.lose lost).last chain bucket } =
      ({ t₂ with last := Function.update t₂.last chain bucket } :
        FlowTable).lose lost := by
    intro t₂
    simp only [lose, mk.injEq, true_and, and_true]
    funext c
    by_cases hc : c = chain
    · rw [hc, hkept, Function.update_self, Function.update_self]
      rfl
    · rw [Function.update_of_ne hc, Function.update_of_ne hc]
  rw [hupdate]
  cases bucket <;> rfl

theorem lose_initEntry (e : EntryPtr) :
    (t.lose lost).initEntry e hash keyData color =
      (t.initEntry e hash keyData color).map (·.lose lost) :=
  lose_modifyEntry e _

theorem lose_finishAdd (e : EntryPtr) :
    (t.lose lost).finishAdd e = (t.finishAdd e).map (·.lose lost) := by
  have hstats : ((t.lose lost).statsUpdate .learn 1).statsUpdate .flow 1 =
      ((t.statsUpdate .learn 1).statsUpdate .flow 1).lose lost := rfl
  simp only [finishAdd, ftRef]
  rw [hstats]
  exact lose_modifyEntry e _

/-- What `ft_add` does to the entry it has taken. -/
theorem lose_endAdd (t : FlowTable) (e : EntryPtr) :
    (((t.lose lost).initEntry e hash keyData color).bind fun t₁ =>
      (t₁.finishAdd e).bind fun t₂ => some (t₂, some e)) =
    ((t.initEntry e hash keyData color).bind fun t₁ =>
      (t₁.finishAdd e).bind fun t₂ => some (t₂, some e)).map
        (Prod.map (·.lose lost) id) := by
  rw [lose_initEntry, Option.bind_map, Option.map_bind]
  refine Option.bind_congr fun t₁ _ => ?_
  simp only [Function.comp_apply]
  rw [lose_finishAdd, Option.bind_map, Option.map_bind]
  rfl

theorem lose_ftAdd
    (hok : ¬ t.overflows lost (.add alloc hash keyData color)) :
    (t.lose lost).ftAdd alloc hash keyData color =
      (t.ftAdd alloc hash keyData color).map (Prod.map (·.lose lost) id) := by
  simp only [ftAdd, Option.bind_eq_bind, lose_findUnused, lose_chainIndex,
    lose_walkBound]
  rw [Option.map_bind]
  cases hfound : t.findUnused t.walkBound (.first (t.chainIndex hash)) with
  | none => rfl
  | some found =>
      simp only [Option.bind_some, Function.comp_apply]
      cases found with
      | some p => exact lose_endAdd (t.claimSlot p).1 (t.claimSlot p).2
      | none =>
          have hkept : lost (t.chainIndex hash) = false := by
            rw [← Bool.not_eq_true]
            exact fun hlost => hok ⟨hlost, hfound⟩
          simp only
          rw [lose_appendBucket hkept, Option.bind_map, Option.map_bind]
          refine Option.bind_congr fun r _ => ?_
          obtain ⟨t₁, claimed⟩ := r
          cases claimed with
          | none => rfl
          | some e => exact lose_endAdd t₁ e

theorem lose_ftVisit (visitor : FlowEntry → Bool) (fuel : Nat)
    (p : BucketPtr) :
    (t.lose lost).ftVisit visitor fuel p = t.ftVisit visitor fuel p := by
  induction fuel generalizing p with
  | zero => rfl
  | succ fuel ih =>
      simp only [ftVisit, lose_deref]
      refine Option.bind_congr fun b _ => ?_
      have hvisit : (t.lose lost).visitBucket visitor b =
        t.visitBucket visitor b := rfl
      rw [hvisit]
      cases t.visitBucket visitor b with
      | some slot => rfl
      | none =>
          cases b.next with
          | none => rfl
          | some next => exact ih next

/-- A call that does not overflow a lost chain answers as before. -/
theorem lose_answer {call : TableCall} (hok : ¬ t.overflows lost call) :
    (t.lose lost).answer call =
      (t.answer call).map (Prod.map (·.lose lost) id) := by
  cases call with
  | add alloc hash keyData color => exact lose_ftAdd hok
  | remove e =>
      simp only [answer, lose_ftRemove, Option.map_map]
      rfl
  | lookup hash keyData color =>
      have hlookup : (t.lose lost).ftLookup hash keyData color =
          t.ftLookup hash keyData color := lose_ftVisit _ _ _
      simp only [answer, hlookup, Option.map_map]
      rfl

theorem answer_overflow {call : TableCall} (hover : t.overflows lost call) :
    (t.lose lost).answer call = none := by
  cases call with
  | add alloc hash keyData color =>
      obtain ⟨hlost, hfull⟩ := hover
      apply ftAdd_of_lost
      · exact (lose_findUnused _ _).trans hfull
      · rw [lose_chainIndex]
        simp [lose, hlost]
  | remove e => exact hover.elim
  | lookup hash keyData color => exact hover.elim

/-- The lost chains are felt by the calls that overflow them and by no other
call, however many calls come first. -/
theorem answers_lose_iff {calls : List TableCall}
    {found : List (Option EntryPtr)}
    (hanswers : t.answers calls = some found) :
    (t.lose lost).answers calls = some found ↔ NoOverflow lost t calls := by
  induction calls generalizing t found with
  | nil => exact iff_of_true hanswers trivial
  | cons call calls ih =>
      simp only [answers, Option.bind_eq_bind, Option.bind_eq_some_iff,
        Option.some.injEq] at hanswers
      obtain ⟨⟨t₁, pointer⟩, hcall, rest, hrest, rfl⟩ := hanswers
      by_cases hover : t.overflows lost call
      · have hnull := answer_overflow hover
        refine iff_of_false ?_ fun hno => hno.1 hover
        simp [answers, hnull]
      · have hkept := lose_answer hover
        rw [hcall] at hkept
        simp only [answers, hkept, Option.map_some, Prod.map_apply, id_eq,
          Option.bind_eq_bind, Option.bind_some, Option.bind_eq_some_iff,
          Option.some.injEq, List.cons.injEq, true_and, exists_eq_right]
        rw [ih hrest]
        constructor
        · rintro hno
          refine ⟨hover, fun t' pointer' hcall' => ?_⟩
          rw [hcall, Option.some.injEq, Prod.mk.injEq] at hcall'
          rw [← hcall'.1]
          exact hno
        · exact fun hno => hno.2 t₁ pointer hcall

/-- Where `last` is the end of its chain, as in a table with one preallocated
bucket per chain, a failed `ft_add` shows exactly when a later call overflows
the same chain. -/
theorem AddFailed.answers_iff {tail : BucketPtr}
    (hfailed : AddFailed t t' hash tail) (hend : t.nextOf tail = none)
    {calls : List TableCall} {found : List (Option EntryPtr)}
    (hanswers : t.answers calls = some found) :
    t'.answers calls = some found ↔
      NoOverflow (fun c => decide (c = t.chainIndex hash)) t calls := by
  have hsame : t.cut tail = t := by
    rw [nextOf] at hend
    rw [cut, ← hend, setBucket, Function.update_eq_self]
  rw [hfailed.eq, hsame]
  exact answers_lose_iff hanswers

end Later

end FlowTable

end Ntnetflow

end NtapiExamples
