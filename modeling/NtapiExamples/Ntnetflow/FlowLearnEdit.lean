/-
What each step writes to the flow table, said once: the flags of an entry, its
`poll.skip`, other fields, a new entry, a reference given up, or a statistic.
-/
import NtapiExamples.Ntnetflow.FlowLearnTable

namespace NtapiExamples

namespace Ntnetflow

variable {cfg : FlConfig} {s s' : Sys} {t t' t'' : FlowTable} {e : EntryPtr}
variable {action : SysAction}

def RxPc.entry : RxPc → Option EntryPtr
  | .idle => none
  | .add _ _ => none
  | .learn e _ => some e
  | .count e _ => some e

def ProgramPc.entry : ProgramPc → Option EntryPtr
  | .idle => none
  | .handle _ e => some e
  | .ref e _ => some e
  | .addPoll e _ => some e
  | .skip e _ => some e
  | .write e _ => some e
  | .exited => none

def StatusPc.entry : StatusPc → Option EntryPtr
  | .idle => none
  | .skip e _ => some e

def RecordPc.entry : RecordPc → Option EntryPtr
  | .idle => none
  | .update e _ _ => some e
  | .probe e => some e
  | .push e _ => some e
  | .track e => some e

def PollPc.entry : PollPc → Option EntryPtr
  | .asleep => none
  | .next => none
  | .skip e => some e
  | .flags e => some e
  | .push e _ => some e
  | .remove e => some e
  | .deref e => some e

/-- The entry whose flags a step writes, and what it writes. -/
def flagWrite (cfg : FlConfig) (s : Sys) :
    SysAction → Option (EntryPtr × (BitVec 32 → BitVec 32))
  | .programFlags =>
      match s.program with
      | .handle op e => some (e, fun flags => flags ||| opFlags op)
      | _ => none
  | .statusFlags e kind =>
      (statusClears cfg kind).map fun mask =>
        (e, fun flags => flags &&& ~~~mask)
  | .recordFlags e _ => some (e, fun flags => flags ||| FLOW_FLAGS_SOFTWARE)
  | .recordProbe =>
      match s.record with
      | .probe e => some (e, fun flags => flags &&& ~~~FLOW_FLAGS_PROBE_PENDING)
      | _ => none
  | .recordTrack =>
      match s.record with
      | .track e => some (e, fun flags => flags &&& ~~~FLOW_FLAGS_TRACK)
      | _ => none
  | .pollFlags =>
      match s.poller with
      | .flags e => some (e, fun flags => flags &&& FLOW_FLAGS_CLEAR)
      | _ => none
  | _ => none

/-- The entry whose counter a step writes, and what it writes. -/
def skipWrite (s : Sys) : SysAction → Option (EntryPtr × (Int → Int))
  | .programSkip =>
      match s.program with
      | .skip e flags => some (e, fun skip =>
          if flags ≠ FLOW_FLAGS_LEARN_PENDING then skip + 1 else skip)
      | _ => none
  | .statusSkip =>
      match s.status with
      | .skip e count => some (e, fun skip => skip - count)
      | _ => none
  | .pollSkip =>
      match s.poller with
      | .skip e => some (e, fun _ => 0)
      | _ => none
  | _ => none

/-- The entry a step of a receive thread took into use. -/
def addedEntryOf (s' : Sys) : SysAction → Option EntryPtr
  | .rxAdd thread _ => (s'.rx thread).entry
  | _ => none

/-- `ft_deref` of the last reference. -/
def releases (t : FlowTable) (e : EntryPtr) : Bool :=
  decide (0 ≤ (t.entry e).rc ∧ (t.entry e).rc ≤ 1)

/-- The entry a step gives back. -/
def releasedBy (s : Sys) : SysAction → Option EntryPtr
  | .pollDeref =>
      match s.poller with
      | .deref e => if releases s.table e then some e else none
      | _ => none
  | _ => none

theorem releasedBy_eq_some (hreleased : releasedBy s action = some e) :
    action = .pollDeref ∧ s.poller = .deref e ∧ releases s.table e = true := by
  unfold releasedBy at hreleased
  split at hreleased
  case h_1 =>
    split at hreleased
    case h_1 e' hpc =>
      split at hreleased
      case isTrue hlast =>
        rw [Option.some.injEq] at hreleased
        rw [← hreleased]
        exact ⟨rfl, hpc, hlast⟩
      case isFalse => simp at hreleased
    case h_2 => simp at hreleased
  case h_2 => simp at hreleased

/-- What a step does to the entries: the flags and the counter it writes, the
entry it takes into use and the one it gives back. -/
structure Writes where
  flags : Option (EntryPtr × (BitVec 32 → BitVec 32))
  skip : Option (EntryPtr × (Int → Int))
  added : Option EntryPtr
  released : Option EntryPtr

def stepWrites (cfg : FlConfig) (s s' : Sys) (action : SysAction) : Writes :=
  ⟨flagWrite cfg s action, skipWrite s action, addedEntryOf s' action,
    releasedBy s action⟩

/-- A write to other fields, which leaves the entry where it is. -/
structure Neutral (f : FlowEntry → FlowEntry) : Prop where
  bucket : ∀ entry, (f entry).bucket = entry.bucket
  index : ∀ entry, (f entry).index = entry.index
  flags : ∀ entry, (f entry).flags = entry.flags
  skip : ∀ entry, (f entry).poll.skip = entry.poll.skip

/-- The ways the table changes in a step. -/
inductive TableEdit (t : FlowTable) : FlowTable → Writes → Prop
  | same : TableEdit t t ⟨none, none, none, none⟩
  | flags {t' : FlowTable} (e : EntryPtr) (f : BitVec 32 → BitVec 32) :
      (t.modifyEntry e fun entry => { entry with flags := f entry.flags }) =
        some t' → TableEdit t t' ⟨some (e, f), none, none, none⟩
  | skip {t' : FlowTable} (e : EntryPtr) (g : Int → Int) :
      (t.modifyEntry e fun entry =>
        { entry with poll := { entry.poll with skip := g entry.poll.skip } }) =
          some t' → TableEdit t t' ⟨none, some (e, g), none, none⟩
  | keepSkip (e : EntryPtr) :
      TableEdit t t ⟨none, some (e, fun skip => skip), none, none⟩
  | add {t' : FlowTable} {e : EntryPtr} {alloc : Option Nat}
      {streamId : BitVec 32} {packet : Packet} :
      rxAdd t alloc streamId packet = some (t', e) →
        TableEdit t t' ⟨none, none, some e, none⟩
  | deref {t' : FlowTable} {e : EntryPtr} : t.ftDeref e 1 = some t' →
      TableEdit t t'
        ⟨none, none, none, if releases t e then some e else none⟩
  | other {t' t'' : FlowTable} {writes : Writes} {e : EntryPtr}
      {f : FlowEntry → FlowEntry} : TableEdit t t' writes →
      t'.modifyEntry e f = some t'' → Neutral f → TableEdit t t'' writes
  | stats {t' : FlowTable} {writes : Writes} (stat : Stat) (value : Int) :
      TableEdit t t' writes → TableEdit t (t'.statsUpdate stat value) writes

namespace TableEdit

variable {writes : Writes}

theorem fetchOr {mask flags : BitVec 32}
    (hor : fetchOr t e mask = some (t', flags)) :
    TableEdit t t'
      ⟨some (e, fun flags => flags ||| mask), none, none, none⟩ := by
  simp only [Ntnetflow.fetchOr, Option.map_eq_some_iff, Prod.mk.injEq] at hor
  obtain ⟨t₁, hmodify, rfl, -⟩ := hor
  exact TableEdit.flags e _ hmodify

theorem fetchAnd {mask flags : BitVec 32}
    (hand : fetchAnd t e mask = some (t', flags)) :
    TableEdit t t'
      ⟨some (e, fun flags => flags &&& mask), none, none, none⟩ := by
  simp only [Ntnetflow.fetchAnd, Option.map_eq_some_iff, Prod.mk.injEq] at hand
  obtain ⟨t₁, hmodify, rfl, -⟩ := hand
  exact TableEdit.flags e _ hmodify

theorem setNext (hedit : TableEdit t t' writes) {next : Option EntryPtr}
    (hset : setNext t' e next = some t'') : TableEdit t t'' writes :=
  hedit.other hset ⟨fun _ => rfl, fun _ => rfl, fun _ => rfl, fun _ => rfl⟩

theorem setPrev (hedit : TableEdit t t' writes) {prev : Option EntryPtr}
    (hset : setPrev t' e prev = some t'') : TableEdit t t'' writes :=
  hedit.other hset ⟨fun _ => rfl, fun _ => rfl, fun _ => rfl, fun _ => rfl⟩

theorem setNextUpdate (hedit : TableEdit t t' writes) {nextUpdate : BitVec 64}
    (hset : setNextUpdate t' e nextUpdate = some t'') :
    TableEdit t t'' writes :=
  hedit.other hset ⟨fun _ => rfl, fun _ => rfl, fun _ => rfl, fun _ => rfl⟩

theorem flRemovePoll (hedit : TableEdit t t' writes) {poll poll' : PollState}
    (hremove : flRemovePoll t' poll e = some (t'', poll')) :
    TableEdit t t'' writes := by
  simp only [Ntnetflow.flRemovePoll, Option.bind_eq_bind,
    Option.bind_eq_some_iff, Option.some.injEq, Prod.mk.injEq] at hremove
  obtain ⟨prev, -, t₁, hset₁, next, -, t₂, hset₂, rfl, -⟩ := hremove
  exact (hedit.setNext hset₁).setPrev hset₂

theorem flAddPoll (hedit : TableEdit t t' writes) {poll poll' : PollState}
    (hadd : flAddPoll cfg t' poll e = some (t'', poll')) :
    TableEdit t t'' writes := by
  simp only [Ntnetflow.flAddPoll, Option.bind_eq_bind,
    Option.bind_eq_some_iff, Option.some.injEq, Prod.mk.injEq] at hadd
  obtain ⟨⟨t₁, head⟩, hlink, t₂, hset, rfl, -⟩ := hadd
  apply TableEdit.setNextUpdate _ hset
  cases hhead : poll.head with
  | none =>
      simp only [hhead, linkPoll, Option.bind_eq_bind,
        Option.bind_eq_some_iff, Option.some.injEq, Prod.mk.injEq] at hlink
      obtain ⟨t₂, hset₁, t₃, hset₂, rfl, -⟩ := hlink
      exact (hedit.setNext hset₁).setPrev hset₂
  | some h =>
      simp only [hhead, linkPoll, Option.bind_eq_bind,
        Option.bind_eq_some_iff, Option.some.injEq, Prod.mk.injEq] at hlink
      obtain ⟨t₂, hset₁, t₃, hset₂, prev, -, t₄, hset₃, t₅, hset₄, rfl, -⟩ :=
        hlink
      exact (((hedit.setNext hset₁).setPrev hset₂).setNext hset₃).setPrev hset₄

theorem flProgram {op : FlOp} {success : Bool}
    (hpush : flProgram s e op success = some s') :
    TableEdit s.table s'.table ⟨none, none, none, none⟩ := by
  simp only [Ntnetflow.flProgram] at hpush
  split at hpush
  · rw [Option.some.injEq] at hpush
    rw [← hpush]
    exact TableEdit.same
  · split at hpush
    · rw [Option.some.injEq] at hpush
      rw [← hpush]
      exact TableEdit.same.stats .queue 1
    · simp at hpush

/-- A step that pushes and then only goes on to another place. -/
theorem flProgram_then {op : FlOp} {success : Bool} {goOn : Sys → Sys}
    (hpush : ((Ntnetflow.flProgram s e op success).bind fun s => some (goOn s)) =
      some s') (hkeeps : ∀ s, (goOn s).table = s.table) :
    TableEdit s.table s'.table ⟨none, none, none, none⟩ := by
  rw [Option.bind_eq_some_iff] at hpush
  obtain ⟨s₁, hprogram, hgo⟩ := hpush
  rw [Option.some.injEq] at hgo
  rw [← hgo, hkeeps]
  exact flProgram hprogram

end TableEdit

theorem stepRxLookup_edit {thread : Nat} {streamId : BitVec 32}
    {packet : Packet}
    (hstep : stepRxLookup s thread streamId packet = some s') :
    TableEdit s.table s'.table
      (stepWrites cfg s s' (.rxLookup thread streamId packet)) := by
  have hsame : s'.table = s.table := by
    simp only [stepRxLookup, setRx] at hstep
    grind
  rw [hsame]
  exact TableEdit.same

theorem stepRxAdd_edit {thread : Nat} {alloc : Option Nat}
    (hstep : stepRxAdd s thread alloc = some s') :
    TableEdit s.table s'.table (stepWrites cfg s s' (.rxAdd thread alloc)) := by
  simp only [stepRxAdd] at hstep
  split at hstep
  case h_1 streamId packet _ =>
    simp only [Option.bind_eq_bind, Option.bind_eq_some_iff,
      Option.some.injEq] at hstep
    obtain ⟨⟨t', e⟩, hadd, rfl⟩ := hstep
    have hentry : addedEntryOf (setRx { s with table := t' } thread
        (if test packet.color FLOW_COLOR_MISS then .learn e packet
          else .count e packet)) (.rxAdd thread alloc) = some e := by
      simp only [addedEntryOf, setRx, Function.update_self]
      split <;> rfl
    rw [stepWrites, hentry]
    exact TableEdit.add hadd
  · simp at hstep

theorem stepRxPush_edit {thread : Nat} {success : Bool}
    (hstep : stepRxPush s thread success = some s') :
    TableEdit s.table s'.table
      (stepWrites cfg s s' (.rxPush thread success)) := by
  simp only [stepRxPush] at hstep
  split at hstep
  · exact TableEdit.flProgram_then hstep fun _ => rfl
  · simp at hstep

theorem stepRxCount_edit {thread : Nat}
    (hstep : stepRxCount s thread = some s') :
    TableEdit s.table s'.table (stepWrites cfg s s' (.rxCount thread)) := by
  simp only [stepRxCount] at hstep
  split at hstep
  · simp only [Option.bind_eq_bind, Option.bind_eq_some_iff,
      Option.some.injEq, rxCount] at hstep
    obtain ⟨t', hcount, rfl⟩ := hstep
    exact TableEdit.same.other hcount
      ⟨fun _ => rfl, fun _ => rfl, fun _ => rfl, fun _ => rfl⟩
  · simp at hstep

theorem stepProgramPull_edit
    (hstep : stepProgramPull s = some s') :
    TableEdit s.table s'.table (stepWrites cfg s s' .programPull) := by
  simp only [stepProgramPull] at hstep
  split at hstep
  · rw [Option.some.injEq] at hstep
    rw [← hstep]
    exact TableEdit.same.stats .queue (-1)
  · simp at hstep

theorem stepProgramFlags_edit
    (hstep : stepProgramFlags cfg s = some s') :
    TableEdit s.table s'.table (stepWrites cfg s s' .programFlags) := by
  simp only [stepProgramFlags] at hstep
  split at hstep
  case h_1 op e hpc =>
    simp only [Option.bind_eq_bind, Option.bind_eq_some_iff,
      Option.some.injEq] at hstep
    obtain ⟨⟨t', flags⟩, hor, rfl⟩ := hstep
    simp only [stepWrites, flagWrite, hpc]
    exact TableEdit.fetchOr hor
  · simp at hstep

theorem stepProgramRef_edit
    (hstep : stepProgramRef s = some s') :
    TableEdit s.table s'.table (stepWrites cfg s s' .programRef) := by
  simp only [stepProgramRef] at hstep
  split at hstep
  · simp only [Option.bind_eq_bind, Option.bind_eq_some_iff,
      Option.some.injEq] at hstep
    obtain ⟨t', href, rfl⟩ := hstep
    exact TableEdit.same.other href
      ⟨fun _ => rfl, fun _ => rfl, fun _ => rfl, fun _ => rfl⟩
  · simp at hstep

theorem stepProgramAddPoll_edit
    (hstep : stepProgramAddPoll cfg s = some s') :
    TableEdit s.table s'.table (stepWrites cfg s s' .programAddPoll) := by
  simp only [stepProgramAddPoll] at hstep
  split at hstep
  · simp only [Option.bind_eq_bind, Option.bind_eq_some_iff,
      Option.some.injEq] at hstep
    obtain ⟨⟨t', poll'⟩, hadd, rfl⟩ := hstep
    exact TableEdit.same.flAddPoll hadd
  · simp at hstep

theorem stepProgramSkip_edit
    (hstep : stepProgramSkip s = some s') :
    TableEdit s.table s'.table (stepWrites cfg s s' .programSkip) := by
  simp only [stepProgramSkip] at hstep
  split at hstep
  case h_1 e flags hpc =>
    simp only [stepWrites, skipWrite, hpc]
    split at hstep <;> simp only [Option.bind_eq_bind,
      Option.bind_eq_some_iff, Option.some.injEq] at hstep
    case isTrue hflags =>
      obtain ⟨t', hskip, rfl⟩ := hstep
      simp only [if_pos hflags]
      exact TableEdit.skip e _ hskip
    case isFalse hflags =>
      obtain ⟨t', rfl, rfl⟩ := hstep
      simp only [if_neg hflags]
      exact TableEdit.keepSkip e
  · simp at hstep

theorem stepProgramWrite_edit {success : Bool}
    (hstep : stepProgramWrite s success = some s') :
    TableEdit s.table s'.table
      (stepWrites cfg s s' (.programWrite success)) := by
  have hsame : s'.table = s.table := by
    simp only [stepProgramWrite] at hstep
    grind
  rw [hsame]
  exact TableEdit.same

theorem stepStatusFlags_edit {e : EntryPtr} {kind : FlowStatus}
    (hstep : stepStatusFlags cfg s e kind = some s') :
    TableEdit s.table s'.table (stepWrites cfg s s' (.statusFlags e kind)) := by
  simp only [stepStatusFlags] at hstep
  split at hstep
  · split at hstep
    · cases hclears : statusClears cfg kind with
      | none =>
          simp only [hclears, Option.some.injEq] at hstep
          rw [← hstep]
          simp only [stepWrites, flagWrite, hclears, Option.map_none]
          exact TableEdit.same
      | some mask =>
          simp only [hclears, Option.bind_eq_bind,
            Option.bind_eq_some_iff, Option.some.injEq] at hstep
          obtain ⟨⟨t', flags⟩, hand, rfl⟩ := hstep
          simp only [stepWrites, flagWrite, hclears, Option.map_some]
          have hedit := TableEdit.fetchAnd hand
          simp only [statusStats]
          split
          · exact hedit.stats .refresh 1
          · exact hedit
    · simp at hstep
  · simp at hstep

theorem stepStatusSkip_edit
    (hstep : stepStatusSkip s = some s') :
    TableEdit s.table s'.table (stepWrites cfg s s' .statusSkip) := by
  simp only [stepStatusSkip] at hstep
  split at hstep
  case h_1 e count hpc =>
    simp only [Option.bind_eq_bind, Option.bind_eq_some_iff,
      Option.some.injEq] at hstep
    obtain ⟨t', hskip, rfl⟩ := hstep
    simp only [stepWrites, skipWrite, hpc, Int.sub_eq_add_neg]
    exact TableEdit.skip e _ hskip
  · simp at hstep

theorem stepRecordFlags_edit {e : EntryPtr} {info : NtFlowInfo}
    (hstep : stepRecordFlags s e info = some s') :
    TableEdit s.table s'.table (stepWrites cfg s s' (.recordFlags e info)) := by
  simp only [stepRecordFlags] at hstep
  split at hstep
  · split at hstep
    · simp only [Option.bind_eq_bind, Option.bind_eq_some_iff,
        Option.some.injEq] at hstep
      obtain ⟨⟨t', flags⟩, hor, rfl⟩ := hstep
      exact TableEdit.fetchOr hor
    · simp at hstep
  · simp at hstep

theorem stepRecordUpdate_edit
    (hstep : stepRecordUpdate cfg s = some s') :
    TableEdit s.table s'.table (stepWrites cfg s s' .recordUpdate) := by
  simp only [stepRecordUpdate] at hstep
  split at hstep
  · simp only [Option.bind_eq_bind, Option.bind_eq_some_iff,
      Option.some.injEq] at hstep
    obtain ⟨t', hmodify, rfl⟩ := hstep
    have hedit := TableEdit.same.other hmodify
      ⟨fun _ => rfl, fun _ => rfl, fun _ => rfl, fun _ => rfl⟩
    simp only
    split
    · exact hedit.stats .probe 1
    · exact hedit
  · simp at hstep

theorem stepRecordProbe_edit
    (hstep : stepRecordProbe s = some s') :
    TableEdit s.table s'.table (stepWrites cfg s s' .recordProbe) := by
  simp only [stepRecordProbe] at hstep
  split at hstep
  case h_1 e hpc =>
    simp only [Option.bind_eq_bind, Option.bind_eq_some_iff,
      Option.some.injEq] at hstep
    obtain ⟨⟨t', flags⟩, hand, rfl⟩ := hstep
    simp only [stepWrites, flagWrite, hpc]
    exact TableEdit.fetchAnd hand
  · simp at hstep

theorem stepRecordPush_edit {success : Bool}
    (hstep : stepRecordPush s success = some s') :
    TableEdit s.table s'.table (stepWrites cfg s s' (.recordPush success)) := by
  simp only [stepRecordPush] at hstep
  split at hstep
  · exact TableEdit.flProgram_then hstep fun _ => rfl
  · simp at hstep

theorem stepRecordTrack_edit
    (hstep : stepRecordTrack s = some s') :
    TableEdit s.table s'.table (stepWrites cfg s s' .recordTrack) := by
  simp only [stepRecordTrack] at hstep
  split at hstep
  case h_1 e hpc =>
    simp only [Option.bind_eq_bind, Option.bind_eq_some_iff,
      Option.some.injEq] at hstep
    obtain ⟨⟨t', flags⟩, hand, rfl⟩ := hstep
    simp only [stepWrites, flagWrite, hpc]
    exact TableEdit.fetchAnd hand
  · simp at hstep

theorem stepPollTick_edit
    (hstep : stepPollTick s = some s') :
    TableEdit s.table s'.table (stepWrites cfg s s' .pollTick) := by
  have hsame : s'.table = s.table := by
    simp only [stepPollTick] at hstep
    grind
  rw [hsame]
  exact TableEdit.same

theorem stepPollNext_edit
    (hstep : stepPollNext cfg s = some s') :
    TableEdit s.table s'.table (stepWrites cfg s s' .pollNext) := by
  simp only [stepPollNext] at hstep
  split at hstep
  · split at hstep
    · rw [Option.some.injEq] at hstep
      rw [← hstep]
      exact TableEdit.same
    · split at hstep
      · simp at hstep
      · split at hstep
        · rw [Option.some.injEq] at hstep
          rw [← hstep]
          exact TableEdit.same
        · simp only [Option.bind_eq_bind, Option.bind_eq_some_iff,
            Option.some.injEq] at hstep
          obtain ⟨t', hset, e, -, rfl⟩ := hstep
          exact TableEdit.same.setNextUpdate hset
  · simp at hstep

theorem stepPollSkip_edit
    (hstep : stepPollSkip s = some s') :
    TableEdit s.table s'.table (stepWrites cfg s s' .pollSkip) := by
  simp only [stepPollSkip] at hstep
  split at hstep
  case h_1 e hpc =>
    simp only [Option.bind_eq_bind, Option.bind_eq_some_iff,
      Option.some.injEq] at hstep
    obtain ⟨t', hmodify, rfl⟩ := hstep
    simp only [stepWrites, skipWrite, hpc]
    exact TableEdit.skip e _ hmodify
  · simp at hstep

theorem stepPollFlags_edit
    (hstep : stepPollFlags cfg s = some s') :
    TableEdit s.table s'.table (stepWrites cfg s s' .pollFlags) := by
  simp only [stepPollFlags] at hstep
  split at hstep
  case h_1 e hpc =>
    simp only [Option.bind_eq_bind, Option.bind_eq_some_iff,
      Option.some.injEq] at hstep
    obtain ⟨⟨t', flags⟩, hand, rfl⟩ := hstep
    simp only [stepWrites, flagWrite, hpc]
    exact TableEdit.fetchAnd hand
  · simp at hstep

theorem stepPollPush_edit {success : Bool}
    (hstep : stepPollPush s success = some s') :
    TableEdit s.table s'.table (stepWrites cfg s s' (.pollPush success)) := by
  simp only [stepPollPush] at hstep
  split at hstep
  · exact TableEdit.flProgram_then hstep fun _ => rfl
  · simp at hstep

theorem stepPollRemove_edit
    (hstep : stepPollRemove s = some s') :
    TableEdit s.table s'.table (stepWrites cfg s s' .pollRemove) := by
  simp only [stepPollRemove] at hstep
  split at hstep
  · simp only [Option.bind_eq_bind, Option.bind_eq_some_iff,
      Option.some.injEq] at hstep
    obtain ⟨⟨t', poll'⟩, hremove, rfl⟩ := hstep
    exact TableEdit.same.flRemovePoll hremove
  · simp at hstep

theorem stepPollDeref_edit
    (hstep : stepPollDeref s = some s') :
    TableEdit s.table s'.table (stepWrites cfg s s' .pollDeref) := by
  simp only [stepPollDeref] at hstep
  split at hstep
  case h_1 e hpc =>
    simp only [Option.bind_eq_bind, Option.bind_eq_some_iff,
      Option.some.injEq] at hstep
    obtain ⟨t', hderef, rfl⟩ := hstep
    simp only [stepWrites, releasedBy, hpc]
    exact TableEdit.deref hderef
  · simp at hstep

/-- The table after each step. -/
theorem sysStep_edit (hstep : sysStep cfg s action = some s') :
    TableEdit s.table s'.table (stepWrites cfg s s' action) := by
  cases action with
  | rxLookup thread streamId packet => exact stepRxLookup_edit hstep
  | rxAdd thread alloc => exact stepRxAdd_edit hstep
  | rxPush thread success => exact stepRxPush_edit hstep
  | rxCount thread => exact stepRxCount_edit hstep
  | programPull => exact stepProgramPull_edit hstep
  | programFlags => exact stepProgramFlags_edit hstep
  | programRef => exact stepProgramRef_edit hstep
  | programAddPoll => exact stepProgramAddPoll_edit hstep
  | programSkip => exact stepProgramSkip_edit hstep
  | programWrite success => exact stepProgramWrite_edit hstep
  | statusFlags e kind => exact stepStatusFlags_edit hstep
  | statusSkip => exact stepStatusSkip_edit hstep
  | recordFlags e info => exact stepRecordFlags_edit hstep
  | recordUpdate => exact stepRecordUpdate_edit hstep
  | recordProbe => exact stepRecordProbe_edit hstep
  | recordPush success => exact stepRecordPush_edit hstep
  | recordTrack => exact stepRecordTrack_edit hstep
  | pollTick => exact stepPollTick_edit hstep
  | pollNext => exact stepPollNext_edit hstep
  | pollSkip => exact stepPollSkip_edit hstep
  | pollFlags => exact stepPollFlags_edit hstep
  | pollPush success => exact stepPollPush_edit hstep
  | pollRemove => exact stepPollRemove_edit hstep
  | pollDeref => exact stepPollDeref_edit hstep

end Ntnetflow

end NtapiExamples
