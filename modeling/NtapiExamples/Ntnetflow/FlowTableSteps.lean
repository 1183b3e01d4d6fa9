/-
`ft_add` and `ft_remove` keep the chains of the flow table in order.
-/
import NtapiExamples.Ntnetflow.FlowTableChains

namespace NtapiExamples

namespace Ntnetflow

namespace FlowTable

variable {t t' : FlowTable}

/-- `chain->last` is always an allocated bucket. -/
theorem TableInv.last_valid (hinv : TableInv t) {c : Nat}
    (hc : c < t.tableSize) {tail : BucketPtr} (hlast : t.last c = some tail) :
    t.valid tail = true ∧ t.parentOf tail = c := by
  obtain ⟨front, tail', rest, hlist⟩ := hinv.chains c hc
  have heq : tail' = tail := by
    have := hlist.last
    rw [hlast, Option.some.injEq] at this
    exact this.symm
  subst heq
  exact ⟨hlist.valid tail' (by simp), hlist.parent tail' (by simp)⟩

namespace Appended

variable {addr : Nat} {tail : BucketPtr} {e : EntryPtr} {hash : BitVec 32}
  {keyData : KeyData} {color : BitVec 16}

theorem sizes (happ : Appended t t' addr tail e hash keyData color) :
    t'.tableSize = t.tableSize ∧ t'.bucketSize = t.bucketSize := by
  rw [happ.eq]
  exact ⟨rfl, rfl⟩

theorem tableInv (happ : Appended t t' addr tail e hash keyData color)
    (hinv : TableInv t) : TableInv t' := by
  have hchain := chainIndex_lt hinv.table hash
  obtain ⟨-, htailParent⟩ := hinv.last_valid hchain happ.last
  obtain ⟨htable, hbucket⟩ := happ.sizes
  constructor
  · constructor
    · rw [htable]
      exact hinv.table
    · rw [hbucket]
      exact hinv.pos
    · rw [hbucket]
      exact hinv.le
  · intro c hc
    rw [htable] at hc
    obtain ⟨front, last, rest, hlist⟩ := hinv.chains c hc
    by_cases heq : c = t.chainIndex hash
    · subst heq
      have hlast := hlist.last
      rw [happ.last, Option.some.injEq] at hlast
      subst hlast
      exact ⟨_, _, _, happ.chainList_grown hlist⟩
    · exact ⟨_, _, _, happ.chainList_other htailParent heq hlist⟩
  · intro p hp
    by_cases hnew : p = .heap addr
    · rw [hnew, parentOf, happ.grown.mem_new, htable]
      exact hchain
    · rw [happ.grown.valid_iff] at hp
      rw [(happ.grown.fields_old hnew).2.1, htable]
      exact hinv.parent_lt p (hp.resolve_left hnew)
  · intro c hc
    rw [htable] at hc
    rw [(happ.grown.fields_old (by simp)).2.1]
    exact hinv.firstParent c hc
  · intro c hc
    rw [htable] at hc
    rw [Dynamic, (happ.grown.fields_old (by simp)).2.2.1]
    exact hinv.firstStatic c hc
  · intro p hp
    by_cases hnew : p = .heap addr
    · rw [hnew, happ.grown.mem_new]
      change BUCKET_DYNAMIC.getLsbD 1 = false
      decide
    · rw [happ.grown.valid_iff] at hp
      rw [(happ.grown.fields_old hnew).2.2.1]
      exact hinv.notToFree p (hp.resolve_left hnew)
  · rw [happ.eq]
    exact List.nodup_cons.mpr ⟨happ.fresh, hinv.heapNodup⟩

theorem whole (happ : Appended t t' addr tail e hash keyData color)
    (hinv : TableInv t) (hwhole : Whole t) : Whole t' := by
  have hchain := chainIndex_lt hinv.table hash
  obtain ⟨-, htailParent⟩ := hinv.last_valid hchain happ.last
  intro c hc
  rw [happ.sizes.1] at hc
  obtain ⟨front, last, hlist, hall⟩ := hwhole c hc
  by_cases heq : c = t.chainIndex hash
  · subst heq
    have hlast := hlist.last
    rw [happ.last, Option.some.injEq] at hlast
    subst hlast
    refine ⟨_, _, happ.chainList_grown hlist, ?_⟩
    intro p hp hparent
    by_cases hnew : p = .heap addr
    · simp [hnew]
    · rw [happ.grown.valid_iff] at hp
      rw [(happ.grown.fields_old hnew).2.1] at hparent
      exact List.mem_append_left _ (hall p (hp.resolve_left hnew) hparent)
  · refine ⟨_, _, happ.chainList_other htailParent heq hlist, ?_⟩
    intro p hp hparent
    have hnew : p ≠ .heap addr := by
      rintro rfl
      rw [parentOf, happ.grown.mem_new] at hparent
      exact heq hparent.symm
    rw [happ.grown.valid_iff] at hp
    rw [(happ.grown.fields_old hnew).2.1] at hparent
    exact hall p (hp.resolve_left hnew) hparent

end Appended

namespace Freed

variable {e : EntryPtr} {addr : Nat}

theorem sizes (hfreed : Freed t t' e addr) :
    t'.tableSize = t.tableSize ∧ t'.bucketSize = t.bucketSize := by
  rw [hfreed.eq]
  exact ⟨rfl, rfl⟩

theorem next (hfreed : Freed t t' e addr) (p : BucketPtr) :
    t'.nextOf p = if t.prevOf (.heap addr) = some p
      then t.nextOf (.heap addr) else t.nextOf p := by
  rw [hfreed.eq]
  simp only [nextOf, prevOf, unlinkedMem]
  by_cases hp : p = .heap addr
  · rw [hp, Function.update_self, releaseSlot_next]
    rfl
  · rw [Function.update_of_ne hp]
    rfl

theorem prev (hfreed : Freed t t' e addr) (p : BucketPtr) :
    t'.prevOf p = if t.nextOf (.heap addr) = some p
      then t.prevOf (.heap addr) else t.prevOf p := by
  rw [hfreed.eq]
  simp only [nextOf, prevOf, unlinkedMem]
  by_cases hp : p = .heap addr
  · rw [hp, Function.update_self, releaseSlot_prev]
    rfl
  · rw [Function.update_of_ne hp]
    rfl

theorem parent (hfreed : Freed t t' e addr) (p : BucketPtr) :
    t'.parentOf p = t.parentOf p := by
  rw [hfreed.eq]
  simp only [parentOf, unlinkedMem]
  by_cases hp : p = .heap addr
  · rw [hp, Function.update_self, releaseSlot_parent]
  · rw [Function.update_of_ne hp]

theorem flags (hfreed : Freed t t' e addr) {p : BucketPtr}
    (hp : p ≠ .heap addr) : (t'.mem p).flags = (t.mem p).flags := by
  rw [hfreed.eq]
  simp only [unlinkedMem, Function.update_of_ne hp]

theorem valid_iff (hfreed : Freed t t' e addr) (hnodup : t.heap.Nodup)
    (p : BucketPtr) :
    t'.valid p = true ↔ t.valid p = true ∧ p ≠ .heap addr := by
  rw [hfreed.eq]
  cases p with
  | first c => simp [FlowTable.valid]
  | heap other =>
      simp [FlowTable.valid, hnodup.mem_erase_iff, and_comm]

theorem dynamic (hfreed : Freed t t' e addr) (hsize : SizeOk t) :
    t.Dynamic (.heap addr) :=
  (releaseSlot_toFree hsize hfreed.toFree).1

/-- The freed bucket leaves its list, the other buckets keep their order. -/
theorem seg (hfreed : Freed t t' e addr) {l r : List BucketPtr}
    (hseg : Seg t.nextOf t.prevOf none none (l ++ .heap addr :: r))
    (hnodup : (l ++ .heap addr :: r).Nodup) :
    Seg t'.nextOf t'.prevOf none none (l ++ r) := by
  have hnext := hseg.next_of_split
  have hprev := hseg.prev_of_split
  rw [Option.or_none] at hnext hprev
  apply hseg.unlink hnodup
  · intro other hother
    rw [hfreed.next, hprev, if_pos hother]
  · intro other hother
    rw [hfreed.prev, hnext, if_pos hother]
  · intro other _ hne
    rw [hfreed.next, hprev, if_neg hne]
  · intro other _ hne
    rw [hfreed.prev, hnext, if_neg hne]

/-- A list that is the old one without the freed bucket. -/
theorem chainList (hfreed : Freed t t' e addr) (hinv : TableInv t)
    {front rest front' l r : List BucketPtr} {tail tail' : BucketPtr}
    (hlist : ChainList t (t.parentOf (.heap addr)) front tail rest)
    (hold : front ++ tail :: rest = l ++ .heap addr :: r)
    (hnew : l ++ r = front' ++ tail' :: rest)
    (hlast : t'.last (t.parentOf (.heap addr)) = some tail')
    (hdyn : ∀ p ∈ front ++ [tail], p ≠ .heap addr → p ∈ front' ++ [tail']) :
    ChainList t' (t.parentOf (.heap addr)) front' tail' rest := by
  have hseg := hlist.seg
  have hnodup := hlist.nodup
  have hhead := hlist.head
  rw [hold] at hseg hnodup hhead
  have hperm : (l ++ .heap addr :: r).Perm (.heap addr :: (l ++ r)) :=
    List.perm_middle
  obtain ⟨hfresh, hnodup'⟩ := List.nodup_cons.mp (hperm.nodup_iff.mp hnodup)
  have hsub : ∀ p ∈ front' ++ tail' :: rest,
      p ∈ front ++ tail :: rest ∧ p ≠ .heap addr := by
    intro p hp
    rw [← hnew] at hp
    rw [hold, hperm.mem_iff]
    refine ⟨List.mem_cons_of_mem _ hp, ?_⟩
    rintro rfl
    exact hfresh hp
  constructor
  · rw [← hnew]
    cases l with
    | nil => simp at hhead
    | cons q l => simpa using hhead
  · rw [← hnew]
    exact hnodup'
  · rw [← hnew]
    exact hfreed.seg hseg hnodup
  · intro p hp
    rw [hfreed.valid_iff hinv.heapNodup]
    exact ⟨hlist.valid p (hsub p hp).1, (hsub p hp).2⟩
  · intro p hp
    rw [hfreed.parent]
    exact hlist.parent p (hsub p hp).1
  · exact hlast
  · intro p hp
    rw [Dynamic, hfreed.flags (hsub p (by simp [hp])).2]
    exact hlist.static p hp
  · intro p hp hparent hdynamic
    rw [hfreed.valid_iff hinv.heapNodup] at hp
    rw [hfreed.parent] at hparent
    rw [Dynamic, hfreed.flags hp.2] at hdynamic
    exact hdyn p (hlist.dynamic p hp.1 hparent hdynamic) hp.2

/-- The chain that loses the freed bucket. -/
theorem chainList_shrunk (hfreed : Freed t t' e addr) (hinv : TableInv t)
    {front rest : List BucketPtr} {tail : BucketPtr}
    (hlist : ChainList t (t.parentOf (.heap addr)) front tail rest) :
    ∃ front' tail',
      ChainList t' (t.parentOf (.heap addr)) front' tail' rest ∧
        ∀ p ∈ front ++ tail :: rest, p ≠ .heap addr →
          p ∈ front' ++ tail' :: rest := by
  have hmem := hlist.dynamic (.heap addr) hfreed.removing.valid rfl
    (hfreed.dynamic hinv.toSizeOk)
  by_cases htail : tail = .heap addr
  · -- The last bucket goes: its predecessor becomes `chain->last`.
    subst htail
    have hprev := hlist.seg.prev_of_split
    rw [Option.or_none] at hprev
    have hfront : front ≠ [] := by
      rintro rfl
      have hhead := hlist.head
      simp at hhead
    obtain ⟨front', tail', rfl⟩ : ∃ front' tail', front = front' ++ [tail'] :=
      ⟨_, _, (List.dropLast_append_getLast hfront).symm⟩
    refine ⟨front', tail', hfreed.chainList hinv hlist rfl (by simp) ?_ ?_, ?_⟩
    · rw [hfreed.eq]
      have hlast : t.last (t.mem (.heap addr)).parent = some (.heap addr) :=
        hlist.last
      simp only [hlast, if_true]
      change Function.update t.last (t.parentOf (.heap addr)) _
        (t.parentOf (.heap addr)) = _
      rw [Function.update_self]
      change t.prevOf (.heap addr) = some tail'
      rw [hprev]
      simp
    · intro p hp hne
      rw [List.mem_append, List.mem_singleton] at hp
      exact hp.resolve_right hne
    · intro p hp hne
      simp only [List.mem_append, List.mem_cons] at hp ⊢
      tauto
  · have hfront : .heap addr ∈ front := by
      simp only [List.mem_append, List.mem_singleton] at hmem
      exact hmem.resolve_right (Ne.symm htail)
    obtain ⟨l, r, rfl⟩ := List.append_of_mem hfront
    refine ⟨l ++ r, tail, hfreed.chainList hinv hlist (l := l)
      (r := r ++ tail :: rest) (by simp) (by simp) ?_ ?_, ?_⟩
    · rw [hfreed.eq]
      have hlast : t.last (t.mem (.heap addr)).parent ≠ some (.heap addr) := by
        change t.last (t.parentOf (.heap addr)) ≠ _
        rw [hlist.last]
        simpa using htail
      simp only [hlast, if_false]
      exact hlist.last
    · intro p hp hne
      simp only [List.mem_append, List.mem_cons] at hp ⊢
      tauto
    · intro p hp hne
      simp only [List.mem_append, List.mem_cons] at hp ⊢
      tauto

/-- The other chains keep their lists. -/
theorem chainList_other (hfreed : Freed t t' e addr) (hinv : TableInv t)
    {c : Nat} (hc : c ≠ t.parentOf (.heap addr)) {front rest : List BucketPtr}
    {tail : BucketPtr} (hlist : ChainList t c front tail rest) :
    ChainList t' c front tail rest := by
  obtain ⟨front₀, tail₀, rest₀, hown⟩ := hinv.chains _
    (hinv.parent_lt _ hfreed.removing.valid)
  have hmem := hown.dynamic (.heap addr) hfreed.removing.valid rfl
    (hfreed.dynamic hinv.toSizeOk)
  have hmemAll : .heap addr ∈ front₀ ++ tail₀ :: rest₀ := by
    simp only [List.mem_append, List.mem_singleton] at hmem
    simp only [List.mem_append, List.mem_cons]
    tauto
  obtain ⟨l, r, hsplit⟩ := List.append_of_mem hmemAll
  have hseg := hown.seg
  rw [hsplit] at hseg
  have hnext := hseg.next_of_split
  have hprev := hseg.prev_of_split
  rw [Option.or_none] at hnext hprev
  -- Neighbours of the freed bucket belong to its own chain.
  have hneighbour : ∀ p, p ∈ l ++ r → t.parentOf p ≠ c := by
    intro p hp hparent
    apply hc
    rw [← hparent]
    apply hown.parent p
    rw [hsplit]
    simp only [List.mem_append, List.mem_cons] at hp ⊢
    tauto
  apply hlist.congr
  · rw [hfreed.eq]
    change (if t.last (t.parentOf (.heap addr)) = some (.heap addr)
      then Function.update t.last (t.parentOf (.heap addr)) _
      else t.last) c = t.last c
    split
    · exact Function.update_of_ne hc _ _
    · rfl
  · intro p hparent hp
    rw [hfreed.valid_iff hinv.heapNodup]
    refine ⟨hp, ?_⟩
    rintro rfl
    exact hc hparent.symm
  · intro p hp hparent
    have hne : p ≠ .heap addr := by
      rintro rfl
      exact hc hparent.symm
    refine ⟨?_, ?_, hfreed.parent p, ?_⟩
    · rw [hfreed.next, hprev, if_neg]
      intro hlast
      exact hneighbour p
        (List.mem_append_left r (List.mem_of_getLast? hlast)) hparent
    · rw [hfreed.prev, hnext, if_neg]
      intro hhead
      exact hneighbour p
        (List.mem_append_right l (List.mem_of_head? hhead)) hparent
    · rw [Dynamic, Dynamic, hfreed.flags hne]
  · intro p hp hparent
    rw [hfreed.valid_iff hinv.heapNodup] at hp
    rw [hfreed.parent] at hparent
    exact ⟨hp.1, hparent⟩

theorem tableInv (hfreed : Freed t t' e addr) (hinv : TableInv t) :
    TableInv t' := by
  obtain ⟨htable, hbucket⟩ := hfreed.sizes
  constructor
  · constructor
    · rw [htable]
      exact hinv.table
    · rw [hbucket]
      exact hinv.pos
    · rw [hbucket]
      exact hinv.le
  · intro c hc
    rw [htable] at hc
    obtain ⟨front, tail, rest, hlist⟩ := hinv.chains c hc
    by_cases heq : c = t.parentOf (.heap addr)
    · subst heq
      obtain ⟨front', tail', hlist', -⟩ := hfreed.chainList_shrunk hinv hlist
      exact ⟨front', tail', rest, hlist'⟩
    · exact ⟨front, tail, rest, hfreed.chainList_other hinv heq hlist⟩
  · intro p hp
    rw [hfreed.valid_iff hinv.heapNodup] at hp
    rw [hfreed.parent, htable]
    exact hinv.parent_lt p hp.1
  · intro c hc
    rw [htable] at hc
    rw [hfreed.parent]
    exact hinv.firstParent c hc
  · intro c hc
    rw [htable] at hc
    rw [Dynamic, hfreed.flags (by simp)]
    exact hinv.firstStatic c hc
  · intro p hp
    rw [hfreed.valid_iff hinv.heapNodup] at hp
    rw [hfreed.flags hp.2]
    exact hinv.notToFree p hp.1
  · rw [hfreed.eq]
    exact hinv.heapNodup.erase addr

theorem whole (hfreed : Freed t t' e addr) (hinv : TableInv t)
    (hwhole : Whole t) : Whole t' := by
  intro c hc
  rw [hfreed.sizes.1] at hc
  obtain ⟨front, tail, hlist, hall⟩ := hwhole c hc
  by_cases heq : c = t.parentOf (.heap addr)
  · subst heq
    obtain ⟨front', tail', hlist', hkept⟩ := hfreed.chainList_shrunk hinv hlist
    refine ⟨front', tail', hlist', ?_⟩
    intro p hp hparent
    rw [hfreed.valid_iff hinv.heapNodup] at hp
    rw [hfreed.parent] at hparent
    exact hkept p (hall p hp.1 hparent) hp.2
  · refine ⟨front, tail, hfreed.chainList_other hinv heq hlist, ?_⟩
    intro p hp hparent
    rw [hfreed.valid_iff hinv.heapNodup] at hp
    rw [hfreed.parent] at hparent
    exact hall p hp.1 hparent

end Freed

end FlowTable

end Ntnetflow

end NtapiExamples
