/-
`ft_init`: the chains it sets up.  The loop over a chain leaves `prev` one bucket
behind `bucket`, and `chain->last` is set from `prev`.
-/
import NtapiExamples.Ntnetflow.FlowTableLive

namespace NtapiExamples

namespace Ntnetflow

namespace FlowTable

variable {t t' : FlowTable}

/-- The preallocated buckets of the chain `c` in list order. -/
structure InitChain (t : FlowTable) (c : Nat) (l : List BucketPtr) : Prop where
  head : l.head? = some (.first c)
  nodup : l.Nodup
  seg : Seg t.nextOf t.prevOf none none l
  valid : ∀ p ∈ l, t.valid p = true
  parent : ∀ p ∈ l, t.parentOf p = c
  own : ∀ d, .first d ∈ l → d = c
  all : ∀ addr ∈ t.heap, t.parentOf (.heap addr) = c → .heap addr ∈ l

/-- No slot is taken yet, and only the chains below `count` have buckets. -/
structure InitBase (t : FlowTable) (count : Nat) : Prop where
  flags : ∀ p, (t.mem p).flags = 0#64
  entries : ∀ p, (t.mem p).entries = fun _ => FlowEntry.zero
  unusedFirst : ∀ c, c < count → (t.mem (.first c)).unused = BitVec.allOnes 64
  unusedHeap : ∀ addr ∈ t.heap,
    (t.mem (.heap addr)).unused = BitVec.allOnes 64
  parentHeap : ∀ addr ∈ t.heap, t.parentOf (.heap addr) < count
  heapNodup : t.heap.Nodup

/-- What `chain->last` is set to when the buckets are `front ++ [tail]`. -/
def lastSet (front : List BucketPtr) (tail : BucketPtr) : BucketPtr :=
  front.getLast?.getD tail

/-- The chains below `count` after the loop of `ft_init`. -/
structure InitDone (t : FlowTable) (chainSize count : Nat) : Prop extends
    InitBase t count where
  chains : ∀ c, c < count → ∃ front tail, InitChain t c (front ++ [tail]) ∧
    front.length = chainSize - 1 ∧ t.last c = some (lastSet front tail)

section Grow

variable {addr c : Nat} {tail : BucketPtr} {b : FlowBucket}

theorem Grown.initChain (hgrown : Grown t t' addr tail b) (hparent : b.parent = c)
    {front : List BucketPtr} (hchain : InitChain t c (front ++ [tail])) :
    InitChain t' c (front ++ [tail] ++ [.heap addr]) := by
  have hold : ∀ p ∈ front ++ [tail], p ≠ .heap addr :=
    fun p hp => hgrown.ne_new (hchain.valid p hp)
  constructor
  · rw [List.head?_append, hchain.head]
    rfl
  · exact hgrown.nodup hchain.nodup hchain.valid
  · exact hgrown.seg hchain.seg hchain.nodup hchain.valid
  · intro p hp
    rw [hgrown.valid_iff]
    rcases List.mem_append.mp hp with hp | hp
    · exact Or.inr (hchain.valid p hp)
    · exact Or.inl (List.mem_singleton.mp hp)
  · intro p hp
    rcases List.mem_append.mp hp with hp | hp
    · rw [(hgrown.fields_old (hold p hp)).2.1]
      exact hchain.parent p hp
    · rw [List.mem_singleton.mp hp, parentOf, hgrown.mem_new, hparent]
  · intro d hd
    rcases List.mem_append.mp hd with hd | hd
    · exact hchain.own d hd
    · simp at hd
  · intro other hother hp
    rw [hgrown.heap, List.mem_cons] at hother
    by_cases heq : other = addr
    · simp [heq]
    · have hne : BucketPtr.heap other ≠ .heap addr := by simpa using heq
      rw [(hgrown.fields_old hne).2.1] at hp
      exact List.mem_append_left _
        (hchain.all other (hother.resolve_left heq) hp)

theorem Grown.initChain_other (hgrown : Grown t t' addr tail b)
    (hparent : b.parent = c) (htail : t.parentOf tail = c) {d : Nat}
    (hd : d ≠ c) {l : List BucketPtr} (hchain : InitChain t d l) :
    InitChain t' d l := by
  have hold : ∀ p ∈ l, p ≠ .heap addr ∧ p ≠ tail := by
    intro p hp
    refine ⟨hgrown.ne_new (hchain.valid p hp), ?_⟩
    rintro rfl
    exact hd ((hchain.parent p hp).symm.trans htail)
  constructor
  · exact hchain.head
  · exact hchain.nodup
  · apply hchain.seg.congr
    · exact fun p hp => hgrown.next_old (hold p hp).1 (hold p hp).2
    · exact fun p hp => (hgrown.fields_old (hold p hp).1).1
  · intro p hp
    rw [hgrown.valid_iff]
    exact Or.inr (hchain.valid p hp)
  · intro p hp
    rw [(hgrown.fields_old (hold p hp).1).2.1]
    exact hchain.parent p hp
  · exact hchain.own
  · intro other hother hp
    rw [hgrown.heap, List.mem_cons] at hother
    by_cases heq : other = addr
    · rw [heq, parentOf, hgrown.mem_new, hparent] at hp
      exact absurd hp.symm hd
    · have hne : BucketPtr.heap other ≠ .heap addr := by simpa using heq
      rw [(hgrown.fields_old hne).2.1] at hp
      exact hchain.all other (hother.resolve_left heq) hp

theorem Grown.initBase (hgrown : Grown t t' addr tail b)
    (hparent : b.parent = c) (hflags : b.flags = 0#64)
    (hentries : b.entries = fun _ => FlowEntry.zero)
    (hunused : b.unused = BitVec.allOnes 64) {count : Nat} (hc : c < count)
    (hbase : InitBase t count) : InitBase t' count := by
  constructor
  · intro p
    by_cases hp : p = .heap addr
    · rw [hp, hgrown.mem_new, hflags]
    · rw [(hgrown.fields_old hp).2.2.1, hbase.flags]
  · intro p
    by_cases hp : p = .heap addr
    · rw [hp, hgrown.mem_new, hentries]
    · rw [(hgrown.fields_old hp).2.2.2.2, hbase.entries]
  · intro d hd
    rw [(hgrown.fields_old (by simp)).2.2.2.1]
    exact hbase.unusedFirst d hd
  · intro other hother
    rw [hgrown.heap, List.mem_cons] at hother
    by_cases heq : other = addr
    · rw [heq, hgrown.mem_new, hunused]
    · rw [(hgrown.fields_old (by simpa using heq)).2.2.2.1]
      exact hbase.unusedHeap other (hother.resolve_left heq)
  · intro other hother
    rw [hgrown.heap, List.mem_cons] at hother
    by_cases heq : other = addr
    · rw [heq, parentOf, hgrown.mem_new, hparent]
      exact hc
    · rw [(hgrown.fields_old (by simpa using heq)).2.1]
      exact hbase.parentHeap other (hother.resolve_left heq)
  · rw [hgrown.heap]
    exact List.nodup_cons.mpr ⟨hgrown.fresh, hbase.heapNodup⟩

end Grow

/-- One turn of the loop appends a static bucket. -/
theorem initStep_grown {alloc : Option Nat} {c : Nat} {bucket next : BucketPtr}
    {added : Option BucketPtr} {t₁ : FlowTable}
    (hvalid : t.valid bucket = true)
    (hadd : t.ftAddBucket alloc c (some bucket) false = some (t₁, added))
    (hnext : added = some next)
    (hlink : t₁.modifyBucket bucket (fun b => { b with next := added }) =
      some t') :
    ∃ addr, next = .heap addr ∧ Grown t t' addr bucket
      { FlowBucket.zero with
        parent := c
        prev := some bucket
        flags := 0#64
        unused := BitVec.allOnes 64 } ∧
      t'.bucketSize = t.bucketSize ∧ t'.last = t.last := by
  rcases ftAddBucket_eq_some hadd hvalid with ⟨-, hnone⟩ | ⟨addr, -, hfresh, heq⟩
  · simp only [Prod.mk.injEq] at hnone
    simp [hnone.2] at hnext
  · simp only [Prod.mk.injEq] at heq
    obtain ⟨rfl, rfl⟩ := heq
    simp only [Option.some.injEq] at hnext
    rw [modifyBucket_eq_some_iff] at hlink
    obtain ⟨-, rfl⟩ := hlink
    refine ⟨addr, hnext.symm, ?_, rfl, rfl⟩
    refine ⟨hvalid, hfresh, rfl, rfl, rfl, rfl, ?_⟩
    simp [setBucket]

/-- The loop over a chain: `front ++ [bucket]` grows, `prev` stays behind. -/
theorem ftInitChain_spec {calloc : Nat → Option Nat} {c count : Nat}
    {prev bucket prev' bucket' : BucketPtr} {front : List BucketPtr}
    (hloop : ftInitChain calloc c count t prev bucket =
      some (t', prev', bucket'))
    (hbase : InitBase t (c + 1)) (hchain : InitChain t c (front ++ [bucket]))
    (hprev : prev = lastSet front bucket) :
    ∃ front', InitChain t' c (front' ++ [bucket']) ∧
      prev' = lastSet front' bucket' ∧
      front'.length = front.length + count ∧ InitBase t' (c + 1) ∧
      (∀ d l, d ≠ c → InitChain t d l → InitChain t' d l) ∧
      t'.tableSize = t.tableSize ∧ t'.bucketSize = t.bucketSize ∧
      t'.last = t.last := by
  induction count generalizing t prev bucket front with
  | zero =>
      simp only [ftInitChain, Option.some.injEq, Prod.mk.injEq] at hloop
      obtain ⟨rfl, rfl, rfl⟩ := hloop
      exact ⟨front, hchain, hprev, rfl, hbase, fun _ _ _ h => h, rfl, rfl, rfl⟩
  | succ count ih =>
      simp only [ftInitChain, Option.bind_eq_bind,
        Option.bind_eq_some_iff] at hloop
      obtain ⟨⟨t₁, added⟩, hadd, t₂, hlink, next, hnext, hloop⟩ := hloop
      have hbucket := hchain.valid bucket (by simp)
      have hbucketParent := hchain.parent bucket (by simp)
      obtain ⟨addr, rfl, hgrown, hsize, hlast⟩ :=
        initStep_grown hbucket hadd hnext hlink
      obtain ⟨front', hchain', hprev', hlength, hbase', hother, htable',
          hsize', hlast'⟩ := ih hloop
        (hgrown.initBase rfl rfl rfl rfl (Nat.lt_succ_self c) hbase)
        (hgrown.initChain rfl hchain) (by simp [lastSet])
      refine ⟨front', hchain', hprev', ?_, hbase', ?_, ?_, ?_, ?_⟩
      · rw [hlength]
        simp
        omega
      · intro d l hd hl
        exact hother d l hd
          (hgrown.initChain_other rfl hbucketParent hd hl)
      · rw [htable', hgrown.tableSize]
      · rw [hsize', hsize]
      · rw [hlast', hlast]

/-- `ft_init_bucket(&chain->first, chain, NULL, false)` on a zeroed bucket. -/
theorem initFirst_spec {c : Nat}
    (hfirst : t.ftInitBucket (.first c) c none false = some t')
    (hbase : InitBase t c) :
    t.valid (.first c) = true ∧ InitChain t' c [.first c] ∧
      InitBase t' (c + 1) ∧
      (∀ d l, d ≠ c → InitChain t d l → InitChain t' d l) ∧
      t'.tableSize = t.tableSize ∧ t'.bucketSize = t.bucketSize ∧
      t'.last = t.last := by
  simp only [ftInitBucket, Option.bind_eq_bind, Option.bind_some,
    modifyBucket_eq_some_iff] at hfirst
  obtain ⟨hvalid, heq⟩ := hfirst
  have hmem : ∀ p, p ≠ .first c → t'.mem p = t.mem p := by
    intro p hp
    rw [heq]
    exact Function.update_of_ne hp _ _
  have hnew : t'.mem (.first c) = { t.mem (.first c) with
      parent := c, prev := none, flags := 0#64
      unused := BitVec.allOnes 64, next := none } := by
    rw [heq]
    simp only [setBucket, Function.update_self]
    rfl
  have hvalid' : ∀ p, t'.valid p = t.valid p := by
    intro p
    rw [heq, setBucket_valid]
  have hheap : t'.heap = t.heap := by rw [heq]; rfl
  refine ⟨hvalid, ?_, ?_, ?_, by rw [heq]; rfl, by rw [heq]; rfl,
    by rw [heq]; rfl⟩
  · constructor
    · rfl
    · simp
    · rw [seg_singleton, prevOf, nextOf, hnew]
      exact ⟨rfl, rfl⟩
    · intro p hp
      rw [List.mem_singleton.mp hp, hvalid']
      exact hvalid
    · intro p hp
      rw [List.mem_singleton.mp hp, parentOf, hnew]
    · intro d hd
      simpa using hd
    · intro addr haddr hparent
      rw [hheap] at haddr
      rw [parentOf, hmem _ (by simp)] at hparent
      have hlt := hbase.parentHeap addr haddr
      rw [parentOf] at hlt
      omega
  · constructor
    · intro p
      by_cases hp : p = .first c
      · rw [hp, hnew]
      · rw [hmem p hp, hbase.flags]
    · intro p
      by_cases hp : p = .first c
      · rw [hp, hnew, ← hbase.entries (.first c)]
      · rw [hmem p hp, hbase.entries]
    · intro d hd
      by_cases hdc : d = c
      · rw [hdc, hnew]
      · rw [hmem _ (by simpa using hdc)]
        exact hbase.unusedFirst d (by omega)
    · intro addr haddr
      rw [hheap] at haddr
      rw [hmem _ (by simp)]
      exact hbase.unusedHeap addr haddr
    · intro addr haddr
      rw [hheap] at haddr
      rw [parentOf, hmem _ (by simp)]
      have hlt := hbase.parentHeap addr haddr
      rw [parentOf] at hlt
      omega
    · rw [hheap]
      exact hbase.heapNodup
  · intro d l hd hl
    have hne : ∀ p ∈ l, p ≠ .first c := by
      rintro p hp rfl
      exact hd (hl.own c hp).symm
    constructor
    · exact hl.head
    · exact hl.nodup
    · apply hl.seg.congr
      · intro p hp
        rw [nextOf, hmem p (hne p hp)]
        rfl
      · intro p hp
        rw [prevOf, hmem p (hne p hp)]
        rfl
    · intro p hp
      rw [hvalid']
      exact hl.valid p hp
    · intro p hp
      rw [parentOf, hmem p (hne p hp)]
      exact hl.parent p hp
    · exact hl.own
    · intro addr haddr hparent
      rw [hheap] at haddr
      rw [parentOf, hmem _ (by simp)] at hparent
      exact hl.all addr haddr hparent

/-- Setting `chain->last` touches no bucket. -/
theorem InitChain.setLast {c : Nat} {l : List BucketPtr}
    (hchain : InitChain t c l) (last : Nat → Option BucketPtr) :
    InitChain { t with last := last } c l := by
  refine ⟨hchain.head, hchain.nodup, hchain.seg, ?_, hchain.parent,
    hchain.own, hchain.all⟩
  intro p hp
  have hvalid := hchain.valid p hp
  cases p <;> exact hvalid

theorem ftInitTable_spec {calloc : Nat → Nat → Option Nat}
    {chainSize count : Nat} (hbase : InitBase t 0)
    (hloop : ftInitTable calloc chainSize count t = some t') :
    InitDone t' chainSize count ∧ t'.tableSize = t.tableSize ∧
      t'.bucketSize = t.bucketSize := by
  induction count generalizing t' with
  | zero =>
      simp only [ftInitTable, Option.some.injEq] at hloop
      rw [← hloop]
      exact ⟨⟨hbase, by simp⟩, rfl, rfl⟩
  | succ chain ih =>
      simp only [ftInitTable, Option.bind_eq_bind, Option.bind_eq_some_iff,
        Option.some.injEq] at hloop
      obtain ⟨t₁, htable, t₂, hfirst, ⟨t₃, prev, bucket⟩, hchain, rfl⟩ := hloop
      obtain ⟨hdone, htableSize, hbucketSize⟩ := ih htable
      obtain ⟨-, hnew, hbase₂, hkeep₂, htable₂, hbucket₂, hlast₂⟩ :=
        initFirst_spec hfirst hdone.toInitBase
      obtain ⟨front, hlist, hprev, hlength, hbase₃, hkeep₃, htable₃, hbucket₃,
          hlast₃⟩ := @ftInitChain_spec t₂ t₃ _ _ _ _ _ _ _ [] hchain hbase₂
        (by simpa using hnew) (by simp [lastSet])
      refine ⟨⟨?_, ?_⟩, ?_, ?_⟩
      · exact ⟨hbase₃.flags, hbase₃.entries, hbase₃.unusedFirst,
          hbase₃.unusedHeap, hbase₃.parentHeap, hbase₃.heapNodup⟩
      · intro c hc
        by_cases heq : c = chain
        · subst heq
          refine ⟨front, bucket, hlist.setLast _, by simpa using hlength, ?_⟩
          rw [← hprev]
          exact Function.update_self _ _ _
        · obtain ⟨front', tail', hlist', hlength', hlast'⟩ :=
            hdone.chains c (by omega)
          refine ⟨front', tail', ?_, hlength', ?_⟩
          · exact (hkeep₃ c _ heq (hkeep₂ c _ heq hlist')).setLast _
          · rw [← hlast']
            change Function.update t₃.last chain (some prev) c = _
            rw [Function.update_of_ne heq, hlast₃, hlast₂]
      · exact htable₃.trans (htable₂.trans htableSize)
      · exact hbucket₃.trans (hbucket₂.trans hbucketSize)

theorem ftInitBucket_stats {bucket : BucketPtr} {parent : Nat}
    {prev : Option BucketPtr} {dynamic : Bool}
    (hbucket : t.ftInitBucket bucket parent prev dynamic = some t') :
    t'.stats = t.stats := by
  cases prev with
  | none =>
      simp only [ftInitBucket, Option.bind_eq_bind, Option.bind_some,
        modifyBucket_eq_some_iff] at hbucket
      rw [hbucket.2]
      rfl
  | some prev =>
      simp only [ftInitBucket, Option.bind_eq_bind, Option.bind_eq_some_iff,
        modifyBucket_eq_some_iff] at hbucket
      obtain ⟨t₁, ⟨-, rfl⟩, -, rfl⟩ := hbucket
      rfl

theorem ftAddBucket_stats {alloc : Option Nat} {parent : Nat}
    {prev : Option BucketPtr} {dynamic : Bool}
    {r : FlowTable × Option BucketPtr}
    (hadd : t.ftAddBucket alloc parent prev dynamic = some r) :
    r.1.stats = t.stats := by
  cases alloc with
  | none =>
      simp only [ftAddBucket, Option.some.injEq] at hadd
      rw [← hadd]
  | some addr =>
      simp only [ftAddBucket] at hadd
      split at hadd
      · simp at hadd
      · simp only [Option.bind_eq_bind, Option.bind_eq_some_iff,
          Option.some.injEq] at hadd
        obtain ⟨t₁, hbucket, rfl⟩ := hadd
        have hsame := ftInitBucket_stats hbucket
        exact hsame

theorem ftInitChain_stats {calloc : Nat → Option Nat} {c count : Nat}
    {prev bucket : BucketPtr} {r : FlowTable × BucketPtr × BucketPtr}
    (hloop : ftInitChain calloc c count t prev bucket = some r) :
    r.1.stats = t.stats := by
  induction count generalizing t prev bucket with
  | zero =>
      simp only [ftInitChain, Option.some.injEq] at hloop
      rw [← hloop]
  | succ count ih =>
      simp only [ftInitChain, Option.bind_eq_bind, Option.bind_eq_some_iff,
        modifyBucket_eq_some_iff] at hloop
      obtain ⟨⟨t₁, added⟩, hadd, t₂, ⟨-, rfl⟩, next, -, hloop⟩ := hloop
      rw [ih hloop]
      exact ftAddBucket_stats hadd

theorem ftInitTable_stats {calloc : Nat → Nat → Option Nat}
    {chainSize count : Nat}
    (hloop : ftInitTable calloc chainSize count t = some t') :
    t'.stats = t.stats := by
  induction count generalizing t' with
  | zero =>
      simp only [ftInitTable, Option.some.injEq] at hloop
      rw [← hloop]
  | succ chain ih =>
      simp only [ftInitTable, Option.bind_eq_bind, Option.bind_eq_some_iff,
        Option.some.injEq] at hloop
      obtain ⟨t₁, htable, t₂, hfirst, ⟨t₃, prev, bucket⟩, hchain, rfl⟩ := hloop
      rw [← ih htable, ← ftInitBucket_stats hfirst]
      exact ftInitChain_stats hchain

section Init

variable {calloc : Nat → Nat → Option Nat} {power2 chainSize bucketSize : Nat}

theorem ftInit_spec
    (hinit : ftInit calloc power2 chainSize bucketSize = some t) :
    InitDone t chainSize t.tableSize ∧ t.tableSize = 2 ^ power2 ∧
      t.bucketSize = bucketSize ∧ 0 < bucketSize := by
  simp only [ftInit] at hinit
  split at hinit
  · simp at hinit
  · rename_i hsize
    have hbase : InitBase { tableSize := 2 ^ power2, bucketSize := bucketSize
                            mem := fun _ => FlowBucket.zero, heap := []
                            last := fun _ => none, stats := fun _ => 0 } 0 := by
      constructor <;> simp [FlowBucket.zero]
    obtain ⟨hdone, htable, hbucket⟩ := ftInitTable_spec hbase hinit
    have htable' : t.tableSize = 2 ^ power2 := htable
    refine ⟨?_, htable', hbucket, by omega⟩
    rw [htable']
    exact hdone

variable (hinit : ftInit calloc power2 chainSize bucketSize = some t)

include hinit

theorem ftInit_tableInv (hle : bucketSize ≤ 32) : TableInv t := by
  obtain ⟨hdone, htable, hbucket, hpos⟩ := ftInit_spec hinit
  have hstatic : ∀ p, ¬ t.Dynamic p := by
    intro p
    rw [Dynamic, hdone.flags]
    simp
  constructor
  · refine ⟨?_, by omega, by omega⟩
    rw [htable]
    exact Nat.two_pow_pos power2
  · intro c hc
    obtain ⟨front, tail, hchain, -, hlast⟩ := hdone.chains c hc
    rcases List.eq_nil_or_concat front with rfl | ⟨init, p, rfl⟩
    · refine ⟨[], tail, [], ?_⟩
      exact ⟨hchain.head, hchain.nodup, hchain.seg, hchain.valid,
        hchain.parent, by simpa [lastSet] using hlast,
        fun q _ => hstatic q, fun q _ _ hq => absurd hq (hstatic q)⟩
    · refine ⟨init, p, [tail], ?_⟩
      have heq : init ++ [p] ++ [tail] = init ++ p :: [tail] := by simp
      rw [List.concat_eq_append, heq] at hchain
      exact ⟨hchain.head, hchain.nodup, hchain.seg, hchain.valid,
        hchain.parent, by simpa [lastSet] using hlast,
        fun q _ => hstatic q, fun q _ _ hq => absurd hq (hstatic q)⟩
  · intro p hp
    cases p with
    | first c =>
        simp only [valid, decide_eq_true_iff] at hp
        obtain ⟨front, tail, hchain, -, -⟩ := hdone.chains c hp
        rw [hchain.parent _ (List.mem_of_head? hchain.head)]
        exact hp
    | heap addr =>
        simp only [valid, decide_eq_true_iff] at hp
        exact hdone.parentHeap addr hp
  · intro c hc
    obtain ⟨front, tail, hchain, -, -⟩ := hdone.chains c hc
    exact hchain.parent _ (List.mem_of_head? hchain.head)
  · exact fun c _ => hstatic _
  · intro p _
    rw [hdone.flags]
    simp
  · exact hdone.heapNodup

theorem ftInit_stats (stat : Stat) : t.stats stat = 0 := by
  simp only [ftInit] at hinit
  split at hinit
  · simp at hinit
  · rw [ftInitTable_stats hinit]

theorem ftInit_content (e : EntryPtr) : t.content e = FlowEntry.zero := by
  have hentries := (ftInit_spec hinit).1.entries e.bucket
  simp only [content, entry, hentries]
  split <;> rfl

theorem ftInit_slotsOk : SlotsOk t := by
  intro e
  left
  rw [ftInit_content hinit]
  rfl

theorem ftInit_unused {p : BucketPtr} (hvalid : t.valid p = true) :
    (t.mem p).unused = BitVec.allOnes 64 := by
  obtain ⟨hdone, -, -, -⟩ := ftInit_spec hinit
  cases p with
  | first c => exact hdone.unusedFirst c (by simpa [valid] using hvalid)
  | heap addr => exact hdone.unusedHeap addr (by simpa [valid] using hvalid)

theorem ftInit_not_used (hle : bucketSize ≤ 32) (e : EntryPtr) :
    ¬ t.Used e := by
  obtain ⟨-, -, hbucket, -⟩ := ftInit_spec hinit
  rintro ⟨hvalid, hlt, hclear⟩
  rw [ftInit_unused hinit hvalid] at hclear
  simp only [BitVec.getLsbD_allOnes, decide_eq_false_iff_not] at hclear
  omega

/-- With one preallocated bucket, `chain->last` is the final bucket. -/
theorem ftInit_whole (hone : chainSize = 1) : Whole t := by
  obtain ⟨hdone, -, -, -⟩ := ftInit_spec hinit
  intro c hc
  obtain ⟨front, tail, hchain, hlength, hlast⟩ := hdone.chains c hc
  have hnil : front = [] := by
    apply List.eq_nil_of_length_eq_zero
    omega
  subst hnil
  have hstatic : ∀ p, ¬ t.Dynamic p := by
    intro p
    rw [Dynamic, hdone.flags]
    simp
  refine ⟨[], tail, ?_, ?_⟩
  · exact ⟨hchain.head, hchain.nodup, hchain.seg, hchain.valid,
      hchain.parent, by simpa [lastSet] using hlast,
      fun q _ => hstatic q, fun q _ _ hq => absurd hq (hstatic q)⟩
  · intro p hp hparent
    cases p with
    | first d =>
        simp only [valid, decide_eq_true_iff] at hp
        obtain ⟨front', tail', hchain', -, -⟩ := hdone.chains d hp
        rw [hchain'.parent _ (List.mem_of_head? hchain'.head)] at hparent
        rw [hparent]
        exact List.mem_of_head? hchain.head
    | heap addr =>
        simp only [valid, decide_eq_true_iff] at hp
        exact hchain.all addr hp hparent

end Init

end FlowTable

end Ntnetflow

end NtapiExamples
