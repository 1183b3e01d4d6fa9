/-
The nodes in memory are the tree: `insert`, `search` and the loader do on them
what they do on a `Tree`, and `deltree` frees all of them.
-/
import NtapiExamples.AddrswapReplay.BtreeHeap

namespace NtapiExamples

namespace AddrswapReplay

abbrev NodeTree := PlacedTree Nat KeyData

/-- The tree without the addresses. -/
def NodeTree.erase : NodeTree → Tree
  | .nil => .nil
  | .node _ n left right =>
      .node n.key n.data (NodeTree.erase left) (NodeTree.erase right)

namespace BtreeMem

variable {m m' : BtreeMem} {t : NodeTree} {tree : NodeRef} {fuel temp : Nat}
  {key data : BitVec 32}

/-- The node that the field is in. -/
def owner : NodeRef → Option Nat
  | .root => none
  | .left node => some node
  | .right node => some node

theorem load_congr (hroot : m'.root = m.root)
    (howner : ∀ a, owner tree = some a → m'.heap a = m.heap a) :
    m'.load tree = m.load tree := by
  cases tree with
  | root => exact congrArg some hroot
  | left node => rw [load, howner node rfl, load]
  | right node => rw [load, howner node rfl, load]

theorem owner_allocated {ptr : Option Nat} (hload : m.load tree = some ptr)
    {a : Nat} (ha : owner tree = some a) : m.heap a ≠ none := by
  intro hnone
  cases tree <;> simp_all [load, owner]

/-- To write what is there changes nothing. -/
theorem store_self {ptr : Option Nat} (hload : m.load tree = some ptr) :
    m.store ptr tree = some m := by
  cases tree with
  | root =>
      rw [load, Option.some.injEq] at hload
      rw [store, ← hload]
  | left node =>
      obtain ⟨n, hn, rfl⟩ := Option.map_eq_some_iff.mp hload
      rw [store, hn, Option.map_some, write, ← hn, Function.update_eq_self]
  | right node =>
      obtain ⟨n, hn, rfl⟩ := Option.map_eq_some_iff.mp hload
      rw [store, hn, Option.map_some, write, ← hn, Function.update_eq_self]

/-- One call of `insert` on the place of a subtree: the subtree grows as the
tree does, and its pointer is stored in the place. -/
theorem insert_spec (key data : BitVec 32) (hload : m.load tree = some t.ptr)
    (ht : t.InHeap m.heap) (hsep : t.Separate)
    (howner : ∀ a, owner tree = some a → a ∉ t.addresses)
    (hfuel : t.size < fuel) {mallocs : List Nat}
    (hmalloc : m.mallocs = temp :: mallocs) (htemp : m.heap temp = none) :
    ∃ t' heap' mallocs', PlacedTree.Grown m.heap heap' temp t t' ∧
      NodeTree.erase t' = (NodeTree.erase t).insert key data ∧
      t'.size ≤ t.size + 1 ∧
      (mallocs' = m.mallocs ∧ t' = t ∨ mallocs' = mallocs) ∧
      insert key data fuel m tree =
        store ⟨m.root, heap', mallocs'⟩ t'.ptr tree := by
  induction t generalizing tree fuel with
  | nil =>
      obtain ⟨fuel, rfl⟩ := Nat.exists_eq_succ_of_ne_zero (Nat.ne_zero_of_lt hfuel)
      refine ⟨_, _, mallocs, PlacedTree.Grown.leaf ⟨key, data⟩, rfl, le_rfl,
        Or.inr rfl, ?_⟩
      have hnone : m.load tree = some none := hload
      simp only [insert, hnone, hmalloc, Option.bind_eq_bind, Option.bind_some]
      rfl
  | node address n left right ihl ihr =>
      obtain ⟨fuel, rfl⟩ := Nat.exists_eq_succ_of_ne_zero (Nat.ne_zero_of_lt hfuel)
      obtain ⟨hnode, hleft, hright⟩ := ht
      obtain ⟨hl, hr, hsl, hsr, -⟩ := PlacedTree.separate_node.mp hsep
      have hptr : m.load tree = some (some address) := hload
      have hne : address ≠ temp := by
        rintro rfl
        simp [hnode] at htemp
      -- the pointer in the place itself stays
      have hstays : ∀ (t' : NodeTree) heap' mallocs',
          t'.ptr = some address →
          PlacedTree.Grown m.heap heap' temp (.node address n left right) t' →
          store ⟨m.root, heap', mallocs'⟩ t'.ptr tree =
            some ⟨m.root, heap', mallocs'⟩ := by
        intro t' heap' mallocs' ht' hgrown
        rw [ht']
        apply store_self
        rw [← hptr]
        refine load_congr rfl fun a ha => hgrown.frame a ?_
        refine hgrown.notMem (howner a ha) ?_
        rintro rfl
        exact owner_allocated hload ha htemp
      simp only [PlacedTree.size] at hfuel
      simp only [insert, hptr, hnode, Option.bind_eq_bind, Option.bind_some,
        NodeTree.erase, Tree.insert]
      split
      · have hplace : m.load (.left address) = some left.ptr := by
          rw [load, hnode, Option.map_some]
        have hfuel' : left.size < fuel := by omega
        obtain ⟨left', heap', mallocs', hgrown, herase, hsize, hmallocs, heq⟩ :=
          ihl hplace hleft hsl (fun a ha => by cases ha; exact hl) hfuel'
        have hgrown' := hgrown.graftLeft ⟨hnode, hleft, hright⟩ hsep htemp
        refine ⟨.node address n left' right, _, mallocs', hgrown', ?_, ?_, ?_,
          ?_⟩
        · rw [NodeTree.erase, herase]
        · simp only [PlacedTree.size]
          omega
        · exact hmallocs.imp_left fun h => ⟨h.1, by rw [h.2]⟩
        · have hparent :=
            (hgrown.frame address (hgrown.notMem hl hne)).trans hnode
          rw [hstays _ _ _ rfl hgrown', heq]
          simp only [store, hparent, Option.map_some]
          rfl
      · split
        · have hplace : m.load (.right address) = some right.ptr := by
            rw [load, hnode, Option.map_some]
          have hfuel' : right.size < fuel := by omega
          obtain ⟨right', heap', mallocs', hgrown, herase, hsize, hmallocs,
            heq⟩ :=
            ihr hplace hright hsr (fun a ha => by cases ha; exact hr) hfuel'
          have hgrown' := hgrown.graftRight ⟨hnode, hleft, hright⟩ hsep htemp
          refine ⟨.node address n left right', _, mallocs', hgrown', ?_, ?_, ?_,
            ?_⟩
          · rw [NodeTree.erase, herase]
          · simp only [PlacedTree.size]
            omega
          · exact hmallocs.imp_left fun h => ⟨h.1, by rw [h.2]⟩
          · have hparent :=
              (hgrown.frame address (hgrown.notMem hr hne)).trans hnode
            rw [hstays _ _ _ rfl hgrown', heq]
            simp only [store, hparent, Option.map_some]
            rfl
        · have hgrown : PlacedTree.Grown m.heap m.heap temp
              (.node address n left right) (.node address n left right) :=
            PlacedTree.Grown.refl ⟨hnode, hleft, hright⟩ hsep
          refine ⟨_, m.heap, m.mallocs, hgrown, rfl, Nat.le_succ _,
            Or.inl ⟨rfl, rfl⟩, ?_⟩
          exact (hstays _ _ _ rfl hgrown).symm

/-- What `search` points to is what it returns of the tree. -/
theorem search_spec (val : BitVec 32) (hload : m.load tree = some t.ptr) (ht : t.InHeap m.heap)
    (hfuel : t.size < fuel) :
    ∃ found : NodeTree, found.InHeap m.heap ∧
      NodeTree.erase found = (NodeTree.erase t).search val ∧
      search val fuel m tree = some found.ptr := by
  induction t generalizing tree fuel with
  | nil =>
      obtain ⟨fuel, rfl⟩ := Nat.exists_eq_succ_of_ne_zero (Nat.ne_zero_of_lt hfuel)
      refine ⟨.nil, trivial, rfl, ?_⟩
      have hnone : m.load tree = some none := hload
      simp only [search, hnone, Option.bind_eq_bind, Option.bind_some]
      rfl
  | node address n left right ihl ihr =>
      obtain ⟨fuel, rfl⟩ := Nat.exists_eq_succ_of_ne_zero (Nat.ne_zero_of_lt hfuel)
      obtain ⟨hnode, hleft, hright⟩ := ht
      have hptr : m.load tree = some (some address) := hload
      simp only [PlacedTree.size] at hfuel
      simp only [search, hptr, hnode, Option.bind_eq_bind, Option.bind_some,
        NodeTree.erase, Tree.search]
      split
      · have hplace : m.load (.left address) = some left.ptr := by
          rw [load, hnode, Option.map_some]
        exact ihl hplace hleft (by omega)
      · split
        · have hplace : m.load (.right address) = some right.ptr := by
            rw [load, hnode, Option.map_some]
          exact ihr hplace hright (by omega)
        · split
          · exact ⟨.node address n left right, ⟨hnode, hleft, hright⟩, rfl, rfl⟩
          · exact ⟨.nil, trivial, rfl, rfl⟩

/-- The walk frees every node after both of its subtrees, and reads no node it
has freed. -/
theorem deltree_spec (ht : t.InHeap m.heap) (hsep : t.Separate)
    (hfuel : t.size < fuel) :
    deltree fuel m t.ptr =
      some { m with heap := PlacedTree.clear m.heap t.addresses } := by
  induction t generalizing m fuel with
  | nil =>
      obtain ⟨fuel, rfl⟩ := Nat.exists_eq_succ_of_ne_zero (Nat.ne_zero_of_lt hfuel)
      simp only [PlacedTree.ptr, PlacedTree.addresses, PlacedTree.clear_nil,
        deltree]
  | node address n left right ihl ihr =>
      obtain ⟨fuel, rfl⟩ := Nat.exists_eq_succ_of_ne_zero (Nat.ne_zero_of_lt hfuel)
      obtain ⟨hnode, hleft, hright⟩ := ht
      obtain ⟨hl, hr, hsl, hsr, hdisjoint⟩ := PlacedTree.separate_node.mp hsep
      simp only [PlacedTree.size] at hfuel
      have hnode' : PlacedTree.clear m.heap left.addresses address =
          some ⟨n, left.ptr, right.ptr⟩ :=
        (PlacedTree.clear_of_notMem hl).trans hnode
      have hnode'' : PlacedTree.clear m.heap
          (left.addresses ++ right.addresses) address =
            some ⟨n, left.ptr, right.ptr⟩ :=
        (PlacedTree.clear_of_notMem (by simp [hl, hr])).trans hnode
      have hfuelLeft : left.size < fuel := by omega
      have hfuelRight : right.size < fuel := by omega
      have hleft' := ihl hleft hsl hfuelLeft
      have hright' : deltree fuel
          { m with heap := PlacedTree.clear m.heap left.addresses } right.ptr =
            some
              { m with
                heap := PlacedTree.clear m.heap
                  (left.addresses ++ right.addresses) } := by
        rw [ihr (hright.clear hdisjoint) hsr hfuelRight,
          PlacedTree.clear_clear]
      have hptr : (PlacedTree.node address n left right).ptr =
          some address := rfl
      simp only [hptr, deltree, hnode, hleft', hnode', hright', free, hnode'',
        PlacedTree.clear_clear, Option.bind_eq_bind, Option.bind_some,
        Option.map_some, Option.some.injEq, mk.injEq, true_and, and_true]
      funext a
      simp only [PlacedTree.clear, PlacedTree.addresses, List.mem_append,
        List.mem_cons, List.not_mem_nil, or_false]
      congr 1
      exact propext Or.comm

/-- `root` points to a tree, whose nodes are all that is allocated besides
`heap₀`. -/
structure Represents (heap₀ : Nat → Option BinNode) (m : BtreeMem)
    (t : NodeTree) : Prop where
  root : m.root = t.ptr
  inHeap : t.InHeap m.heap
  separate : t.Separate
  rest : ∀ a, a ∉ t.addresses → m.heap a = heap₀ a
  own : ∀ a ∈ t.addresses, heap₀ a = none
  nodup : m.mallocs.Nodup
  unused : ∀ a ∈ m.mallocs, m.heap a = none

variable {heap₀ : Nat → Option BinNode} {behind : Text}

theorem Represents.load (h : Represents heap₀ m t) :
    m.load .root = some t.ptr :=
  congrArg some h.root

theorem Represents.insert (h : Represents heap₀ m t) (hfuel : t.size < fuel)
    (hmallocs : m.mallocs ≠ []) :
    ∃ m' t', m.insert key data fuel .root = some m' ∧
      Represents heap₀ m' t' ∧
      NodeTree.erase t' = (NodeTree.erase t).insert key data ∧
      t'.size ≤ t.size + 1 ∧ m.mallocs.length ≤ m'.mallocs.length + 1 := by
  obtain ⟨temp, mallocs, hmalloc⟩ := List.exists_cons_of_ne_nil hmallocs
  have htemp : m.heap temp = none := h.unused temp (by simp [hmalloc])
  have hnodup := h.nodup
  rw [hmalloc, List.nodup_cons] at hnodup
  obtain ⟨t', heap', mallocs', hgrown, herase, hsize, hleft, heq⟩ :=
    insert_spec key data h.load h.inHeap h.separate (fun a ha => by cases ha)
      hfuel hmalloc htemp
  have hnotMem : ∀ a ∈ m.mallocs, a ∉ t.addresses := fun a ha hmem =>
    h.inHeap.allocated hmem (h.unused a ha)
  refine ⟨⟨t'.ptr, heap', mallocs'⟩, t', heq, ?_, herase, hsize, ?_⟩
  · refine ⟨rfl, hgrown.inHeap, hgrown.separate, fun a ha => ?_, fun a ha => ?_,
      ?_, fun a ha => ?_⟩
    · exact (hgrown.frame a ha).trans
        (h.rest a fun hmem => ha (hgrown.kept a hmem))
    · rcases hgrown.addresses a ha with hmem | rfl
      · exact h.own a hmem
      · rw [← h.rest a (hnotMem a (by simp [hmalloc])), htemp]
    · rcases hleft with ⟨rfl, -⟩ | rfl
      · exact h.nodup
      · exact hnodup.2
    · rcases hleft with ⟨rfl, rfl⟩ | rfl
      · exact (hgrown.frame a (hnotMem a ha)).trans (h.unused a ha)
      · have hmem : a ∈ m.mallocs := by simp [hmalloc, ha]
        have hne : a ≠ temp := fun heq => hnodup.1 (heq ▸ ha)
        exact (hgrown.frame a (hgrown.notMem (hnotMem a hmem) hne)).trans
          (h.unused a hmem)
  · rcases hleft with ⟨rfl, -⟩ | rfl
    · exact Nat.le_succ _
    · rw [hmalloc, List.length_cons]

theorem Represents.addEntry (h : Represents heap₀ m t)
    (initial replaceWith : BitVec 32) (hfuel : t.size < fuel) (hmallocs : m.mallocs ≠ []) :
    ∃ m' t', m.addEntry fuel initial replaceWith = some m' ∧
      Represents heap₀ m' t' ∧
      NodeTree.erase t' =
        AddrswapReplay.addEntry (NodeTree.erase t) initial replaceWith ∧
      t'.size ≤ t.size + 1 ∧ m.mallocs.length ≤ m'.mallocs.length + 1 := by
  obtain ⟨found, -, herase, hsearch⟩ :=
    search_spec initial h.load h.inHeap hfuel
  simp only [BtreeMem.addEntry, AddrswapReplay.addEntry, hsearch, ← herase,
    Option.bind_eq_bind, Option.bind_some]
  cases found with
  | nil => exact h.insert hfuel hmallocs
  | node address n left right =>
      exact ⟨m, t, rfl, h, rfl, Nat.le_succ _, Nat.le_succ _⟩

/-- The loop over the tokens gives what it gives on the tree. -/
def Agrees (heap₀ : Nat → Option BinNode) (fuel : Nat) :
    Option Loaded → Option (Bool × BtreeMem) → Prop
  | none, result => result = none
  | some loaded, result => ∃ m t, result = some (loaded.ok, m) ∧
      Represents heap₀ m t ∧ NodeTree.erase t = loaded.root ∧ t.size < fuel

theorem Represents.agrees (h : Represents heap₀ m t) {root : Tree}
    (hroot : NodeTree.erase t = root) (hfuel : t.size < fuel) (ok : Bool) :
    Agrees heap₀ fuel (some ⟨ok, root⟩) (some (ok, m)) :=
  ⟨m, t, rfl, h, hroot, hfuel⟩

theorem loadLoop_agrees {root : Tree} {tokens : List YamlToken}
    (h : Represents heap₀ m t) (hroot : NodeTree.erase t = root)
    (hfuel : t.size + tokens.length < fuel)
    (hmallocs : tokens.length ≤ m.mallocs.length) :
    Agrees heap₀ fuel (AddrswapReplay.loadLoop behind root tokens)
      (loadLoop behind fuel m tokens) := by
  have hsize : t.size < fuel := by omega
  fun_induction AddrswapReplay.loadLoop behind root tokens generalizing m t
  case case1 => exact h.agrees hroot hsize false
  case case2 => exact h.agrees hroot hsize false
  case case6 => exact h.agrees hroot hsize true
  case case3 ih | case4 ih | case5 ih | case12 ih | case13 ih | case14 ih =>
    -- a token that the loop passes over
    simp only [List.length_cons] at hfuel hmallocs
    exact ih h hroot (by omega) (by omega) hsize
  case case7 hpack =>
    simp only [loadLoop, hpack]
    rfl
  case case8 hpack hpack' =>
    simp only [loadLoop, hpack, hpack']
    rfl
  case case9 initial hpack replaceWith hpack' ih =>
    simp only [List.length_cons] at hfuel hmallocs
    have hne : m.mallocs ≠ [] := by
      rintro hnil
      simp [hnil] at hmallocs
    obtain ⟨m', t', hadd, h', herase, hgrows, huses⟩ :=
      h.addEntry initial replaceWith hsize hne
    rw [hroot] at herase
    simp only [loadLoop, hpack, hpack', hadd]
    exact ih h' herase (by omega) (by omega) (by omega)
  case case10 a tail hother =>
    rw [loadLoop]
    · cases packIP behind a with
      | none => rfl
      | some initial => exact h.agrees hroot hsize false
    · exact hother
  case case11 hother hother' =>
    rw [loadLoop]
    · exact h.agrees hroot hsize false
    · exact hother
    · exact hother'

/-- The memory when the map is loaded: `malloc` does not hand out what is in use,
and has a node for every token. -/
structure ForLoading (m : BtreeMem) (tokens : List YamlToken) : Prop where
  nodup : m.mallocs.Nodup
  unused : ∀ a ∈ m.mallocs, m.heap a = none
  enough : tokens.length ≤ m.mallocs.length

theorem ForLoading.agrees {tokens : List YamlToken}
    (h : ForLoading m tokens) (hfuel : tokens.length < fuel) :
    Agrees m.heap fuel (AddrswapReplay.loadSubstituteAddrMap behind tokens)
      (loadSubstituteAddrMap behind fuel m tokens) := by
  have hempty : Represents m.heap { m with root := none } .nil := by
    refine ⟨rfl, trivial, List.nodup_nil, fun _ _ => rfl, fun a ha => ?_,
      h.nodup, h.unused⟩
    simp [PlacedTree.addresses] at ha
  have hroom : PlacedTree.size (.nil : NodeTree) + tokens.length < fuel := by
    rwa [PlacedTree.size, Nat.zero_add]
  exact loadLoop_agrees hempty rfl hroom h.enough

/-- The loader and every `search_addr_map` behind it do on the nodes in memory
what they do on the tree. -/
theorem loadSubstituteAddrMap_refines {tokens : List YamlToken}
    (h : ForLoading m tokens) (hfuel : tokens.length < fuel) :
    match AddrswapReplay.loadSubstituteAddrMap behind tokens with
    | none => loadSubstituteAddrMap behind fuel m tokens = none
    | some loaded => ∃ m', loadSubstituteAddrMap behind fuel m tokens =
          some (loaded.ok, m') ∧
        ∀ val, searchAddrMap fuel m' val =
          some (AddrswapReplay.searchAddrMap loaded.root val) := by
  have hagrees : Agrees m.heap fuel
      (AddrswapReplay.loadSubstituteAddrMap behind tokens) _ := h.agrees hfuel
  cases hload : AddrswapReplay.loadSubstituteAddrMap behind tokens with
  | none =>
      rw [hload] at hagrees
      exact hagrees
  | some loaded =>
      rw [hload] at hagrees
      obtain ⟨m', t, heq, hm', herase, hsize⟩ := hagrees
      refine ⟨m', heq, fun val => ?_⟩
      obtain ⟨found, hfound, hdata, hsearch⟩ :=
        search_spec val hm'.load hm'.inHeap hsize
      rw [herase] at hdata
      simp only [searchAddrMap, AddrswapReplay.searchAddrMap, hsearch, ← hdata,
        Option.bind_eq_bind, Option.bind_some]
      cases found with
      | nil => rfl
      | node address n left right =>
          simp only [PlacedTree.ptr, hfound.1, Option.map_some, NodeTree.erase]

/-- `delete_addr_map` frees what the loader allocated, every node once, and
leaves `root` behind. -/
theorem deleteAddrMap_restores {tokens : List YamlToken} {ok : Bool}
    (h : ForLoading m tokens) (hfuel : tokens.length < fuel)
    (hload : loadSubstituteAddrMap behind fuel m tokens = some (ok, m')) :
    ∃ m'', deleteAddrMap fuel m' = some m'' ∧ m''.heap = m.heap ∧
      (m'.root ≠ none → ∀ val fuel, searchAddrMap fuel m'' val = none) := by
  have hagrees : Agrees m.heap fuel
      (AddrswapReplay.loadSubstituteAddrMap behind tokens) _ := h.agrees hfuel
  cases htree : AddrswapReplay.loadSubstituteAddrMap behind tokens with
  | none =>
      rw [htree] at hagrees
      have hnone : loadSubstituteAddrMap behind fuel m tokens = none := hagrees
      rw [hload] at hnone
      exact absurd hnone (Option.some_ne_none _)
  | some loaded =>
      rw [htree] at hagrees
      obtain ⟨_, t, heq, hm', -, hsize⟩ := hagrees
      rw [hload, Option.some.injEq, Prod.mk.injEq] at heq
      obtain ⟨-, rfl⟩ := heq
      have hdelete : deleteAddrMap fuel m' = some
          { m' with heap := PlacedTree.clear m'.heap t.addresses } := by
        have hfree := deltree_spec hm'.inHeap hm'.separate hsize
        rwa [← hm'.root] at hfree
      refine ⟨_, hdelete, ?_, ?_⟩
      · funext a
        by_cases ha : a ∈ t.addresses
        · exact (PlacedTree.clear_of_mem ha).trans (hm'.own a ha).symm
        · exact (PlacedTree.clear_of_notMem ha).trans (hm'.rest a ha)
      · intro hroot val fuel'
        cases t with
        | nil => exact absurd hm'.root hroot
        | node address n left right =>
            have hfreed : PlacedTree.clear m'.heap
                (PlacedTree.node address n left right).addresses address =
                  none :=
              PlacedTree.clear_of_mem List.mem_cons_self
            cases fuel' with
            | zero => rfl
            | succ fuel' =>
                have hptr : m'.root = some address := hm'.root
                simp only [searchAddrMap, search, BtreeMem.load, hptr, hfreed,
                  Option.bind_eq_bind, Option.bind_some, Option.bind_none]

/-- Two entries, and a third one for an address that is there. -/
def threeEntries : List YamlToken :=
  [.streamStart, .blockMappingStart,
    .key, .scalar "10.0.0.1".toList, .value, .scalar "1.1.1.1".toList,
    .key, .scalar "10.0.0.0".toList, .value, .scalar "2.2.2.2".toList,
    .key, .scalar "10.0.0.1".toList, .value, .scalar "3.3.3.3".toList,
    .blockEnd, .streamEnd]

/-- A memory with one node of somebody else. -/
def someMemory : BtreeMem :=
  ⟨none, fun a => if a = 5 then some ⟨⟨0, 0⟩, none, none⟩ else none,
    List.range' 6 16⟩

theorem forLoading_threeEntries : ForLoading someMemory threeEntries := by
  refine ⟨List.nodup_range', fun a ha => ?_, by decide⟩
  have hle : 6 ≤ a := (List.mem_range'_1.mp ha).1
  exact if_neg (by omega)

theorem loadSubstituteAddrMap_refines_three :
    (AddrswapReplay.loadSubstituteAddrMap [] threeEntries).map Loaded.ok =
      some true ∧
    match AddrswapReplay.loadSubstituteAddrMap [] threeEntries with
    | none => loadSubstituteAddrMap [] 20 someMemory threeEntries = none
    | some loaded => ∃ m',
        loadSubstituteAddrMap [] 20 someMemory threeEntries =
          some (loaded.ok, m') ∧
        ∀ val, searchAddrMap 20 m' val =
          some (AddrswapReplay.searchAddrMap loaded.root val) :=
  ⟨by decide, loadSubstituteAddrMap_refines forLoading_threeEntries (by decide)⟩

theorem deleteAddrMap_restores_three : ∃ m' m'' : BtreeMem,
    loadSubstituteAddrMap [] 20 someMemory threeEntries = some (true, m') ∧
      searchAddrMap 20 m' 0x0100000a = some 0x01010101 ∧
      deleteAddrMap 20 m' = some m'' ∧ m''.heap = someMemory.heap ∧
      (m'.root ≠ none → ∀ val fuel, searchAddrMap fuel m'' val = none) := by
  have hload : (loadSubstituteAddrMap [] 20 someMemory threeEntries).bind
      (fun result => (searchAddrMap 20 result.2 0x0100000a).map
        fun data => (result.1, data)) = some (true, 0x01010101) := by
    decide
  simp only [Option.bind_eq_some_iff, Option.map_eq_some_iff,
    Prod.mk.injEq] at hload
  obtain ⟨⟨ok, m'⟩, hload, data, hsearch, rfl, rfl⟩ := hload
  obtain ⟨m'', hdelete, hrestores⟩ :=
    deleteAddrMap_restores forLoading_threeEntries (by decide) hload
  exact ⟨m', m'', hload, hsearch, hdelete, hrestores⟩

end BtreeMem

end AddrswapReplay

end NtapiExamples
