/-
`btree.c` with its pointers: the nodes that `insert` allocates, that `search`
walks through and that `deltree` frees.
-/
import NtapiExamples.Lib.HeapTree
import NtapiExamples.AddrswapReplay.SubstParse

namespace NtapiExamples

namespace AddrswapReplay

structure KeyData where
  key : BitVec 32
  data : BitVec 32
deriving DecidableEq

/-- `struct bin_tree`. -/
abbrev BinNode := HeapNode Nat KeyData

/-- `root`, the nodes that are allocated, and what `malloc` answers to the calls
to come; behind the last answer it has no more memory. -/
structure BtreeMem where
  root : Option Nat
  heap : Nat → Option BinNode
  mallocs : List Nat

/-- A `node **`: `&root`, or the field of a node. -/
inductive NodeRef where
  | root
  | left (node : Nat)
  | right (node : Nat)

namespace BtreeMem

/-- `*tree`; `none` when the field is not in allocated memory. -/
def load (m : BtreeMem) : NodeRef → Option (Option Nat)
  | .root => some m.root
  | .left node => (m.heap node).map HeapNode.left
  | .right node => (m.heap node).map HeapNode.right

def write (m : BtreeMem) (node : Nat) (value : BinNode) : BtreeMem :=
  { m with heap := Function.update m.heap node (some value) }

/-- `*tree = ptr`. -/
def store (m : BtreeMem) (ptr : Option Nat) : NodeRef → Option BtreeMem
  | .root => some { m with root := ptr }
  | .left node => (m.heap node).map fun n => m.write node { n with left := ptr }
  | .right node =>
      (m.heap node).map fun n => m.write node { n with right := ptr }

/-- `insert`; a null pointer from `malloc` is written through. -/
def insert (key data : BitVec 32) : Nat → BtreeMem → NodeRef → Option BtreeMem
  | 0, _, _ => none
  | fuel + 1, m, tree => do
      match ← m.load tree with
      | none =>
          match m.mallocs with
          | [] => none
          | temp :: mallocs =>
              ({ m with mallocs := mallocs }.write temp
                ⟨⟨key, data⟩, none, none⟩).store (some temp) tree
      | some node => do
          let n ← m.heap node
          if key.slt n.payload.key then insert key data fuel m (.left node)
          else if n.payload.key.slt key then
            insert key data fuel m (.right node)
          else some m

/-- `search`. -/
def search (val : BitVec 32) : Nat → BtreeMem → NodeRef → Option (Option Nat)
  | 0, _, _ => none
  | fuel + 1, m, tree => do
      match ← m.load tree with
      | none => some none
      | some node => do
          let n ← m.heap node
          if val.slt n.payload.key then search val fuel m (.left node)
          else if n.payload.key.slt val then search val fuel m (.right node)
          else if val = n.payload.key then some (some node)
          else some none

/-- `free`, of a node that is allocated. -/
def free (m : BtreeMem) (node : Nat) : Option BtreeMem :=
  (m.heap node).map fun _ =>
    { m with heap := PlacedTree.clear m.heap [node] }

/-- `deltree`. -/
def deltree : Nat → BtreeMem → Option Nat → Option BtreeMem
  | 0, _, _ => none
  | _ + 1, m, none => some m
  | fuel + 1, m, some node => do
      let m ← deltree fuel m (← m.heap node).left
      let m ← deltree fuel m (← m.heap node).right
      m.free node

/-- An entry of the file. -/
def addEntry (fuel : Nat) (m : BtreeMem) (initial replaceWith : BitVec 32) :
    Option BtreeMem := do
  match ← m.search initial fuel .root with
  | none => m.insert initial replaceWith fuel .root
  | some _ => some m

/-- The loop over the tokens. -/
def loadLoop (behind : Text) (fuel : Nat) :
    BtreeMem → List YamlToken → Option (Bool × BtreeMem)
  | m, [] => some (false, m)
  | m, .none :: _ => some (false, m)
  | m, .streamStart :: rest => loadLoop behind fuel m rest
  | m, .blockMappingStart :: rest => loadLoop behind fuel m rest
  | m, .blockEnd :: rest => loadLoop behind fuel m rest
  | m, .streamEnd :: _ => some (true, m)
  | m, .key :: .scalar a :: .value :: .scalar b :: rest =>
      match packIP behind a with
      | none => none
      | some initial =>
          match packIP behind b with
          | none => none
          | some replaceWith =>
              match m.addEntry fuel initial replaceWith with
              | none => none
              | some m => loadLoop behind fuel m rest
  | m, .key :: .scalar a :: _ => (packIP behind a).map fun _ => (false, m)
  | m, .key :: _ => some (false, m)
  | m, .value :: rest => loadLoop behind fuel m rest
  | m, .scalar _ :: rest => loadLoop behind fuel m rest
  | m, .other :: rest => loadLoop behind fuel m rest

/-- `load_substitute_addr_map`. -/
def loadSubstituteAddrMap (behind : Text) (fuel : Nat) (m : BtreeMem)
    (tokens : List YamlToken) : Option (Bool × BtreeMem) :=
  loadLoop behind fuel { m with root := none } tokens

/-- `search_addr_map`. -/
def searchAddrMap (fuel : Nat) (m : BtreeMem) (val : BitVec 32) :
    Option (BitVec 32) := do
  match ← m.search val fuel .root with
  | some node => (m.heap node).map fun n => n.payload.data
  | none => some (-1)

/-- `delete_addr_map`. -/
def deleteAddrMap (fuel : Nat) (m : BtreeMem) : Option BtreeMem :=
  m.deltree fuel m.root

end BtreeMem

end AddrswapReplay

end NtapiExamples
