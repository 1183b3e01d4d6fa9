/-
`subst_parse.c`: the substitution file, as the tokens libyaml scans from it, is
loaded into the tree of the addresses to replace.
-/
import NtapiExamples.Lib.Text
import NtapiExamples.AddrswapReplay.Btree

namespace NtapiExamples

namespace AddrswapReplay

/-- `temp` of `PackIP` after `strncpy`; `behind` is what the array and the stack
hold behind its 32 characters, up to a terminator. -/
def copyAddress (behind address : Text) : Text :=
  if address.cstr.length < 32 then address.cstr
  else address.cstr.take 32 ++ behind.cstr

/-- An octet as `PackIP` adds it: a `short` in an `int`. -/
def octet (s : Text) : BitVec 32 :=
  (BitVec.ofInt 16 (Text.strtol s)).signExtend 32

/-- `PackIP`; `none` when a dot is missing and a null pointer is written to. -/
def packIP (behind address : Text) : Option (BitVec 32) := do
  let (byte0, rest) ← Text.strchr '.' (copyAddress behind address)
  let (byte1, rest) ← Text.strchr '.' rest
  let (byte2, byte3) ← Text.strchr '.' rest
  some (octet byte0 + (octet byte1 <<< 8) + (octet byte2 <<< 16) +
    (octet byte3 <<< 24))

/-- The tokens of libyaml that `load_substitute_addr_map` tells apart. -/
inductive YamlToken where
  | none
  | streamStart
  | streamEnd
  | blockMappingStart
  | blockEnd
  | key
  | value
  | scalar (text : Text)
  | other

/-- What a call of `load_substitute_addr_map` gives: its result and `root`. -/
structure Loaded where
  ok : Bool
  root : Tree

/-- The key and the value of an entry go into the tree, unless the key is there
already. -/
def addEntry (root : Tree) (initial replaceWith : BitVec 32) : Tree :=
  match root.search initial with
  | .nil => root.insert initial replaceWith
  | .node .. => root

/-- The loop over the tokens.  Behind the last one the parser delivers tokens of
type 0. -/
def loadLoop (behind : Text) : Tree → List YamlToken → Option Loaded
  | root, [] => some ⟨false, root⟩
  | root, .none :: _ => some ⟨false, root⟩
  | root, .streamStart :: rest => loadLoop behind root rest
  | root, .blockMappingStart :: rest => loadLoop behind root rest
  | root, .blockEnd :: rest => loadLoop behind root rest
  | root, .streamEnd :: _ => some ⟨true, root⟩
  | root, .key :: .scalar a :: .value :: .scalar b :: rest =>
      match packIP behind a with
      | none => none
      | some initial =>
          match packIP behind b with
          | none => none
          | some replaceWith =>
              loadLoop behind (addEntry root initial replaceWith) rest
  | root, .key :: .scalar a :: _ =>
      (packIP behind a).map fun _ => ⟨false, root⟩
  | root, .key :: _ => some ⟨false, root⟩
  | root, .value :: rest => loadLoop behind root rest
  | root, .scalar _ :: rest => loadLoop behind root rest
  | root, .other :: rest => loadLoop behind root rest

/-- `load_substitute_addr_map`. -/
def loadSubstituteAddrMap (behind : Text) (tokens : List YamlToken) :
    Option Loaded :=
  loadLoop behind .nil tokens

/-- `search_addr_map`, with its `int` result. -/
def searchAddrMap (root : Tree) (val : BitVec 32) : BitVec 32 :=
  match root.search val with
  | .node _ data _ _ => data
  | .nil => -1

theorem searchAddrMap_eq (root : Tree) (val : BitVec 32) :
    searchAddrMap root val = (root.lookup val).getD (-1) := by
  unfold searchAddrMap Tree.lookup
  cases root.search val <;> rfl

/-- The octets of an address, first to last. -/
structure Quad where
  o0 : BitVec 8
  o1 : BitVec 8
  o2 : BitVec 8
  o3 : BitVec 8
deriving DecidableEq

/-- The address as it lies in a little-endian word. -/
def Quad.word (q : Quad) : BitVec 32 := q.o3 ++ q.o2 ++ q.o1 ++ q.o0

/-- One to three digits with the value of the octet. -/
structure IsOctet (s : Text) (o : BitVec 8) : Prop where
  ne : s ≠ []
  short : s.length ≤ 3
  digits : ∀ c ∈ s, Text.isDigit c
  value : Text.number 10 s = o.toNat

theorem isOctet_iff {s : Text} {o : BitVec 8} : IsOctet s o ↔
    s ≠ [] ∧ s.length ≤ 3 ∧ (s.all fun c => decide (Text.isDigit c)) = true ∧
      Text.number 10 s = o.toNat := by
  rw [List.all_eq_true]
  simp only [decide_eq_true_eq]
  exact ⟨fun h => ⟨h.ne, h.short, h.digits, h.value⟩,
    fun h => ⟨h.1, h.2.1, h.2.2.1, h.2.2.2⟩⟩

instance (s : Text) (o : BitVec 8) : Decidable (IsOctet s o) :=
  decidable_of_iff _ isOctet_iff.symm

/-- `a.b.c.d` with four octets. -/
def IsQuad (s : Text) (q : Quad) : Prop :=
  ∃ s0 s1 s2 s3, s = s0 ++ '.' :: (s1 ++ '.' :: (s2 ++ '.' :: s3)) ∧
    IsOctet s0 q.o0 ∧ IsOctet s1 q.o1 ∧ IsOctet s2 q.o2 ∧ IsOctet s3 q.o3

theorem Quad.toNat_word (q : Quad) :
    q.word.toNat = q.o0.toNat + q.o1.toNat * 2 ^ 8 + q.o2.toNat * 2 ^ 16 +
      q.o3.toNat * 2 ^ 24 := by
  have h0 := q.o0.isLt
  have h1 := q.o1.isLt
  have h2 := q.o2.isLt
  have h3 := q.o3.isLt
  simp only [Quad.word, BitVec.toNat_append]
  rw [← Nat.shiftLeft_add_eq_or_of_lt h2, ← Nat.shiftLeft_add_eq_or_of_lt h1,
    ← Nat.shiftLeft_add_eq_or_of_lt h0]
  simp only [Nat.shiftLeft_eq]
  omega

theorem Quad.word_injective {q q' : Quad} (h : q.word = q'.word) : q = q' := by
  have hnat := congrArg BitVec.toNat h
  rw [Quad.toNat_word, Quad.toNat_word] at hnat
  have h0 := q.o0.isLt
  have h1 := q.o1.isLt
  have h2 := q.o2.isLt
  have h0' := q'.o0.isLt
  have h1' := q'.o1.isLt
  have h2' := q'.o2.isLt
  obtain ⟨a, b, c, d⟩ := q
  obtain ⟨a', b', c', d'⟩ := q'
  simp only at hnat h0 h1 h2 h0' h1' h2'
  have ha : a = a' := BitVec.eq_of_toNat_eq (by omega)
  have hb : b = b' := BitVec.eq_of_toNat_eq (by omega)
  have hc : c = c' := BitVec.eq_of_toNat_eq (by omega)
  have hd : d = d' := BitVec.eq_of_toNat_eq (by omega)
  rw [ha, hb, hc, hd]

/-- The word is a negative `int` when the last octet has its highest bit set. -/
theorem Quad.slt_zero_word (q : Quad) :
    q.word.slt 0 = decide (128 ≤ q.o3.toNat) := by
  have h0 := q.o0.isLt
  have h1 := q.o1.isLt
  have h2 := q.o2.isLt
  rw [Bool.eq_iff_iff, decide_eq_true_eq, BitVec.slt_iff_toInt_lt,
    BitVec.toInt_eq_toNat_cond, Quad.toNat_word]
  have hzero : (0 : BitVec 32).toInt = 0 := rfl
  rw [hzero]
  have h3 := q.o3.isLt
  split <;> omega

theorem toNat_octet {s : Text} {o : BitVec 8} (hs : IsOctet s o) :
    (octet s).toNat = o.toNat := by
  have hlt := o.isLt
  have hvalue := hs.value
  rw [octet, Text.strtol_of_digits hs.ne hs.digits (by omega), hvalue]
  have hofInt : BitVec.ofInt 16 (o.toNat : Int) = o.setWidth 16 := by
    apply BitVec.eq_of_toNat_eq
    rw [BitVec.ofInt_natCast, BitVec.toNat_ofNat, BitVec.toNat_setWidth]
  have hmsb : (o.setWidth 16).msb = false := by
    rw [BitVec.msb_eq_decide, BitVec.toNat_setWidth]
    simp
    omega
  rw [hofInt, BitVec.signExtend_eq_setWidth_of_msb_false hmsb,
    BitVec.toNat_setWidth, BitVec.toNat_setWidth]
  omega

/-- `PackIP` on a dotted quad. -/
theorem packIP_of_isQuad (behind : Text) {s : Text} {q : Quad}
    (hs : IsQuad s q) : packIP behind s = some q.word := by
  obtain ⟨s0, s1, s2, s3, rfl, h0, h1, h2, h3⟩ := hs
  have hdot : ∀ {s : Text} {o}, IsOctet s o → '.' ∉ s := fun h hmem =>
    absurd (h.digits _ hmem) (by decide)
  have hcstr : Text.cstr (s0 ++ '.' :: (s1 ++ '.' :: (s2 ++ '.' :: s3))) =
      s0 ++ '.' :: (s1 ++ '.' :: (s2 ++ '.' :: s3)) := by
    apply Text.cstr_eq_self
    have hzero : ∀ {s : Text} {o}, IsOctet s o → '\x00' ∉ s := fun h hmem =>
      absurd (h.digits _ hmem) (by decide)
    simp [hzero h0, hzero h1, hzero h2, hzero h3]
  have hcopy : copyAddress behind
      (s0 ++ '.' :: (s1 ++ '.' :: (s2 ++ '.' :: s3))) =
        s0 ++ '.' :: (s1 ++ '.' :: (s2 ++ '.' :: s3)) := by
    rw [copyAddress, hcstr, if_pos]
    have hl0 := h0.short
    have hl1 := h1.short
    have hl2 := h2.short
    have hl3 := h3.short
    simp only [List.length_append, List.length_cons]
    omega
  simp only [packIP, hcopy, Text.strchr_append (hdot h0),
    Text.strchr_append (hdot h1), Text.strchr_append (hdot h2),
    Option.bind_eq_bind, Option.bind_some, Option.some.injEq]
  apply BitVec.eq_of_toNat_eq
  have hb0 := q.o0.isLt
  have hb1 := q.o1.isLt
  have hb2 := q.o2.isLt
  have hb3 := q.o3.isLt
  rw [Quad.toNat_word]
  simp only [BitVec.toNat_add, BitVec.toNat_shiftLeft, toNat_octet h0,
    toNat_octet h1, toNat_octet h2, toNat_octet h3, Nat.shiftLeft_eq]
  omega

/-- An entry `A: B` of the file. -/
structure SubstEntry where
  initialText : Text
  initial : Quad
  replaceText : Text
  replaceWith : Quad
  isInitial : IsQuad initialText initial
  isReplace : IsQuad replaceText replaceWith

def SubstEntry.tokens (e : SubstEntry) : List YamlToken :=
  [.key, .scalar e.initialText, .value, .scalar e.replaceText]

/-- The tokens of a file with a list of entries. -/
def fileTokens (entries : List SubstEntry) : List YamlToken :=
  if entries = [] then [.streamStart, .streamEnd]
  else
    [.streamStart, .blockMappingStart] ++ entries.flatMap SubstEntry.tokens ++
      [.blockEnd, .streamEnd]

/-- The replacement of the first entry for an address. -/
def firstEntry (entries : List SubstEntry) (q : Quad) : Option Quad :=
  (entries.find? fun e => e.initial = q).map SubstEntry.replaceWith

theorem lookup_addEntry (val initial replaceWith : BitVec 32) (root : Tree) :
    (addEntry root initial replaceWith).lookup val =
      (root.lookup val).or
        (if val = initial then some replaceWith else none) := by
  unfold addEntry
  split
  · exact Tree.lookup_insert val initial replaceWith root
  · rename_i hsearch
    by_cases hval : val = initial
    · rw [hval, Tree.lookup, hsearch]
      rfl
    · rw [if_neg hval, Option.or_none]

/-- The tree after the entries of a list. -/
def addEntries (root : Tree) (entries : List SubstEntry) : Tree :=
  entries.foldl
    (fun root e => addEntry root e.initial.word e.replaceWith.word) root

/-- The first entry for an address wins. -/
theorem lookup_addEntries (entries : List SubstEntry) (root : Tree)
    (q : Quad) :
    (addEntries root entries).lookup q.word =
      (root.lookup q.word).or ((firstEntry entries q).map Quad.word) := by
  induction entries generalizing root with
  | nil => simp [addEntries, firstEntry]
  | cons e entries ih =>
      have hstep : addEntries root (e :: entries) =
          addEntries (addEntry root e.initial.word e.replaceWith.word)
            entries := rfl
      rw [hstep, ih, lookup_addEntry, Option.or_assoc]
      congr 1
      by_cases hq : e.initial = q
      · simp [firstEntry, hq]
      · have hne : q.word ≠ e.initial.word := fun h =>
          hq (Quad.word_injective h).symm
        simp [firstEntry, hq, hne]

theorem loadLoop_entries (behind : Text) (entries : List SubstEntry)
    (root : Tree) (rest : List YamlToken) :
    loadLoop behind root (entries.flatMap SubstEntry.tokens ++ rest) =
      loadLoop behind (addEntries root entries) rest := by
  induction entries generalizing root with
  | nil => rfl
  | cons e entries ih =>
      simp only [List.flatMap_cons, SubstEntry.tokens, List.cons_append,
        List.nil_append, loadLoop, packIP_of_isQuad behind e.isInitial,
        packIP_of_isQuad behind e.isReplace]
      exact ih _

/-- A list of entries is loaded, and looking an address up finds its first
entry. -/
theorem load_fileTokens (behind : Text) (entries : List SubstEntry) :
    ∃ root, loadSubstituteAddrMap behind (fileTokens entries) =
        some ⟨true, root⟩ ∧
      ∀ q : Quad, root.lookup q.word =
        (firstEntry entries q).map Quad.word := by
  refine ⟨addEntries .nil entries, ?_, fun q => ?_⟩
  · unfold fileTokens
    split
    · rename_i hnil
      rw [hnil]
      rfl
    · simp only [List.cons_append, List.nil_append, loadSubstituteAddrMap,
        loadLoop, loadLoop_entries]
  · rw [lookup_addEntries, Tree.lookup_nil, Option.none_or]

end AddrswapReplay

end NtapiExamples
