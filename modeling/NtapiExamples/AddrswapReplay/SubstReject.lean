/-
Malformed entries of the substitution file.  `PackIP` works on a copy of 33
characters, the last of which it never sets, and checks neither its searches for
a dot nor its numbers.
-/
import NtapiExamples.Lib.TextArray
import NtapiExamples.AddrswapReplay.SubstParse

namespace NtapiExamples

namespace AddrswapReplay

open Text

/-- `temp` of `PackIP` after `strncpy`, `last` being what was in its last
character. -/
def tempOf (last : Char) (address : Text) : Text :=
  address.cstr.take 32 ++
    (List.replicate (32 - address.cstr.length) '\x00' ++ [last])

/-- `PackIP` on its copy: an error when a search has failed and its result is
written to, or when the end of the copy is passed. -/
def packIPIn (last : Char) (address : Text) :
    Except ReadError (BitVec 32) := do
  let (byte0, rest) ← strchrIn '.' (tempOf last address)
  let (byte1, rest) ← strchrIn '.' rest
  let (byte2, byte3) ← strchrIn '.' rest
  if strtolEnds byte3 then
    .ok (octet byte0 + (octet byte1 <<< 8) + (octet byte2 <<< 16) +
      (octet byte3 <<< 24))
  else .error .pastEnd

/-- What `load_substitute_addr_map` has done: its calls of `PackIP`, `root`, and
the key and value texts of the entries it has added. -/
structure Loading where
  calls : Nat
  root : Tree
  added : List (Text × Text)

/-- The two numbers of an entry, once they are packed. -/
def Loading.enter (l : Loading) (a b : Text) (initial replaceWith : BitVec 32) :
    Loading :=
  match l.root.search initial with
  | .nil => ⟨l.calls + 2, l.root.insert initial replaceWith, l.added ++ [(a, b)]⟩
  | .node .. => { l with calls := l.calls + 2 }

/-- The loop over the tokens, `last` being what the calls of `PackIP` find in
their copies in turn. -/
def loadIn (last : Nat → Char) : Loading → List YamlToken →
    Except ReadError (Bool × Loading)
  | l, [] => .ok (false, l)
  | l, .none :: _ => .ok (false, l)
  | l, .streamStart :: rest => loadIn last l rest
  | l, .blockMappingStart :: rest => loadIn last l rest
  | l, .blockEnd :: rest => loadIn last l rest
  | l, .streamEnd :: _ => .ok (true, l)
  | l, .key :: .scalar a :: .value :: .scalar b :: rest =>
      match packIPIn (last l.calls) a with
      | .error e => .error e
      | .ok initial =>
          match packIPIn (last (l.calls + 1)) b with
          | .error e => .error e
          | .ok replaceWith => loadIn last (l.enter a b initial replaceWith) rest
  | l, .key :: .scalar a :: _ =>
      (packIPIn (last l.calls) a).map fun _ =>
        (false, { l with calls := l.calls + 1 })
  | l, .key :: _ => .ok (false, l)
  | l, .value :: rest => loadIn last l rest
  | l, .scalar _ :: rest => loadIn last l rest
  | l, .other :: rest => loadIn last l rest

/-- Four decimal numbers from 0 to 255 with dots between them. -/
def IsAddress (s : Text) : Prop :=
  ∃ n0 n1 n2 n3, s = n0 ++ '.' :: (n1 ++ '.' :: (n2 ++ '.' :: n3)) ∧
    ∀ n ∈ [n0, n1, n2, n3], n ≠ [] ∧ (∀ c ∈ n, isDigit c) ∧ number 10 n ≤ 255

/-- Whatever the copies hold, the file is loaded without an error of `PackIP`,
and no entry is added that is not made of two addresses. -/
def RejectsMalformed (tokens : List YamlToken) : Prop :=
  ∀ last : Nat → Char, ∃ ok l, loadIn last ⟨0, .nil, []⟩ tokens = .ok (ok, l) ∧
    ∀ entry ∈ l.added, IsAddress entry.1 ∧ IsAddress entry.2

/-- Three dots among the first 32 characters of a scalar, and behind them, if it
has 32 or more, one of these that ends the last number. -/
def Readable (s : Text) : Prop :=
  ∃ s0 s1 s2 s3, s.cstr.take 32 = s0 ++ '.' :: (s1 ++ '.' :: (s2 ++ '.' :: s3)) ∧
    '.' ∉ s0 ∧ '.' ∉ s1 ∧ '.' ∉ s2 ∧ (32 ≤ s.cstr.length → strtolEnds s3)

/-- What the loop hands to `PackIP`: an entry, or a key without a value. -/
inductive PackCall
  | entry (a b : Text)
  | keyOnly (a : Text)

def PackCall.scalars : PackCall → List Text
  | .entry a b => [a, b]
  | .keyOnly a => [a]

/-- The scalars in the places of keys and values, up to the end of the file or
the first key without a value. -/
def packCalls : List YamlToken → List PackCall
  | [] => []
  | .none :: _ => []
  | .streamStart :: rest => packCalls rest
  | .blockMappingStart :: rest => packCalls rest
  | .blockEnd :: rest => packCalls rest
  | .streamEnd :: _ => []
  | .key :: .scalar a :: .value :: .scalar b :: rest =>
      .entry a b :: packCalls rest
  | .key :: .scalar a :: _ => [.keyOnly a]
  | .key :: _ => []
  | .value :: rest => packCalls rest
  | .scalar _ :: rest => packCalls rest
  | .other :: rest => packCalls rest

/-- The key of an entry reads as the same word as the key of another one. -/
def sameKey (a : Text) : PackCall → Prop
  | .entry a' _ => packIP [] a' = packIP [] a
  | .keyOnly _ => False

/-- An entry of the calls with a key that none has before it, not even the
calls `before`. -/
def FirstEntry (before calls : List PackCall) (a b : Text) : Prop :=
  ∃ pre post, calls = pre ++ .entry a b :: post ∧
    ∀ call ∈ before ++ pre, ¬ sameKey a call

/-- Every key and every value is readable, and the first entry for each key is
made of two addresses. -/
structure WellFormed (calls : List PackCall) : Prop where
  readable : ∀ call ∈ calls, ∀ s ∈ call.scalars, Readable s
  addresses : ∀ a b, FirstEntry [] calls a b → IsAddress a ∧ IsAddress b

/-- The four numbers of `PackIP` as one word. -/
def packOctets (s0 s1 s2 s3 : Text) : BitVec 32 :=
  octet s0 + (octet s1 <<< 8) + (octet s2 <<< 16) + (octet s3 <<< 24)

theorem octet_append {s : Text} (hends : strtolEnds s) (t : Text) :
    octet (s ++ t) = octet s := by
  rw [octet, octet, strtol_append hends]

theorem cstr_noTerminator (s : Text) : '\x00' ∉ s.cstr := by
  intro hmem
  have hkept := List.mem_takeWhile_imp hmem
  simp at hkept

/-- The terminator stands for nothing in a number. -/
theorem octet_terminated {s : Text} (hs : '\x00' ∉ s) (t : Text) :
    octet (s ++ '\x00' :: t) = octet s := by
  rw [octet, octet, strtol, strtol, cstr_terminated hs, cstr_eq_self hs]

section Scalars

variable {s s0 s1 s2 s3 tail : Text} {last : Char}

theorem packIPIn_of_split (htemp : tempOf last s =
      s0 ++ '.' :: (s1 ++ '.' :: (s2 ++ '.' :: s3)))
    (hdots : '.' ∉ s0 ∧ '.' ∉ s1 ∧ '.' ∉ s2)
    (hterm : '\x00' ∉ s0 ∧ '\x00' ∉ s1 ∧ '\x00' ∉ s2) :
    packIPIn last s =
      if strtolEnds s3 then .ok (packOctets s0 s1 s2 s3) else .error .pastEnd := by
  have h0 := strchrIn_append hdots.1 hterm.1 (s1 ++ '.' :: (s2 ++ '.' :: s3))
  have h1 := strchrIn_append hdots.2.1 hterm.2.1 (s2 ++ '.' :: s3)
  have h2 := strchrIn_append hdots.2.2 hterm.2.2 s3
  rw [packIPIn, htemp, h0]
  simp only [bind, Except.bind]
  rw [h1]
  simp only
  rw [h2]
  rfl

theorem packIP_of_split {behind : Text} (hcopy : copyAddress behind s =
      s0 ++ '.' :: (s1 ++ '.' :: (s2 ++ '.' :: s3)))
    (hdots : '.' ∉ s0 ∧ '.' ∉ s1 ∧ '.' ∉ s2) :
    packIP behind s = some (packOctets s0 s1 s2 s3) := by
  simp only [packIP, hcopy, strchr_append hdots.1, strchr_append hdots.2.1,
    strchr_append hdots.2.2, Option.bind_eq_bind, Option.bind_some]
  rfl

/-- Fewer than 32 characters are padded with terminators. -/
theorem tempOf_short (hshort : s.cstr.length < 32) (last : Char) :
    ∃ pad, tempOf last s = s.cstr.take 32 ++ '\x00' :: pad := by
  obtain ⟨n, hn⟩ := Nat.exists_eq_add_of_lt hshort
  refine ⟨List.replicate n '\x00' ++ [last], ?_⟩
  rw [tempOf, hn, show s.cstr.length + n + 1 - s.cstr.length = n + 1 by omega,
    List.replicate_succ, List.cons_append]

/-- 32 characters or more leave only the character that was not set. -/
theorem tempOf_long (hlong : 32 ≤ s.cstr.length) (last : Char) :
    tempOf last s = s.cstr.take 32 ++ [last] := by
  rw [tempOf, Nat.sub_eq_zero_of_le hlong, List.replicate_zero, List.nil_append]

/-- With a terminator behind the copy there is one behind the characters. -/
theorem tempOf_terminated (s : Text) :
    ∃ pad, tempOf '\x00' s = s.cstr.take 32 ++ '\x00' :: pad := by
  by_cases hshort : s.cstr.length < 32
  · exact tempOf_short hshort '\x00'
  · exact ⟨[], tempOf_long (Nat.le_of_not_lt hshort) '\x00'⟩

theorem take_noTerminator (s : Text) : '\x00' ∉ s.cstr.take 32 :=
  fun hmem => cstr_noTerminator s (List.mem_of_mem_take hmem)

/-- A scalar is read whatever the copy holds, and its value does not depend on
it. -/
theorem Readable.packs (hread : Readable s) :
    ∃ v, (∀ last, packIPIn last s = .ok v) ∧
      ∀ behind, packIP behind s = some v := by
  obtain ⟨s0, s1, s2, s3, htake, h0, h1, h2, hends⟩ := hread
  have hnone := take_noTerminator s
  rw [htake] at hnone
  simp only [List.mem_append, List.mem_cons, not_or] at hnone
  obtain ⟨ht0, _, ht1, _, ht2, _, ht3⟩ := hnone
  have hsplit : ∀ tail, s.cstr.take 32 ++ tail =
      s0 ++ '.' :: (s1 ++ '.' :: (s2 ++ '.' :: (s3 ++ tail))) := by
    intro tail
    rw [htake]
    simp
  refine ⟨packOctets s0 s1 s2 s3, fun last => ?_, fun behind => ?_⟩
  · by_cases hshort : s.cstr.length < 32
    · obtain ⟨pad, hpad⟩ := tempOf_short hshort last
      rw [hsplit] at hpad
      rw [packIPIn_of_split hpad ⟨h0, h1, h2⟩ ⟨ht0, ht1, ht2⟩,
        if_pos (strtolEnds_of_terminated (by simp)), packOctets, packOctets,
        octet_terminated ht3]
    · have hlong := Nat.le_of_not_lt hshort
      have htemp := tempOf_long hlong last
      rw [hsplit] at htemp
      rw [packIPIn_of_split htemp ⟨h0, h1, h2⟩ ⟨ht0, ht1, ht2⟩,
        if_pos (strtolEnds_append (hends hlong) [last]), packOctets, packOctets,
        octet_append (hends hlong)]
  · by_cases hshort : s.cstr.length < 32
    · have hcopy : copyAddress behind s = s.cstr.take 32 ++ [] := by
        rw [copyAddress, if_pos hshort, List.append_nil,
          List.take_of_length_le (Nat.le_of_lt hshort)]
      rw [hsplit, List.append_nil] at hcopy
      exact packIP_of_split hcopy ⟨h0, h1, h2⟩
    · have hlong := Nat.le_of_not_lt hshort
      have hcopy : copyAddress behind s = s.cstr.take 32 ++ behind.cstr := by
        rw [copyAddress, if_neg hshort]
      rw [hsplit] at hcopy
      rw [packIP_of_split hcopy ⟨h0, h1, h2⟩, packOctets, packOctets,
        octet_append (hends hlong)]

/-- A successful `PackIP` has found its dots. -/
theorem strchrIn_of_packIPIn {v : BitVec 32} (hpack : packIPIn last s = .ok v) :
    ∃ s0 r0 s1 r1 s2 s3, strchrIn '.' (tempOf last s) = .ok (s0, r0) ∧
      strchrIn '.' r0 = .ok (s1, r1) ∧ strchrIn '.' r1 = .ok (s2, s3) ∧
      strtolEnds s3 := by
  rw [packIPIn] at hpack
  cases hfirst : strchrIn '.' (tempOf last s) with
  | error e =>
      rw [hfirst] at hpack
      cases hpack
  | ok first =>
      rw [hfirst] at hpack
      simp only [bind, Except.bind] at hpack
      cases hsecond : strchrIn '.' first.2 with
      | error e => simp [hsecond] at hpack
      | ok second =>
          simp only [hsecond] at hpack
          cases hthird : strchrIn '.' second.2 with
          | error e => simp [hthird] at hpack
          | ok third =>
              simp only [hthird] at hpack
              split at hpack
              case isTrue hends =>
                exact ⟨first.1, first.2, second.1, second.2, third.1, third.2,
                  rfl, hsecond, hthird, hends⟩
              case isFalse => cases hpack

/-- A scalar that is read whatever the copy holds is readable. -/
theorem readable_of_packs (hpacks : ∀ last, ∃ v, packIPIn last s = .ok v) :
    Readable s := by
  have hnone := take_noTerminator s
  -- With a terminator in the copy the dots are among the 32 characters.
  obtain ⟨v, hpack⟩ := hpacks '\x00'
  obtain ⟨s0, r0, s1, r1, s2, r2, hfirst, hsecond, hthird, _⟩ :=
    strchrIn_of_packIPIn hpack
  obtain ⟨pad, hpad⟩ := tempOf_terminated s
  rw [hpad] at hfirst
  have hdot : '.' ≠ '\x00' := by decide
  obtain ⟨t0, htake, rfl⟩ := strchrIn_terminated hdot hnone hfirst
  rw [htake] at hnone
  simp only [List.mem_append, List.mem_cons, not_or] at hnone
  obtain ⟨t1, rfl, rfl⟩ := strchrIn_terminated hdot hnone.2.2 hsecond
  simp only [List.mem_append, List.mem_cons, not_or] at hnone
  obtain ⟨s3, rfl, rfl⟩ := strchrIn_terminated hdot hnone.2.2.2.2 hthird
  simp only [List.mem_append, List.mem_cons, not_or] at hnone
  obtain ⟨ht0, _, ht1, _, ht2, _, ht3⟩ := hnone
  have h0 := (eq_of_strchrIn hfirst).2
  have h1 := (eq_of_strchrIn hsecond).2
  have h2 := (eq_of_strchrIn hthird).2
  refine ⟨s0, s1, s2, s3, htake, h0, h1, h2, fun hlong => ?_⟩
  -- With a digit in it the last number has to end before.
  obtain ⟨v', hpack'⟩ := hpacks '0'
  have htemp : tempOf '0' s =
      s0 ++ '.' :: (s1 ++ '.' :: (s2 ++ '.' :: (s3 ++ ['0']))) := by
    rw [tempOf_long hlong, htake]
    simp
  rw [packIPIn_of_split htemp ⟨h0, h1, h2⟩ ⟨ht0, ht1, ht2⟩] at hpack'
  split at hpack'
  case isTrue hends => exact strtolEnds_digit hends
  case isFalse => cases hpack'

end Scalars

/-- The loop as the calls of `PackIP` it makes. -/
def loadCalls (last : Nat → Char) : Loading → List PackCall →
    Except ReadError Loading
  | l, [] => .ok l
  | l, .entry a b :: calls =>
      match packIPIn (last l.calls) a with
      | .error e => .error e
      | .ok initial =>
          match packIPIn (last (l.calls + 1)) b with
          | .error e => .error e
          | .ok replaceWith => loadCalls last (l.enter a b initial replaceWith) calls
  | l, .keyOnly a :: calls =>
      match packIPIn (last l.calls) a with
      | .error e => .error e
      | .ok _ => loadCalls last { l with calls := l.calls + 1 } calls

/-- The tokens matter only by the calls they lead to and by the way the loop
ends. -/
theorem loadIn_eq (tokens : List YamlToken) :
    ∃ ok, ∀ last l, loadIn last l tokens =
      (loadCalls last l (packCalls tokens)).map fun l => (ok, l) := by
  fun_induction packCalls tokens with
  | case1 => exact ⟨false, fun _ _ => rfl⟩
  | case2 => exact ⟨false, fun _ _ => rfl⟩
  | case3 rest ih => exact ih
  | case4 rest ih => exact ih
  | case5 rest ih => exact ih
  | case6 => exact ⟨true, fun _ _ => rfl⟩
  | case7 a b rest ih =>
      obtain ⟨ok, ih⟩ := ih
      refine ⟨ok, fun last l => ?_⟩
      rw [loadIn, loadCalls]
      cases packIPIn (last l.calls) a with
      | error e => rfl
      | ok initial =>
          cases packIPIn (last (l.calls + 1)) b with
          | error e => rfl
          | ok replaceWith => exact ih last _
  | case8 a rest hno =>
      refine ⟨false, fun last l => ?_⟩
      rw [loadIn, loadCalls]
      · cases packIPIn (last l.calls) a <;> rfl
      · exact hno
  | case9 rest hentry hkey =>
      refine ⟨false, fun last l => ?_⟩
      rw [loadIn]
      · rfl
      · exact hentry
      · exact hkey
  | case10 rest ih => exact ih
  | case11 a rest ih => exact ih
  | case12 rest ih => exact ih

theorem Loading.enter_root (l : Loading) (a b : Text)
    (initial replaceWith : BitVec 32) :
    (l.enter a b initial replaceWith).root =
      addEntry l.root initial replaceWith := by
  unfold Loading.enter addEntry
  cases l.root.search initial <;> rfl

/-- An entry is added when its key is not in the tree. -/
theorem Loading.enter_added (l : Loading) (a b : Text)
    (initial replaceWith : BitVec 32) :
    (l.enter a b initial replaceWith).added =
      l.added ++ if l.root.lookup initial = none then [(a, b)] else [] := by
  unfold Loading.enter Tree.lookup
  split
  · rename_i hsearch
    rw [hsearch]
    rfl
  · rename_i hsearch
    rw [hsearch]
    simp [Tree.data?]

/-- The tree has the keys of these calls. -/
def HasKeys (root : Tree) (calls : List PackCall) : Prop :=
  ∀ a v, packIP [] a = some v →
    (root.lookup v = none ↔ ∀ call ∈ calls, ¬ sameKey a call)

theorem HasKeys.entry {root : Tree} {before : List PackCall}
    (hkeys : HasKeys root before) {a : Text} {initial : BitVec 32}
    (hinitial : packIP [] a = some initial) (b : Text)
    (replaceWith : BitVec 32) :
    HasKeys (addEntry root initial replaceWith) (before ++ [.entry a b]) := by
  intro a' v hv
  rw [lookup_addEntry]
  simp only [List.mem_append, List.mem_singleton]
  have hold := hkeys a' v hv
  have hsame : sameKey a' (.entry a b) ↔ v = initial := by
    rw [sameKey, hinitial, hv, Option.some.injEq]
    exact eq_comm
  rw [Option.or_eq_none_iff, hold]
  constructor
  · rintro ⟨hbefore, hnew⟩ call (hcall | rfl)
    · exact hbefore call hcall
    · rw [hsame]
      rintro rfl
      simp at hnew
  · intro hall
    refine ⟨fun call hcall => hall call (Or.inl hcall), ?_⟩
    have hne := hall (.entry a b) (Or.inr rfl)
    rw [hsame] at hne
    rw [if_neg hne]

theorem HasKeys.keyOnly {root : Tree} {before : List PackCall}
    (hkeys : HasKeys root before) (a : Text) :
    HasKeys root (before ++ [.keyOnly a]) := by
  intro a' v hv
  rw [hkeys a' v hv]
  simp only [List.mem_append, List.mem_singleton]
  constructor
  · rintro hbefore call (hcall | rfl)
    · exact hbefore call hcall
    · exact id
  · exact fun hall call hcall => hall call (Or.inl hcall)

theorem firstEntry_cons {before calls : List PackCall} {call : PackCall}
    {a b : Text} :
    FirstEntry before (call :: calls) a b ↔
      (call = .entry a b ∧ ∀ other ∈ before, ¬ sameKey a other) ∨
        FirstEntry (before ++ [call]) calls a b := by
  constructor
  · rintro ⟨pre, post, hsplit, hnew⟩
    cases pre with
    | nil =>
        rw [List.append_nil] at hnew
        exact Or.inl ⟨(List.cons.inj hsplit).1, hnew⟩
    | cons first pre =>
        obtain ⟨rfl, hrest⟩ := List.cons.inj hsplit
        refine Or.inr ⟨pre, post, hrest, ?_⟩
        rwa [List.append_assoc, List.singleton_append]
  · rintro (⟨rfl, hnew⟩ | ⟨pre, post, rfl, hnew⟩)
    · exact ⟨[], calls, rfl, by rwa [List.append_nil]⟩
    · refine ⟨call :: pre, post, rfl, ?_⟩
      rwa [List.append_assoc, List.singleton_append] at hnew

/-- With readable scalars the loop gets to its end, and what it adds are the
first entries for their keys. -/
theorem loadCalls_added (last : Nat → Char) {calls : List PackCall}
    (hread : ∀ call ∈ calls, ∀ s ∈ call.scalars, Readable s) {l : Loading}
    {before : List PackCall} (hkeys : HasKeys l.root before) :
    ∃ l', loadCalls last l calls = .ok l' ∧ ∀ a b, (a, b) ∈ l'.added ↔
      (a, b) ∈ l.added ∨ FirstEntry before calls a b := by
  induction calls generalizing l before with
  | nil => exact ⟨l, rfl, fun a b => by simp [FirstEntry]⟩
  | cons call calls ih =>
      have hrest : ∀ call ∈ calls, ∀ s ∈ call.scalars, Readable s :=
        fun call hcall => hread call (List.mem_cons_of_mem _ hcall)
      have hhead := hread call List.mem_cons_self
      cases call with
      | entry a b =>
          simp only [PackCall.scalars, List.forall_mem_cons] at hhead
          obtain ⟨initial, hinitial, hvalue⟩ := hhead.1.packs
          obtain ⟨replaceWith, hreplace, _⟩ := hhead.2.1.packs
          have hnext := hkeys.entry (hvalue []) b replaceWith
          rw [← Loading.enter_root l a b] at hnext
          obtain ⟨l', hload, hadded⟩ := ih hrest hnext
          refine ⟨l', ?_, fun a' b' => ?_⟩
          · rw [loadCalls, hinitial, hreplace]
            exact hload
          · have hfresh : l.root.lookup initial = none ↔
                ∀ other ∈ before, ¬ sameKey a other := hkeys a initial (hvalue [])
            rw [hadded, Loading.enter_added, List.mem_append, or_assoc,
              firstEntry_cons]
            apply or_congr_right
            apply or_congr_left
            rw [PackCall.entry.injEq]
            by_cases hnone : l.root.lookup initial = none
            · rw [if_pos hnone, List.mem_singleton, Prod.mk.injEq]
              constructor
              · rintro ⟨rfl, rfl⟩
                exact ⟨⟨rfl, rfl⟩, hfresh.mp hnone⟩
              · rintro ⟨⟨rfl, rfl⟩, _⟩
                exact ⟨rfl, rfl⟩
            · rw [if_neg hnone]
              constructor
              · intro hmem
                cases hmem
              · rintro ⟨⟨rfl, rfl⟩, hall⟩
                exact absurd (hfresh.mpr hall) hnone
      | keyOnly a =>
          simp only [PackCall.scalars, List.forall_mem_cons] at hhead
          obtain ⟨initial, hinitial, _⟩ := hhead.1.packs
          obtain ⟨l', hload, hadded⟩ :=
            @ih hrest { l with calls := l.calls + 1 } _ (hkeys.keyOnly a)
          refine ⟨l', ?_, fun a' b' => ?_⟩
          · rw [loadCalls, hinitial]
            exact hload
          · rw [hadded, firstEntry_cons]
            simp

/-- What goes on only after a scalar that is read shows that it is readable. -/
theorem readable_of_bind {α : Type} {s : Text}
    (hread : ∀ last, ∃ (next : BitVec 32 → Except ReadError α) (r : α),
      (match packIPIn last s with
        | .error e => (.error e : Except ReadError α)
        | .ok v => next v) = .ok r) : Readable s := by
  apply readable_of_packs
  intro last
  obtain ⟨next, r, hr⟩ := hread last
  cases hpack : packIPIn last s with
  | error e =>
      rw [hpack] at hr
      cases hr
  | ok v => exact ⟨v, rfl⟩

/-- A loop that gets to its end whatever the copies hold has met no scalar that
is not readable. -/
theorem readable_of_loadCalls {calls : List PackCall} {l : Loading}
    (hload : ∀ last, ∃ l', loadCalls last l calls = .ok l') :
    ∀ call ∈ calls, ∀ s ∈ call.scalars, Readable s := by
  induction calls generalizing l with
  | nil => simp
  | cons call calls ih =>
      cases call with
      | entry a b =>
          have ha : Readable a := readable_of_bind fun c => by
            obtain ⟨l', hc⟩ := hload fun _ => c
            rw [loadCalls] at hc
            exact ⟨_, _, hc⟩
          obtain ⟨initial, hinitial, _⟩ := ha.packs
          have hb : Readable b := readable_of_bind fun c => by
            obtain ⟨l', hc⟩ := hload fun _ => c
            rw [loadCalls, hinitial] at hc
            exact ⟨_, _, hc⟩
          obtain ⟨replaceWith, hreplace, _⟩ := hb.packs
          have hrest := @ih (l.enter a b initial replaceWith) fun last => by
            obtain ⟨l', hc⟩ := hload last
            rw [loadCalls, hinitial, hreplace] at hc
            exact ⟨l', hc⟩
          rw [List.forall_mem_cons]
          exact ⟨by simp [PackCall.scalars, ha, hb], hrest⟩
      | keyOnly a =>
          have ha : Readable a := readable_of_bind fun c => by
            obtain ⟨l', hc⟩ := hload fun _ => c
            rw [loadCalls] at hc
            exact ⟨_, _, hc⟩
          obtain ⟨initial, hinitial, _⟩ := ha.packs
          have hrest := @ih { l with calls := l.calls + 1 } fun last => by
            obtain ⟨l', hc⟩ := hload last
            rw [loadCalls, hinitial] at hc
            exact ⟨l', hc⟩
          rw [List.forall_mem_cons]
          exact ⟨by simp [PackCall.scalars, ha], hrest⟩

/-- `10.0.0: 10.0.0.1`. -/
def twoDots : List YamlToken :=
  [.streamStart, .blockMappingStart, .key, .scalar "10.0.0".toList, .value,
    .scalar "10.0.0.1".toList, .blockEnd, .streamEnd]

/-- The third dot of `10.0.0` is not found, and a null pointer is written to. -/
theorem twoDots_not_rejected : ¬ RejectsMalformed twoDots := by
  intro hall
  obtain ⟨ok, l, hload, _⟩ := hall fun _ => '\x00'
  have herror : packIPIn '\x00' "10.0.0".toList = .error .notFound := by decide
  simp only [twoDots, loadIn, herror] at hload
  cases hload

/-- A file is loaded without an error of `PackIP`, and without an entry that is
none, exactly when its scalars are readable and the first entry for each key is
made of addresses. -/
theorem rejectsMalformed_iff (tokens : List YamlToken) :
    RejectsMalformed tokens ↔ WellFormed (packCalls tokens) := by
  obtain ⟨ok, hload⟩ := loadIn_eq tokens
  have hkeys : HasKeys Tree.nil [] := fun a v _ => by simp
  constructor
  · intro hall
    have hread : ∀ call ∈ packCalls tokens, ∀ s ∈ call.scalars, Readable s := by
      apply @readable_of_loadCalls _ ⟨0, .nil, []⟩
      intro last
      obtain ⟨_, l, hl, _⟩ := hall last
      rw [hload] at hl
      cases hc : loadCalls last ⟨0, .nil, []⟩ (packCalls tokens) with
      | error e => simp [hc, Except.map] at hl
      | ok l' => exact ⟨l', rfl⟩
    refine ⟨hread, fun a b hfirst => ?_⟩
    obtain ⟨_, l, hl, haddresses⟩ := hall fun _ => '\x00'
    obtain ⟨l', hl', hadded⟩ :=
      @loadCalls_added (fun _ => '\x00') _ hread ⟨0, .nil, []⟩ [] hkeys
    rw [hload, hl'] at hl
    cases hl
    exact haddresses (a, b) ((hadded a b).mpr (Or.inr hfirst))
  · intro hform last
    obtain ⟨l', hl', hadded⟩ :=
      @loadCalls_added last _ hform.readable ⟨0, .nil, []⟩ [] hkeys
    refine ⟨ok, l', by rw [hload, hl']; rfl, fun entry hentry => ?_⟩
    have hmem := (hadded entry.1 entry.2).mp hentry
    rcases hmem with hmem | hfirst
    · cases hmem
    · exact hform.addresses entry.1 entry.2 hfirst

end AddrswapReplay

end NtapiExamples
