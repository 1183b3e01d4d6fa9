/-
The lines of the filter file as the README describes them, and what `parse`
makes of each.
-/
import NtapiExamples.Lib.TextFind
import NtapiExamples.FilterDaemon.FileHandler
import NtapiExamples.FilterDaemon.NetMask

namespace NtapiExamples

namespace FilterDaemon

open Text

/-- The characters of IPv4 numbers, and of IPv6 addresses without dots. -/
def decimalChars : Text := "0123456789".toList

def ipv6Chars : Text := "0123456789abcdefABCDEF:".toList

/-- Four decimal numbers with dots between them. -/
structure IPv4Form (text : Text) : Prop where
  split : ∃ a b c d : Text,
    text = a ++ '.' :: (b ++ '.' :: (c ++ '.' :: d)) ∧
    ∀ number ∈ [a, b, c, d], number ≠ [] ∧ ∀ x ∈ number, x ∈ decimalChars

/-- The digits of numbers, checked on a list of characters. -/
def areNumbers (numbers : List Text) : Bool :=
  numbers.all fun number =>
    !number.isEmpty && number.all fun x => decide (x ∈ decimalChars)

theorem areNumbers.forall {numbers : List Text}
    (hnumbers : areNumbers numbers = true) :
    ∀ number ∈ numbers, number ≠ [] ∧ ∀ x ∈ number, x ∈ decimalChars := by
  intro number hmem
  have hnumber := List.all_eq_true.mp hnumbers number hmem
  rw [Bool.and_eq_true, List.all_eq_true] at hnumber
  constructor
  · rintro rfl
    cases hnumber.1
  · intro x hx
    exact of_decide_eq_true (hnumber.2 x hx)

/-- Hexadecimal digits and colons, one colon at least. -/
structure IPv6Form (text : Text) : Prop where
  colon : ':' ∈ text
  chars : ∀ x ∈ text, x ∈ ipv6Chars

/-- An address of the file with its version. -/
structure Address where
  version : IPVersion
  text : Text
  form : version = .ipv4 ∧ IPv4Form text ∨ version = .ipv6 ∧ IPv6Form text

/-- The number of bits of an address. -/
def addressBits : IPVersion → Nat
  | .ipv4 => 32
  | .ipv6 => 128
  | .unknown => 0

/-- White space between the parts of a line. -/
structure Blanks where
  text : Text
  blank : text.all isBlank = true

/-- A keyword in some letter case, and the white space behind it. -/
structure Keyword (word : Text) where
  spelling : Text
  cased : spelling.map Char.toLower = word
  gap : Blanks
  spaced : gap.text ≠ []

/-- The keywords in front of an address. -/
inductive Keywords
  | none
  | src (src : Keyword "src".toList)
  | dst (dst : Keyword "dst".toList)
  | srcDst (src : Keyword "src".toList) (dst : Keyword "dst".toList)
  | dstSrc (dst : Keyword "dst".toList) (src : Keyword "src".toList)

def Keyword.text {word : Text} (k : Keyword word) : Text :=
  k.spelling ++ k.gap.text

def Keywords.text : Keywords → Text
  | .none => []
  | .src k => k.text
  | .dst k => k.text
  | .srcDst k l => k.text ++ l.text
  | .dstSrc k l => k.text ++ l.text

/-- What the keywords ask for: source, destination, both if none is there. -/
def Keywords.flags : Keywords → Bool × Bool
  | .none => (true, true)
  | .src _ => (true, false)
  | .dst _ => (false, true)
  | .srcDst _ _ => (true, true)
  | .dstSrc _ _ => (true, true)

/-- What may follow the first address. -/
inductive Tail (version : IPVersion)
  | none
  | range (before after : Blanks) (second : Address)
  | subnet (before after : Blanks) (bits : Nat)
      (fits : bits ≤ addressBits version)

def Tail.text {version : IPVersion} : Tail version → Text
  | .none => []
  | .range before after second =>
      before.text ++ ("..".toList ++ (after.text ++ second.text))
  | .subnet before after bits _ =>
      before.text ++ ("/".toList ++ (after.text ++ Nat.toDigits 10 bits))

/-- A line of the file. -/
structure FilterLine where
  lead : Blanks
  keywords : Keywords
  address : Address
  tail : Tail address.version
  trail : Blanks
  comment : Option Text

/-- The line without its comment. -/
def FilterLine.body (line : FilterLine) : Text :=
  line.lead.text ++ (line.keywords.text ++ (line.address.text ++
    (line.tail.text ++ line.trail.text)))

def FilterLine.text (line : FilterLine) : Text :=
  line.body ++
    match line.comment with
    | none => []
    | some comment => '#' :: comment

/-- The mask with its first `bits` bits set, in hexadecimal. -/
def maskHex (bits : Nat) : IPVersion → Text
  | .ipv4 => ['.'].intercalate ((List.range 4).map fun k =>
      hex2 (maskByte bits k))
  | .ipv6 => [':'].intercalate ((List.range 8).map fun k =>
      hex2 (maskByte bits (2 * k)) ++ hex2 (maskByte bits (2 * k + 1)))
  | .unknown => []

def Tail.netMask {version : IPVersion} : Tail version → Text
  | .subnet _ _ bits _ => maskHex bits version
  | _ => []

def Tail.rangeAddr {version : IPVersion} : Tail version → Text
  | .range _ _ second => second.text.map Char.toLower
  | _ => []

/-- The address a line stands for. -/
def FilterLine.meaning (line : FilterLine) : IPAddress :=
  { src := line.keywords.flags.1
    dst := line.keywords.flags.2
    addr := line.address.text.map Char.toLower
    ver := line.address.version
    ntplId := 0
    netMask := line.tail.netMask
    rangeAddr := line.tail.rangeAddr }

/-- The characters of addresses and of what follows them. -/
def restChars : Text := ' ' :: '\t' :: '/' :: '.' :: ipv6Chars

/-- A character check on a list of characters. -/
theorem forall_of_all (check : Char → Bool) {chars : Text}
    (hall : chars.all check = true) {c : Char} (hc : c ∈ chars) :
    check c = true :=
  List.all_eq_true.mp hall c hc

theorem Blanks.mem {blanks : Blanks} {c : Char} (hc : c ∈ blanks.text) :
    c = ' ' ∨ c = '\t' := by
  have hblank := forall_of_all isBlank blanks.blank hc
  simpa [isBlank] using hblank

theorem Blanks.notMem (blanks : Blanks) {c : Char} (hc : isBlank c = false) :
    c ∉ blanks.text := by
  intro hmem
  rw [forall_of_all isBlank blanks.blank hmem] at hc
  cases hc

/-- White space has no letter case. -/
theorem Blanks.lower (blanks : Blanks) :
    blanks.text.map Char.toLower = blanks.text := by
  have hlower : ∀ c ∈ blanks.text, c.toLower = id c := by
    intro c hc
    rcases blanks.mem hc with rfl | rfl <;> rfl
  rw [List.map_congr_left hlower, List.map_id]

theorem Blanks.lower_append (blanks : Blanks) (s : Text) :
    (blanks.text ++ s).map Char.toLower =
      blanks.text ++ s.map Char.toLower := by
  rw [List.map_append, blanks.lower]

theorem Blanks.squeeze_append (blanks : Blanks) (s : Text) :
    squeeze (blanks.text ++ s) = squeeze s := by
  rw [Text.squeeze_append, squeeze_blank blanks.blank, List.nil_append]

theorem Address.mem_chars (a : Address) {c : Char} (hc : c ∈ a.text) :
    c ∈ '.' :: ipv6Chars := by
  rcases a.form with ⟨_, hform⟩ | ⟨_, hform⟩
  · obtain ⟨n₁, n₂, n₃, n₄, htext, hnumbers⟩ := hform.split
    have hsub : ∀ x ∈ decimalChars, x ∈ '.' :: ipv6Chars := by
      intro x hx
      exact of_decide_eq_true (forall_of_all
        (fun x => decide (x ∈ '.' :: ipv6Chars)) (by decide) hx)
    rw [htext] at hc
    simp only [List.mem_append, List.mem_cons] at hc
    rcases hc with hc | rfl | hc | rfl | hc | rfl | hc
    · exact hsub c ((hnumbers n₁ (by simp)).2 c hc)
    · exact List.mem_cons_self
    · exact hsub c ((hnumbers n₂ (by simp)).2 c hc)
    · exact List.mem_cons_self
    · exact hsub c ((hnumbers n₃ (by simp)).2 c hc)
    · exact List.mem_cons_self
    · exact hsub c ((hnumbers n₄ (by simp)).2 c hc)
  · exact List.mem_cons_of_mem '.' (hform.chars c hc)

theorem Address.notMem (a : Address) {c : Char} (hc : c ∉ '.' :: ipv6Chars) :
    c ∉ a.text :=
  fun hmem => hc (a.mem_chars hmem)

theorem toLower_decimal {c : Char} (hc : c ∈ decimalChars) :
    c.toLower = c :=
  of_decide_eq_true (forall_of_all
    (fun c => decide (c.toLower = c)) (by decide) hc)

theorem toLower_ipv6 {c : Char} (hc : c ∈ ipv6Chars) :
    c.toLower ∈ ipv6Chars :=
  of_decide_eq_true (forall_of_all
    (fun c => decide (c.toLower ∈ ipv6Chars)) (by decide) hc)

theorem map_toLower_decimal {s : Text} (hs : ∀ c ∈ s, c ∈ decimalChars) :
    s.map Char.toLower = s := by
  have hlower : ∀ c ∈ s, c.toLower = id c := fun c hc => toLower_decimal (hs c hc)
  rw [List.map_congr_left hlower, List.map_id]

/-- Lower case leaves an IPv4 address as it is. -/
theorem IPv4Form.lower {text : Text} (hform : IPv4Form text) :
    text.map Char.toLower = text := by
  obtain ⟨a, b, c, d, rfl, hnumbers⟩ := hform.split
  have ha := map_toLower_decimal (hnumbers a (by simp)).2
  have hb := map_toLower_decimal (hnumbers b (by simp)).2
  have hc := map_toLower_decimal (hnumbers c (by simp)).2
  have hd := map_toLower_decimal (hnumbers d (by simp)).2
  have hdot : Char.toLower '.' = '.' := by decide
  simp only [List.map_append, List.map_cons, ha, hb, hc, hd, hdot]

theorem IPv6Form.lower {text : Text} (hform : IPv6Form text) :
    IPv6Form (text.map Char.toLower) where
  colon := List.mem_map.mpr ⟨':', hform.colon, by decide⟩
  chars := by
    intro c hc
    obtain ⟨x, hx, rfl⟩ := List.mem_map.mp hc
    exact toLower_ipv6 (hform.chars x hx)

/-- The address in lower case. -/
def Address.lower (a : Address) : Address where
  version := a.version
  text := a.text.map Char.toLower
  form := by
    rcases a.form with ⟨hversion, hform⟩ | ⟨hversion, hform⟩
    · exact Or.inl ⟨hversion, hform.lower.symm ▸ hform⟩
    · exact Or.inr ⟨hversion, hform.lower⟩

theorem Address.squeeze_text (a : Address) : squeeze a.text = a.text := by
  apply squeeze_eq_self
  rw [List.all_eq_true]
  intro c hc
  exact forall_of_all (fun c => !isBlank c) (by decide)
    (a.mem_chars hc)

theorem dot_notMem_number {number : Text}
    (hnumber : ∀ c ∈ number, c ∈ decimalChars) : '.' ∉ number :=
  fun hmem => absurd (hnumber '.' hmem) (by decide)

/-- The search for a range skips a number and the dot in front of it. -/
theorem find_doubleDot_number {number : Text} (hne : number ≠ [])
    (hnumber : ∀ c ∈ number, c ∈ decimalChars) (rest : Text) :
    find ['.', '.'] ('.' :: (number ++ rest)) =
      (find ['.', '.'] rest).map (· + ('.' :: number).length) := by
  obtain ⟨c, tail, rfl⟩ := List.exists_cons_of_ne_nil hne
  have hdot := dot_notMem_number hnumber
  have hstarts : ¬ ['.', '.'] <+: '.' :: (c :: tail ++ rest) := by
    rw [List.cons_append, List.cons_prefix_cons, List.cons_prefix_cons]
    rintro ⟨_, rfl, _⟩
    exact hdot List.mem_cons_self
  rw [find_cons hstarts, find_append hdot, Option.map_map]
  rfl

/-- No address has two dots in a row, and none ends in a dot. -/
theorem Address.find_doubleDot (a : Address) (rest : Text) :
    find ['.', '.'] (a.text ++ rest) =
      (find ['.', '.'] rest).map (· + a.text.length) := by
  rcases a.form with ⟨_, hform⟩ | ⟨_, hform⟩
  · obtain ⟨n₁, n₂, n₃, n₄, htext, hnumbers⟩ := hform.split
    have h₁ := hnumbers n₁ (by simp)
    have h₂ := hnumbers n₂ (by simp)
    have h₃ := hnumbers n₃ (by simp)
    have h₄ := hnumbers n₄ (by simp)
    rw [htext]
    simp only [List.append_assoc, List.cons_append]
    rw [find_append (dot_notMem_number h₁.2), find_doubleDot_number h₂.1 h₂.2,
      find_doubleDot_number h₃.1 h₃.2, find_doubleDot_number h₄.1 h₄.2]
    simp only [Option.map_map]
    congr 1
    funext n
    simp only [Function.comp_apply, List.length_append, List.length_cons]
    omega
  · have hdot : '.' ∉ a.text := fun hmem =>
      absurd (hform.chars '.' hmem) (by decide)
    exact find_append hdot rest

/-- The characters of an address tell its version, also in front of more. -/
theorem Address.versionOf_append (a : Address) (ver : IPVersion) {rest : Text}
    (hdot : '.' ∉ rest) :
    IPAddress.versionOf ver (a.text ++ rest) = a.version := by
  unfold IPAddress.versionOf
  rcases a.form with ⟨hversion, hform⟩ | ⟨hversion, hform⟩
  · obtain ⟨n₁, n₂, n₃, n₄, htext, _⟩ := hform.split
    have hfound : (find ['.'] (a.text ++ rest)).isSome = true := by
      rw [find_singleton_isSome, htext]
      simp
    rw [if_pos hfound, hversion]
  · have hnone : ¬ (find ['.'] (a.text ++ rest)).isSome = true := by
      rw [find_singleton_isSome, List.mem_append, not_or]
      exact ⟨fun hmem => absurd (hform.chars '.' hmem) (by decide), hdot⟩
    have hcolon : (find [':'] (a.text ++ rest)).isSome = true := by
      rw [find_singleton_isSome]
      exact List.mem_append_left rest hform.colon
    rw [if_neg hnone, if_pos hcolon, hversion]

theorem Address.versionOf (a : Address) (ver : IPVersion) :
    IPAddress.versionOf ver a.text = a.version := by
  have h := @Address.versionOf_append a ver [] (by simp)
  rwa [List.append_nil] at h

theorem Address.length_pos (a : Address) : 0 < a.text.length := by
  rw [List.length_pos_iff]
  intro hnil
  rcases a.form with ⟨_, hform⟩ | ⟨_, hform⟩
  · obtain ⟨n₁, n₂, n₃, n₄, htext, _⟩ := hform.split
    rw [hnil] at htext
    simp at htext
  · have hcolon := hform.colon
    rw [hnil] at hcolon
    cases hcolon

theorem takeKeyword_none {c : Char} {word s : Text} (hword : c ∈ word)
    (hs : c ∉ s) : IPAddress.takeKeyword word s = (false, s) := by
  rw [IPAddress.takeKeyword, find_eq_none hword hs]

/-- A keyword goes with the blank behind it. -/
theorem takeKeyword_found {word part rest : Text} {blank : Char}
    (hfind : find word (part ++ (word ++ blank :: rest)) = some part.length) :
    IPAddress.takeKeyword word (part ++ (word ++ blank :: rest)) =
      (true, part ++ rest) := by
  have herase := erase_append part (word ++ [blank]) rest
  rw [List.append_assoc, List.singleton_append, List.length_append,
    List.length_singleton] at herase
  rw [IPAddress.takeKeyword, hfind]
  simp only [herase]

/-- A keyword in lower case: the word, a blank and more of them. -/
theorem Keyword.lower {word : Text} (k : Keyword word) :
    ∃ (blank : Char) (gap : Blanks), isBlank blank = true ∧
      k.text.map Char.toLower = word ++ blank :: gap.text := by
  obtain ⟨blank, gap, hgap⟩ := List.exists_cons_of_ne_nil k.spaced
  have hblank := k.gap.blank
  rw [hgap, List.all_cons, Bool.and_eq_true] at hblank
  refine ⟨blank, ⟨gap, hblank.2⟩, hblank.1, ?_⟩
  rw [Keyword.text, List.map_append, k.cased, k.gap.lower, hgap]

/-- The search for `src` behind a `dst`. -/
theorem find_src_dst (part : Blanks) (blank : Char) (gap : Blanks)
    (hblank : isBlank blank = true) (rest : Text) :
    find "src".toList (part.text ++ ("dst".toList ++ blank :: (gap.text ++
      ("src".toList ++ rest)))) =
      some (part.text ++ ("dst".toList ++ blank :: gap.text)).length := by
  have hgap : 's' ∉ 't' :: blank :: gap.text := by
    have hne : 's' ≠ blank := by
      rintro rfl
      cases hblank
    simp only [List.mem_cons, not_or]
    exact ⟨by decide, hne, gap.notMem (by decide)⟩
  have hhead : 's' ∉ part.text ++ ['d'] := by
    rw [List.mem_append, not_or]
    exact ⟨part.notMem (by decide), by decide⟩
  have hskip : ¬ ['s', 'r', 'c'] <+:
      's' :: ('t' :: blank :: gap.text ++ (['s', 'r', 'c'] ++ rest)) := by
    simp
  have hsplit : part.text ++ ("dst".toList ++ blank :: (gap.text ++
        ("src".toList ++ rest))) =
      part.text ++ ['d'] ++ ('s' :: ('t' :: blank :: gap.text ++
        (['s', 'r', 'c'] ++ rest))) := by
    simp
  have hword : "src".toList = ['s', 'r', 'c'] := rfl
  rw [hsplit, hword, find_append hhead, find_cons hskip, find_append_self hgap]
  simp
  omega

/-- What `strip` does once the line is in lower case and its keywords have
been taken out. -/
theorem strip_eq {line lowered afterSrc afterDst : Text} {src dst : Bool}
    (hlower : line.map Char.toLower = lowered)
    (hsrc : IPAddress.takeKeyword "src".toList lowered = (src, afterSrc))
    (hdst : IPAddress.takeKeyword "dst".toList afterSrc = (dst, afterDst)) :
    IPAddress.strip line =
      { src := src || !dst, dst := dst || !src, rest := squeeze afterDst } := by
  simp only [IPAddress.strip, hlower, hsrc, hdst]
  rfl

/-- The keywords of a line, and the rest of it without blanks. -/
theorem strip_keywords (lead : Blanks) (keywords : Keywords) (rest : Text)
    (hs : 's' ∉ rest.map Char.toLower) (hr : 'r' ∉ rest.map Char.toLower) :
    IPAddress.strip (lead.text ++ (keywords.text ++ rest)) =
      { src := keywords.flags.1
        dst := keywords.flags.2
        rest := squeeze (rest.map Char.toLower) } := by
  have hsLead : 's' ∉ lead.text := lead.notMem (by decide)
  have hdLead : 'd' ∉ lead.text := lead.notMem (by decide)
  cases keywords with
  | none =>
      have hnone : 's' ∉ lead.text ++ rest.map Char.toLower := by
        simp [hsLead, hs]
      have hlower : (lead.text ++ (Keywords.none.text ++ rest)).map
          Char.toLower = lead.text ++ rest.map Char.toLower :=
        lead.lower_append rest
      rw [strip_eq hlower (takeKeyword_none (c := 's') (by decide) hnone)
        (takeKeyword_none (c := 's') (by decide) hnone), lead.squeeze_append]
      rfl
  | src k =>
      obtain ⟨blank, gap, _, hk⟩ := k.lower
      have hlower : (lead.text ++ ((Keywords.src k).text ++ rest)).map
          Char.toLower = lead.text ++ ("src".toList ++
            blank :: (gap.text ++ rest.map Char.toLower)) := by
        rw [Keywords.text, lead.lower_append, List.map_append, hk]
        simp
      have hnone : 's' ∉ lead.text ++ (gap.text ++ rest.map Char.toLower) := by
        have hgap : 's' ∉ gap.text := gap.notMem (by decide)
        simp [hsLead, hgap, hs]
      rw [strip_eq hlower (takeKeyword_found (find_append_self hsLead _))
        (takeKeyword_none (c := 's') (by decide) hnone),
        lead.squeeze_append, gap.squeeze_append]
      rfl
  | dst k =>
      obtain ⟨blank, gap, hblank, hk⟩ := k.lower
      have hlower : (lead.text ++ ((Keywords.dst k).text ++ rest)).map
          Char.toLower = lead.text ++ ("dst".toList ++
            blank :: (gap.text ++ rest.map Char.toLower)) := by
        rw [Keywords.text, lead.lower_append, List.map_append, hk]
        simp
      have hnone : 'r' ∉ lead.text ++ ("dst".toList ++
          blank :: (gap.text ++ rest.map Char.toLower)) := by
        have hrLead : 'r' ∉ lead.text := lead.notMem (by decide)
        have hgap : 'r' ∉ gap.text := gap.notMem (by decide)
        have hne : 'r' ≠ blank := by
          rintro rfl
          cases hblank
        simp [hrLead, hgap, hr, hne]
      rw [strip_eq hlower (takeKeyword_none (c := 'r') (by decide) hnone)
        (takeKeyword_found (find_append_self hdLead _)),
        lead.squeeze_append, gap.squeeze_append]
      rfl
  | srcDst k l =>
      obtain ⟨blank, gap, _, hk⟩ := k.lower
      obtain ⟨blank', gap', _, hl⟩ := l.lower
      have hlower : (lead.text ++ ((Keywords.srcDst k l).text ++ rest)).map
          Char.toLower = lead.text ++ ("src".toList ++ blank :: (gap.text ++
            ("dst".toList ++ blank' :: (gap'.text ++
              rest.map Char.toLower)))) := by
        rw [Keywords.text, lead.lower_append, List.map_append,
          List.map_append, hk, hl]
        simp
      have hpart : 'd' ∉ lead.text ++ gap.text := by
        have hgap : 'd' ∉ gap.text := gap.notMem (by decide)
        simp [hdLead, hgap]
      have hdst : IPAddress.takeKeyword "dst".toList (lead.text ++ (gap.text ++
          ("dst".toList ++ blank' :: (gap'.text ++ rest.map Char.toLower)))) =
          (true, lead.text ++ gap.text ++
            (gap'.text ++ rest.map Char.toLower)) := by
        rw [← List.append_assoc]
        exact takeKeyword_found (find_append_self hpart _)
      rw [strip_eq hlower (takeKeyword_found (find_append_self hsLead _)) hdst,
        List.append_assoc, lead.squeeze_append, gap.squeeze_append,
        gap'.squeeze_append]
      rfl
  | dstSrc k l =>
      obtain ⟨blank, gap, hblank, hk⟩ := k.lower
      obtain ⟨blank', gap', _, hl⟩ := l.lower
      have hlower : (lead.text ++ ((Keywords.dstSrc k l).text ++ rest)).map
          Char.toLower = (lead.text ++ ("dst".toList ++ blank :: gap.text)) ++
            ("src".toList ++ blank' :: (gap'.text ++
              rest.map Char.toLower)) := by
        rw [Keywords.text, lead.lower_append, List.map_append,
          List.map_append, hk, hl]
        simp
      have hfind := find_src_dst lead blank gap hblank
        (blank' :: (gap'.text ++ rest.map Char.toLower))
      have hassoc : ∀ s : Text,
          lead.text ++ ("dst".toList ++ blank :: gap.text) ++ s =
            lead.text ++ ("dst".toList ++ blank :: (gap.text ++ s)) := by
        simp
      have hsrc := takeKeyword_found ((hassoc _).symm ▸ hfind)
      have hdst : IPAddress.takeKeyword "dst".toList
          (lead.text ++ ("dst".toList ++ blank :: gap.text) ++
            (gap'.text ++ rest.map Char.toLower)) =
          (true, lead.text ++ (gap.text ++
            (gap'.text ++ rest.map Char.toLower))) := by
        rw [hassoc]
        exact takeKeyword_found (find_append_self hdLead _)
      rw [strip_eq hlower hsrc hdst, lead.squeeze_append,
        gap.squeeze_append, gap'.squeeze_append]
      rfl

/-- A decimal number without leading zeros is read back, for the lengths that
fit an address. -/
def readsBack (bits : Nat) : Bool :=
  (Nat.toDigits 10 bits).all (fun c => decide (c ∈ decimalChars)) &&
    decide ((strtoul (Nat.toDigits 10 bits)).toNat = bits)

theorem readsBack_of_le {bits : Nat} (hbits : bits ≤ 128) :
    readsBack bits = true := by
  have hall : (List.range 129).all readsBack = true := by decide +kernel
  exact List.all_eq_true.mp hall bits (List.mem_range.mpr (by omega))

theorem toDigits_chars {bits : Nat} (hbits : bits ≤ 128) {c : Char}
    (hc : c ∈ Nat.toDigits 10 bits) : c ∈ decimalChars := by
  have hback := readsBack_of_le hbits
  rw [readsBack, Bool.and_eq_true] at hback
  exact of_decide_eq_true (forall_of_all
    (fun c => decide (c ∈ decimalChars)) hback.1 hc)

theorem strtoul_toDigits {bits : Nat} (hbits : bits ≤ 128) :
    (strtoul (Nat.toDigits 10 bits)).toNat = bits := by
  have hback := readsBack_of_le hbits
  rw [readsBack, Bool.and_eq_true, decide_eq_true_eq] at hback
  exact hback.2

theorem addressBits_le (version : IPVersion) : addressBits version ≤ 128 := by
  cases version <;> decide

/-- The mask of `parse` is the mask in hexadecimal. -/
theorem maskText_eq (bits : Nat) (version : IPVersion) :
    IPAddress.maskText version (maskArray bits) = maskHex bits version := by
  cases version with
  | ipv4 =>
      simp (disch := decide) only [IPAddress.maskText, maskArray_getD]
      simp [maskHex, List.range_succ]
  | ipv6 =>
      simp (disch := decide) only [IPAddress.maskText, maskArray_getD]
      simp [maskHex, List.range_succ]
  | unknown => rfl

/-- What may stand behind the keywords. -/
theorem Tail.mem_chars {version : IPVersion} (tail : Tail version) {c : Char}
    (hc : c ∈ tail.text) : c ∈ restChars := by
  have hblank : ∀ (blanks : Blanks), c ∈ blanks.text → c ∈ restChars := by
    intro blanks hmem
    rcases blanks.mem hmem with rfl | rfl <;> simp [restChars]
  cases tail with
  | none => simp [Tail.text] at hc
  | range before after second =>
      simp only [Tail.text, List.mem_append] at hc
      rcases hc with hc | hc | hc | hc
      · exact hblank before hc
      · have hdot : c = '.' := by simpa using hc
        simp [hdot, restChars]
      · exact hblank after hc
      · have hmem := second.mem_chars hc
        exact List.mem_cons_of_mem _ (List.mem_cons_of_mem _
          (List.mem_cons_of_mem _ hmem))
  | subnet before after bits fits =>
      simp only [Tail.text, List.mem_append] at hc
      rcases hc with hc | hc | hc | hc
      · exact hblank before hc
      · have hslash : c = '/' := by simpa using hc
        simp [hslash, restChars]
      · exact hblank after hc
      · have hdigit := toDigits_chars (fits.trans (addressBits_le version)) hc
        exact of_decide_eq_true (forall_of_all
          (fun c => decide (c ∈ restChars)) (by decide) hdigit)

/-- The line behind its keywords. -/
def FilterLine.rest (line : FilterLine) : Text :=
  line.address.text ++ (line.tail.text ++ line.trail.text)

theorem FilterLine.rest_chars (line : FilterLine) {c : Char}
    (hc : c ∈ line.rest) : c ∈ restChars := by
  rw [FilterLine.rest, List.mem_append, List.mem_append] at hc
  rcases hc with hc | hc | hc
  · exact List.mem_cons_of_mem _ (List.mem_cons_of_mem _
      (List.mem_cons_of_mem _ (line.address.mem_chars hc)))
  · exact line.tail.mem_chars hc
  · rcases line.trail.mem hc with rfl | rfl <;> simp [restChars]

/-- In lower case too it has none of the letters of the keywords. -/
theorem FilterLine.lower_rest_chars (line : FilterLine) {c : Char}
    (hc : c ∈ line.rest.map Char.toLower) : c ∈ restChars := by
  obtain ⟨x, hx, rfl⟩ := List.mem_map.mp hc
  exact of_decide_eq_true (forall_of_all
    (fun x => decide (x.toLower ∈ restChars)) (by decide)
    (line.rest_chars hx))

theorem Keyword.notMem_hash {word : Text} (k : Keyword word)
    (hword : '#' ∉ word) : '#' ∉ k.text := by
  rw [Keyword.text, List.mem_append, not_or]
  constructor
  · intro hmem
    have hlower : Char.toLower '#' ∈ k.spelling.map Char.toLower :=
      List.mem_map_of_mem hmem
    rw [k.cased] at hlower
    exact hword hlower
  · exact k.gap.notMem (by decide)

theorem Keywords.notMem_hash (keywords : Keywords) : '#' ∉ keywords.text := by
  have hsrc : '#' ∉ "src".toList := by decide
  have hdst : '#' ∉ "dst".toList := by decide
  cases keywords with
  | none => simp [Keywords.text]
  | src k => exact k.notMem_hash hsrc
  | dst k => exact k.notMem_hash hdst
  | srcDst k l =>
      rw [Keywords.text, List.mem_append, not_or]
      exact ⟨k.notMem_hash hsrc, l.notMem_hash hdst⟩
  | dstSrc k l =>
      rw [Keywords.text, List.mem_append, not_or]
      exact ⟨k.notMem_hash hdst, l.notMem_hash hsrc⟩

/-- `readFile` takes the comment off. -/
theorem FilterLine.uncomment_text (line : FilterLine) :
    uncomment line.text = line.body := by
  have hbody : '#' ∉ line.body := by
    have hrest : '#' ∉ line.rest := fun hmem =>
      absurd (line.rest_chars hmem) (by decide)
    change '#' ∉ line.lead.text ++ (line.keywords.text ++ line.rest)
    rw [List.mem_append, List.mem_append, not_or, not_or]
    exact ⟨line.lead.notMem (by decide), line.keywords.notMem_hash, hrest⟩
  have hkeep : ∀ c ∈ line.body, decide (c ≠ '#') = true := by
    intro c hc
    rw [decide_eq_true_eq]
    rintro rfl
    exact hbody hc
  unfold uncomment FilterLine.text
  rw [List.takeWhile_append_of_pos hkeep]
  cases line.comment with
  | none => simp
  | some comment => simp

/-- What `parse` works on: the address in lower case, and what follows it
without blanks. -/
theorem FilterLine.strip_body (line : FilterLine) :
    IPAddress.strip line.body =
      { src := line.keywords.flags.1
        dst := line.keywords.flags.2
        rest := line.address.lower.text ++
          squeeze (line.tail.text.map Char.toLower) } := by
  have hs : 's' ∉ line.rest.map Char.toLower := fun hmem =>
    absurd (line.lower_rest_chars hmem) (by decide)
  have hr : 'r' ∉ line.rest.map Char.toLower := fun hmem =>
    absurd (line.lower_rest_chars hmem) (by decide)
  have hstrip := strip_keywords line.lead line.keywords line.rest hs hr
  change IPAddress.strip (line.lead.text ++ (line.keywords.text ++ line.rest)) = _
  rw [hstrip, FilterLine.rest, List.map_append, List.map_append,
    line.trail.lower, squeeze_append, squeeze_append,
    squeeze_blank line.trail.blank, List.append_nil]
  congr 2
  exact line.address.lower.squeeze_text

/-- What follows the address, without its blanks. -/
def Tail.squeezed {version : IPVersion} : Tail version → Text
  | .none => []
  | .range _ _ second => ['.', '.'] ++ second.lower.text
  | .subnet _ _ bits _ => '/' :: Nat.toDigits 10 bits

theorem Tail.squeeze_text {version : IPVersion} (tail : Tail version) :
    squeeze (tail.text.map Char.toLower) = tail.squeezed := by
  cases tail with
  | none => rfl
  | range before after second =>
      have hsecond := second.lower.squeeze_text
      rw [Tail.text, before.lower_append, before.squeeze_append,
        List.map_append, after.lower_append, squeeze_append,
        after.squeeze_append]
      exact congrArg _ hsecond
  | subnet before after bits fits =>
      have hchars : ∀ c ∈ Nat.toDigits 10 bits, c ∈ decimalChars := fun c hc =>
        toDigits_chars (fits.trans (addressBits_le version)) hc
      have hdigits : squeeze (Nat.toDigits 10 bits) = Nat.toDigits 10 bits := by
        apply squeeze_eq_self
        rw [List.all_eq_true]
        intro c hc
        exact forall_of_all (fun c => !isBlank c) (by decide)
          (hchars c hc)
      rw [Tail.text, before.lower_append, before.squeeze_append,
        List.map_append, after.lower_append, squeeze_append,
        after.squeeze_append, map_toLower_decimal hchars, hdigits]
      rfl

theorem takeSubnet_none {s : Text} (hs : '/' ∉ s) :
    IPAddress.takeSubnet s = (none, s) := by
  rw [IPAddress.takeSubnet, find_eq_none (c := '/') List.mem_cons_self hs]

theorem takeSubnet_slash {s : Text} (hs : '/' ∉ s) (digits : Text) :
    IPAddress.takeSubnet (s ++ '/' :: digits) =
      (some ((strtoul digits).setWidth 32), s) := by
  have hfind := @find_append_self '/' [] s hs digits
  rw [List.singleton_append] at hfind
  rw [IPAddress.takeSubnet, hfind]
  simp

/-- The address alone is no range. -/
theorem Address.takeRange (a : Address) :
    IPAddress.takeRange a.text = ([], a.text) := by
  have hfind := a.find_doubleDot []
  rw [List.append_nil] at hfind
  rw [IPAddress.takeRange, hfind]
  rfl

theorem Address.takeRange_second (a : Address) (second : Text) :
    IPAddress.takeRange (a.text ++ (['.', '.'] ++ second)) =
      (second, a.text) := by
  have hfind := a.find_doubleDot (['.', '.'] ++ second)
  rw [find_self (by decide)] at hfind
  rw [IPAddress.takeRange, hfind]
  simp

/-- The fields of a line whose parts have been told apart. -/
theorem parse_eq {line addr rangeAddr netMask s : Text}
    {stripped : IPAddress.Stripped} {bits : Option (BitVec 32)}
    (hstrip : IPAddress.strip line = stripped)
    (hsubnet : IPAddress.takeSubnet stripped.rest = (bits, s))
    (hrange : IPAddress.takeRange s = (rangeAddr, addr))
    (hmask : IPAddress.netMaskOf
      (IPAddress.versionOf .unknown stripped.rest) bits = some netMask) :
    IPAddress.parse line =
      some ({ src := stripped.src
              dst := stripped.dst
              addr := addr
              ver := IPAddress.versionOf
                (IPAddress.versionOf .unknown stripped.rest) addr
              ntplId := 0
              netMask := netMask
              rangeAddr := rangeAddr }, decide (0 < addr.length)) := by
  simp only [IPAddress.parse, hstrip, hsubnet, hrange, hmask]
  rfl

/-- Every line of the README's form is accepted and gives what it says. -/
theorem parse_filterLine (line : FilterLine) :
    IPAddress.parse (uncomment line.text) = some (line.meaning, true) := by
  have hstrip := line.strip_body
  rw [line.tail.squeeze_text] at hstrip
  rw [line.uncomment_text]
  have hslash : '/' ∉ line.address.lower.text :=
    line.address.lower.notMem (by decide)
  have hpos : decide (0 < line.address.lower.text.length) = true :=
    decide_eq_true line.address.lower.length_pos
  have hver : ∀ ver, IPAddress.versionOf ver line.address.lower.text =
      line.address.version := line.address.lower.versionOf
  cases htail : line.tail with
  | none =>
      rw [htail] at hstrip
      simp only [Tail.squeezed, List.append_nil] at hstrip
      rw [parse_eq hstrip (takeSubnet_none hslash)
        line.address.lower.takeRange rfl, hpos, hver]
      simp only [FilterLine.meaning, htail]
      rfl
  | range before after second =>
      rw [htail] at hstrip
      simp only [Tail.squeezed] at hstrip
      have hnone : '/' ∉ line.address.lower.text ++
          (['.', '.'] ++ second.lower.text) := by
        have hsecond : '/' ∉ second.lower.text :=
          second.lower.notMem (by decide)
        simp [hslash, hsecond]
      rw [parse_eq hstrip (takeSubnet_none hnone)
        (line.address.lower.takeRange_second _) rfl, hpos, hver]
      simp only [FilterLine.meaning, htail]
      rfl
  | subnet before after bits fits =>
      rw [htail] at hstrip
      simp only [Tail.squeezed] at hstrip
      have hbits := fits.trans (addressBits_le line.address.version)
      have hnumber : ((strtoul (Nat.toDigits 10 bits)).setWidth 32).toNat =
          bits := by
        rw [BitVec.toNat_setWidth, strtoul_toDigits hbits]
        omega
      have hguess : IPAddress.versionOf .unknown
          (line.address.lower.text ++ '/' :: Nat.toDigits 10 bits) =
            line.address.version := by
        apply line.address.lower.versionOf_append
        intro hmem
        rcases List.mem_cons.mp hmem with heq | hmem
        · cases heq
        · exact absurd (toDigits_chars hbits hmem) (by decide)
      have hmask : IPAddress.netMaskOf (IPAddress.versionOf .unknown
          (line.address.lower.text ++ '/' :: Nat.toDigits 10 bits))
            (some ((strtoul (Nat.toDigits 10 bits)).setWidth 32)) =
          some (maskHex bits line.address.version) := by
        rw [hguess, netMaskOf_eq, hnumber, if_pos hbits, maskText_eq]
      rw [parse_eq hstrip (takeSubnet_slash hslash _)
        line.address.lower.takeRange hmask, hpos, hver]
      simp only [FilterLine.meaning, htail]
      rfl

/-- A line with a keyword, a prefix and a comment. -/
def labLine : FilterLine where
  lead := ⟨[], rfl⟩
  keywords := .src ⟨"Src".toList, by decide, ⟨['\t'], rfl⟩, by decide⟩
  address :=
    { version := .ipv4
      text := "10.0.1.0".toList
      form := Or.inl ⟨rfl, ⟨"10".toList, "0".toList, "1".toList, "0".toList,
        by decide, areNumbers.forall (by decide)⟩⟩ }
  tail := .subnet ⟨[' '], rfl⟩ ⟨[], rfl⟩ 20 (by decide)
  trail := ⟨[' '], rfl⟩
  comment := some " lab".toList

example : labLine.text = "Src\t10.0.1.0 /20 # lab".toList ∧
    labLine.meaning.netMask = "ff.ff.f0.00".toList := by decide

end FilterDaemon

end NtapiExamples
