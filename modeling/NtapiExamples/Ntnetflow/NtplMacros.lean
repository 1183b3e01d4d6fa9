/-
`ntpl_macros` of `ntpl.c`: the macro with the stream ids is printed piece by piece
into a buffer whose size was computed from their number, and the macros of the two
ports go through the same buffer.
-/
import NtapiExamples.Lib.Decimal
import NtapiExamples.Lib.Snprintf
import NtapiExamples.Ntnetflow.Ntpl

namespace NtapiExamples

open Text

namespace Ntnetflow

/-- A call of `snprintf` in `ntpl_gen_streamids`: the place it prints at, the size
it is told, and what its format stands for. -/
structure PrintCall where
  out : Nat
  sz : BitVec 64
  text : Text

/-- The variables of `ntpl_gen_streamids`.  `out` is a place in `buffer` of
`ntpl_macros`; the calls so far are kept beside them. -/
structure GenStreamids where
  buffer : Nat → Char
  out : Nat
  sz : BitVec 64
  sz2 : BitVec 32
  calls : List PrintCall

/-- What `"%s%d"` prints of the stream id with an index. -/
def streamidText (i : Nat) (stream : BitVec 32) : Text :=
  (if i ≠ 0 then [','] else []) ++ decimal stream

/-- The loop of `ntpl_gen_streamids` from an index on. -/
def genLoop : Nat → List (BitVec 32) → GenStreamids → GenStreamids
  | _, [], g => g
  | i, stream :: streams, g =>
      let text := streamidText i stream
      let (buffer, status) := snprintf g.buffer g.out g.sz.toNat text
      let g' := { g with
        buffer := buffer
        sz2 := g.sz2 + BitVec.ofInt 32 status
        calls := g.calls ++ [⟨g.out, g.sz, text⟩] }
      if g.sz ≤ BitVec.ofInt 64 status then g'
      else
        genLoop (i + 1) streams { g' with
          out := g.out + status.toNat
          sz := g.sz - BitVec.ofInt 64 status }

/-- `ntpl_gen_streamids`. -/
def ntplGenStreamids (buffer : Nat → Char) (out : Nat) (sz : BitVec 64)
    (streams : List (BitVec 32)) : GenStreamids :=
  genLoop 0 streams
    { buffer := buffer, out := out, sz := sz, sz2 := 0, calls := [] }

/-- `sizeof(buffer)`.  `stream_count * 4 + 128` is an `unsigned`. -/
def macroBufferSize (streamCount : Nat) : Nat := (streamCount * 4 + 128) % 2 ^ 32

def macroOpen : Text := "DefineMacro(\"".toList
def macroBetween : Text := "\", \"".toList
def macroClose : Text := "\")".toList

/-- `"DefineMacro(\"" NTPL_PFX "_%05X_"`, a name and `"\", \""`. -/
def macroFront (pid : BitVec 32) (name : Text) : Text :=
  macroOpen ++ (NTPL_PFX ++ '_' ::
    (hex05X pid.toNat ++ '_' :: (name ++ macroBetween)))

def STREAMIDS : Text := "STREAMIDS".toList
def UPSTREAM_PORT : Text := "UPSTREAM_PORT".toList
def DOWNSTREAM_PORT : Text := "DOWNSTREAM_PORT".toList

/-- `ntpl_macros` up to its first call of `ntpl`: the calls of the loop, `len` at
the assertion, and the buffer that is handed over. -/
structure StreamidsMacro where
  calls : List PrintCall
  len : BitVec 32
  buffer : Nat → Char

/-- The three direct writes, at the places of a `len` that is not negative. -/
def directWrites (buffer : Nat → Char) (len : BitVec 32) : Nat → Char :=
  let buffer := Function.update buffer len.toNat '"'
  let buffer := Function.update buffer (len + 1).toNat ')'
  Function.update buffer (len + 2).toNat '\x00'

def streamidsMacro (pid : BitVec 32) (streams : List (BitVec 32))
    (buffer : Nat → Char) : StreamidsMacro :=
  let size := macroBufferSize streams.length
  let (buffer, status) := snprintf buffer 0 size (macroFront pid STREAMIDS)
  let len := BitVec.ofInt 32 status
  let g := ntplGenStreamids buffer len.toNat
    (BitVec.ofNat 64 size - len.signExtend 64) streams
  let len := len + g.sz2
  { calls := g.calls, len := len, buffer := directWrites g.buffer len }

/-- The condition of the assertion. -/
def StreamidsMacro.asserted (m : StreamidsMacro) (size : Nat) : Prop :=
  m.len.signExtend 64 + 2 < BitVec.ofNat 64 size

/-- The indices of the three direct writes; `len` is an `int`. -/
def StreamidsMacro.writes (m : StreamidsMacro) : List Int :=
  [m.len.toInt, (m.len + 1).toInt, (m.len + 2).toInt]

/-- The macro of a port. -/
def portMacro (pid : BitVec 32) (name : Text) (port : BitVec 32) : Text :=
  macroFront pid name ++ (Nat.toDigits 10 port.toNat ++ macroClose)

/-- `ntpl_macros`: the texts it hands to `ntpl`, which may fail, and its result. -/
def ntplMacros (ntpl : Text → Int) (pid : BitVec 32) (streams : List (BitVec 32))
    (upstream downstream : BitVec 32) (buffer : Nat → Char) : List Text × Int :=
  let size := macroBufferSize streams.length
  let buffer := (streamidsMacro pid streams buffer).buffer
  let streamids := cstr ((List.range size).map buffer)
  if ntpl streamids < 0 then ([streamids], -1)
  else
    let (buffer, _) := snprintf buffer 0 size
      (portMacro pid UPSTREAM_PORT upstream)
    let up := cstr ((List.range size).map buffer)
    if ntpl up < 0 then ([streamids, up], -1)
    else
      let (buffer, _) := snprintf buffer 0 size
        (portMacro pid DOWNSTREAM_PORT downstream)
      let down := cstr ((List.range size).map buffer)
      if ntpl down < 0 then ([streamids, up, down], -1)
      else ([streamids, up, down], 0)

/-- The macro with the stream ids. -/
def streamidsText (pid : BitVec 32) (streams : List (BitVec 32)) : Text :=
  macroFront pid STREAMIDS ++
    ([','].intercalate (streams.map fun stream => Nat.toDigits 10 stream.toNat) ++
      macroClose)

/-- Macros are handed over one after the other until one fails. -/
def handOver (ntpl : Text → Int) : List Text → List Text × Int
  | [] => ([], 0)
  | text :: rest =>
      if ntpl text < 0 then ([text], -1)
      else
        let (handed, result) := handOver ntpl rest
        (text :: handed, result)

/-- The buffer takes the whole macro with its terminator, and nothing else of the
memory is written. -/
structure StreamidsFit (pid : BitVec 32) (streams : List (BitVec 32))
    (before : Nat → Char) : Prop where
  text : (streamidsMacro pid streams before).buffer =
    put before 0 (streamidsText pid streams ++ ['\x00'])
  fits : (streamidsText pid streams).length < macroBufferSize streams.length
  /-- No call cuts its text off. -/
  whole : ∀ call ∈ (streamidsMacro pid streams before).calls,
    call.text.length < call.sz.toNat
  /-- No subtraction has gone below 0: the size is what the buffer has left. -/
  left : ∀ call ∈ (streamidsMacro pid streams before).calls,
    call.out + call.sz.toNat = macroBufferSize streams.length
  asserted : (streamidsMacro pid streams before).asserted
    (macroBufferSize streams.length)
  writes : ∀ i ∈ (streamidsMacro pid streams before).writes,
    0 ≤ i ∧ i < macroBufferSize streams.length

/-- The ids as the loop prints them from an index on. -/
def streamidTexts : Nat → List (BitVec 32) → Text
  | _, [] => []
  | i, stream :: streams => streamidText i stream ++ streamidTexts (i + 1) streams

section Ids

variable {stream : BitVec 32} {streams : List (BitVec 32)}

theorem streamidText_eq (i : Nat) (hid : stream.toNat < 256) :
    streamidText i stream =
      (if i ≠ 0 then [','] else []) ++ Nat.toDigits 10 stream.toNat := by
  rw [streamidText, decimal_of_lt (by omega)]

/-- Three digits and a comma. -/
theorem length_streamidText_le (i : Nat) (hid : stream.toNat < 256) :
    (streamidText i stream).length ≤ 4 := by
  have hdigits : (decimal stream).length ≤ 3 :=
    length_decimal_le (by decide) (by omega) (by omega)
  rw [streamidText, List.length_append]
  split
  · rw [List.length_singleton]
    omega
  · rw [List.length_nil]
    omega

theorem length_streamidTexts_le (i : Nat)
    (hids : ∀ stream ∈ streams, stream.toNat < 256) :
    (streamidTexts i streams).length ≤ 4 * streams.length := by
  induction streams generalizing i with
  | nil => exact Nat.le_refl 0
  | cons stream streams ih =>
      have hfirst := length_streamidText_le i (hids stream List.mem_cons_self)
      have hrest := ih (i + 1) fun s hs => hids s (List.mem_cons_of_mem stream hs)
      rw [streamidTexts, List.length_append, List.length_cons]
      omega

/-- From the second id on every id has a comma in front of it. -/
theorem streamidTexts_succ (i : Nat)
    (hids : ∀ stream ∈ streams, stream.toNat < 256) :
    streamidTexts (i + 1) streams =
      streams.flatMap fun stream => ',' :: Nat.toDigits 10 stream.toNat := by
  induction streams generalizing i with
  | nil => rfl
  | cons stream streams ih =>
      rw [streamidTexts, List.flatMap_cons,
        ih (i + 1) fun s hs => hids s (List.mem_cons_of_mem stream hs),
        streamidText_eq (i + 1) (hids stream List.mem_cons_self),
        if_pos (Nat.succ_ne_zero i)]
      rfl

theorem intercalate_cons_flatMap (t : Text) (texts : List Text) :
    [','].intercalate (t :: texts) = t ++ texts.flatMap (',' :: ·) := by
  induction texts generalizing t with
  | nil => simp
  | cons u texts ih =>
      rw [List.intercalate_cons_cons, ih, List.flatMap_cons, List.cons_append,
        List.append_assoc, List.singleton_append]

/-- What the loop prints are the ids with commas between them. -/
theorem streamidTexts_eq (hids : ∀ stream ∈ streams, stream.toNat < 256) :
    streamidTexts 0 streams =
      [','].intercalate (streams.map fun stream => Nat.toDigits 10 stream.toNat) := by
  cases streams with
  | nil => rfl
  | cons stream streams =>
      rw [streamidTexts, List.map_cons, intercalate_cons_flatMap,
        streamidTexts_succ 0 fun s hs => hids s (List.mem_cons_of_mem stream hs),
        streamidText_eq 0 (hids stream List.mem_cons_self), List.flatMap_map]
      rfl

end Ids

theorem length_hex05X_le (pid : BitVec 32) : (hex05X pid.toNat).length ≤ 8 := by
  have hlt := pid.isLt
  have hdigits := (@Nat.digits_length_le_iff 16 8 (by decide) pid.toNat).mpr
    (by omega)
  rw [length_hex05X]
  omega

theorem length_macroFront (pid : BitVec 32) (name : Text) :
    (macroFront pid name).length =
      23 + (hex05X pid.toNat).length + name.length := by
  have hopen : macroOpen.length = 13 := rfl
  have hprefix : NTPL_PFX.length = 4 := rfl
  have hbetween : macroBetween.length = 4 := rfl
  simp only [macroFront, List.length_append, List.length_cons, hopen, hprefix,
    hbetween]
  omega

/-- A call that does not cut its text off and is told what is left of a buffer. -/
structure PrintCall.Whole (size : Nat) (call : PrintCall) : Prop where
  left : call.out + call.sz.toNat = size
  whole : call.text.length < call.sz.toNat

/-- After a text has been printed into a buffer: the text with its terminator is at
the front of it, `out` and `sz` are what is behind it, and `sz2` is its length
without the part from before the loop. -/
structure GenStreamids.Holds (before : Nat → Char) (size front : Nat)
    (printed : Text) (g : GenStreamids) : Prop where
  buffer : g.buffer = put before 0 (printed ++ ['\x00'])
  out : g.out = printed.length
  left : g.out + g.sz.toNat = size
  length : BitVec.ofNat 32 front + g.sz2 = BitVec.ofNat 32 printed.length
  calls : ∀ call ∈ g.calls, call.Whole size

/-- The variables behind a text that was not cut off. -/
def GenStreamids.behind (g : GenStreamids) (text : Text) : GenStreamids where
  buffer := put g.buffer g.out (text ++ ['\x00'])
  out := g.out + text.length
  sz := g.sz - BitVec.ofNat 64 text.length
  sz2 := g.sz2 + BitVec.ofNat 32 text.length
  calls := g.calls ++ [⟨g.out, g.sz, text⟩]

section Loop

variable {before : Nat → Char} {size front : Nat} {printed : Text}
  {g : GenStreamids}

/-- One pass of the loop whose text fits. -/
theorem genLoop_cons_of_lt {i : Nat} {stream : BitVec 32}
    (hfits : (streamidText i stream).length < g.sz.toNat)
    (streams : List (BitVec 32)) :
    genLoop i (stream :: streams) g =
      genLoop (i + 1) streams (g.behind (streamidText i stream)) := by
  have hlt := g.sz.isLt
  have hgo : ¬ g.sz ≤ BitVec.ofNat 64 (streamidText i stream).length := by
    rw [BitVec.le_def, BitVec.toNat_ofNat]
    omega
  rw [genLoop, snprintf, terminated_of_lt hfits]
  simp only [BitVec.ofInt_natCast, Int.toNat_natCast, if_neg hgo]
  rfl

/-- What one pass keeps. -/
theorem GenStreamids.Holds.behind (h : g.Holds before size front printed)
    {text : Text} (hfits : printed.length + text.length < size) :
    (g.behind text).Holds before size front (printed ++ text) where
  buffer := by
    have hput := @put_terminated before 0 printed (text ++ ['\x00'])
      (List.append_ne_nil_of_right_ne_nil _ (List.cons_ne_nil _ _))
    rw [Nat.zero_add, ← List.append_assoc] at hput
    rw [GenStreamids.behind, h.buffer, h.out]
    exact hput
  out := by
    rw [GenStreamids.behind, h.out, List.length_append]
  left := by
    have hout := h.out
    have hleft := h.left
    have hlt := g.sz.isLt
    simp only [GenStreamids.behind, BitVec.toNat_sub, BitVec.toNat_ofNat]
    omega
  length := by
    simp only [GenStreamids.behind]
    rw [← BitVec.add_assoc, h.length, List.length_append, BitVec.ofNat_add]
  calls := by
    intro call hcall
    rw [GenStreamids.behind, List.mem_append, List.mem_singleton] at hcall
    rcases hcall with hold | rfl
    · exact h.calls call hold
    · have hout := h.out
      have hleft := h.left
      exact ⟨hleft, by simp only; omega⟩

/-- The loop prints all ids when there is room for them. -/
theorem genLoop_holds (streams : List (BitVec 32)) (i : Nat)
    (h : g.Holds before size front printed)
    (hfits : printed.length + (streamidTexts i streams).length < size) :
    (genLoop i streams g).Holds before size front
      (printed ++ streamidTexts i streams) := by
  induction streams generalizing i g printed with
  | nil => rwa [genLoop, streamidTexts, List.append_nil]
  | cons stream streams ih =>
      rw [streamidTexts, List.length_append] at hfits
      have hfirst : (streamidText i stream).length < g.sz.toNat := by
        have hout := h.out
        have hleft := h.left
        omega
      rw [genLoop_cons_of_lt hfirst, streamidTexts, ← List.append_assoc]
      exact ih (i + 1) (h.behind (by omega)) (by rw [List.length_append]; omega)

end Loop

/-- An `int` as a `size_t`. -/
theorem toNat_signExtend_int {n : Nat} (hn : n < 2 ^ 32) :
    ((BitVec.ofNat 32 n).signExtend 64).toNat =
      n + if 2 ^ 31 ≤ n then 2 ^ 64 - 2 ^ 32 else 0 := by
  have hnat : (BitVec.ofNat 32 n).toNat = n := by
    rw [BitVec.toNat_ofNat, Nat.mod_eq_of_lt hn]
  have hmsb : (BitVec.ofNat 32 n).msb = decide (2 ^ 31 ≤ n) := by
    rw [BitVec.msb_eq_decide, hnat]
  rw [BitVec.toNat_signExtend, BitVec.toNat_setWidth, hnat, hmsb,
    Nat.mod_eq_of_lt (by omega)]
  simp only [decide_eq_true_eq]

theorem toInt_ofNat_int {n : Nat} (hn : n < 2 ^ 31) :
    (BitVec.ofNat 32 n).toInt = n := by
  have hnat : (BitVec.ofNat 32 n).toNat = n := by
    rw [BitVec.toNat_ofNat]
    omega
  rw [BitVec.toInt_eq_toNat_of_lt (by omega), hnat]

/-- What the loop starts with, once the front of the macro has been printed. -/
theorem GenStreamids.holds_front (before : Nat → Char) {size : Nat} {front : Text}
    (hfits : front.length < size) (hsize : size < 2 ^ 32)
    (hint : front.length < 2 ^ 31) :
    GenStreamids.Holds before size front.length front
      { buffer := put before 0 (front ++ ['\x00'])
        out := front.length
        sz := BitVec.ofNat 64 size - (BitVec.ofNat 32 front.length).signExtend 64
        sz2 := 0
        calls := [] } where
  buffer := rfl
  out := rfl
  left := by
    have hext := @toNat_signExtend_int front.length (by omega)
    rw [if_neg (by omega)] at hext
    simp only [BitVec.toNat_sub, BitVec.toNat_ofNat, hext]
    omega
  length := BitVec.add_zero _
  calls := by simp

/-- The direct writes put the end of the macro where `len` is. -/
theorem directWrites_eq (buffer : Nat → Char) {n : Nat} (hn : n + 2 < 2 ^ 32) :
    directWrites buffer (BitVec.ofNat 32 n) =
      put buffer n (macroClose ++ ['\x00']) := by
  have hplace : ∀ k, k ≤ 2 →
      (BitVec.ofNat 32 n + BitVec.ofNat 32 k).toNat = n + k := by
    intro k hk
    rw [BitVec.toNat_add, BitVec.toNat_ofNat, BitVec.toNat_ofNat]
    omega
  have hfirst := hplace 0 (by omega)
  have hsecond : (BitVec.ofNat 32 n + 1).toNat = n + 1 := hplace 1 (by omega)
  have hthird : (BitVec.ofNat 32 n + 2).toNat = n + 2 := hplace 2 (by omega)
  rw [BitVec.add_zero, Nat.add_zero] at hfirst
  have hclose : macroClose ++ ['\x00'] = ['"', ')', '\x00'] := rfl
  rw [hclose, directWrites, hfirst, hsecond, hthird]
  rfl

/-- A negative `len` is a large number as a `size_t`. -/
theorem asserted_iff {m : StreamidsMacro} {n size : Nat}
    (hlen : m.len = BitVec.ofNat 32 n) (hn : n + 2 < 2 ^ 32)
    (hsize : size < 2 ^ 32) :
    m.asserted size ↔ n < 2 ^ 31 ∧ n + 2 < size := by
  have htwo : (2 : BitVec 64).toNat = 2 := rfl
  rw [StreamidsMacro.asserted, hlen, BitVec.lt_def, BitVec.toNat_add,
    toNat_signExtend_int (by omega), htwo, BitVec.toNat_ofNat]
  by_cases hsmall : 2 ^ 31 ≤ n
  · rw [if_pos hsmall]
    omega
  · rw [if_neg hsmall]
    omega

section Macro

variable {pid : BitVec 32} {streams : List (BitVec 32)}

/-- What is in front of the three direct writes. -/
def printedIds (pid : BitVec 32) (streams : List (BitVec 32)) : Text :=
  macroFront pid STREAMIDS ++ streamidTexts 0 streams

theorem streamidsText_eq (hids : ∀ stream ∈ streams, stream.toNat < 256) :
    streamidsText pid streams = printedIds pid streams ++ macroClose := by
  rw [streamidsText, printedIds, streamidTexts_eq hids, List.append_assoc]

theorem length_streamidsText (hids : ∀ stream ∈ streams, stream.toNat < 256) :
    (streamidsText pid streams).length = (printedIds pid streams).length + 2 := by
  have hclose : macroClose.length = 2 := rfl
  rw [streamidsText_eq hids, List.length_append, hclose]

theorem length_front_le (pid : BitVec 32) :
    (macroFront pid STREAMIDS).length ≤ 40 := by
  have hname : STREAMIDS.length = 9 := rfl
  have hpid := length_hex05X_le pid
  rw [length_macroFront, hname]
  omega

/-- Four bytes for every id and 40 for the rest. -/
theorem length_printedIds_le (hids : ∀ stream ∈ streams, stream.toNat < 256) :
    (printedIds pid streams).length ≤ 40 + 4 * streams.length := by
  have hfront := length_front_le pid
  have hrest := length_streamidTexts_le 0 hids
  rw [printedIds, List.length_append]
  omega

theorem macroBufferSize_eq (hcount : streams.length * 4 + 128 < 2 ^ 32) :
    macroBufferSize streams.length = streams.length * 4 + 128 :=
  Nat.mod_eq_of_lt hcount

/-- Whenever the size of the buffer does not wrap the loop prints all ids. -/
theorem streamidsMacro_holds (before : Nat → Char)
    (hids : ∀ stream ∈ streams, stream.toNat < 256)
    (hcount : streams.length * 4 + 128 < 2 ^ 32) :
    ∃ g : GenStreamids,
      g.Holds before (macroBufferSize streams.length)
        (macroFront pid STREAMIDS).length (printedIds pid streams) ∧
      streamidsMacro pid streams before =
        { calls := g.calls
          len := BitVec.ofNat 32 (printedIds pid streams).length
          buffer := directWrites g.buffer
            (BitVec.ofNat 32 (printedIds pid streams).length) } := by
  have hsize := macroBufferSize_eq hcount
  have hfront := length_front_le pid
  have hprinted := @length_printedIds_le pid streams hids
  have hstart := @GenStreamids.holds_front before
    (macroBufferSize streams.length) (macroFront pid STREAMIDS) (by omega) (by omega)
    (by omega)
  rw [printedIds, List.length_append] at hprinted
  have hloop := genLoop_holds streams 0 hstart (by omega)
  refine ⟨_, hloop, ?_⟩
  have hlen : (BitVec.ofNat 32 (macroFront pid STREAMIDS).length).toNat =
      (macroFront pid STREAMIDS).length := by
    rw [BitVec.toNat_ofNat]
    omega
  have hlength := hloop.length
  rw [streamidsMacro, snprintf, terminated_of_lt (by omega)]
  simp only [BitVec.ofInt_natCast, ntplGenStreamids, hlen]
  rw [hlength, printedIds]

/-- The direct writes take the place of the last terminator. -/
theorem GenStreamids.Holds.directWrites {before : Nat → Char} {size front : Nat}
    {printed : Text} {g : GenStreamids} (h : g.Holds before size front printed)
    (hint : printed.length + 2 < 2 ^ 32) :
    directWrites g.buffer (BitVec.ofNat 32 printed.length) =
      put before 0 (printed ++ (macroClose ++ ['\x00'])) := by
  have hput := @put_terminated before 0 printed (macroClose ++ ['\x00'])
    (List.append_ne_nil_of_right_ne_nil _ (List.cons_ne_nil _ _))
  rw [Nat.zero_add] at hput
  rw [directWrites_eq g.buffer hint, h.buffer, hput]

/-- With a size that does not wrap and a macro whose length is an `int` the buffer
is large enough. -/
theorem streamidsFit_of_lt (before : Nat → Char)
    (hids : ∀ stream ∈ streams, stream.toNat < 256)
    (hcount : streams.length * 4 + 128 < 2 ^ 32)
    (hint : (streamidsText pid streams).length + 1 < 2 ^ 31) :
    StreamidsFit pid streams before := by
  obtain ⟨g, hholds, hrun⟩ := @streamidsMacro_holds pid streams before hids hcount
  have hsize := macroBufferSize_eq hcount
  have hprinted := @length_printedIds_le pid streams hids
  have hlength := @length_streamidsText pid streams hids
  have hlen : ∀ k, k ≤ 2 → (BitVec.ofNat 32 (printedIds pid streams).length +
      BitVec.ofNat 32 k).toInt = (printedIds pid streams).length + k := by
    intro k hk
    rw [← BitVec.ofNat_add, toInt_ofNat_int (by omega), Int.natCast_add]
  constructor
  case text =>
    rw [hrun, streamidsText_eq hids, List.append_assoc]
    exact hholds.directWrites (by omega)
  case fits => omega
  case whole =>
    rw [hrun]
    exact fun call hcall => (hholds.calls call hcall).whole
  case left =>
    rw [hrun]
    exact fun call hcall => (hholds.calls call hcall).left
  case asserted =>
    rw [hrun, asserted_iff rfl (by omega) (by omega)]
    omega
  case writes =>
    rw [hrun, StreamidsMacro.writes]
    intro i hi
    have hfirst := hlen 0 (by omega)
    have hsecond : (BitVec.ofNat 32 (printedIds pid streams).length + 1).toInt =
        (printedIds pid streams).length + 1 := hlen 1 (by omega)
    have hthird : (BitVec.ofNat 32 (printedIds pid streams).length + 2).toInt =
        (printedIds pid streams).length + 2 := hlen 2 (by omega)
    rw [BitVec.add_zero] at hfirst
    simp only [List.mem_cons, List.not_mem_nil, or_false, hfirst, hsecond,
      hthird] at hi
    omega

/-- Up to 2^29 - 11 ids the buffer is large enough for every process id; the program
starts with at most 128 of them. -/
theorem streamidsFit_of_length_le (before : Nat → Char)
    (hids : ∀ stream ∈ streams, stream.toNat < 256)
    (hlen : streams.length ≤ 2 ^ 29 - 11) : StreamidsFit pid streams before := by
  have hprinted := @length_printedIds_le pid streams hids
  have hlength := @length_streamidsText pid streams hids
  exact streamidsFit_of_lt before hids (by omega) (by omega)

/-- A longer text makes `len` negative. -/
theorem not_asserted_of_le (before : Nat → Char)
    (hids : ∀ stream ∈ streams, stream.toNat < 256)
    (hcount : streams.length * 4 + 128 < 2 ^ 32)
    (hover : 2 ^ 31 ≤ (printedIds pid streams).length) :
    ¬ (streamidsMacro pid streams before).asserted
      (macroBufferSize streams.length) := by
  obtain ⟨g, -, hrun⟩ := @streamidsMacro_holds pid streams before hids hcount
  have hsize := macroBufferSize_eq hcount
  have hprinted := @length_printedIds_le pid streams hids
  rw [hrun, asserted_iff rfl (by omega) (by omega)]
  omega

/-- A buffer that does not even take the front of the macro. -/
theorem not_fit_of_le (before : Nat → Char)
    (hsize : macroBufferSize streams.length ≤ 23) :
    ¬ StreamidsFit pid streams before := by
  intro hfit
  have hfits := hfit.fits
  have hfront := length_macroFront pid STREAMIDS
  rw [streamidsText, List.length_append] at hfits
  omega

end Macro

theorem macroFront_noTerminator (pid : BitVec 32) {name : Text}
    (hname : '\x00' ∉ name) : '\x00' ∉ macroFront pid name := by
  have hopen : '\x00' ∉ macroOpen := by decide
  have hprefix : '\x00' ∉ NTPL_PFX := by decide
  have hbetween : '\x00' ∉ macroBetween := by decide
  have hhex : '\x00' ∉ hex05X pid.toNat := fun hmem => (hex05X_ne hmem).2 rfl
  have hline : '\x00' ≠ '_' := by decide
  simp only [macroFront, List.mem_append, List.mem_cons, hopen, hprefix, hbetween,
    hhex, hline, hname, or_self, not_false_eq_true]

theorem macroClose_noTerminator : '\x00' ∉ macroClose := by decide

theorem toDigits_noTerminator (n : Nat) : '\x00' ∉ Nat.toDigits 10 n :=
  not_mem_toDigits (by decide) n

theorem streamidTexts_noTerminator {streams : List (BitVec 32)} (i : Nat)
    (hids : ∀ stream ∈ streams, stream.toNat < 256) :
    '\x00' ∉ streamidTexts i streams := by
  induction streams generalizing i with
  | nil => exact List.not_mem_nil
  | cons stream streams ih =>
      have hrest := ih (i + 1) fun s hs => hids s (List.mem_cons_of_mem stream hs)
      rw [streamidTexts, streamidText_eq i (hids stream List.mem_cons_self)]
      simp only [List.mem_append, toDigits_noTerminator, hrest, or_false]
      split
      · decide
      · exact List.not_mem_nil

theorem streamidsText_noTerminator (pid : BitVec 32) {streams : List (BitVec 32)}
    (hids : ∀ stream ∈ streams, stream.toNat < 256) :
    '\x00' ∉ streamidsText pid streams := by
  have hfront := macroFront_noTerminator pid (show '\x00' ∉ STREAMIDS by decide)
  rw [streamidsText_eq hids, printedIds]
  simp only [List.mem_append, hfront, streamidTexts_noTerminator 0 hids,
    macroClose_noTerminator, or_self, not_false_eq_true]

theorem portMacro_noTerminator (pid : BitVec 32) {name : Text} (port : BitVec 32)
    (hname : '\x00' ∉ name) : '\x00' ∉ portMacro pid name port := by
  simp only [portMacro, List.mem_append, macroFront_noTerminator pid hname,
    toDigits_noTerminator, macroClose_noTerminator, or_self, not_false_eq_true]

/-- The macro of a port is shorter than 128 characters. -/
theorem length_portMacro_lt (pid : BitVec 32) {name : Text} (port : BitVec 32)
    (hname : name.length ≤ 15) : (portMacro pid name port).length < 128 := by
  have hlt := port.isLt
  have hpid := length_hex05X_le pid
  have hdigits : (Nat.toDigits 10 port.toNat).length ≤ 10 :=
    (Nat.length_toDigits_le_iff (by decide) (by decide)).mpr (by omega)
  have hclose : macroClose.length = 2 := rfl
  rw [portMacro, List.length_append, List.length_append, length_macroFront, hclose]
  omega

/-- The same macro is handed over when it is printed into a large enough buffer. -/
theorem cstr_snprintf {buffer : Nat → Char} {size : Nat} {s : Text}
    (hs : '\x00' ∉ s) (hsize : s.length < size) :
    cstr ((List.range size).map (snprintf buffer 0 size s).1) = s := by
  rw [snprintf, terminated_of_lt hsize]
  exact cstr_put hs hsize

section Handed

variable {pid : BitVec 32} {streams : List (BitVec 32)} {before : Nat → Char}

/-- A macro that fits is handed over whole. -/
theorem StreamidsFit.handed (hfit : StreamidsFit pid streams before)
    (hids : ∀ stream ∈ streams, stream.toNat < 256) :
    cstr ((List.range (macroBufferSize streams.length)).map
      (streamidsMacro pid streams before).buffer) = streamidsText pid streams := by
  rw [hfit.text]
  exact cstr_put (streamidsText_noTerminator pid hids) hfit.fits

/-- `ntpl_macros` hands over the three macros. -/
theorem ntplMacros_eq (hfit : StreamidsFit pid streams before)
    (hids : ∀ stream ∈ streams, stream.toNat < 256)
    (hcount : streams.length * 4 + 128 < 2 ^ 32) (ntpl : Text → Int)
    (upstream downstream : BitVec 32) :
    ntplMacros ntpl pid streams upstream downstream before =
      handOver ntpl [streamidsText pid streams,
        portMacro pid UPSTREAM_PORT upstream,
        portMacro pid DOWNSTREAM_PORT downstream] := by
  have hport : ∀ buffer name port, '\x00' ∉ name → name.length ≤ 15 →
      cstr ((List.range (macroBufferSize streams.length)).map
        (snprintf buffer 0 (macroBufferSize streams.length)
          (portMacro pid name port)).1) = portMacro pid name port := by
    intro buffer name port hname hlen
    have hlt := length_portMacro_lt pid port hlen
    have hsize := macroBufferSize_eq hcount
    exact cstr_snprintf (portMacro_noTerminator pid port hname) (by omega)
  have hup := fun buffer =>
    hport buffer UPSTREAM_PORT upstream (by decide) (by decide)
  have hdown := fun buffer =>
    hport buffer DOWNSTREAM_PORT downstream (by decide) (by decide)
  simp only [ntplMacros, hfit.handed hids, hup, hdown, handOver]
  split
  · rfl
  · split
    · rfl
    · split <;> rfl

end Handed

/-- The macro with the stream ids fits into its buffer and is handed over first,
as long as the size of the buffer is not beyond an `unsigned` and the length of the
macro with its terminator is an `int`. -/
theorem streamids_fit (pid : BitVec 32) (streams : List (BitVec 32))
    (hids : ∀ stream ∈ streams, stream.toNat < 256)
    (hcount : streams.length * 4 + 128 < 2 ^ 32)
    (hint : (streamidsText pid streams).length + 1 < 2 ^ 31)
    (before : Nat → Char) :
    StreamidsFit pid streams before ∧
      ∀ ntpl upstream downstream,
        (ntplMacros ntpl pid streams upstream downstream before).1.head? =
          some (streamidsText pid streams) := by
  have hfit := streamidsFit_of_lt before hids hcount hint
  refine ⟨hfit, fun ntpl upstream downstream => ?_⟩
  rw [ntplMacros_eq hfit hids hcount, handOver]
  split <;> rfl

/-- Three ids of one, two and three digits. -/
theorem streamids_fit_three :
    StreamidsFit 0xABCDE [1, 16, 255] (fun _ => '?') ∧
      (streamidsMacro 0xABCDE [1, 16, 255] fun _ => '?').calls.length = 3 := by
  have hids : ∀ stream ∈ ([1, 16, 255] : List (BitVec 32)), stream.toNat < 256 := by
    simp
  have hcount : ([1, 16, 255] : List (BitVec 32)).length * 4 + 128 < 2 ^ 32 := by
    decide
  have hint : (streamidsText 0xABCDE [1, 16, 255]).length + 1 < 2 ^ 31 := by
    have hlength := @length_streamidsText 0xABCDE [1, 16, 255] hids
    have hprinted := @length_printedIds_le 0xABCDE [1, 16, 255] hids
    rw [show ([1, 16, 255] : List (BitVec 32)).length = 3 from rfl] at hprinted
    omega
  exact ⟨(streamids_fit 0xABCDE [1, 16, 255] hids hcount hint fun _ => '?').1, rfl⟩

section Overflow

variable {n : Nat}

theorem replicate_ids {stream : BitVec 32} (hid : stream.toNat < 256) (n : Nat) :
    ∀ s ∈ List.replicate n stream, s.toNat < 256 := by
  intro s hs
  rw [List.eq_of_mem_replicate hs]
  exact hid

theorem length_streamidTexts_replicate {i : Nat} (hi : i ≠ 0) (n : Nat) :
    (streamidTexts i (List.replicate n 255)).length = 4 * n := by
  induction n generalizing i with
  | zero => rfl
  | succ n ih =>
      have hfirst : (streamidText i 255).length = 4 := by
        rw [streamidText_eq i (by decide), if_pos hi]
        decide
      rw [List.replicate_succ, streamidTexts, List.length_append, hfirst,
        ih (Nat.succ_ne_zero i)]
      omega

/-- Ids of three digits take four bytes each, but for the first one. -/
theorem length_printedIds_replicate (hn : 0 < n) :
    (printedIds 1 (List.replicate n 255)).length = 36 + 4 * n := by
  obtain ⟨n, rfl⟩ := Nat.exists_eq_add_one_of_ne_zero (Nat.ne_of_gt hn)
  have hfront : (macroFront 1 STREAMIDS).length = 37 := by
    have hname : STREAMIDS.length = 9 := rfl
    rw [length_macroFront, hname]
    exact congrArg (23 + · + 9) (length_hex05X_five (by decide))
  have hfirst : (streamidText 0 255).length = 3 := rfl
  rw [printedIds, List.replicate_succ, streamidTexts, List.length_append,
    List.length_append, length_streamidTexts_replicate (by decide), hfront, hfirst]
  omega

theorem not_fit_replicate (before : Nat → Char) (hn : 0 < n)
    (hcount : n * 4 + 128 < 2 ^ 32) (hover : 2 ^ 31 ≤ 36 + 4 * n) :
    ¬ StreamidsFit 1 (List.replicate n 255) before := by
  intro hfit
  have hlength := length_printedIds_replicate hn
  have hids := replicate_ids (show (255 : BitVec 32).toNat < 256 by decide) n
  rw [← @List.length_replicate _ n (255 : BitVec 32)] at hcount
  exact not_asserted_of_le before hids hcount (by omega) hfit.asserted

end Overflow

/-- With 2^30 - 31 ids the buffer has 4 bytes, and with 2^29 ids of three digits
`len` gets negative. -/
theorem streamids_overflow :
    ¬ (∀ (pid : BitVec 32) (streams : List (BitVec 32)) (before : Nat → Char),
      streams ≠ [] → (∀ stream ∈ streams, stream.toNat < 256) →
        StreamidsFit pid streams before) ∧
      ¬ StreamidsFit 1 (List.replicate (2 ^ 30 - 31) 1) (fun _ => '?') ∧
      ¬ StreamidsFit 1 (List.replicate (2 ^ 29) 255) (fun _ => '?') := by
  have hsize : macroBufferSize (List.replicate (2 ^ 30 - 31) (1 : BitVec 32)).length ≤
      23 := by
    rw [List.length_replicate]
    decide
  have hwrap := @not_fit_of_le 1 (List.replicate (2 ^ 30 - 31) 1) (fun _ => '?') hsize
  have hnegative := @not_fit_replicate (2 ^ 29) (fun _ => '?') (by decide)
    (by decide) (by decide)
  have hne : List.replicate (2 ^ 30 - 31) (1 : BitVec 32) ≠ [] := by
    rw [ne_eq, List.replicate_eq_nil_iff]
    decide
  exact ⟨fun hall => hwrap (hall 1 _ _ hne (replicate_ids (by decide) _)), hwrap,
    hnegative⟩

end Ntnetflow

end NtapiExamples
