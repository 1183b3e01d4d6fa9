/-
The three copies of `argparse.c`: `ntnetflow`'s, and the one that
`addrswap_replay` and `boundary_replay` share.  They differ in what they do with a
value and in how they report errors.
-/
import Mathlib.Logic.Function.Basic
import NtapiExamples.Lib.Text

namespace NtapiExamples

open Text

namespace Argparse

/-- `enum argparse_option_type`; the table ends where the list does. -/
inductive OptionType where
  | boolean | bit | bit64 | integer | string | uint64
deriving DecidableEq

/-- The callbacks of the tables. -/
inductive Callback where
  | argparseHelpCb
deriving DecidableEq

/-- `struct argparse_option`; `value` names the variable it points to. -/
structure ArgparseOption (V : Type) where
  type : OptionType
  shortName : Char
  longName : Option Text
  value : Option V
  callback : Option Callback
  data : Nat
  noneg : Bool
deriving DecidableEq

/-- The variables of the program: of type `int`, `uint64_t` and `const char *`. -/
structure Values (V : Type) where
  int : V → BitVec 32
  uint64 : V → BitVec 64
  string : V → Option Text

end Argparse

/-- `struct argparse` with the array that `argv` and `out` point into; `out` is its
start, and `NULL` is `none`. -/
structure Argparse (V : Type) where
  argc : Nat
  argv : Nat
  array : List (Option Text)
  cpidx : Nat
  optvalue : Option Text
  values : Argparse.Values V

namespace Argparse

/-- The status the process exits with, and what it wrote to `stderr`. -/
structure Exit where
  status : Int
  stderr : Text
deriving DecidableEq

section

variable {V : Type}

/-- `*(argv + i)`. -/
def word (st : Argparse V) (i : Nat) : Text :=
  (st.array.getD i none).getD []

/-- `This->argc--, This->argv++`. -/
def next (st : Argparse V) : Argparse V :=
  { st with argc := st.argc - 1, argv := st.argv + 1 }

section

variable [DecidableEq V]

def Values.setInt (values : Values V) (v : V) (x : BitVec 32) : Values V :=
  { values with int := Function.update values.int v x }

def Values.setUint64 (values : Values V) (v : V) (x : BitVec 64) : Values V :=
  { values with uint64 := Function.update values.uint64 v x }

def Values.setString (values : Values V) (v : V) (x : Text) : Values V :=
  { values with string := Function.update values.string v (some x) }

def setInt (st : Argparse V) (v : V) (x : BitVec 32) : Argparse V :=
  { st with values := st.values.setInt v x }

def setUint64 (st : Argparse V) (v : V) (x : BitVec 64) :
    Argparse V :=
  { st with values := st.values.setUint64 v x }

def setString (st : Argparse V) (v : V) (x : Text) : Argparse V :=
  { st with values := st.values.setString v x }

end

/-- `strtol(s, &end, 0)` and `strtoull(s, &end, 0)`: the sign, the base and what is
behind the sign and the prefix. -/
def scanNumber (s : Text) : Bool × Nat × Text :=
  let (negative, digits) := takeSign ((cstr s).dropWhile isspace)
  (negative, takeBase digits)

/-- The end pointer; it is the string itself when there are no digits. -/
def endptr (s : Text) : Text :=
  let (_, base, digits) := scanNumber s
  let behind := digits.dropWhile fun c => digitValue c < base
  if behind = digits then cstr s else behind

/-- The number that is written, whether it fits or not. -/
def written (s : Text) : Int :=
  let (negative, base, digits) := scanNumber s
  if negative then -(number base digits : Int) else number base digits

/-- `strtol(s, &end, 0)`. -/
def strtol0 (s : Text) : Int := max (-2 ^ 63) (min (written s) (2 ^ 63 - 1))

/-- What a failure of `argparse_getvalue` prints, from the texts before the name,
behind the name and the reason. -/
def argparseErrorText (before : Text) (opt : ArgparseOption V)
    (longForm : Bool) (reason : Text) : Text :=
  before ++ (if longForm then opt.longName.getD [] else [opt.shortName]) ++
    "` ".toList ++ reason ++ "\n".toList

def requiresAValue : Text := "requires a value".toList
def expectsANumericalValue : Text := "expects a numerical value".toList
def valueNotAllowed : Text := "value not allowed".toList
def isTooLarge : Text := "is too large".toList
def valueOutOfRange : Text :=
  "value out of range [-2147483648..2147483647]".toList

/-- `opt->callback(This, opt, 1)`. -/
def runCallback (opt : ArgparseOption V) (st : Argparse V) :
    Except Exit (Int × Argparse V) :=
  match opt.callback with
  | some .argparseHelpCb => .error ⟨0, []⟩
  | none => .ok (0, st)

/-- The value of an option that has one: the rest of the word when there is one,
else the next word. -/
def takeValue (st : Argparse V) : Option (Text × Argparse V) :=
  match st.optvalue with
  | some value => some (value, { st with optvalue := none })
  | none =>
      if 1 < st.argc then some (st.word (st.argv + 1), st.next) else none

/-- `*value + 1` or `*value - 1`, but not below 0. -/
def count (unset : Bool) (x : BitVec 32) : BitVec 32 :=
  let x := if unset then x - 1 else x + 1
  if x.slt 0 then 0 else x

/-- `1 << data` in `w` bits. -/
def bit (w data : Nat) : BitVec w := 1#w <<< data

def setBit (unset : Bool) (mask x : BitVec 32) : BitVec 32 :=
  if unset then x &&& ~~~mask else x ||| mask

def setBit64 (unset : Bool) (mask x : BitVec 64) : BitVec 64 :=
  if unset then x &&& ~~~mask else x ||| mask

/-- `argparse_getvalue` of one copy of the source; true is `OPT_UNSET`, and
`OPTION_LONG`. -/
abbrev Getvalue (V : Type) : Type :=
  ArgparseOption V → Bool → Bool → Argparse V → Except Exit (Int × Argparse V)

/-- What the copies of the source differ in. -/
structure Copy (V : Type) where
  getvalue : Getvalue V
  unknownStatus : Int
  unknownText : Text

def prefixSkip (str pre : Text) : Option Text :=
  if pre.isPrefixOf str then some (str.drop pre.length) else none

/-- The types that allow negation. -/
def OptionType.isFlag (type : OptionType) : Bool :=
  type = .boolean ∨ type = .bit ∨ type = .bit64

/-- `rest` of `argparse_long_opt`, with `OPT_UNSET` when it is behind `no-`. -/
def longRest (opt : ArgparseOption V) (arg : Text) : Option (Bool × Text) := do
  let name ← opt.longName
  match prefixSkip arg name with
  | some rest => some (false, rest)
  | none =>
      if opt.noneg then none
      else if !opt.type.isFlag then none
      else if ['n', 'o', '-'].isPrefixOf arg then
        (prefixSkip (arg.drop 3) name).map fun rest => (true, rest)
      else none

def argparseShortOpt (getvalue : Getvalue V) :
    List (ArgparseOption V) → Argparse V → Except Exit (Int × Argparse V)
  | [], st => .ok (-2, st)
  | opt :: options, st =>
      let optvalue := st.optvalue.getD []
      if opt.shortName = optvalue.headD '\x00' then
        getvalue opt false false
          { st with
            optvalue :=
              if optvalue.tail = [] then none else some optvalue.tail }
      else argparseShortOpt getvalue options st

def argparseLongOpt (getvalue : Getvalue V) :
    List (ArgparseOption V) → Argparse V → Except Exit (Int × Argparse V)
  | [], st => .ok (-2, st)
  | opt :: options, st =>
      match longRest opt ((st.word st.argv).drop 2) with
      | some (unset, []) => getvalue opt unset true st
      | some (unset, '=' :: value) =>
          getvalue opt unset true { st with optvalue := some value }
      | _ => argparseLongOpt getvalue options st

def unknown (copy : Copy V) (st : Argparse V) : Exit :=
  ⟨copy.unknownStatus,
    copy.unknownText ++ st.word st.argv ++ "`\n".toList⟩

/-- The short options of one word: the first call and the `while` behind it, with
one letter a round. -/
def shortOpts (copy : Copy V) (options : List (ArgparseOption V)) :
    Nat → Argparse V → Except Exit (Argparse V)
  | 0, st => .ok st
  | letters + 1, st =>
      if st.optvalue = none then .ok st
      else do
        let (result, st) ← argparseShortOpt copy.getvalue options st
        if result = -2 then .error (unknown copy st)
        else shortOpts copy options letters st

/-- The loop of `argparse_parse`; a round takes a word at least. -/
def parseLoop (copy : Copy V) (options : List (ArgparseOption V))
    (stopAtNonOption : Bool) : Nat → Argparse V → Except Exit (Argparse V)
  | 0, st => .ok st
  | words + 1, st =>
      let arg := st.word st.argv
      if st.argc = 0 then .ok st
      else if arg.headD '\x00' ≠ '-' ∨ arg.tail = [] then
        if stopAtNonOption then .ok st
        else
          parseLoop copy options stopAtNonOption words
            (Argparse.next
              { st with
                array := st.array.set st.cpidx (st.array.getD st.argv none)
                cpidx := st.cpidx + 1 })
      else if arg.tail.headD '\x00' ≠ '-' then do
        let st ← shortOpts copy options arg.tail.length
          { st with optvalue := some arg.tail }
        parseLoop copy options stopAtNonOption words st.next
      else if arg.tail.tail = [] then .ok st.next
      else do
        let (result, st) ← argparseLongOpt copy.getvalue options st
        if result = -2 then .error (unknown copy st)
        else parseLoop copy options stopAtNonOption words st.next

/-- `memmove` of `n` pointers from index `src` to index `dst`. -/
def memmove (array : List (Option Text)) (dst src n : Nat) :
    List (Option Text) :=
  array.take dst ++ (array.drop src).take n ++ array.drop (dst + n)

/-- `argparse_init` and `argparse_parse`. -/
def argparseParse (copy : Copy V) (options : List (ArgparseOption V))
    (stopAtNonOption : Bool) (program : Text) (args : List Text)
    (values : Values V) : Except Exit (Nat × Argparse V) := do
  let st ← parseLoop copy options stopAtNonOption args.length
    ⟨args.length, 1, (program :: args).map some ++ [none], 0, none, values⟩
  let array := memmove st.array st.cpidx st.argv st.argc
  .ok (st.cpidx + st.argc,
    { st with array := array.set (st.cpidx + st.argc) none })

end

section

variable {V : Type} [DecidableEq V]

namespace Ntnetflow

/-- `argparse_error`; it looks at the word the parser has reached to tell a long
option from a short one. -/
def argparseError (st : Argparse V) (opt : ArgparseOption V) (reason : Text) :
    Exit :=
  ⟨-1, argparseErrorText "error: option `".toList opt
    (['-', '-'].isPrefixOf (st.word st.argv)) reason⟩

/-- `argparse_getvalue` of `ntnetflow/argparse.c`. -/
def argparseGetvalue : Getvalue V := fun opt unset _ st =>
  match opt.value with
  | none => runCallback opt st
  | some v =>
      match opt.type with
      | .boolean =>
          runCallback opt (st.setInt v (count unset (st.values.int v)))
      | .bit =>
          runCallback opt
            (st.setInt v (setBit unset (bit 32 opt.data) (st.values.int v)))
      | .bit64 =>
          -- the shift is one of an `int`, which is widened after it
          runCallback opt
            (st.setUint64 v (setBit64 unset
              ((bit 32 opt.data).signExtend 64)
              (st.values.uint64 v)))
      | .string =>
          match st.takeValue with
          | none => .error (argparseError st opt requiresAValue)
          | some (value, st) => runCallback opt (st.setString v value)
      | .integer =>
          match st.takeValue with
          | none => .error (argparseError st opt requiresAValue)
          | some (value, st) =>
              if endptr value ≠ [] then
                .error (argparseError st opt expectsANumericalValue)
              else
                runCallback opt (st.setInt v (BitVec.ofInt 32 (strtol0 value)))
      | .uint64 =>
          match st.takeValue with
          | none => .error (argparseError st opt requiresAValue)
          | some (value, st) =>
              if endptr value ≠ [] then
                .error (argparseError st opt expectsANumericalValue)
              else runCallback opt (st.setUint64 v (strtoul value))

/-- `ntnetflow/argparse.c`. -/
def copy : Copy V :=
  ⟨argparseGetvalue, 1, "error: unknown option `".toList⟩

end Ntnetflow

namespace Replay

def NT_APPL_ERROR_OPT_ILL : Int := 1
def NT_APPL_ERROR_OPT_ARG : Int := 2
def INT_MAX : Int := 2 ^ 31 - 1
def INT_MIN : Int := -2 ^ 31

def argparseError (opt : ArgparseOption V) (reason : Text) (long : Bool) :
    Exit :=
  ⟨NT_APPL_ERROR_OPT_ARG,
    argparseErrorText ">>> Error: option `".toList opt long reason⟩

/-- `argparse_getvalue` of `addrswap_replay/argparse.c`. -/
def argparseGetvalue : Getvalue V := fun opt unset long st =>
  match opt.value with
  | none => runCallback opt st
  | some v =>
      match opt.type with
      | .boolean =>
          runCallback opt (st.setInt v (count unset (st.values.int v)))
      | .bit =>
          if st.optvalue ≠ none then
            .error (argparseError opt valueNotAllowed long)
          else
            runCallback opt
              (st.setInt v (setBit unset (bit 32 opt.data) (st.values.int v)))
      | .bit64 =>
          if st.optvalue ≠ none then
            .error (argparseError opt valueNotAllowed long)
          else
            runCallback opt
              (st.setUint64 v (setBit64 unset (bit 64 opt.data)
                (st.values.uint64 v)))
      | .string =>
          match st.takeValue with
          | none => .error (argparseError opt requiresAValue long)
          | some (value, st) => runCallback opt (st.setString v value)
      | .integer =>
          match st.takeValue with
          | none => .error (argparseError opt requiresAValue long)
          | some (value, st) =>
              -- `errno` is only set outside of the range of an `int`
              if INT_MAX < written value ∨ written value < INT_MIN then
                .error (argparseError opt valueOutOfRange long)
              else if endptr value ≠ [] then
                .error (argparseError opt expectsANumericalValue long)
              else
                runCallback opt (st.setInt v (BitVec.ofInt 32 (strtol0 value)))
      | .uint64 =>
          match st.takeValue with
          | none => .error (argparseError opt requiresAValue long)
          | some (value, st) =>
              if endptr value ≠ [] then
                .error (argparseError opt expectsANumericalValue long)
              else if 2 ^ 64 ≤ (written value).natAbs then
                .error (argparseError opt isTooLarge long)
              else runCallback opt (st.setUint64 v (strtoul value))

/-- `addrswap_replay/argparse.c`, and `boundary_replay/shared/argparse`. -/
def copy : Copy V :=
  ⟨argparseGetvalue, NT_APPL_ERROR_OPT_ILL,
    ">>> Error: unknown option `".toList⟩

end Replay

/-- The directories with a copy of `argparse.c` of their own. -/
inductive Source where
  | ntnetflow | replay
deriving DecidableEq

def Source.copy : Source → Copy V
  | .ntnetflow => Ntnetflow.copy
  | .replay => Replay.copy

end

end Argparse

end NtapiExamples
