/-
`IPAddress.cpp` and `IPAddress.h`: one line of the filter file, the order that
the sets of addresses use, and the NTPL command an address stands for.
-/
import NtapiExamples.Lib.Text

namespace NtapiExamples

namespace FilterDaemon

/-- `IPVersion`. -/
inductive IPVersion where
  | unknown
  | ipv4
  | ipv6
deriving DecidableEq

/-- `class IPAddress`. -/
structure IPAddress where
  src : Bool
  dst : Bool
  addr : Text
  ver : IPVersion
  ntplId : BitVec 32
  netMask : Text
  rangeAddr : Text
deriving DecidableEq

namespace IPAddress

/-- The constructor. -/
def new : IPAddress :=
  { src := false
    dst := false
    addr := []
    ver := .unknown
    ntplId := 0
    netMask := []
    rangeAddr := [] }

def flag (b : Bool) : Text := if b then ['1'] else ['0']

/-- What `operator<` compares. -/
def key (a : IPAddress) : Text :=
  a.addr ++ flag a.src ++ flag a.dst ++ a.netMask

/-- `MatchKey`. -/
def MatchKeyIPv4Src : Text := "3".toList
def MatchKeyIPv4Dst : Text := "5".toList
def MatchKeyIPv6Src : Text := "4".toList
def MatchKeyIPv6Dst : Text := "6".toList

/-- The address as it stands in the command. -/
def ntplAddr (a : IPAddress) : Text :=
  if a.netMask ≠ [] then
    "\x7b[".toList ++ a.netMask.cstr ++ "]:[".toList ++ a.addr.cstr ++
      "]\x7d".toList
  else if a.rangeAddr ≠ [] then
    "([".toList ++ a.addr.cstr ++ "]..[".toList ++ a.rangeAddr.cstr ++
      "])".toList
  else "[".toList ++ a.addr.cstr ++ "]".toList

def keySet (number : Text) : Text :=
  "IPMatchList[KeySet=".toList ++ number ++ "] = ".toList

/-- The command of `addNTPL`, if it issues one. -/
def command (a : IPAddress) : Option Text :=
  match a.ver with
  | .ipv4 =>
      if a.src && a.dst then
        some ("IPMatchList = IPv4Addr == ".toList ++ a.ntplAddr)
      else if a.src then
        some (keySet MatchKeyIPv4Src ++ "IPv4Addr == ".toList ++ a.ntplAddr)
      else if a.dst then
        some (keySet MatchKeyIPv4Dst ++ "IPv4Addr == ".toList ++ a.ntplAddr)
      else none
  | .ipv6 =>
      if a.src && a.dst then
        some ("IPMatchList = IPv6Addr == ".toList ++ a.ntplAddr)
      else if a.src then
        some (keySet MatchKeyIPv6Src ++ "IPv6Addr  == ".toList ++ a.ntplAddr)
      else if a.dst then
        some (keySet MatchKeyIPv6Dst ++ "IPv6Addr == ".toList ++ a.ntplAddr)
      else none
  | .unknown => none

/-- `src` or `dst` in the line; the character behind it goes too. -/
def takeKeyword (word : Text) (s : Text) : Bool × Text :=
  match Text.find word s with
  | some i => (true, s.erase i (word.length + 1))
  | none => (false, s)

/-- The version by the characters of a string, `ver` if they do not tell. -/
def versionOf (ver : IPVersion) (s : Text) : IPVersion :=
  if (Text.find ['.'] s).isSome then .ipv4
  else if (Text.find [':'] s).isSome then .ipv6
  else ver

/-- The loop that sets the first bits of `subnet[16]`; `none` when it writes
behind the array. -/
def maskLoop : Nat → Nat → Nat → List Nat → Option (List Nat)
  | 0, _, _, subnet => some subnet
  | n + 1, bit, pos, subnet =>
      if pos < 16 then
        maskLoop n (bit + 1) (if bit % 8 = 7 then pos + 1 else pos)
          (subnet.modify pos fun byte => byte ||| 1 <<< (7 - bit % 8))
      else none

/-- The text of the mask. -/
def maskText (ver : IPVersion) (subnet : List Nat) : Text :=
  let byte := fun i => Text.hex2 (subnet.getD i 0)
  match ver with
  | .ipv4 =>
      byte 0 ++ '.' :: byte 1 ++ '.' :: byte 2 ++ '.' :: byte 3
  | .ipv6 =>
      byte 0 ++ byte 1 ++ ':' :: byte 2 ++ byte 3 ++ ':' :: byte 4 ++
        byte 5 ++ ':' :: byte 6 ++ byte 7 ++ ':' :: byte 8 ++ byte 9 ++
        ':' :: byte 10 ++ byte 11 ++ ':' :: byte 12 ++ byte 13 ++
        ':' :: byte 14 ++ byte 15
  | .unknown => []

/-- `subnetBits`, and the string without the slash and what follows it. -/
def takeSubnet (s : Text) : Option (BitVec 32) × Text :=
  match Text.find ['/'] s with
  | some i => (some ((Text.strtoul (s.drop (i + 1))).setWidth 32), s.take i)
  | none => (none, s)

/-- The end of a range, and the string before it. -/
def takeRange (s : Text) : Text × Text :=
  match Text.find ['.', '.'] s with
  | some i => (s.drop (i + 2), s.take i)
  | none => ([], s)

/-- `m_netMask` for the bits of a prefix. -/
def netMaskOf (ver : IPVersion) : Option (BitVec 32) → Option Text
  | none => some []
  | some bits =>
      (maskLoop bits.toNat 0 0 (List.replicate 16 0)).map (maskText ver)

/-- A line with the keywords and the white space taken out. -/
structure Stripped where
  src : Bool
  dst : Bool
  rest : Text

def strip (line : Text) : Stripped :=
  let s := line.map Char.toLower
  let (src, s) := takeKeyword "src".toList s
  let (dst, s) := takeKeyword "dst".toList s
  { src := src || !dst
    dst := dst || !src
    rest := (s.filter (· ≠ ' ')).filter (· ≠ '\t') }

/-- `parse` of a new object, with its result; `none` when the mask does not fit
its array. -/
def parse (line : Text) : Option (IPAddress × Bool) :=
  let stripped := strip line
  let ver := versionOf .unknown stripped.rest
  let (bits, s) := takeSubnet stripped.rest
  let (rangeAddr, addr) := takeRange s
  (netMaskOf ver bits).map fun netMask =>
    ({ new with
        src := stripped.src
        dst := stripped.dst
        addr := addr
        ver := versionOf ver addr
        netMask := netMask
        rangeAddr := rangeAddr },
      decide (0 < addr.length))

/-- The prefix length of a line. -/
def prefixBits (line : Text) : Option (BitVec 32) :=
  (takeSubnet (strip line).rest).1

end IPAddress

end FilterDaemon

end NtapiExamples
