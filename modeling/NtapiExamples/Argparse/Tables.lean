/-
The tables of options of the three programs that read their command line with
`argparse.c`.
-/
import NtapiExamples.Argparse.Table

namespace NtapiExamples

namespace Argparse

section

variable {V : Type}

/-- `OPT_HELP()`. -/
def optHelp : ArgparseOption V :=
  ⟨.boolean, 'h', some "help".toList, none, some .argparseHelpCb, 0, false⟩

def optBoolean (shortName : Char) (longName : Text) (v : V) :
    ArgparseOption V :=
  ⟨.boolean, shortName, some longName, some v, none, 0, false⟩

def optInteger (shortName : Char) (longName : Text) (v : V) :
    ArgparseOption V :=
  ⟨.integer, shortName, some longName, some v, none, 0, false⟩

def optString (shortName : Char) (longName : Text) (v : V) :
    ArgparseOption V :=
  ⟨.string, shortName, some longName, some v, none, 0, false⟩

end

namespace Ntnetflow

inductive Opt where
  | verbose | stat | csv | emulateProbe | upstream | downstream | streamCount
  | statInterval | pollInterval | power | chainSize | bucketSize
deriving DecidableEq

/-- `arg_options` of `ntnetflow.c`. -/
def argOptions : OptionTable Opt where
  options := [
    optHelp,
    optBoolean 'v' "verbose".toList .verbose,
    optBoolean 's' "stat".toList .stat,
    optBoolean 'c' "csv".toList .csv,
    optBoolean 'e' "emulate-probing".toList .emulateProbe,
    optInteger 'u' "upstream-port".toList .upstream,
    optInteger 'd' "downstream-port".toList .downstream,
    optInteger 'n' "stream-count".toList .streamCount,
    optInteger 'i' "interval".toList .statInterval,
    optInteger 'p' "poll".toList .pollInterval,
    optInteger 'x' "flowtable-power".toList .power,
    optInteger 'a' "chain-size".toList .chainSize,
    optInteger 'b' "bucket-size".toList .bucketSize]
  apart := by decide
  plain := by decide

/-- The variables before `argparse_parse`. -/
def defaults : Values Opt where
  int
    | .downstream => 1
    | .streamCount => 4
    | .statInterval => 1000
    | .pollInterval => 10
    | .power => 10
    | .chainSize => 1
    | .bucketSize => 4
    | _ => 0
  uint64 _ := 0
  string _ := none

end Ntnetflow

namespace Addrswap

inductive Opt where
  | file | port | numa | substitute
deriving DecidableEq

/-- `arg_options` of `addrswap_replay.c`. -/
def argOptions : OptionTable Opt where
  options := [
    optHelp,
    optString 'f' "file".toList .file,
    optInteger 'p' "port".toList .port,
    optInteger 'n' "numa".toList .numa,
    optString 's' "substitute".toList .substitute]
  apart := by decide
  plain := by decide

def defaults : Values Opt where
  int
    | .port => -1
    | .numa => -1
    | _ => 0
  uint64 _ := 0
  string _ := none

end Addrswap

namespace Boundary

inductive Opt where
  | file | port | loop | modFactor | pathDelay | startTime
deriving DecidableEq

/-- `arg_options` of `boundary_replay.c`. -/
def argOptions : OptionTable Opt where
  options := [
    optHelp,
    optString 'f' "file".toList .file,
    optInteger 'p' "port".toList .port,
    optInteger 'l' "loop".toList .loop,
    optInteger 'm' "modfac".toList .modFactor,
    optInteger 'd' "path_delay".toList .pathDelay,
    optString 's' "starttime".toList .startTime]
  apart := by decide
  plain := by decide

def defaults : Values Opt where
  int
    | .port => -1
    | .modFactor => -1
    | _ => 0
  uint64 _ := 0
  string _ := none

end Boundary

end Argparse

end NtapiExamples
