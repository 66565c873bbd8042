import UnaryLisp.Program.Basic
import UnaryLisp.Text.Decimal

/-!
# Command lines

What the arguments of the command line ask for. They are read in order: an option that asks for
help or for the version ends the reading, and so does an argument that is in error.

## Main definitions

* `Argument`: what one argument is.
* `Command`: what a command line asks for.
* `UsageError`: why a command line asks for nothing.
* `Command.parse`: the command of a list of arguments.
-/

namespace UnaryLisp

/-- What one argument of a command line is. -/
inductive Argument where
  | help
  | version
  | parallel
  | maxDepth (value : Text)
  | unknown
  | file
deriving DecidableEq

namespace Argument

/-- The start of the option that sets the ceiling of nested evaluations. -/
def maxDepthStart : Text := "--max-depth=".toList

/-- What an argument is. A lone hyphen names a file. -/
def ofText (arg : Text) : Argument :=
  if arg = "-h".toList ∨ arg = "--help".toList then .help
  else if arg = "-V".toList ∨ arg = "--version".toList then .version
  else if arg = "--parallel".toList then .parallel
  else if maxDepthStart.isPrefixOf arg then .maxDepth (arg.drop maxDepthStart.length)
  else if arg.head? = some '-' ∧ arg ≠ ['-'] then .unknown
  else .file

end Argument

/-- What a command line asks for. -/
inductive Command where
  /-- To run the program in a file. -/
  | run (path : Text) (config : Config)
  /-- To print the help. -/
  | help
  /-- To print the version. -/
  | version
deriving DecidableEq

/-- Why a command line asks for nothing. -/
inductive UsageError where
  | missingFile
  | unexpectedArgument (arg : Text)
  | unknownOption (arg : Text)
  | invalidMaxDepth (value : Text)
deriving DecidableEq

/-- The text between two single quotes, as messages about files and arguments quote it. -/
def Text.singleQuoted (t : Text) : String :=
  "'" ++ String.ofList t ++ "'"

/-- The message of a usage error. -/
def UsageError.message : UsageError → String
  | missingFile => "missing file path"
  | unexpectedArgument arg => "unexpected argument " ++ arg.singleQuoted
  | unknownOption arg => "unknown option " ++ arg.singleQuoted
  | invalidMaxDepth value =>
    "invalid value " ++ value.singleQuoted ++ " for --max-depth: expected a positive integer"

namespace Command

/-- A ceiling of nested evaluations: a positive number below `2 ^ 64` in decimal digits, with or
without a plus sign before it. -/
def readDepth? (value : Text) : Option Nat :=
  let digits := match value with
    | '+' :: digits => digits
    | digits => digits
  if Decimal.isRun digits ∧ 0 < Decimal.value digits ∧ Decimal.value digits < UInt64.size then
    some (Decimal.value digits)
  else none

/-- Reads arguments one after the other, given the file and the settings so far. -/
def parseFrom (path : Option Text) (config : Config) : List Text → Except UsageError Command
  | [] =>
    match path with
    | some path => .ok (.run path config)
    | none => .error .missingFile
  | arg :: args =>
    match Argument.ofText arg with
    | .help => .ok .help
    | .version => .ok .version
    | .parallel => parseFrom path { config with parallel := true } args
    | .maxDepth value =>
      match readDepth? value with
      | some depth => parseFrom path { config with maxDepth := some depth } args
      | none => .error (.invalidMaxDepth value)
    | .unknown => .error (.unknownOption arg)
    | .file =>
      match path with
      | none => parseFrom (some arg) config args
      | some _ => .error (.unexpectedArgument arg)

/-- The command of a list of arguments. -/
def parse (args : List Text) : Except UsageError Command :=
  parseFrom none {} args

end Command

end UnaryLisp
