import UnaryLisp.Command.Basic
import UnaryLisp.Directory
import UnaryLisp.Program.Log

/-!
# Carrying out a command line

What a command line prints and how it exits, given a way to read files.

## Main definitions

* `RunError`: why a file has no results.
* `Command.runFile`: the results of the program in a file.
* `Output`: what is printed, and the exit code.
* `Command.respond`: the output of a command line.
-/

namespace UnaryLisp

/-- Why a file has no results. -/
inductive RunError where
  /-- The file cannot be read. -/
  | unreadable (path : Text) (fault : ReadFault)
  /-- The program in it fails. -/
  | failed (cause : Failure)
deriving DecidableEq

namespace RunError

/-- The message of an error. -/
def message : RunError → String
  | unreadable path fault => "cannot read " ++ path.singleQuoted ++ ": " ++ fault.message
  | failed cause => cause.message

/-- The code of an error; a file that cannot be read has none. -/
def code? : RunError → Option String
  | unreadable _ _ => none
  | failed cause => some cause.code

/-- The line that reports an error. -/
def line (e : RunError) : String :=
  match e.code? with
  | some code => "error[" ++ code ++ "]: " ++ e.message ++ "\n"
  | none => "error: " ++ e.message ++ "\n"

end RunError

/-- What a command prints, and its exit code. -/
structure Output where
  exit : Nat
  stdout : String
  stderr : String
deriving DecidableEq

namespace Command

/-- The lines of the help. -/
def usageLines : List String :=
  ["Usage: lispi <FILE> [options]",
    "",
    "Evaluate every top-level expression in FILE and print the results.",
    "",
    "Options:",
    "  --parallel          Evaluate top-level expressions on a thread pool",
    "  --max-depth=<N>     Maximum evaluation depth (default: unlimited)",
    "  -h, --help          Print this help",
    "  -V, --version       Print the version"]

/-- The help. -/
def usage : String :=
  String.join (usageLines.map (· ++ "\n"))

/-- The version. -/
def versionLine : String :=
  "lispi 0.1.0\n"

/-- The evaluations of the program in a file. -/
def reportFile (room : Nat) (config : Config) (read : Text → Except ReadFault Text) (path : Text) :
    Option (Except RunError Report) :=
  match read path with
  | .error fault => some (.error (.unreadable path fault))
  | .ok source => (Program.report room config source).map (·.mapError .failed)

/-- The results of the program in a file. -/
def runFile (room : Nat) (config : Config) (read : Text → Except ReadFault Text) (path : Text) :
    Option (Except RunError (List Value)) :=
  (reportFile room config read path).map (·.bind (·.result.mapError .failed))

/-- The output of running the program in a file, with the log before the error. -/
def outputOf (verbosity : Verbosity) (outcome : Except RunError Report) : Output :=
  match outcome with
  | .error e => ⟨1, "", e.line⟩
  | .ok report =>
    match report.result with
    | .ok values => ⟨0, String.ofList (Program.formatResults values) ++ "\n", report.log verbosity⟩
    | .error cause => ⟨1, "", report.log verbosity ++ (RunError.failed cause).line⟩

/-- The output of a command line. -/
def respond (room : Nat) (verbosity : Verbosity) (read : Text → Except ReadFault Text)
    (args : List Text) : Option Output :=
  match parse args with
  | .ok .help => some ⟨0, usage, ""⟩
  | .ok .version => some ⟨0, versionLine, ""⟩
  | .ok (.run path config) => (reportFile room config read path).map (outputOf verbosity)
  | .error e => some ⟨1, "", "error: " ++ e.message ++ "\n\n" ++ usage⟩

end Command

end UnaryLisp
