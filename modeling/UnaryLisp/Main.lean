import UnaryLisp.Command.Respond

/-!
# The command line program

Reads the arguments, the environment variable that sets the verbosity of the log, and the file to
run; prints what the command line asks for.
-/

namespace UnaryLisp

/-- The fault of a file system that answered with an error code, which may come negated. -/
def ReadFault.ofCode (code : UInt32) : ReadFault :=
  match min code (0 - code) with
  | 13 => .permissionDenied
  | 20 => .notDirectory
  | 21 => .isDirectory
  | 36 => .nameTooLong
  | _ => .notFound

/-- The fault behind an error of the file system. -/
def ReadFault.ofError : IO.Error → ReadFault
  | .inappropriateType _ code _ => .ofCode code
  | .invalidArgument _ code _ => .ofCode code
  | .permissionDenied _ code _ => .ofCode code
  | _ => .notFound

/-- The text of a file. -/
def readText (path : Text) : IO (Except ReadFault Text) := do
  if path.contains '\x00' then return .error .nulInName
  try
    let bytes ← IO.FS.readBinFile (String.ofList path)
    match String.fromUTF8? bytes with
    | some s => return .ok s.toList
    | none => return .error .invalidEncoding
  catch e => return .error (.ofError e)

end UnaryLisp

open UnaryLisp in
/-- The program. -/
def main (args : List String) : IO UInt32 := do
  let words := args.map String.toList
  let verbosity := ((← IO.getEnv "RUST_LOG").bind Verbosity.ofWord?).getD .off
  let contents ← match Command.parse words with
    | .ok (.run path _) => readText path
    | _ => pure (.error .notFound)
  match Command.respond Program.ampleRoom verbosity (fun _ => contents) words with
  | none => return 1
  | some output =>
    (← IO.getStdout).putStr output.stdout
    (← IO.getStderr).putStr output.stderr
    return output.exit.toUInt32
