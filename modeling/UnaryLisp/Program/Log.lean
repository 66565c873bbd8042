import UnaryLisp.Program.Basic
import UnaryLisp.Text.Quoted

/-!
# The log of a run

A run can tell what it does, one entry for an event: the program is cut, an expression comes to its
turn, a bracketed text is read, a procedure is applied, an expression has a value or fails. A
verbosity decides which entries are kept.

## Main definitions

* `Verbosity`: how much is told.
* `Event`: what is told.
* `Report.events`: the events of a run.
* `Report.log`: the entries that a verbosity keeps.
-/

namespace UnaryLisp

/-- How much a log tells, from nothing to everything. -/
inductive Verbosity where
  | off
  | error
  | warn
  | info
  | debug
  | trace
deriving DecidableEq

namespace Verbosity

/-- The place of a verbosity on the way from nothing to everything. -/
def rank : Verbosity → Nat
  | off => 0
  | error => 1
  | warn => 2
  | info => 3
  | debug => 4
  | trace => 5

/-- The word for a verbosity. -/
def word : Verbosity → String
  | off => "off"
  | error => "error"
  | warn => "warn"
  | info => "info"
  | debug => "debug"
  | trace => "trace"

/-- The verbosity with a given word. -/
def ofWord? (word : String) : Option Verbosity :=
  [off, error, warn, info, debug, trace].find? fun v => v.word == word

end Verbosity

/-- Something that happens in a run. -/
inductive Event where
  /-- The program is cut into its expressions. -/
  | started (count : Nat) (parallel : Bool)
  /-- An expression comes to its turn. -/
  | turn (index : Nat)
  /-- A bracketed text is read. -/
  | reading (form : Text)
  /-- A procedure is applied. -/
  | applying (application : Application)
  /-- An expression has a value. -/
  | evaluated (value : Value)
  /-- An expression fails. -/
  | failed (cause : Failure)

namespace Event

/-- The least verbosity that tells of an event. -/
def verbosity : Event → Verbosity
  | reading _ | applying _ => .trace
  | started _ _ | turn _ | evaluated _ | failed _ => .debug

/-- The entry of an event. -/
def entry : Event → String
  | started count parallel =>
    " DEBUG lispi::program run program, count=" ++ toString count ++ ", parallel=" ++
      (if parallel then "true" else "false")
  | turn index => " lispi::program::expr\x7bindex=" ++ toString index ++ "\x7d"
  | reading form =>
    "  TRACE lispi_syntax::parser parse form, form=" ++ String.ofList (Quoted.encode form)
  | applying app =>
    "  TRACE lispi_eval::evaluator apply closure, param=" ++ String.ofList app.param ++ ", arg=" ++
      String.ofList app.arg.text ++ ", depth=" ++ toString app.depth
  | evaluated value => "  DEBUG lispi::program evaluated, result=" ++ String.ofList value.text
  | failed cause => "  DEBUG lispi::program failed, error=" ++ cause.message

end Event

/-- A text with every line but the first set off by three spaces. A carriage return at the end of a
line is dropped. -/
def Text.hanging : Text → Text
  | [] => []
  | '\r' :: '\n' :: t => '\n' :: ' ' :: ' ' :: ' ' :: hanging t
  | '\n' :: t => '\n' :: ' ' :: ' ' :: ' ' :: hanging t
  | c :: t => c :: hanging t

namespace Report

/-- The events of one evaluation. -/
def eventsOf (index : Nat) (form : Text) (evaluation : Evaluation) : List Event :=
  let ending := match evaluation.result with
    | .ok value => .evaluated value
    | .error cause => .failed cause
  .turn index :: (Expr.formsBegun form).map .reading ++ evaluation.journal.map .applying ++
    [ending]

/-- The events of a run. -/
def events (report : Report) : List Event :=
  let turns := (report.forms.zip report.evaluations).zipIdx
  .started report.forms.length report.parallel ::
    turns.flatMap fun ((form, evaluation), index) => eventsOf index form evaluation

/-- The log of a run: the entries that a verbosity keeps, each on lines of its own. -/
def log (verbosity : Verbosity) (report : Report) : String :=
  if verbosity.rank < Verbosity.debug.rank then ""
  else
    let told := report.events.filter fun event => event.verbosity.rank ≤ verbosity.rank
    String.join (told.map fun event =>
      String.ofList (Text.hanging event.entry.toList) ++ "\n")

end Report

end UnaryLisp
