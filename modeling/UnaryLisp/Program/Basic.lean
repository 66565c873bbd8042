import UnaryLisp.Eval.Basic
import UnaryLisp.Expr.Parse

/-!
# Programs

A program is a sequence of expressions. Each of them is evaluated by itself, in an empty
environment and with a depth counter of its own, so nothing but the supply of closure identities
passes from one to the next. The results come in the order of the text, and so does the failure
that is reported: the earliest one.

Expressions are evaluated in order up to the first failure; or a pool of workers evaluates all of
them, in any order, and the results are put back in the order of the text. Where there is no such
pool to be had, the expressions are evaluated in order after all.

## Main definitions

* `Failure`: why a program has no results.
* `Program.evaluate`: reads and evaluates one expression.
* `Program.inOrder`, `Program.inParallel`: the evaluations of a sequence of expressions.
* `Program.report`, `Program.run`: the evaluations and the results of a program.
* `Program.formatResults`: the results in print.
-/

namespace UnaryLisp

/-- Why a program has no results. -/
inductive Failure where
  /-- A text is not an expression. -/
  | malformed (cause : SyntaxError)
  /-- An expression has no value. -/
  | undefined (cause : EvalError)
deriving DecidableEq

namespace Failure

/-- The message of a failure. -/
def message : Failure → String
  | malformed cause => cause.message
  | undefined cause => cause.message

/-- The code of a failure. -/
def code : Failure → String
  | malformed cause => cause.code
  | undefined cause => cause.code

end Failure

/-- How a program is run. -/
structure Config where
  /-- Whether the expressions are evaluated in parallel. -/
  parallel : Bool := false
  /-- The ceiling of nested evaluations. -/
  maxDepth : Option Nat := none
deriving DecidableEq

/-- The workers of a parallel run. -/
inductive Pool where
  /-- There are none to be had. -/
  | unavailable
  /-- The expressions come to their turn in the order that is made of their number. -/
  | scheduled (order : Nat → List Nat)

/-- What the evaluation of one expression leaves behind. -/
structure Evaluation where
  /-- The value, or the reason why there is none. -/
  result : Except Failure Value
  /-- The identity of the next closure. -/
  fresh : Nat
  /-- The procedures applied, in order. -/
  journal : List Application

/-- The evaluations of a program. -/
structure Report where
  /-- The expressions of the program. -/
  forms : List Text
  /-- Whether they were evaluated in parallel. -/
  parallel : Bool
  /-- The evaluations of the first expressions or of all, in the order of the text. -/
  evaluations : List Evaluation

/-- The values of a program, or its earliest failure. -/
def Report.result (report : Report) : Except Failure (List Value) :=
  report.evaluations.mapM Evaluation.result

namespace Program

/-- Room for more nested evaluations than any computer can hold. -/
def ampleRoom : Nat := 0x4000000000000000

/-- Reads and evaluates one expression in the empty environment. Closures are numbered from
`fresh`. -/
def evaluate (room : Nat) (maxDepth : Option Nat) (fresh : Nat) (text : Text) : Option Evaluation :=
  match Expr.parse text with
  | .error cause => some ⟨.error (.malformed cause), fresh, []⟩
  | .ok expr =>
    match expr.eval room .empty ⟨.new maxDepth, fresh, []⟩ with
    | none => none
    | some (.error cause, machine) =>
      some ⟨.error (.undefined cause), machine.fresh, machine.journal.reverse⟩
    | some (.ok value, machine) => some ⟨.ok value, machine.fresh, machine.journal.reverse⟩

/-- Evaluates expressions in order, up to the first that fails. -/
def inOrder (room : Nat) (maxDepth : Option Nat) : Nat → List Text → Option (List Evaluation)
  | _, [] => some []
  | fresh, form :: forms =>
    match evaluate room maxDepth fresh form with
    | none => none
    | some evaluation =>
      match evaluation.result with
      | .error _ => some [evaluation]
      | .ok _ => (inOrder room maxDepth evaluation.fresh forms).map (evaluation :: ·)

/-- Evaluates the expressions with the given indices, in the order given, and whatever fails. -/
def inTurn (room : Nat) (maxDepth : Option Nat) (forms : List Text) :
    Nat → List Nat → Option (List (Nat × Evaluation))
  | _, [] => some []
  | fresh, index :: order =>
    match forms[index]? with
    | none => inTurn room maxDepth forms fresh order
    | some form =>
      match evaluate room maxDepth fresh form with
      | none => none
      | some evaluation =>
        (inTurn room maxDepth forms evaluation.fresh order).map ((index, evaluation) :: ·)

/-- Puts evaluations with indices below `count` in the order of their indices. -/
def collect (count : Nat) (done : List (Nat × Evaluation)) : List Evaluation :=
  (List.range count).filterMap fun index => done.lookup index

/-- Evaluates all expressions by a pool of workers, or in order if there is none. -/
def inParallel (pool : Pool) (room : Nat) (maxDepth : Option Nat) (forms : List Text) :
    Option (List Evaluation) :=
  match pool with
  | .unavailable => inOrder room maxDepth 0 forms
  | .scheduled order =>
    (inTurn room maxDepth forms 0 (order forms.length)).map (collect forms.length)

/-- The evaluations of a program, if its brackets match. The pool is the one of a parallel run. -/
def reportWith (pool : Pool) (room : Nat) (config : Config) (source : Text) :
    Option (Except Failure Report) :=
  match splitProgram source with
  | .error cause => some (.error (.malformed cause))
  | .ok forms =>
    let evaluations :=
      if config.parallel then inParallel pool room config.maxDepth forms
      else inOrder room config.maxDepth 0 forms
    evaluations.map fun evaluations => .ok ⟨forms, config.parallel, evaluations⟩

/-- The evaluations of a program, if its brackets match. -/
def report (room : Nat) (config : Config) (source : Text) : Option (Except Failure Report) :=
  reportWith (.scheduled List.range) room config source

/-- The values of a program, or its earliest failure. The pool is the one of a parallel run. -/
def runWith (pool : Pool) (room : Nat) (config : Config) (source : Text) :
    Option (Except Failure (List Value)) :=
  (reportWith pool room config source).map fun outcome => outcome.bind Report.result

/-- The values of a program, or its earliest failure. -/
def run (room : Nat) (config : Config) (source : Text) : Option (Except Failure (List Value)) :=
  runWith (.scheduled List.range) room config source

/-- The results of a program in print. -/
def formatResults (values : List Value) : Text :=
  '[' :: List.intercalate [',', ' '] (values.map Value.text) ++ [']']

end Program

end UnaryLisp
