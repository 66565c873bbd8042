import UnaryLisp.Expr.Basic
import UnaryLisp.Text.Quoted

/-!
# Structural dumps of expressions

The dump of an expression shows its structure on one line: every construct with its fields by name,
names as quoted texts.

## Main definitions

* `Expr.dump`: the dump of an expression.
-/

namespace UnaryLisp

/-- The fields of a record between braces, after its title. -/
def record (title : String) (fields : List (String × String)) : String :=
  title ++ " \x7b " ++ ", ".intercalate (fields.map fun (key, value) => key ++ ": " ++ value) ++
    " \x7d"

/-- A name as a quoted text. -/
def Name.dump (name : Name) : String :=
  String.ofList (Quoted.encode name)

/-- The title of an operator. -/
def Operator.dump : Operator → String
  | .add => "Add"
  | .sub => "Sub"
  | .mul => "Mul"
  | .div => "Div"
  | .eq => "Eq"

/-- A truth value in letters. -/
def dumpBool (b : Bool) : String :=
  if b then "true" else "false"

/-- The dump of an expression. -/
def Expr.dump : Expr → String
  | .number n => "Number(" ++ String.ofList (Number.text n) ++ ")"
  | .bool b => "Bool(" ++ dumpBool b ++ ")"
  | .var x => "Var(" ++ Name.dump x ++ ")"
  | .binary op left right =>
    record "Binary" [("op", op.dump), ("left", left.dump), ("right", right.dump)]
  | .cond test yes no =>
    record "If" [("cond", test.dump), ("then_branch", yes.dump), ("else_branch", no.dump)]
  | .letIn name init body =>
    record "Let" [("name", Name.dump name), ("init", init.dump), ("body", body.dump)]
  | .lambda param body => record "Lambda" [("param", Name.dump param), ("body", body.dump)]
  | .call callee arg => record "Call" [("callee", callee.dump), ("arg", arg.dump)]

end UnaryLisp
