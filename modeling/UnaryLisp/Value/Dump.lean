import UnaryLisp.Expr.Dump
import UnaryLisp.Value.Basic

/-!
# Structural dumps of values

The dump of a value shows its kind with its contents, that of an environment lists the bindings
from the innermost to the outermost. A closure inside them shows its parameter only; its own dump
adds the body.

## Main definitions

* `Value.dump`, `Environment.dump`: the dumps.
* `Value.closureDump`: the dump of the procedure in a closure.
-/

namespace UnaryLisp

/-- The dump of a value. -/
def Value.dump : Value → String
  | .number n => "Number(" ++ String.ofList (Number.text n) ++ ")"
  | .bool b => "Bool(" ++ dumpBool b ++ ")"
  | .closure _ _ param _ => "Closure(" ++ String.ofList param ++ ")"

/-- The dump of a procedure. -/
def Value.closureDump (param : Name) (body : Expr) : String :=
  "Closure \x7b param: " ++ Name.dump param ++ ", body: " ++ body.dump ++ ", .. \x7d"

/-- The bindings of an environment, the innermost first. -/
def Environment.toList : Environment → List (Name × Value)
  | .empty => []
  | .bind name value outer => (name, value) :: outer.toList

/-- The dump of an environment. -/
def Environment.dump (env : Environment) : String :=
  let bindings := env.toList.map fun (name, value) =>
    "(" ++ Name.dump name ++ ", " ++ value.dump ++ ")"
  "[" ++ ", ".intercalate bindings ++ "]"

end UnaryLisp
