import UnaryLisp.Eval.Depth
import UnaryLisp.SyntaxError
import UnaryLisp.Value.Basic

/-!
# Errors of evaluation

Why an expression has no value. Each cause carries the values at fault, has a message for people,
and has a code for programs.

## Main definitions

* `EvalError`: the causes.
* `EvalError.message`, `EvalError.code`: their wording and their codes.
-/

namespace UnaryLisp

/-- A construct that takes values of one kind only. -/
inductive Demand where
  /-- The test of a choice is a truth value. -/
  | test
  /-- The operands of an arithmetic operator are numbers. -/
  | operand (op : Operator)
deriving DecidableEq

namespace Demand

/-- The spelling of the construct. -/
def symbol : Demand → Text
  | test => Keyword.cond.symbol
  | operand op => op.symbol

/-- The kind of value that it takes. -/
def kind : Demand → Kind
  | test => .boolean
  | operand _ => .number

end Demand

/-- Why an expression has no value. -/
inductive EvalError where
  /-- A name that nothing binds. -/
  | unboundVariable (name : Name)
  /-- A call of a value that is no procedure. -/
  | applyNonFunction (value : Value)
  /-- A value of another kind than the construct takes. -/
  | typeMismatch (demand : Demand) (found : Kind)
  /-- A division by zero. -/
  | divisionByZero (dividend : Number)
  /-- An exact result that 64 bits do not hold. -/
  | integerOverflow (op : Operator) (left right : Number)
  /-- More nested evaluations than the ceiling allows. -/
  | recursionLimit (limit : Nat)
deriving DecidableEq

namespace EvalError

/-- The message of an error. -/
def message : EvalError → String
  | unboundVariable name => "unbound variable " ++ name.ticked
  | applyNonFunction value =>
    "cannot apply " ++ value.text.ticked ++ ": only procedures can be called"
  | typeMismatch demand found =>
    demand.symbol.ticked ++ " expects a " ++ demand.kind.word ++ ", found a " ++ found.word
  | divisionByZero dividend =>
    "division of " ++ String.ofList (Number.text dividend) ++ " by zero"
  | integerOverflow op left right =>
    let term := "(".toList ++ op.symbol ++ " ".toList ++ Number.text left ++ " ".toList ++
      Number.text right ++ ")".toList
    "integer overflow in " ++ Text.ticked term
  | recursionLimit limit => DepthLimit.exceededMessage limit

/-- The code of an error. -/
def code : EvalError → String
  | unboundVariable _ => "E6001"
  | applyNonFunction _ => "E6002"
  | typeMismatch _ _ => "E6003"
  | divisionByZero _ => "E6004"
  | integerOverflow _ _ _ => "E6005"
  | recursionLimit _ => "E6006"

end EvalError

end UnaryLisp
