import UnaryLisp.Eval.Error

/-!
# Operators on values

Equality compares any two values. The arithmetic operators take numbers and give the exact result or
an error; of two operands of the wrong kind the left one is reported.

## Main definitions

* `Operator.apply`: the value of an operator on two values.
-/

namespace UnaryLisp

namespace Operator

/-- The exact result of an operation, or an overflow. -/
def exact (op : Operator) (f : Number → Number → Option Number) (a b : Number) :
    Except EvalError Number :=
  match f a b with
  | some n => .ok n
  | none => .error (.integerOverflow op a b)

/-- The quotient of two numbers. -/
def quotient (a b : Number) : Except EvalError Number :=
  if b = 0 then .error (.divisionByZero a) else exact .div Number.div? a b

/-- An operation on numbers, applied to two values that should be numbers. -/
def onNumbers (op : Operator) (f : Number → Number → Except EvalError Number) :
    Value → Value → Except EvalError Value
  | .number a, .number b => (f a b).map .number
  | .number _, other => .error (.typeMismatch (.operand op) other.kind)
  | other, _ => .error (.typeMismatch (.operand op) other.kind)

/-- The value of an operator on two values. -/
def apply (op : Operator) (left right : Value) : Except EvalError Value :=
  match op with
  | .add => onNumbers .add (exact .add Number.add?) left right
  | .sub => onNumbers .sub (exact .sub Number.sub?) left right
  | .mul => onNumbers .mul (exact .mul Number.mul?) left right
  | .div => onNumbers .div quotient left right
  | .eq => .ok (.bool (left.same right))

end Operator

end UnaryLisp
