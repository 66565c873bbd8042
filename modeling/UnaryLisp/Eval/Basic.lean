import UnaryLisp.Eval.Machine
import UnaryLisp.Eval.Operator

/-!
# Evaluation

The value of an expression in an environment. Operands are evaluated from left to right; a choice
evaluates one branch; a call finds that its callee is no procedure before it evaluates the
argument; the body of a procedure is evaluated where the procedure was made. Every evaluation is
nested in that of the expression around it, and counts against the depth limit.

## Main definitions

* `Expr.evalWith`: one level of evaluation, given how expressions further in are evaluated.
* `Expr.eval`: the value of an expression.
-/

namespace UnaryLisp

/-- The innermost value of a name, or the error that there is none. -/
def Environment.value (env : Environment) (name : Name) : Except EvalError Value :=
  match env.lookup name with
  | some value => .ok value
  | none => .error (.unboundVariable name)

namespace Expr

/-- One level of evaluation, in which `eval` evaluates what is nested in the expression. -/
@[inline] def evalWith (eval : Expr → Environment → EvalM Value) (e : Expr) (env : Environment) :
    EvalM Value :=
  match e with
  | .number n => pure (.number n)
  | .bool b => pure (.bool b)
  | .var name => EvalM.ofExcept (env.value name)
  | .binary op left right => do
    let l ← eval left env
    let r ← eval right env
    EvalM.ofExcept (op.apply l r)
  | .cond test yes no => do
    match ← eval test env with
    | .bool true => eval yes env
    | .bool false => eval no env
    | other => throw (.typeMismatch .test other.kind)
  | .letIn name init body => do
    let bound ← eval init env
    eval body (env.bind name bound)
  | .lambda param body => EvalM.closure env param body
  | .call callee arg => do
    match ← eval callee env with
    | .closure _ captured param body =>
      let bound ← eval arg env
      EvalM.note param bound
      eval body (captured.bind param bound)
    | other => throw (.applyNonFunction other)

/-- The value of an expression in an environment, for evaluations nested at most `room` deep. -/
def eval : Nat → Expr → Environment → EvalM Value
  | 0, _, _ => EvalM.outOfRoom
  | room + 1, e, env => EvalM.nested (evalWith (eval room) e env)

theorem eval_succ (room : Nat) (e : Expr) (env : Environment) :
    e.eval (room + 1) env = EvalM.nested (evalWith (eval room) e env) := rfl

end Expr

end UnaryLisp
