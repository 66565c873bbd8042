import UnaryLisp.Proofs.Eval.Lockstep

/-!
# Substituting literals

A name that is bound to a number or a truth value may as well be replaced by it: an expression in an
environment that binds the name is evaluated in lockstep with the expression that has the literal in
place of the free occurrences of the name, in the environment without the binding. The two
evaluations add the same names to their environments. Once the name is bound again, the literal is
out of sight, and what follows is the same expression on both sides.

## Main definitions

* `Literal`: numbers and truth values, as expressions and as values.
* `Expr.subst`: an expression with a literal in place of the free occurrences of a name.
* `Value.Replaced`, `Outcome.Replaced`: what the two evaluations end with.

## Main results

* `Comparison.isSimulation_subst`: binding a name and replacing it are a simulation.
* `Expr.endAlike_subst`: an expression in an environment that binds a name to a literal ends as the
  expression with the literal in place of the name.
-/

namespace UnaryLisp

/-! ### Substitution -/

/-- A number or a truth value. -/
inductive Literal where
  | number (value : Number)
  | bool (value : Bool)
deriving DecidableEq

namespace Literal

/-- The literal as an expression. -/
def expr : Literal → Expr
  | number n => .number n
  | bool b => .bool b

/-- The literal as a value. -/
def value : Literal → Value
  | number n => .number n
  | bool b => .bool b

theorem leaf?_expr (c : Literal) (env : Environment) : c.expr.leaf? env = some (.ok c.value) := by
  cases c <;> rfl

end Literal

namespace Expr

/-- The expression with the literal in place of the free occurrences of the name. The initializer of
a `letIn` that binds the name again is outside of that binding. -/
def subst (x : Name) (c : Literal) : Expr → Expr
  | .number n => .number n
  | .bool b => .bool b
  | .var y => if y = x then c.expr else .var y
  | .binary op left right => .binary op (left.subst x c) (right.subst x c)
  | .cond test yes no => .cond (test.subst x c) (yes.subst x c) (no.subst x c)
  | .letIn y init body => .letIn y (init.subst x c) (if y = x then body else body.subst x c)
  | .lambda y body => .lambda y (if y = x then body else body.subst x c)
  | .call callee arg => .call (callee.subst x c) (arg.subst x c)

/-- The expression with the literal in place of the name where the literal is in sight, and the
expression itself where the name is bound again. -/
def substIf (inSight : Bool) (x : Name) (c : Literal) (e : Expr) : Expr :=
  if inSight then e.subst x c else e

section

variable {inSight : Bool} {x y : Name} {c : Literal}

theorem substIf_binary (op : Operator) (left right : Expr) :
    (binary op left right).substIf inSight x c =
      .binary op (left.substIf inSight x c) (right.substIf inSight x c) := by
  cases inSight <;> rfl

theorem substIf_cond (test yes no : Expr) :
    (cond test yes no).substIf inSight x c =
      .cond (test.substIf inSight x c) (yes.substIf inSight x c) (no.substIf inSight x c) := by
  cases inSight <;> rfl

/-- Inside a binding of the name the literal is out of sight. -/
theorem substIf_inside (body : Expr) :
    body.substIf (inSight && y ≠ x) x c =
      if inSight then (if y = x then body else body.subst x c) else body := by
  cases inSight with
  | false => rfl
  | true => by_cases hy : y = x <;> simp [substIf, hy]

theorem substIf_letIn (init body : Expr) :
    (letIn y init body).substIf inSight x c =
      .letIn y (init.substIf inSight x c) (body.substIf (inSight && y ≠ x) x c) := by
  rw [substIf_inside]
  cases inSight <;> rfl

theorem substIf_lambda (body : Expr) :
    (lambda y body).substIf inSight x c = .lambda y (body.substIf (inSight && y ≠ x) x c) := by
  rw [substIf_inside]
  cases inSight <;> rfl

theorem substIf_call (callee arg : Expr) :
    (call callee arg).substIf inSight x c =
      .call (callee.substIf inSight x c) (arg.substIf inSight x c) := by
  cases inSight <;> rfl

end

end Expr

/-! ### Values and environments that correspond -/

/-- The first environment has a binding of the name to the literal that the second has not, or none;
further in, they bind the same names to related values. The literal is in sight unless the name is
bound again. -/
inductive Environment.Replaced (x : Name) (c : Literal) (R : Value → Value → Prop) :
    Bool → Environment → Environment → Prop
  | here (env : Environment) : Replaced x c R true (env.bind x c.value) env
  | same (env : Environment) : Replaced x c R false env env
  | bind {inSight : Bool} {env env' : Environment} {y : Name} {v w : Value} (hv : R v w)
      (h : Replaced x c R inSight env env') :
      Replaced x c R (inSight && y ≠ x) (env.bind y v) (env'.bind y w)

/-- The values are the same number or truth value, or closures with one identity and one parameter,
where the second has the literal in place of the name unless the name is bound again. -/
inductive Value.Replaced (x : Name) (c : Literal) : Value → Value → Prop
  | number (n : Number) : Replaced x c (.number n) (.number n)
  | bool (b : Bool) : Replaced x c (.bool b) (.bool b)
  | closure {i : Nat} {inSight : Bool} {env env' : Environment} {y : Name} {body : Expr}
      (henv : Environment.Replaced x c (Replaced x c) inSight env env') :
      Replaced x c (.closure i env y body)
        (.closure i env' y (body.substIf (inSight && y ≠ x) x c))

/-- The outcomes are values that correspond, or the same error. -/
def Outcome.Replaced (x : Name) (c : Literal) : Outcome → Outcome → Prop :=
  Corresponds (Value.Replaced x c) fun _ => True

section

variable {x : Name} {c : Literal}

theorem Value.Replaced.refl (v : Value) : Value.Replaced x c v v := by
  cases v with
  | number n => exact .number n
  | bool b => exact .bool b
  | closure _ env _ _ => exact .closure (.same env)

theorem Outcome.Replaced.refl (r : Outcome) : Outcome.Replaced x c r r := by
  cases r with
  | ok v => exact .ok (.refl v)
  | error _ => exact .error trivial

namespace Environment.Replaced

variable {inSight : Bool} {env env' : Environment}

/-- Where the literal is in sight, it is the value of the name. -/
theorem value_of_inSight (h : Replaced x c (Value.Replaced x c) inSight env env')
    (hsight : inSight = true) : env.value x = .ok c.value := by
  induction h with
  | here env => rw [value_bind, if_pos rfl]
  | same env => contradiction
  | bind _ _ ih =>
    rw [Bool.and_eq_true, decide_eq_true_iff] at hsight
    rw [value_bind, if_neg hsight.2]
    exact ih hsight.1

/-- Names that are not replaced have values that correspond. -/
theorem value (h : Replaced x c (Value.Replaced x c) inSight env env') {y : Name}
    (hy : inSight = true → y ≠ x) : Outcome.Replaced x c (env.value y) (env'.value y) := by
  induction h with
  | here env =>
    rw [value_bind, if_neg (Ne.symm (hy rfl))]
    exact .refl _
  | same env => exact .refl _
  | @bind inSight _ _ z _ _ hv _ ih =>
    rw [value_bind, value_bind]
    by_cases hz : z = y
    · rw [if_pos hz, if_pos hz]
      exact .ok hv
    · rw [if_neg hz, if_neg hz]
      refine ih fun hsight hyx => hy ?_ hyx
      rw [hsight, Bool.true_and, decide_eq_true_iff]
      exact fun hzx => hz (hzx.trans hyx.symm)

end Environment.Replaced

end

/-! ### The simulation -/

/-- An expression corresponds to the one with the literal in place of the name, as long as the
literal is in sight. -/
def Comparison.subst (x : Name) (c : Literal) : Comparison where
  link := .same
  Allowed _ := True
  Values := Value.Replaced x c
  Code env e env' e' := ∃ inSight, Environment.Replaced x c (Value.Replaced x c) inSight env env' ∧
    e' = e.substIf inSight x c

namespace Comparison

variable {x : Name} {c : Literal} {inSight : Bool} {env env' : Environment}

theorem code_subst (henv : Environment.Replaced x c (Value.Replaced x c) inSight env env')
    (e : Expr) : (subst x c).Code env e env' (e.substIf inSight x c) :=
  ⟨inSight, henv, rfl⟩

theorem level_subst_var (henv : Environment.Replaced x c (Value.Replaced x c) inSight env env')
    (y : Name) : (subst x c).Level env (.var y) env' ((Expr.var y).substIf inSight x c) := by
  by_cases hreplaced : inSight = true ∧ y = x
  · obtain ⟨rfl, rfl⟩ := hreplaced
    have hexpr : (Expr.var y).substIf true y c = c.expr := by
      rw [Expr.substIf, if_pos rfl, Expr.subst, if_pos rfl]
    have hvalue := henv.value_of_inSight rfl
    rw [hexpr]
    exact .leaf (congrArg some hvalue) (c.leaf?_expr env') (.ok (.refl c.value))
  · rw [not_and] at hreplaced
    have hexpr : (Expr.var y).substIf inSight x c = .var y := by
      cases inSight with
      | false => rfl
      | true => exact if_neg (hreplaced rfl)
    rw [hexpr]
    exact .leaf rfl rfl (henv.value hreplaced)

theorem level_subst (henv : Environment.Replaced x c (Value.Replaced x c) inSight env env')
    (e : Expr) : (subst x c).Level env e env' (e.substIf inSight x c) := by
  cases e with
  | number n =>
    have hexpr : (Expr.number n).substIf inSight x c = .number n := by cases inSight <;> rfl
    rw [hexpr]
    exact .leaf rfl rfl (.ok (.number n))
  | bool b =>
    have hexpr : (Expr.bool b).substIf inSight x c = .bool b := by cases inSight <;> rfl
    rw [hexpr]
    exact .leaf rfl rfl (.ok (.bool b))
  | var y => exact level_subst_var henv y
  | binary op left right =>
    rw [Expr.substIf_binary]
    exact .binary (code_subst henv left) (code_subst henv right)
  | cond test yes no =>
    rw [Expr.substIf_cond]
    exact .cond (code_subst henv test) (code_subst henv yes) (code_subst henv no)
  | letIn y init body =>
    rw [Expr.substIf_letIn]
    exact .letIn (code_subst henv init) fun v w hv => code_subst (.bind hv henv) body
  | lambda y body =>
    rw [Expr.substIf_lambda]
    refine .lambda fun i j hij => ?_
    obtain rfl : i = j := hij
    exact .closure henv
  | call callee arg =>
    rw [Expr.substIf_call]
    exact .call (code_subst henv callee) (code_subst henv arg)

/-- Binding a name to a literal and replacing it by the literal are a simulation. -/
theorem isSimulation_subst (x : Name) (c : Literal) : (subst x c).IsSimulation where
  allowed _ := trivial
  number := .number
  bool := .bool
  values h := by
    cases h with
    | number n => exact .number n
    | bool b => exact .bool b
    | closure henv => exact .closure rfl fun v w hv => code_subst (.bind hv henv) _
  code := by
    rintro env e env' _ ⟨inSight, henv, rfl⟩
    exact level_subst henv e

end Comparison

namespace Expr

/-- From every state, an expression in an environment that binds a name to a literal goes on for
ever or ends together with the expression that has the literal in place of the name, in the
environment without the binding: with the same error, with the same number or truth value, or with
closures that have one parameter and correspond. -/
theorem endAlike_subst (machine : Machine) (env : Environment) (x : Name) (c : Literal)
    (body : Expr) :
    EndAlike (Outcome.Replaced x c) machine (env.bind x c.value) body env (body.subst x c) :=
  (Comparison.isSimulation_subst x c).endAlike rfl machine ⟨true, .here env, rfl⟩

end Expr

end UnaryLisp
