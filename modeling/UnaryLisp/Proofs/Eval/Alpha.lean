import Mathlib.Data.List.Basic
import UnaryLisp.Proofs.Eval.Lockstep

/-!
# Renaming bound names

What an expression evaluates to does not depend on the names that it binds. In its nameless form an
expression refers to a binding around it by the number of bindings in between, and to a name that it
does not bind by that name. Expressions with the same nameless form are evaluated in lockstep: the
bindings that the two evaluations add to the environment they start from may have other names, but
have values that correspond, in the same order.

## Main definitions

* `Nameless`, `Expr.nameless`: expressions without the names of their bindings.
* `Expr.AlphaEq`: two expressions differ only in the names that they bind.
* `Environment.Frames`: two environments extend a common one by bindings that correspond.
* `Value.Alpha`, `Outcome.Alpha`: what two evaluations of such expressions end with.

## Main results

* `Comparison.isSimulation_alpha`: expressions with the same nameless form are a simulation.
* `Expr.endAlike_of_alphaEq`: expressions that differ only in the names that they bind end alike.
-/

namespace UnaryLisp

/-! ### Expressions without names -/

/-- What a name refers to. -/
inductive Reference where
  /-- A binding, found behind `index` others. -/
  | bound (index : Nat)
  /-- A name that the expression does not bind. -/
  | free (name : Name)
deriving DecidableEq

namespace Reference

/-- The reference from inside one more binding. -/
def deeper : Reference → Reference
  | bound index => bound (index + 1)
  | free name => free name

/-- What a name refers to where the names in `scope` are bound, the innermost first. -/
def resolve : List Name → Name → Reference
  | [], x => free x
  | y :: scope, x => if y = x then bound 0 else (resolve scope x).deeper

theorem deeper_injective {r r' : Reference} (h : r.deeper = r'.deeper) : r = r' := by
  cases r <;> cases r' <;> simp_all [deeper]

theorem deeper_ne_bound_zero (r : Reference) : r.deeper ≠ bound 0 := by
  cases r <;> simp [deeper]

end Reference

/-- An expression without the names of its bindings. -/
inductive Nameless where
  | number (value : Number)
  | bool (value : Bool)
  | var (reference : Reference)
  | binary (op : Operator) (left right : Nameless)
  | cond (test yes no : Nameless)
  | letIn (init body : Nameless)
  | lambda (body : Nameless)
  | call (callee arg : Nameless)
deriving DecidableEq

namespace Expr

/-- The nameless form of an expression where the names in `scope` are bound. -/
def nameless : List Name → Expr → Nameless
  | _, .number n => .number n
  | _, .bool b => .bool b
  | scope, .var x => .var (.resolve scope x)
  | scope, .binary op left right => .binary op (left.nameless scope) (right.nameless scope)
  | scope, .cond test yes no =>
    .cond (test.nameless scope) (yes.nameless scope) (no.nameless scope)
  | scope, .letIn x init body => .letIn (init.nameless scope) (body.nameless (x :: scope))
  | scope, .lambda x body => .lambda (body.nameless (x :: scope))
  | scope, .call callee arg => .call (callee.nameless scope) (arg.nameless scope)

/-- The expressions differ only in the names that they bind. -/
def AlphaEq (e e' : Expr) : Prop :=
  e.nameless [] = e'.nameless []

instance (e e' : Expr) : Decidable (AlphaEq e e') :=
  inferInstanceAs (Decidable (e.nameless [] = e'.nameless []))

end Expr

/-! ### Values and environments that correspond -/

/-- The environments extend the same environment by bindings of the names in the two lists, with
values that are related in order. -/
inductive Environment.Frames (R : Value → Value → Prop) :
    List Name → List Name → Environment → Environment → Prop
  | same (env : Environment) : Frames R [] [] env env
  | bind {xs ys : List Name} {env env' : Environment} {x y : Name} {v w : Value} (hv : R v w)
      (h : Frames R xs ys env env') : Frames R (x :: xs) (y :: ys) (env.bind x v) (env'.bind y w)

/-- The values are the same number or truth value, or closures with one identity whose bodies have
the same nameless form relative to the environments in which they were made. -/
inductive Value.Alpha : Value → Value → Prop
  | number (n : Number) : Alpha (.number n) (.number n)
  | bool (b : Bool) : Alpha (.bool b) (.bool b)
  | closure {i : Nat} {xs ys : List Name} {env env' : Environment} {x y : Name} {body body' : Expr}
      (henv : Environment.Frames Alpha xs ys env env')
      (hbody : body.nameless (x :: xs) = body'.nameless (y :: ys)) :
      Alpha (.closure i env x body) (.closure i env' y body')

theorem Value.Alpha.refl (v : Value) : v.Alpha v := by
  cases v with
  | number n => exact .number n
  | bool b => exact .bool b
  | closure _ env _ _ => exact .closure (.same env) rfl

/-- The outcomes are values that correspond, or the same error. -/
def Outcome.Alpha : Outcome → Outcome → Prop :=
  Corresponds Value.Alpha fun _ => True

/-- Names that refer to the same binding have values that correspond. -/
theorem Environment.Frames.value {xs ys : List Name} {env env' : Environment}
    (h : Frames Value.Alpha xs ys env env') {x y : Name}
    (href : Reference.resolve xs x = Reference.resolve ys y) :
    Outcome.Alpha (env.value x) (env'.value y) := by
  induction h with
  | same env =>
    obtain rfl : x = y := Reference.free.inj href
    cases env.value x with
    | ok v => exact .ok (.refl v)
    | error e => exact .error trivial
  | @bind _ _ env env' x' y' v w hv _ ih =>
    rw [Reference.resolve, Reference.resolve] at href
    rw [Environment.value_bind, Environment.value_bind]
    -- the names are bound by these frames both or neither
    split at href
    · next hx =>
      split at href
      · next hy =>
        rw [if_pos hx, if_pos hy]
        exact .ok hv
      · exact absurd href.symm (Reference.deeper_ne_bound_zero _)
    · next hx =>
      split at href
      · exact absurd href (Reference.deeper_ne_bound_zero _)
      · next hy =>
        rw [if_neg hx, if_neg hy]
        exact ih (Reference.deeper_injective href)

/-! ### The simulation -/

/-- Expressions correspond when they have the same nameless form relative to bindings that
correspond. -/
def Comparison.alpha : Comparison where
  link := .same
  Allowed _ := True
  Values := Value.Alpha
  Code env e env' e' := ∃ xs ys, Environment.Frames Value.Alpha xs ys env env' ∧
    e.nameless xs = e'.nameless ys

namespace Comparison

theorem level_alpha {xs ys : List Name} {env env' : Environment} {e e' : Expr}
    (henv : Environment.Frames Value.Alpha xs ys env env') (h : e.nameless xs = e'.nameless ys) :
    alpha.Level env e env' e' := by
  cases e with
  | number n =>
    cases e' <;> simp only [Expr.nameless, reduceCtorEq, Nameless.number.injEq] at h
    exact .leaf rfl rfl (.ok (h ▸ .number n))
  | bool b =>
    cases e' <;> simp only [Expr.nameless, reduceCtorEq, Nameless.bool.injEq] at h
    exact .leaf rfl rfl (.ok (h ▸ .bool b))
  | var x =>
    cases e' <;> simp only [Expr.nameless, reduceCtorEq, Nameless.var.injEq] at h
    exact .leaf rfl rfl (henv.value h)
  | binary op left right =>
    cases e' <;> simp only [Expr.nameless, reduceCtorEq, Nameless.binary.injEq] at h
    obtain ⟨rfl, hl, hr⟩ := h
    exact .binary ⟨xs, ys, henv, hl⟩ ⟨xs, ys, henv, hr⟩
  | cond test yes no =>
    cases e' <;> simp only [Expr.nameless, reduceCtorEq, Nameless.cond.injEq] at h
    obtain ⟨ht, hy, hn⟩ := h
    exact .cond ⟨xs, ys, henv, ht⟩ ⟨xs, ys, henv, hy⟩ ⟨xs, ys, henv, hn⟩
  | letIn x init body =>
    cases e' <;> simp only [Expr.nameless, reduceCtorEq, Nameless.letIn.injEq] at h
    obtain ⟨hi, hb⟩ := h
    exact .letIn ⟨xs, ys, henv, hi⟩ fun v w hv => ⟨_, _, .bind hv henv, hb⟩
  | lambda x body =>
    cases e' <;> simp only [Expr.nameless, reduceCtorEq, Nameless.lambda.injEq] at h
    refine .lambda fun i j hij => ?_
    obtain rfl : i = j := hij
    exact .closure henv h
  | call callee arg =>
    cases e' <;> simp only [Expr.nameless, reduceCtorEq, Nameless.call.injEq] at h
    obtain ⟨hc, ha⟩ := h
    exact .call ⟨xs, ys, henv, hc⟩ ⟨xs, ys, henv, ha⟩

/-- Expressions with the same nameless form are a simulation. -/
theorem isSimulation_alpha : alpha.IsSimulation where
  allowed _ := trivial
  number := .number
  bool := .bool
  values h := by
    cases h with
    | number n => exact .number n
    | bool b => exact .bool b
    | closure henv hbody => exact .closure rfl fun v w hv => ⟨_, _, .bind hv henv, hbody⟩
  code := by
    rintro env e env' e' ⟨xs, ys, henv, h⟩
    exact level_alpha henv h

end Comparison

namespace Expr

/-- In every environment, and from every state, expressions that differ only in the names that they
bind go on for ever both or end both, with the same error or with values that correspond. -/
theorem endAlike_of_alphaEq {e e' : Expr} (h : e.AlphaEq e') (machine : Machine)
    (env : Environment) : EndAlike Outcome.Alpha machine env e env e' :=
  Comparison.isSimulation_alpha.endAlike rfl machine ⟨[], [], .same env, h⟩

/-- Two names that change places, one of them bound again inside. The first expression gives a
closure that knows another one, and so does the second. -/
theorem endAlike_of_alphaEq_swapped :
    let e := letIn ['x'] (.var ['z']) (.letIn ['y'] (.lambda ['x'] (.var ['x']))
      (.lambda ['x'] (.call (.var ['y']) (.binary .add (.var ['x']) (.var ['z'])))))
    let e' := letIn ['y'] (.var ['z']) (.letIn ['x'] (.lambda ['y'] (.var ['y']))
      (.lambda ['y'] (.call (.var ['x']) (.binary .add (.var ['y']) (.var ['z'])))))
    let env := Environment.bind ['z'] (.number 1) .empty
    let outer := env.bind ['x'] (.number 1)
    let v := Value.closure 1 (outer.bind ['y'] (.closure 0 outer ['x'] (.var ['x']))) ['x']
      (.call (.var ['y']) (.binary .add (.var ['x']) (.var ['z'])))
    let machine : Machine := ⟨.new (some 9), 0, []⟩
    e.AlphaEq e' ∧ EndAlike Outcome.Alpha machine env e env e' ∧ EndsFrom machine env e (.ok v) ∧
      ∃ r', EndsFrom machine env e' r' ∧ Outcome.Alpha (.ok v) r' := by
  intro e e' env outer v machine
  have h : e.AlphaEq e' := by decide
  have halike := endAlike_of_alphaEq h machine env
  have hends : EndsFrom machine env e (.ok v) := ⟨3, ⟨.new (some 9), 2, []⟩, by decide +kernel⟩
  exact ⟨h, halike, hends, halike.exists_of_left hends⟩

end Expr

end UnaryLisp
