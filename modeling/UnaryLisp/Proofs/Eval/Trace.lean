import Mathlib.Data.List.Basic
import UnaryLisp.Proofs.Eval.Congruence

/-!
# Evaluations that leave a trace

The state after an evaluation says little about what happened in between. Here an evaluation writes
down what happens while it happens: every nested evaluation that is entered, refused or left, with
the depth counter at that moment, and every closure that is made. The trace is there even if the
evaluation runs out of room. Apart from the trace, it is the evaluation itself.

## Main definitions

* `Occurrence`: what is written down.
* `TraceM`: evaluations that write down what happens.
* `Expr.evalTraced`: the value of an expression, with a trace.
* `TraceM.Congruence`: a relation between evaluations with and without a trace that passes through
  one level of evaluation.

## Main results

* `Expr.evalTracedWith_congr`: such a relation holds of a level of evaluation.
* `Expr.evalTraced_fst`: without its trace, a traced evaluation is the evaluation.
* `Expr.evalTraced_snd`: the trace of an evaluation that ends closes with its outcome.
-/

namespace UnaryLisp

/-! ### Traces -/

/-- What happens in an evaluation. -/
inductive Occurrence where
  /-- The evaluation of an expression begins; `limit` is the counter inside of it. -/
  | enter (limit : DepthLimit) (env : Environment) (e : Expr)
  /-- The ceiling `max` does not allow an evaluation to begin at the counter `limit`. -/
  | refuse (limit : DepthLimit) (max : Nat)
  /-- A closure is made. -/
  | make (closure : Value)
  /-- The evaluation of an expression ends with an outcome; `limit` is the counter before it is
  left. -/
  | leave (limit : DepthLimit) (env : Environment) (e : Expr) (r : Outcome)
deriving DecidableEq

/-- An evaluation that goes on with a trace, the latest occurrence first. -/
def TraceM (α : Type) : Type :=
  Machine → List Occurrence → Option (Except EvalError α × Machine) × List Occurrence

namespace TraceM

variable {α β : Type}

/-- An evaluation in which nothing happens that is written down. -/
def quiet (act : EvalM α) : TraceM α :=
  fun machine past => (act machine, past)

/-- Two evaluations in sequence; the second goes on with the trace of the first. -/
def andThen (act : TraceM α) (next : α → TraceM β) : TraceM β :=
  fun machine past =>
    match act machine past with
    | (some (.ok a, mid), trace) => next a mid trace
    | (some (.error e, after), trace) => (some (.error e, after), trace)
    | (none, trace) => (none, trace)

instance : Monad TraceM where
  pure a := quiet (pure a)
  bind := andThen

/-- Makes a closure with an identity of its own. -/
def closure (env : Environment) (param : Name) (body : Expr) : TraceM Value :=
  fun machine past =>
    (EvalM.closure env param body machine, .make (.closure machine.fresh env param body) :: past)

/-- Runs the evaluation of an expression one level further in. -/
def nested (env : Environment) (e : Expr) (act : TraceM Value) : TraceM Value :=
  fun machine past =>
    match machine.limit.enter with
    | .error max =>
      (some (.error (.recursionLimit max), machine), .refuse machine.limit max :: past)
    | .ok limit =>
      match act { machine with limit } (.enter limit env e :: past) with
      | (none, trace) => (none, trace)
      | (some (r, after), trace) =>
        (some (r, { after with limit := after.limit.leave }), .leave after.limit env e r :: trace)

section

variable {act : TraceM α} {next : α → TraceM β} {machine mid : Machine}
  {past trace : List Occurrence}

theorem bind_of_none (h : act machine past = (none, trace)) :
    (act >>= next) machine past = (none, trace) := by
  change act.andThen next machine past = _
  rw [andThen, h]

theorem bind_of_error {e : EvalError} (h : act machine past = (some (.error e, mid), trace)) :
    (act >>= next) machine past = (some (.error e, mid), trace) := by
  change act.andThen next machine past = _
  rw [andThen, h]

theorem bind_of_ok {a : α} (h : act machine past = (some (.ok a, mid), trace)) :
    (act >>= next) machine past = next a mid trace := by
  change act.andThen next machine past = _
  rw [andThen, h]

end

end TraceM

namespace Expr

/-- One level of evaluation, in which `eval` evaluates what is nested in the expression. -/
def evalTracedWith (eval : Expr → Environment → TraceM Value) (e : Expr) (env : Environment) :
    TraceM Value :=
  match e with
  | .number n => pure (.number n)
  | .bool b => pure (.bool b)
  | .var name => .quiet (EvalM.ofExcept (env.value name))
  | .binary op left right => do
    let l ← eval left env
    let r ← eval right env
    .quiet (EvalM.ofExcept (op.apply l r))
  | .cond test yes no => do
    match ← eval test env with
    | .bool true => eval yes env
    | .bool false => eval no env
    | other => .quiet (throw (.typeMismatch .test other.kind))
  | .letIn name init body => do
    let bound ← eval init env
    eval body (env.bind name bound)
  | .lambda param body => .closure env param body
  | .call callee arg => do
    match ← eval callee env with
    | .closure _ captured param body =>
      let bound ← eval arg env
      .quiet (EvalM.note param bound)
      eval body (captured.bind param bound)
    | other => .quiet (throw (.applyNonFunction other))

/-- The value of an expression in an environment, for evaluations nested at most `room` deep, with a
trace. -/
def evalTraced : Nat → Expr → Environment → TraceM Value
  | 0, _, _ => .quiet EvalM.outOfRoom
  | room + 1, e, env => .nested env e (evalTracedWith (evalTraced room) e env)

theorem evalTraced_succ (room : Nat) (e : Expr) (env : Environment) :
    e.evalTraced (room + 1) env = .nested env e (evalTracedWith (evalTraced room) e env) := rfl

end Expr

/-! ### Congruences -/

/-- A relation between evaluations without and with a trace that holds of the steps that evaluate
nothing, and of two sequences when it holds of their members. -/
structure TraceM.Congruence (P : (α : Type) → EvalM α → TraceM α → Prop) : Prop where
  ofExcept : ∀ {α : Type} (result : Except EvalError α),
    P α (EvalM.ofExcept result) (.quiet (EvalM.ofExcept result))
  note : ∀ (param : Name) (arg : Value),
    P Unit (EvalM.note param arg) (.quiet (EvalM.note param arg))
  closure : ∀ (env : Environment) (param : Name) (body : Expr),
    P Value (EvalM.closure env param body) (.closure env param body)
  bind : ∀ {α β : Type} {act : EvalM α} {act' : TraceM α} {next : α → EvalM β}
    {next' : α → TraceM β}, P α act act' → (∀ a, P β (next a) (next' a)) →
      P β (act >>= next) (act' >>= next')

namespace Expr

/-- A relation that is respected holds of a level of evaluation when it holds of what is nested in
the expression. -/
theorem evalTracedWith_congr {P : (α : Type) → EvalM α → TraceM α → Prop}
    (hP : TraceM.Congruence P) (eval : Expr → Environment → EvalM Value)
    (eval' : Expr → Environment → TraceM Value) (h : ∀ e env, P Value (eval e env) (eval' e env))
    (e : Expr) (env : Environment) :
    P Value (e.evalWith eval env) (e.evalTracedWith eval' env) := by
  cases e with
  | number n => exact hP.ofExcept (.ok (Value.number n))
  | bool b => exact hP.ofExcept (.ok (Value.bool b))
  | var x => exact hP.ofExcept (env.value x)
  | binary op left right =>
    refine hP.bind (h left env) fun l => hP.bind (h right env) fun r => ?_
    exact hP.ofExcept (op.apply l r)
  | cond test yes no =>
    refine hP.bind (h test env) fun v => ?_
    cases v with
    | bool b =>
      cases b with
      | true => exact h yes env
      | false => exact h no env
    | number | closure => exact hP.ofExcept (.error _)
  | letIn x init body => exact hP.bind (h init env) fun v => h body (env.bind x v)
  | lambda x body => exact hP.closure env x body
  | call callee arg =>
    refine hP.bind (h callee env) fun f => ?_
    cases f with
    | closure _ captured x body =>
      refine hP.bind (h arg env) fun v => hP.bind (hP.note x v) fun _ => ?_
      exact h body (captured.bind x v)
    | number | bool => exact hP.ofExcept (.error _)

/-! ### The evaluation without its trace -/

theorem congruence_fst : TraceM.Congruence fun α (act : EvalM α) (act' : TraceM α) =>
    ∀ machine past, (act' machine past).1 = act machine where
  ofExcept _ _ _ := rfl
  note _ _ _ _ := rfl
  closure _ _ _ _ _ := rfl
  bind := by
    intro α β act act' next next' hact hnext machine past
    rw [EvalM.bind_apply, ← hact machine past]
    rcases hrun : act' machine past with ⟨_ | ⟨_ | a, mid⟩, trace⟩
    · rw [TraceM.bind_of_none hrun]
    · rw [TraceM.bind_of_error hrun]
    · rw [TraceM.bind_of_ok hrun]
      exact hnext a mid trace

/-- Without its trace, a traced evaluation is the evaluation. -/
theorem evalTraced_fst (room : Nat) (e : Expr) (env : Environment) (machine : Machine)
    (past : List Occurrence) :
    (e.evalTraced room env machine past).1 = e.eval room env machine := by
  induction room generalizing e env machine past with
  | zero => rfl
  | succ room ih =>
    rw [evalTraced_succ, eval_succ, TraceM.nested, EvalM.nested]
    cases machine.limit.enter with
    | error max => rfl
    | ok limit =>
      have hlevel := evalTracedWith_congr congruence_fst (eval room) (evalTraced room) ih e env
        { machine with limit } (.enter limit env e :: past)
      dsimp only
      rw [← hlevel]
      rcases e.evalTracedWith (evalTraced room) env { machine with limit }
        (.enter limit env e :: past) with ⟨_ | ⟨r, after⟩, trace⟩ <;> rfl

/-- The trace of an evaluation that ends closes with its outcome, or with its refusal. -/
theorem evalTraced_snd {room : Nat} {e : Expr} {env : Environment} {machine after : Machine}
    {r : Outcome} (h : e.eval room env machine = some (r, after)) (past : List Occurrence) :
    (∃ limit before, (e.evalTraced room env machine past).2 = .leave limit env e r :: before) ∨
      ∃ limit max, r = .error (.recursionLimit max) ∧
        (e.evalTraced room env machine past).2 = .refuse limit max :: past := by
  cases room with
  | zero => cases h
  | succ room =>
    rw [← evalTraced_fst _ _ _ _ past, evalTraced_succ, TraceM.nested] at h
    rw [evalTraced_succ, TraceM.nested]
    cases henter : machine.limit.enter with
    | error max =>
      rw [henter] at h
      obtain ⟨rfl, -⟩ := Prod.mk.inj (Option.some.inj h)
      exact Or.inr ⟨_, max, rfl, rfl⟩
    | ok limit =>
      rw [henter] at h
      dsimp only at h ⊢
      rcases hlevel : e.evalTracedWith (evalTraced room) env { machine with limit }
        (.enter limit env e :: past) with ⟨_ | ⟨r', after'⟩, trace⟩
      · simp [hlevel] at h
      · rw [hlevel] at h
        obtain ⟨rfl, -⟩ := Prod.mk.inj (Option.some.inj h)
        exact Or.inl ⟨_, _, rfl⟩

end Expr

end UnaryLisp
