import UnaryLisp.Proofs.Eval.Renumbering

/-!
# Bindings as applications

A binding does what the application of a procedure to its initializer does. The application makes
the procedure first, a closure that the binding does without, and notes what it applies; but the
procedure is one level in, like the initializer, so it meets the ceiling where the initializer
would. From then on both evaluate the initializer and the body at the same depth, with closures
that are numbered one apart.

## Main definitions

* `Value.Alike`: two values in an environment that differ only in the identities of closures that
  the environment does not know.

## Main results

* `EvalM.rel_nested`: evaluations that are alike one level further in are alike from outside.
* `EvalM.Lockstep.note_right`: noting an application is no step.
* `Expr.eval_lambda_bind`: what follows the evaluation of a procedure.
* `Expr.lockstep_letIn_call`: behind the procedure, a binding and an application run in lockstep.
* `Expr.endAlike_letIn_call`: a binding ends as the application does.
-/

namespace UnaryLisp

/-- The values are the same up to the identities of closures that the environment does not know. -/
def Value.Alike (env : Environment) (v w : Value) : Prop :=
  ∃ π : Equiv.Perm Nat, (∀ i ∈ env.identities, π i = i) ∧ w = v.rename π

namespace EvalM

variable {α β : Type}

/-- Once a level is entered, what is nested in it is evaluated there. -/
theorem nested_of_enter {machine : Machine} {inner : DepthLimit}
    (h : machine.limit.enter = .ok inner) (act : EvalM α) :
    nested act machine = (act { machine with limit := inner }).map fun out =>
      (out.1, { out.2 with limit := out.2.limit.leave }) := by
  simp only [nested, h]
  cases act { machine with limit := inner } <;> rfl

theorem nested_of_refused {machine : Machine} {max : Nat} (h : machine.limit.enter = .error max)
    (act : EvalM α) : nested act machine = some (.error (.recursionLimit max), machine) := by
  simp only [nested, h]

/-- Evaluations that are alike one level further in are alike from outside, where both are refused
or none is. -/
theorem rel_nested {R : Except EvalError α → Except EvalError α → Prop} {act act' : EvalM α}
    {machine : Machine}
    (hrefused : ∀ max, R (.error (.recursionLimit max)) (.error (.recursionLimit max)))
    (h : ∀ inner, machine.limit.enter = .ok inner →
      Option.Rel (fun out out' => R out.1 out'.1) (act { machine with limit := inner })
        (act' { machine with limit := inner })) :
    Option.Rel (fun out out' => R out.1 out'.1) (nested act machine) (nested act' machine) := by
  cases henter : machine.limit.enter with
  | error max =>
    rw [nested_of_refused henter, nested_of_refused henter]
    exact .some (hrefused max)
  | ok inner =>
    have hinner := h inner henter
    rw [nested_of_enter henter, nested_of_enter henter]
    generalize act { machine with limit := inner } = found at hinner
    generalize act' { machine with limit := inner } = found' at hinner
    cases hinner with
    | none => exact .none
    | some hr => exact .some hr

/-- Noting an application is no step. -/
theorem Lockstep.note_right {L : Link} {Allowed : EvalError → Prop} {R : α → β → Prop}
    {act : EvalM α} {act' : EvalM β} (h : Lockstep L Allowed R act act') (x : Name) (v : Value) :
    Lockstep L Allowed R act (EvalM.note x v >>= fun _ => act') := by
  intro machine machine' hm
  let noted := { machine' with journal := ⟨x, v, machine'.limit.depth⟩ :: machine'.journal }
  have hnote : (EvalM.note x v >>= fun _ => act') machine' = act' noted := by
    rw [bind_apply]
    rfl
  rw [hnote]
  rcases h machine noted ⟨hm.limit, hm.fresh⟩ with
    hnone | ⟨r, r', after, after', hrun, hrun', hr, hafter⟩
  · exact .inl hnone
  · exact .inr ⟨r, r', after, after', hrun, hrun', hr, hafter.limit, hafter.fresh⟩

end EvalM

namespace Expr

open EvalM

variable {room : Nat} {env : Environment} {x : Name} {init body : Expr}

/-- What follows the evaluation of a procedure has a closure more, if there is a level left for
it. -/
theorem eval_lambda_bind {machine : Machine} {inner : DepthLimit}
    (h : machine.limit.enter = .ok inner) {β : Type} (next : Value → EvalM β) :
    ((lambda x body).eval (room + 1) env >>= next) machine =
      next (.closure machine.fresh env x body) { machine with fresh := machine.fresh + 1 } := by
  have hrun : (lambda x body).eval (room + 1) env machine =
      some (.ok (.closure machine.fresh env x body),
        { machine with limit := inner.leave, fresh := machine.fresh + 1 }) :=
    nested_of_enter h _
  rw [bind_apply, hrun, DepthLimit.leave_of_enter h]

/-- Where identities correspond that leave the environment as it is, a binding and the application
of a procedure that has been made run in lockstep. -/
theorem lockstep_letIn_call {L : Link} (henv : env.Pointwise (Value.Renumbered L) env) :
    Lockstep L (fun _ => True) (Value.Renumbered L)
      (init.eval room env >>= fun v => body.eval room (env.bind x v))
      (init.eval room env >>= fun v => EvalM.note x v >>= fun _ =>
        body.eval room (env.bind x v)) := by
  have hsim := Comparison.isSimulation_renumbered L
  refine .bind (hsim.lockstep room ⟨henv, rfl⟩) fun v w hvw => .note_right ?_ x w
  exact hsim.lockstep room ⟨.bind hvw henv, rfl⟩

/-- One level in, a binding and an application both run out of room or end with outcomes that
correspond. -/
theorem rel_evalWith_letIn_call {machine : Machine}
    (hfresh : ∀ i ∈ env.identities, i < machine.fresh) :
    Option.Rel
      (fun out out' => Corresponds (Value.Alike env) (fun _ => True) out.1 out'.1)
      ((letIn x init body).evalWith (eval room) env machine)
      ((call (lambda x body) init).evalWith (eval room) env machine) := by
  cases room with
  | zero => exact .none
  | succ room =>
    cases henter : machine.limit.enter with
    | error max =>
      -- the initializer and the procedure are refused alike
      have hinit : init.eval (room + 1) env machine =
          some (.error (.recursionLimit max), machine) := nested_of_refused henter _
      have hlambda : (lambda x body).eval (room + 1) env machine =
          some (.error (.recursionLimit max), machine) := nested_of_refused henter _
      simp only [evalWith, bind_apply, hinit, hlambda]
      exact .some (.error trivial)
    | ok inner =>
      have hfresh' : ∀ i ∈ env.identities, i < machine.fresh + 1 := fun i hi =>
        Nat.lt_add_right 1 (hfresh i hi)
      have henv : env.Pointwise (Value.Renumbered (.beyond hfresh hfresh')) env :=
        .refl env fun i hi => .inl ⟨hi, rfl⟩
      have hm : (Link.beyond hfresh hfresh').Aligned machine
          { machine with fresh := machine.fresh + 1 } := ⟨rfl, fun k => .inr ⟨k, rfl, rfl⟩⟩
      have hlet : (letIn x init body).evalWith (eval (room + 1)) env machine =
          (init.eval (room + 1) env >>= fun v => body.eval (room + 1) (env.bind x v)) machine :=
        rfl
      have hcall : (call (lambda x body) init).evalWith (eval (room + 1)) env machine =
          (init.eval (room + 1) env >>= fun v => EvalM.note x v >>= fun _ =>
            body.eval (room + 1) (env.bind x v)) { machine with fresh := machine.fresh + 1 } :=
        eval_lambda_bind henter _
      rw [hlet, hcall]
      rcases lockstep_letIn_call henv machine _ hm with
        ⟨hnone, hnone'⟩ | ⟨r, r', after, after', hrun, hrun', hr, -⟩
      · rw [hnone, hnone']
        exact .none
      · rw [hrun, hrun']
        cases hr with
        | error => exact .some (.error trivial)
        | ok hvw => exact .some (.ok hvw.exists_perm)

/-- From every state, at whatever depth and under whatever ceiling, a binding goes on for ever or
ends together with the application of the procedure that has the name as its parameter and the body
as its body: with the same error, with the same number or truth value, or with closures that have
one parameter, one body and the same bindings, the identities of new closures aside. -/
theorem endAlike_letIn_call (machine : Machine) (env : Environment) (x : Name) (init body : Expr)
    (hfresh : ∀ i ∈ env.identities, i < machine.fresh) :
    EndAlike (Corresponds (Value.Alike env) fun _ => True) machine env (.letIn x init body) env
      (.call (.lambda x body) init) := by
  refine .of_rel fun room => ?_
  cases room with
  | zero => exact .none
  | succ room =>
    exact rel_nested (fun max => .error trivial) fun inner _ => rel_evalWith_letIn_call hfresh

/-- The initializer and the value are procedures, and the body compares the new one with one that
the environment knows. The evaluation starts two levels in. With five levels to go both forms end
with a closure, and with four levels to go both give up. -/
theorem endAlike_letIn_call_compared :
    let env := Environment.bind ['f'] (.closure 0 .empty ['x'] (.var ['x'])) .empty
    let init := lambda ['y'] (.var ['f'])
    let body := cond (.binary .eq (.var ['g']) (.call (.var ['g']) (.number 1))) (.var ['f'])
      (.lambda ['z'] (.var ['g']))
    let v := Value.closure 2 (env.bind ['g'] (.closure 1 env ['y'] (.var ['f']))) ['z'] (.var ['g'])
    (∀ i ∈ env.identities, i < 1) ∧
      EndAlike (Corresponds (Value.Alike env) fun _ => True) ⟨⟨2, some 6⟩, 1, []⟩ env
        (.letIn ['g'] init body) env (.call (.lambda ['g'] body) init) ∧
      EndsFrom ⟨⟨2, some 6⟩, 1, []⟩ env (.call (.lambda ['g'] body) init)
        (.error (.recursionLimit 6)) ∧
      EndsFrom ⟨⟨2, some 7⟩, 1, []⟩ env (.letIn ['g'] init body) (.ok v) ∧
      ∃ w, EndsFrom ⟨⟨2, some 7⟩, 1, []⟩ env (.call (.lambda ['g'] body) init) (.ok w) ∧
        Value.Alike env v w := by
  intro env init body v
  have hfresh : ∀ i ∈ env.identities, i < 1 := by decide
  have halike := endAlike_letIn_call ⟨⟨2, some 6⟩, 1, []⟩ env ['g'] init body hfresh
  have halike' := endAlike_letIn_call ⟨⟨2, some 7⟩, 1, []⟩ env ['g'] init body hfresh
  have hgives : EndsFrom ⟨⟨2, some 6⟩, 1, []⟩ env (.letIn ['g'] init body)
      (.error (.recursionLimit 6)) := ⟨5, ⟨⟨2, some 6⟩, 2, []⟩, by decide +kernel⟩
  have hends : EndsFrom ⟨⟨2, some 7⟩, 1, []⟩ env (.letIn ['g'] init body) (.ok v) :=
    ⟨5, ⟨⟨2, some 7⟩, 3, [⟨['y'], .number 1, 6⟩]⟩, by decide +kernel⟩
  obtain ⟨r, hr, hsame⟩ := halike.exists_of_left hgives
  obtain ⟨r', hr', hvalue⟩ := halike'.exists_of_left hends
  cases hsame with
  | error =>
    cases hvalue with
    | ok hvw => exact ⟨hfresh, halike, hr, hends, _, hr', hvw⟩

end Expr

end UnaryLisp
