import UnaryLisp.Proofs.Eval.Congruence
import UnaryLisp.Proofs.Eval.Operation

/-!
# Evaluations in lockstep

Two expressions, each in an environment of its own, may differ in names, in bindings that nothing
uses or in the identities of closures, and still be evaluated alike: every step of one evaluation
has its counterpart in the other, at the same depth. A comparison says which values and which
expressions in environments are taken to correspond. It is a simulation when what corresponds has
the same shape and what is nested in it corresponds again; then the evaluations run in lockstep, and
end with outcomes that correspond or go on for ever together.

A property of one evaluation is a comparison of the evaluation with itself. Which errors may be
reported for a name that nothing binds is therefore left to the comparison.

## Main definitions

* `Link`: which identities of closures correspond.
* `EvalM.Lockstep`: two evaluations that do the same, step by step.
* `Comparison`, `Comparison.IsSimulation`: what corresponds, and when it keeps corresponding.
* `Expr.EndsFrom`, `Expr.EndAlike`: how one evaluation ends, and that two end alike.

## Main results

* `Comparison.IsSimulation.lockstep`: what corresponds in a simulation is evaluated in lockstep.
* `Comparison.IsSimulation.endAlike`: what corresponds in a simulation ends alike.
* `Comparison.IsSimulation.corresponds_self`: an invariant of one evaluation holds of its outcome.
-/

namespace UnaryLisp

/-! ### Identities that correspond -/

/-- Which identities of closures correspond in two runs: different ones to different ones. -/
structure Link where
  /-- The identities correspond. -/
  Rel : Nat → Nat → Prop
  eq_iff : ∀ {i j i' j' : Nat}, Rel i j → Rel i' j' → (i = i' ↔ j = j')

namespace Link

/-- Every identity corresponds to itself. -/
def same : Link where
  Rel := Eq
  eq_iff := by
    rintro i _ i' _ rfl rfl
    exact Iff.rfl

/-- The states have the same depth counter, and the closures that are made from now on correspond
one by one. -/
structure Aligned (L : Link) (machine machine' : Machine) : Prop where
  limit : machine.limit = machine'.limit
  fresh : ∀ k, L.Rel (machine.fresh + k) (machine'.fresh + k)

theorem aligned_same (machine : Machine) : same.Aligned machine machine :=
  ⟨rfl, fun _ => rfl⟩

end Link

/-- Two runs from the first two states to the last two end with the same depth counter and have made
the same number of closures. -/
structure Machine.Advance (machine machine' after after' : Machine) : Prop where
  limit : after.limit = after'.limit
  fresh : ∃ count, after.fresh = machine.fresh + count ∧ after'.fresh = machine'.fresh + count

namespace Machine.Advance

variable {machine machine' mid mid' after after' : Machine}

theorem trans (h : Advance machine machine' mid mid') (h' : Advance mid mid' after after') :
    Advance machine machine' after after' := by
  obtain ⟨-, count, hfresh, hfresh'⟩ := h
  obtain ⟨hlimit, more, hmore, hmore'⟩ := h'
  exact ⟨hlimit, count + more, by omega, by omega⟩

theorem aligned {L : Link} (h : Advance machine machine' after after')
    (hm : L.Aligned machine machine') : L.Aligned after after' := by
  obtain ⟨hlimit, count, hfresh, hfresh'⟩ := h
  refine ⟨hlimit, fun k => ?_⟩
  rw [hfresh, hfresh', Nat.add_assoc, Nat.add_assoc]
  exact hm.fresh (count + k)

end Machine.Advance

/-! ### Lockstep -/

/-- The results correspond: they are related, or the same error, which is an allowed one. -/
inductive Corresponds {α β : Type} (R : α → β → Prop) (Allowed : EvalError → Prop) :
    Except EvalError α → Except EvalError β → Prop
  | ok {a : α} {b : β} (h : R a b) : Corresponds R Allowed (.ok a) (.ok b)
  | error {e : EvalError} (h : Allowed e) : Corresponds R Allowed (.error e) (.error e)

namespace EvalM

variable {α β γ δ : Type} {L : Link} {Allowed : EvalError → Prop}

/-- From aligned states both evaluations run out of room, or both end, with results that correspond
and after the same number of new closures. -/
def Lockstep (L : Link) (Allowed : EvalError → Prop) (R : α → β → Prop) (act : EvalM α)
    (act' : EvalM β) : Prop :=
  ∀ machine machine', L.Aligned machine machine' →
    (act machine = none ∧ act' machine' = none) ∨
      ∃ r r' after after', act machine = some (r, after) ∧ act' machine' = some (r', after') ∧
        Corresponds R Allowed r r' ∧ Machine.Advance machine machine' after after'

namespace Lockstep

variable {R : α → β → Prop} {S : γ → δ → Prop} {act : EvalM α} {act' : EvalM β}

theorem outOfRoom : Lockstep L Allowed R EvalM.outOfRoom EvalM.outOfRoom :=
  fun _ _ _ => .inl ⟨rfl, rfl⟩

theorem ofExcept {r : Except EvalError α} {r' : Except EvalError β}
    (h : Corresponds R Allowed r r') :
    Lockstep L Allowed R (EvalM.ofExcept r) (EvalM.ofExcept r') :=
  fun machine machine' hm =>
    .inr ⟨r, r', machine, machine', rfl, rfl, h, hm.limit, 0, rfl, rfl⟩

theorem note (x y : Name) (v w : Value) :
    Lockstep L Allowed (fun _ _ => True) (EvalM.note x v) (EvalM.note y w) :=
  fun _ _ hm => .inr ⟨_, _, _, _, rfl, rfl, .ok trivial, hm.limit, 0, rfl, rfl⟩

theorem closure {R : Value → Value → Prop} {env env' : Environment} {x y : Name}
    {body body' : Expr}
    (h : ∀ i j, L.Rel i j → R (.closure i env x body) (.closure j env' y body')) :
    Lockstep L Allowed R (EvalM.closure env x body) (EvalM.closure env' y body') :=
  fun _ _ hm => .inr ⟨_, _, _, _, rfl, rfl, .ok (h _ _ (hm.fresh 0)), hm.limit, 1, rfl, rfl⟩

theorem bind {next : α → EvalM γ} {next' : β → EvalM δ} (hact : Lockstep L Allowed R act act')
    (hnext : ∀ a b, R a b → Lockstep L Allowed S (next a) (next' b)) :
    Lockstep L Allowed S (act >>= next) (act' >>= next') := by
  intro machine machine' hm
  rcases hact machine machine' hm with ⟨h, h'⟩ | ⟨r, r', mid, mid', h, h', hr, hmid⟩
  · refine .inl ⟨?_, ?_⟩
    · rw [bind_apply, h]
    · rw [bind_apply, h']
  · cases hr with
    | @error e he =>
      refine .inr ⟨.error e, .error e, mid, mid', ?_, ?_, .error he, hmid⟩
      · rw [bind_apply, h]
      · rw [bind_apply, h']
    | @ok a b hab =>
      rw [bind_apply, bind_apply, h, h']
      rcases hnext a b hab mid mid' (hmid.aligned hm) with
        hnone | ⟨r, r', after, after', hrun, hrun', hr, hafter⟩
      · exact .inl hnone
      · exact .inr ⟨r, r', after, after', hrun, hrun', hr, hmid.trans hafter⟩

theorem nested (hlimit : ∀ k, Allowed (.recursionLimit k)) (hact : Lockstep L Allowed R act act') :
    Lockstep L Allowed R (EvalM.nested act) (EvalM.nested act') := by
  intro machine machine' hm
  cases henter : machine.limit.enter with
  | error k =>
    have henter' : machine'.limit.enter = .error k := hm.limit ▸ henter
    refine .inr ⟨_, _, machine, machine',
      nested_eq_some_iff.mpr (.inl ⟨k, henter, rfl, rfl⟩),
      nested_eq_some_iff.mpr (.inl ⟨k, henter', rfl, rfl⟩), .error (hlimit k), hm.limit, 0, rfl,
      rfl⟩
  | ok inner =>
    have henter' : machine'.limit.enter = .ok inner := hm.limit ▸ henter
    rcases hact { machine with limit := inner } { machine' with limit := inner }
      ⟨rfl, hm.fresh⟩ with ⟨h, h'⟩ | ⟨r, r', mid, mid', h, h', hr, hmid⟩
    · refine .inl ⟨?_, ?_⟩
      · simp only [EvalM.nested, henter, h]
      · simp only [EvalM.nested, henter', h']
    · refine .inr ⟨r, r', _, _, nested_eq_some_iff.mpr (.inr ⟨inner, mid, henter, h, rfl⟩),
        nested_eq_some_iff.mpr (.inr ⟨inner, mid', henter', h', rfl⟩), hr, ?_, hmid.fresh⟩
      exact congrArg DepthLimit.leave hmid.limit

/-- If the first of two evaluations in lockstep ends, so does the second. -/
theorem exists_of_left (h : Lockstep L Allowed R act act') {machine machine' after : Machine}
    {r : Except EvalError α} (hm : L.Aligned machine machine')
    (hrun : act machine = some (r, after)) :
    ∃ r' after', act' machine' = some (r', after') ∧ Corresponds R Allowed r r' ∧
      Machine.Advance machine machine' after after' := by
  rcases h machine machine' hm with ⟨hnone, -⟩ | ⟨_, r', _, after', hrun₁, hrun', hr, hafter⟩
  · rw [hnone] at hrun
    contradiction
  · obtain ⟨rfl, rfl⟩ := Prod.mk.inj (Option.some.inj (hrun.symm.trans hrun₁))
    exact ⟨r', after', hrun', hr, hafter⟩

end Lockstep

end EvalM

/-! ### Comparisons -/

/-- The outcome of an expression that nothing is nested in: a literal or a name. -/
def Expr.leaf? (env : Environment) : Expr → Option Outcome
  | .number n => some (.ok (.number n))
  | .bool b => some (.ok (.bool b))
  | .var x => some (env.value x)
  | _ => none

/-- What is taken to correspond in two evaluations. -/
structure Comparison where
  /-- Which identities correspond. -/
  link : Link
  /-- Which errors may be reported. -/
  Allowed : EvalError → Prop
  /-- Which values correspond. -/
  Values : Value → Value → Prop
  /-- Which expressions correspond, each in its environment. -/
  Code : Environment → Expr → Environment → Expr → Prop

namespace Comparison

variable (C : Comparison)

/-- The values have the same shape: they are the same number or truth value, or closures with
identities that correspond and with bodies that correspond for arguments that do. -/
inductive Shape : Value → Value → Prop
  | number (n : Number) : Shape (.number n) (.number n)
  | bool (b : Bool) : Shape (.bool b) (.bool b)
  | closure {i j : Nat} {env env' : Environment} {x y : Name} {body body' : Expr}
      (hid : C.link.Rel i j)
      (hbody : ∀ v w, C.Values v w → C.Code (env.bind x v) body (env'.bind y w) body') :
      Shape (.closure i env x body) (.closure j env' y body')

/-- The expressions have the same shape, and what is nested in them corresponds. -/
inductive Level : Environment → Expr → Environment → Expr → Prop
  | leaf {env env' : Environment} {e e' : Expr} {r r' : Outcome} (h : e.leaf? env = some r)
      (h' : e'.leaf? env' = some r') (hr : Corresponds C.Values C.Allowed r r') :
      Level env e env' e'
  | binary {env env' : Environment} {op : Operator} {left right left' right' : Expr}
      (hl : C.Code env left env' left') (hr : C.Code env right env' right') :
      Level env (.binary op left right) env' (.binary op left' right')
  | cond {env env' : Environment} {test yes no test' yes' no' : Expr}
      (ht : C.Code env test env' test') (hy : C.Code env yes env' yes')
      (hn : C.Code env no env' no') : Level env (.cond test yes no) env' (.cond test' yes' no')
  | letIn {env env' : Environment} {x y : Name} {init body init' body' : Expr}
      (hi : C.Code env init env' init')
      (hb : ∀ v w, C.Values v w → C.Code (env.bind x v) body (env'.bind y w) body') :
      Level env (.letIn x init body) env' (.letIn y init' body')
  | lambda {env env' : Environment} {x y : Name} {body body' : Expr}
      (h : ∀ i j, C.link.Rel i j → C.Values (.closure i env x body) (.closure j env' y body')) :
      Level env (.lambda x body) env' (.lambda y body')
  | call {env env' : Environment} {callee arg callee' arg' : Expr}
      (hc : C.Code env callee env' callee') (ha : C.Code env arg env' arg') :
      Level env (.call callee arg) env' (.call callee' arg')

/-- What corresponds has the same shape, and what is nested in it corresponds again. -/
structure IsSimulation : Prop where
  allowed : ∀ {e : EvalError}, (∀ x, e ≠ .unboundVariable x) → C.Allowed e
  number : ∀ n, C.Values (.number n) (.number n)
  bool : ∀ b, C.Values (.bool b) (.bool b)
  values : ∀ {v w : Value}, C.Values v w → C.Shape v w
  code : ∀ {env e env' e'}, C.Code env e env' e' → C.Level env e env' e'

variable {C}

namespace Shape

variable {v w v' w' : Value}

theorem same_eq (hv : C.Shape v v') (hw : C.Shape w w') : v.same w = v'.same w' := by
  cases hv with
  | number | bool => cases hw <;> rfl
  | closure hid _ =>
    cases hw with
    | number | bool => rfl
    | closure hid' _ =>
      rw [Value.same, Value.same, Bool.eq_iff_iff, beq_iff_eq, beq_iff_eq]
      exact C.link.eq_iff hid hid'

theorem onNumbers_eq (hv : C.Shape v v') (hw : C.Shape w w') (op : Operator)
    (f : Number → Number → Except EvalError Number) :
    Operator.onNumbers op f v w = Operator.onNumbers op f v' w' := by
  cases hv <;> cases hw <;> rfl

/-- An operator does not tell values of the same shape apart. -/
theorem apply_eq (hv : C.Shape v v') (hw : C.Shape w w') (op : Operator) :
    op.apply v w = op.apply v' w' := by
  cases op with
  | add | sub | mul | div => exact onNumbers_eq hv hw _ _
  | eq => rw [Operator.apply, Operator.apply, same_eq hv hw]

end Shape

namespace IsSimulation

open EvalM

variable (hC : C.IsSimulation)
include hC

/-- What an operator gives corresponds to itself, since it holds no closure. -/
theorem corresponds_apply (op : Operator) (v w : Value) :
    Corresponds C.Values C.Allowed (op.apply v w) (op.apply v w) := by
  generalize hr : op.apply v w = r
  cases Operator.apply_eq_iff.mp hr with
  | equal | unequal => exact .ok (hC.bool _)
  | number => exact .ok (hC.number _)
  | overflow | divisionByZero | left | right => exact .error (hC.allowed (by simp))

/-- One level of evaluation is in lockstep when what is nested in it is. -/
theorem lockstep_evalWith {eval : Expr → Environment → EvalM Value}
    (heval : ∀ {env e env' e'}, C.Code env e env' e' →
      Lockstep C.link C.Allowed C.Values (eval e env) (eval e' env'))
    {env env' : Environment} {e e' : Expr} (h : C.Level env e env' e') :
    Lockstep C.link C.Allowed C.Values (e.evalWith eval env) (e'.evalWith eval env') := by
  cases h with
  | leaf h h' hr =>
    have hleaf {env : Environment} {e : Expr} {r : Outcome} (h : e.leaf? env = some r) :
        e.evalWith eval env = EvalM.ofExcept r := by
      cases e <;> cases h <;> rfl
    rw [hleaf h, hleaf h']
    exact .ofExcept hr
  | binary hl hr =>
    refine .bind (heval hl) fun v v' hv => .bind (heval hr) fun w w' hw => .ofExcept ?_
    rw [← (hC.values hv).apply_eq (hC.values hw)]
    exact hC.corresponds_apply _ v w
  | cond ht hy hn =>
    refine .bind (heval ht) fun v v' hv => ?_
    cases hC.values hv with
    | bool b =>
      cases b with
      | true => exact heval hy
      | false => exact heval hn
    | number | closure => exact .ofExcept (.error (hC.allowed (by simp)))
  | letIn hi hb => exact .bind (heval hi) fun v w hv => heval (hb v w hv)
  | lambda h => exact .closure h
  | call hc ha =>
    refine .bind (heval hc) fun f f' hf => ?_
    cases hC.values hf with
    | number | bool => exact .ofExcept (.error (hC.allowed (by simp)))
    | closure _ hbody =>
      exact .bind (heval ha) fun v w hv => .bind (.note _ _ v w) fun _ _ _ => heval (hbody v w hv)

/-- What corresponds in a simulation is evaluated in lockstep. -/
theorem lockstep (room : Nat) {env env' : Environment} {e e' : Expr}
    (h : C.Code env e env' e') :
    Lockstep C.link C.Allowed C.Values (e.eval room env) (e'.eval room env') := by
  induction room generalizing env env' e e' with
  | zero => exact .outOfRoom
  | succ room ih =>
    exact .nested (fun k => hC.allowed (by simp)) (hC.lockstep_evalWith ih (hC.code h))

end IsSimulation

end Comparison

/-! ### How evaluations end -/

namespace Expr

/-- From the state `machine` the evaluation of the expression ends with the outcome. -/
def EndsFrom (machine : Machine) (env : Environment) (e : Expr) (r : Outcome) : Prop :=
  ∃ room after, e.eval room env machine = some (r, after)

/-- From the state `machine` both evaluations go on for ever, or both end, with outcomes that are
related. -/
def EndAlike (R : Outcome → Outcome → Prop) (machine : Machine) (env : Environment) (e : Expr)
    (env' : Environment) (e' : Expr) : Prop :=
  ((∀ r, ¬ EndsFrom machine env e r) ∧ ∀ r', ¬ EndsFrom machine env' e' r') ∨
    ∃ r r', EndsFrom machine env e r ∧ EndsFrom machine env' e' r' ∧ R r r'

/-- Where the first of two evaluations that end alike ends, the second one ends with a related
outcome. -/
theorem EndAlike.exists_of_left {R : Outcome → Outcome → Prop} {machine : Machine}
    {env env' : Environment} {e e' : Expr} {r : Outcome} (h : EndAlike R machine env e env' e')
    (hends : EndsFrom machine env e r) : ∃ r', EndsFrom machine env' e' r' ∧ R r r' := by
  rcases h with ⟨hnever, -⟩ | ⟨r₁, r', ⟨_, _, heval₁⟩, hends', hr⟩
  · exact absurd hends (hnever r)
  · obtain ⟨_, _, heval⟩ := hends
    obtain ⟨rfl, -⟩ := Prod.mk.inj (eval_unique heval₁ heval)
    exact ⟨r', hends', hr⟩

/-- Evaluations that, whatever the room, both run out of it or both end, with outcomes that are
related, end alike. -/
theorem EndAlike.of_rel {R : Outcome → Outcome → Prop} {machine : Machine} {env env' : Environment}
    {e e' : Expr} (h : ∀ room, Option.Rel (fun out out' => R out.1 out'.1)
      (e.eval room env machine) (e'.eval room env' machine)) :
    EndAlike R machine env e env' e' := by
  by_cases hends : ∃ r, EndsFrom machine env e r
  · obtain ⟨r, room, after, heval⟩ := hends
    have hroom := h room
    rw [heval] at hroom
    generalize heval' : e'.eval room env' machine = found at hroom
    cases hroom with
    | @some _ out' hr => exact .inr ⟨r, out'.1, ⟨room, after, heval⟩, ⟨room, out'.2, heval'⟩, hr⟩
  · rw [not_exists] at hends
    refine .inl ⟨hends, ?_⟩
    rintro r' ⟨room, after', heval'⟩
    have hroom := h room
    rw [heval'] at hroom
    generalize heval : e.eval room env machine = found at hroom
    cases hroom with
    | @some out _ _ => exact hends out.1 ⟨room, out.2, heval⟩

end Expr

/-- What corresponds in a simulation ends alike, where every identity corresponds to itself. -/
theorem Comparison.IsSimulation.endAlike {C : Comparison} (hC : C.IsSimulation)
    (hlink : C.link = .same) (machine : Machine) {env env' : Environment} {e e' : Expr}
    (h : C.Code env e env' e') :
    Expr.EndAlike (Corresponds C.Values C.Allowed) machine env e env' e' := by
  have hm : C.link.Aligned machine machine := hlink ▸ Link.aligned_same machine
  refine .of_rel fun room => ?_
  rcases hC.lockstep room h machine machine hm with
    ⟨hnone, hnone'⟩ | ⟨r, r', after, after', hrun, hrun', hr, -⟩
  · rw [hnone, hnone']
    exact .none
  · rw [hrun, hrun']
    exact .some hr

/-- What corresponds to itself in a simulation ends with an outcome that does. -/
theorem Comparison.IsSimulation.corresponds_self {C : Comparison} (hC : C.IsSimulation)
    (hlink : C.link = .same) {machine : Machine} {env : Environment} {e : Expr}
    (h : C.Code env e env e) {r : Outcome} (hends : Expr.EndsFrom machine env e r) :
    Corresponds C.Values C.Allowed r r := by
  obtain ⟨room, after, heval⟩ := hends
  have hm : C.link.Aligned machine machine := hlink ▸ Link.aligned_same machine
  obtain ⟨r', after', heval', hr, -⟩ := (hC.lockstep room h).exists_of_left hm heval
  obtain ⟨rfl, -⟩ := Prod.mk.inj (Option.some.inj (heval'.symm.trans heval))
  exact hr

end UnaryLisp
