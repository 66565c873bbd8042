import UnaryLisp.Eval.Basic

/-!
# Properties that pass through one level of evaluation

One level of evaluation puts together evaluations of what is nested in an expression. A relation
between evaluations that every way of putting them together respects holds of a level as soon as it
holds of what is nested in it, and then, by induction on the room, of whole evaluations. Properties
of a single evaluation are relations that ignore one side.

## Main definitions

* `EvalM.Congruence`: a relation that is respected.
* `Expr.Ends`: the evaluation of an expression ends with an outcome.

## Main results

* `Expr.evalWith_congr`: a respected relation holds of a level of evaluation.
* `Expr.eval_mono`: more room does not change how an evaluation ends.
* `Expr.limit_of_eval`: an evaluation leaves the depth counter as it was, and only a ceiling is
  reported as exceeded.
* `Expr.Ends.unique`: an evaluation ends with at most one outcome.
-/

namespace UnaryLisp

/-- How an evaluation ends: with a value or with an error. -/
abbrev Outcome := Except EvalError Value

namespace EvalM

variable {α β : Type}

/-! ### Inversion -/

theorem bind_eq_some_iff {act : EvalM α} {next : α → EvalM β} {machine after : Machine}
    {result : Except EvalError β} :
    (act >>= next) machine = some (result, after) ↔
      (∃ e, act machine = some (.error e, after) ∧ result = .error e) ∨
        ∃ a mid, act machine = some (.ok a, mid) ∧ next a mid = some (result, after) := by
  rw [bind_apply]
  constructor
  · intro h
    split at h
    · contradiction
    · next e mid hact =>
      obtain ⟨rfl, rfl⟩ := Prod.mk.inj (Option.some.inj h)
      exact .inl ⟨e, hact, rfl⟩
    · next a mid hact => exact .inr ⟨a, mid, hact, h⟩
  · rintro (⟨e, hact, rfl⟩ | ⟨a, mid, hact, hnext⟩)
    · rw [hact]
    · rw [hact]
      exact hnext

theorem exists_of_bind_eq_ok {act : EvalM α} {next : α → EvalM β} {machine after : Machine} {b : β}
    (h : (act >>= next) machine = some (.ok b, after)) :
    ∃ a mid, act machine = some (.ok a, mid) ∧ next a mid = some (.ok b, after) := by
  rcases bind_eq_some_iff.mp h with ⟨_, -, hr⟩ | hrest
  · contradiction
  · exact hrest

theorem nested_eq_some_iff {act : EvalM α} {machine after : Machine}
    {result : Except EvalError α} :
    nested act machine = some (result, after) ↔
      (∃ max, machine.limit.enter = .error max ∧ result = .error (.recursionLimit max) ∧
        after = machine) ∨
      ∃ inner mid, machine.limit.enter = .ok inner ∧
        act { machine with limit := inner } = some (result, mid) ∧
        after = { mid with limit := mid.limit.leave } := by
  unfold nested
  constructor
  · intro h
    split at h
    · next max henter =>
      obtain ⟨rfl, rfl⟩ := Prod.mk.inj (Option.some.inj h)
      exact .inl ⟨max, henter, rfl, rfl⟩
    · next inner henter =>
      split at h
      · contradiction
      · next mid hact =>
        obtain ⟨rfl, rfl⟩ := Prod.mk.inj (Option.some.inj h)
        exact .inr ⟨inner, mid, henter, hact, rfl⟩
  · rintro (⟨max, henter, rfl, rfl⟩ | ⟨inner, mid, henter, hact, rfl⟩)
    · rw [henter]
    · rw [henter]
      simp only [hact]

/-! ### Congruences -/

/-- A relation between evaluations that holds of the steps that evaluate nothing, and of two
sequences when it holds of their members. -/
structure Congruence (P : (α : Type) → EvalM α → EvalM α → Prop) : Prop where
  ofExcept : ∀ {α : Type} (result : Except EvalError α),
    (∀ k, result ≠ .error (.recursionLimit k)) → P α (ofExcept result) (ofExcept result)
  closure : ∀ (env : Environment) (param : Name) (body : Expr),
    P Value (closure env param body) (closure env param body)
  note : ∀ (param : Name) (arg : Value), P Unit (note param arg) (note param arg)
  bind : ∀ {α β : Type} {act act' : EvalM α} {next next' : α → EvalM β}, P α act act' →
    (∀ a, P β (next a) (next' a)) → P β (act >>= next) (act' >>= next')

end EvalM

/-! ### Errors other than the ceiling -/

theorem Environment.value_ne_recursionLimit (env : Environment) (x : Name) (k : Nat) :
    env.value x ≠ .error (.recursionLimit k) := by
  unfold Environment.value
  split <;> simp

theorem Operator.onNumbers_ne_recursionLimit {op : Operator}
    {f : Number → Number → Except EvalError Number}
    (hf : ∀ a b k, f a b ≠ .error (.recursionLimit k)) (v w : Value) (k : Nat) :
    onNumbers op f v w ≠ .error (.recursionLimit k) := by
  unfold onNumbers
  split
  · next a b =>
    cases h : f a b with
    | error e =>
      intro he
      exact hf a b k (h.trans (congrArg _ (Except.error.inj he)))
    | ok n => simp [Except.map]
  · simp
  · simp

theorem Operator.exact_ne_recursionLimit (op : Operator) (f : Number → Number → Option Number)
    (a b : Number) (k : Nat) : exact op f a b ≠ .error (.recursionLimit k) := by
  unfold exact
  split <;> simp

theorem Operator.apply_ne_recursionLimit (op : Operator) (v w : Value) (k : Nat) :
    op.apply v w ≠ .error (.recursionLimit k) := by
  have hquot : ∀ a b k, quotient a b ≠ .error (.recursionLimit k) := by
    intro a b k
    unfold quotient
    split
    · simp
    · exact exact_ne_recursionLimit _ _ a b k
  cases op with
  | add => exact onNumbers_ne_recursionLimit (exact_ne_recursionLimit _ _) v w k
  | sub => exact onNumbers_ne_recursionLimit (exact_ne_recursionLimit _ _) v w k
  | mul => exact onNumbers_ne_recursionLimit (exact_ne_recursionLimit _ _) v w k
  | div => exact onNumbers_ne_recursionLimit hquot v w k
  | eq => simp [apply]

namespace Expr

open EvalM

/-- A relation that is respected holds of a level of evaluation when it holds of what is nested in
the expression. -/
theorem evalWith_congr {P : (α : Type) → EvalM α → EvalM α → Prop} (hP : Congruence P)
    (eval eval' : Expr → Environment → EvalM Value)
    (h : ∀ e env, P Value (eval e env) (eval' e env)) (e : Expr) (env : Environment) :
    P Value (evalWith eval e env) (evalWith eval' e env) := by
  cases e with
  | number n => exact hP.ofExcept (.ok (Value.number n)) (by simp)
  | bool b => exact hP.ofExcept (.ok (Value.bool b)) (by simp)
  | var x => exact hP.ofExcept (env.value x) (env.value_ne_recursionLimit x)
  | binary op left right =>
    refine hP.bind (h left env) fun l => hP.bind (h right env) fun r => ?_
    exact hP.ofExcept (op.apply l r) (op.apply_ne_recursionLimit l r)
  | cond test yes no =>
    refine hP.bind (h test env) fun v => ?_
    split
    · exact h yes env
    · exact h no env
    · exact hP.ofExcept (.error _) (by simp)
  | letIn x init body => exact hP.bind (h init env) fun v => h body (env.bind x v)
  | lambda x body => exact hP.closure env x body
  | call callee arg =>
    refine hP.bind (h callee env) fun f => ?_
    split
    · next captured x body =>
      refine hP.bind (h arg env) fun v => hP.bind (hP.note x v) fun _ => ?_
      exact h body (captured.bind x v)
    · exact hP.ofExcept (.error _) (by simp)

/-! ### More room -/

theorem congruence_le : Congruence fun α (act act' : EvalM α) =>
    ∀ machine out, act machine = some out → act' machine = some out where
  ofExcept _ _ _ _ h := h
  closure _ _ _ _ _ h := h
  note _ _ _ _ h := h
  bind := by
    rintro α β act act' next next' hact hnext machine ⟨result, after⟩ h
    rcases bind_eq_some_iff.mp h with ⟨e, hfail, rfl⟩ | ⟨a, mid, hok, hrest⟩
    · exact bind_eq_some_iff.mpr (.inl ⟨e, hact _ _ hfail, rfl⟩)
    · exact bind_eq_some_iff.mpr (.inr ⟨a, mid, hact _ _ hok, hnext a _ _ hrest⟩)

/-- An evaluation that ends ends alike with one more level of room. -/
theorem eval_succ_of_eval {room : Nat} {e : Expr} {env : Environment} {machine : Machine}
    {out : Outcome × Machine} (h : e.eval room env machine = some out) :
    e.eval (room + 1) env machine = some out := by
  induction room generalizing e env machine out with
  | zero => contradiction
  | succ room ih =>
    obtain ⟨result, after⟩ := out
    rw [eval_succ] at h ⊢
    rcases nested_eq_some_iff.mp h with hrefused | ⟨inner, mid, henter, hact, rfl⟩
    · exact nested_eq_some_iff.mpr (.inl hrefused)
    · have hlevel := evalWith_congr congruence_le (eval room) (eval (room + 1))
        (fun e env _ _ h => ih h) e env _ _ hact
      exact nested_eq_some_iff.mpr (.inr ⟨inner, mid, henter, hlevel, rfl⟩)

/-- More room does not change how an evaluation ends. -/
theorem eval_mono {room room' : Nat} (hle : room ≤ room') {e : Expr} {env : Environment}
    {machine : Machine} {out : Outcome × Machine} (h : e.eval room env machine = some out) :
    e.eval room' env machine = some out := by
  induction hle with
  | refl => exact h
  | step _ ih => exact eval_succ_of_eval ih

theorem eval_unique {room room' : Nat} {e : Expr} {env : Environment} {machine : Machine}
    {out out' : Outcome × Machine} (h : e.eval room env machine = some out)
    (h' : e.eval room' env machine = some out') : out = out' := by
  have hmax := eval_mono (Nat.le_max_left room room') h
  rw [eval_mono (Nat.le_max_right room room') h'] at hmax
  exact (Option.some.inj hmax).symm

/-! ### The depth counter -/

theorem congruence_limit : Congruence fun α (act _ : EvalM α) =>
    ∀ machine result after, act machine = some (result, after) → after.limit = machine.limit ∧
      ∀ k, result = .error (.recursionLimit k) → machine.limit.max = some k where
  ofExcept := by
    rintro α result hne machine _ _ h
    obtain ⟨rfl, rfl⟩ := Prod.mk.inj (Option.some.inj h)
    exact ⟨rfl, fun k hk => absurd hk (hne k)⟩
  closure := by
    rintro env x body machine _ _ h
    obtain ⟨rfl, rfl⟩ := Prod.mk.inj (Option.some.inj h)
    exact ⟨rfl, by simp⟩
  note := by
    rintro x v machine _ _ h
    obtain ⟨rfl, rfl⟩ := Prod.mk.inj (Option.some.inj h)
    exact ⟨rfl, by simp⟩
  bind := by
    rintro α β act _ next _ hact hnext machine result after h
    rcases bind_eq_some_iff.mp h with ⟨e, hfail, rfl⟩ | ⟨a, mid, hok, hrest⟩
    · obtain ⟨hlimit, herr⟩ := hact _ _ _ hfail
      exact ⟨hlimit, fun k hk => herr k (congrArg _ (Except.error.inj hk))⟩
    · obtain ⟨hmid, -⟩ := hact _ _ _ hok
      obtain ⟨hlimit, herr⟩ := hnext a _ _ _ hrest
      rw [hmid] at hlimit herr
      exact ⟨hlimit, herr⟩

end Expr

theorem DepthLimit.enter_eq_error {limit : DepthLimit} {k : Nat} (h : limit.enter = .error k) :
    limit.max = some k := by
  unfold enter at h
  split at h
  · next max hmax =>
    split at h
    · rw [hmax, Except.error.inj h]
    · contradiction
  · contradiction

theorem DepthLimit.max_of_enter {limit inner : DepthLimit} (h : limit.enter = .ok inner) :
    inner.max = limit.max := by
  rw [← leave_of_enter h]
  rfl

namespace Expr

open EvalM

/-- An evaluation leaves the depth counter as it was, and only the ceiling itself is reported as
exceeded. -/
theorem limit_of_eval {room : Nat} {e : Expr} {env : Environment} {machine after : Machine}
    {r : Outcome} (h : e.eval room env machine = some (r, after)) :
    after.limit = machine.limit ∧
      ∀ k, r = .error (.recursionLimit k) → machine.limit.max = some k := by
  induction room generalizing e env machine after r with
  | zero => contradiction
  | succ room ih =>
    rw [eval_succ] at h
    rcases nested_eq_some_iff.mp h with ⟨max, henter, rfl, rfl⟩ | ⟨inner, mid, henter, hact, rfl⟩
    · refine ⟨rfl, fun k hk => ?_⟩
      obtain rfl : max = k := by simpa using hk
      exact DepthLimit.enter_eq_error henter
    · obtain ⟨hlimit, herr⟩ := evalWith_congr congruence_limit (eval room) (eval room)
        (fun e env _ _ _ h => ih h) e env _ _ _ hact
      refine ⟨?_, fun k hk => ?_⟩
      · rw [hlimit]
        exact DepthLimit.leave_of_enter henter
      · rw [← DepthLimit.max_of_enter henter]
        exact herr k hk

/-! ### How an evaluation ends -/

/-- With the depth counter at zero, the ceiling `max` and closures numbered from `fresh`, the
evaluation of the expression ends with the outcome. -/
def Ends (max : Option Nat) (fresh : Nat) (e : Expr) (env : Environment) (r : Outcome) : Prop :=
  ∃ room after, e.eval room env ⟨.new max, fresh, []⟩ = some (r, after)

/-- An evaluation ends with the outcome that it has with some room. -/
theorem Ends.of_eval {max : Option Nat} {fresh : Nat} {e : Expr} {env : Environment} {r : Outcome}
    (room : Nat) (h : (e.eval room env ⟨.new max, fresh, []⟩).map Prod.fst = some r) :
    Ends max fresh e env r := by
  obtain ⟨⟨_, after⟩, heval, rfl⟩ := Option.map_eq_some_iff.mp h
  exact ⟨room, after, heval⟩

/-- An evaluation ends with at most one outcome. -/
theorem Ends.unique {max : Option Nat} {fresh : Nat} {e : Expr} {env : Environment} {r r' : Outcome}
    (h : Ends max fresh e env r) (h' : Ends max fresh e env r') : r = r' := by
  obtain ⟨room, after, heval⟩ := h
  obtain ⟨room', after', heval'⟩ := h'
  exact congrArg Prod.fst (eval_unique heval heval')

end Expr

end UnaryLisp
