import Mathlib.Order.MinMax
import UnaryLisp.Proofs.Eval.Threshold

/-!
# Height and depth

An expression that calls nothing is evaluated by going through it once, as deep as it is high and no
deeper, however many subexpressions it has. So its height is room enough, and a ceiling at its
height does not show. If it has no choices either, then every subexpression has to be evaluated
before there is a value, and every lower ceiling is exceeded. What is inside of a procedure counts
for nothing, as nothing calls it.

## Main definitions

* `Expr.height`: the height of an expression, in which a procedure is a leaf.
* `Expr.CallFree`, `Expr.CondFree`: expressions without calls or choices outside of procedures.
* `EvalM.Total`: an evaluation that does not run out of room.

## Main results

* `Expr.total_eval`: the height of an expression without calls is room enough for its evaluation.
* `Expr.admits_of_eval`: if an expression without calls and choices has a value, the ceiling admits
  all levels up to its height.
* `Expr.ends_of_height`: the height of an expression is its threshold.
-/

namespace UnaryLisp

/-! ### Evaluations that end -/

namespace EvalM

variable {α β : Type} {act : EvalM α} {next : α → EvalM β}

/-- The evaluation does not run out of room. -/
def Total (act : EvalM α) : Prop :=
  ∀ machine, ∃ result after, act machine = some (result, after)

theorem total_ofExcept (result : Except EvalError α) : Total (ofExcept result) :=
  fun machine => ⟨result, machine, rfl⟩

theorem Total.bind (hact : Total act) (hnext : ∀ a, Total (next a)) : Total (act >>= next) := by
  intro machine
  obtain ⟨result, mid, hrun⟩ := hact machine
  cases result with
  | error e => exact ⟨.error e, mid, bind_eq_some_iff.mpr (.inl ⟨e, hrun, rfl⟩)⟩
  | ok a =>
    obtain ⟨result, after, hrest⟩ := hnext a mid
    exact ⟨result, after, bind_eq_some_iff.mpr (.inr ⟨a, mid, hrun, hrest⟩)⟩

theorem Total.nested (hact : Total act) : Total (nested act) := by
  intro machine
  cases henter : machine.limit.enter with
  | error max => exact ⟨_, _, nested_eq_some_iff.mpr (.inl ⟨max, henter, rfl, rfl⟩)⟩
  | ok inner =>
    obtain ⟨result, mid, hrun⟩ := hact { machine with limit := inner }
    exact ⟨result, _, nested_eq_some_iff.mpr (.inr ⟨inner, mid, henter, hrun, rfl⟩)⟩

end EvalM

namespace Expr

open EvalM

/-! ### Height -/

/-- The height of an expression. A procedure is as high as a number. -/
def height : Expr → Nat
  | .number _ | .bool _ | .var _ | .lambda _ _ => 1
  | .binary _ left right => max left.height right.height + 1
  | .cond test yes no => max test.height (max yes.height no.height) + 1
  | .letIn _ init body => max init.height body.height + 1
  | .call callee arg => max callee.height arg.height + 1

/-- Outside of procedures, the expression calls nothing. -/
def CallFree : Expr → Prop
  | .number _ | .bool _ | .var _ | .lambda _ _ => True
  | .binary _ left right => left.CallFree ∧ right.CallFree
  | .cond test yes no => test.CallFree ∧ yes.CallFree ∧ no.CallFree
  | .letIn _ init body => init.CallFree ∧ body.CallFree
  | .call _ _ => False

/-- Outside of procedures, the expression has no choices. -/
def CondFree : Expr → Prop
  | .number _ | .bool _ | .var _ | .lambda _ _ => True
  | .binary _ left right => left.CondFree ∧ right.CondFree
  | .cond _ _ _ => False
  | .letIn _ init body => init.CondFree ∧ body.CondFree
  | .call callee arg => callee.CondFree ∧ arg.CondFree

theorem height_pos (e : Expr) : 0 < e.height := by
  cases e <;> exact Nat.succ_pos _

/-! ### Room enough -/

/-- The height of an expression without calls is room enough for its evaluation. -/
theorem total_eval {room : Nat} {e : Expr} (h : e.CallFree) (hroom : e.height ≤ room)
    (env : Environment) : Total (e.eval room env) := by
  induction room generalizing e env with
  | zero => exact absurd e.height_pos (Nat.not_lt.mpr hroom)
  | succ room ih =>
    rw [eval_succ]
    refine Total.nested ?_
    cases e with
    | number n => exact total_ofExcept (.ok (Value.number n))
    | bool b => exact total_ofExcept (.ok (Value.bool b))
    | var x => exact total_ofExcept (env.value x)
    | lambda x body => exact fun machine => ⟨_, _, rfl⟩
    | binary op left right =>
      obtain ⟨hleft, hright⟩ := max_le_iff.mp (Nat.le_of_succ_le_succ hroom)
      exact (ih h.1 hleft env).bind fun v => (ih h.2 hright env).bind fun w =>
        total_ofExcept (op.apply v w)
    | cond test yes no =>
      obtain ⟨htest, hbranches⟩ := max_le_iff.mp (Nat.le_of_succ_le_succ hroom)
      obtain ⟨hyes, hno⟩ := max_le_iff.mp hbranches
      refine (ih h.1 htest env).bind fun v => ?_
      cases v with
      | bool b =>
        cases b with
        | true => exact ih h.2.1 hyes env
        | false => exact ih h.2.2 hno env
      | number n => exact total_ofExcept (.error (.typeMismatch .test .number))
      | closure i captured x body => exact total_ofExcept (.error (.typeMismatch .test .procedure))
    | letIn x init body =>
      obtain ⟨hinit, hbody⟩ := max_le_iff.mp (Nat.le_of_succ_le_succ hroom)
      exact (ih h.1 hinit env).bind fun v => ih h.2 hbody (env.bind x v)
    | call callee arg => exact h.elim

/-! ### Every level is entered -/

/-- If an expression without calls and choices has a value, the ceiling admits all levels up to its
height. -/
theorem admits_of_eval {room : Nat} {e : Expr} (hcall : e.CallFree) (hcond : e.CondFree)
    {env : Environment} {machine after : Machine} {v : Value}
    (h : e.eval room env machine = some (.ok v, after)) {levels : Nat}
    (hlevels : levels < e.height) : machine.limit.Admits levels := by
  induction room generalizing e env machine after v levels with
  | zero => contradiction
  | succ room ih =>
    rw [eval_succ] at h
    rcases nested_eq_some_iff.mp h with ⟨k, -, hr, -⟩ | ⟨inner, mid, henter, hact, -⟩
    · contradiction
    obtain ⟨hadm, rfl⟩ := DepthLimit.admits_of_enter henter
    cases levels with
    | zero => exact hadm
    | succ levels =>
      rw [← DepthLimit.admits_deeper]
      cases e with
      | number _ | bool _ | var _ | lambda _ _ =>
        exact absurd (Nat.lt_of_succ_lt_succ hlevels) (Nat.not_lt_zero levels)
      | binary op left right =>
        obtain ⟨_, mid, hleft, hrest⟩ := exists_of_bind_eq_ok hact
        obtain ⟨_, _, hright, -⟩ := exists_of_bind_eq_ok hrest
        -- the left operand leaves the depth at which the right one is evaluated
        have hmid : mid.limit = machine.limit.deeper := (limit_of_eval hleft).1
        rcases lt_max_iff.mp (Nat.lt_of_succ_lt_succ hlevels) with hlt | hlt
        · exact ih hcall.1 hcond.1 hleft hlt
        · exact hmid ▸ ih hcall.2 hcond.2 hright hlt
      | cond _ _ _ => exact hcond.elim
      | letIn x init body =>
        obtain ⟨_, mid, hinit, hbody⟩ := exists_of_bind_eq_ok hact
        have hmid : mid.limit = machine.limit.deeper := (limit_of_eval hinit).1
        rcases lt_max_iff.mp (Nat.lt_of_succ_lt_succ hlevels) with hlt | hlt
        · exact ih hcall.1 hcond.1 hinit hlt
        · exact hmid ▸ ih hcall.2 hcond.2 hbody hlt
      | call _ _ => exact hcall.elim

/-- A lower ceiling than the height of an expression without calls and choices is exceeded, if the
expression has a value at all. -/
theorem Ends.exceeded_below_height {e : Expr} {fresh : Nat} {env : Environment} {v : Value}
    (hcall : e.CallFree) (hcond : e.CondFree) (h : Ends none fresh e env (.ok v)) {max : Nat}
    (hmax : max < e.height) : Ends (some max) fresh e env (.error (.recursionLimit max)) := by
  rcases ends_none_or_exceeded fresh e env max with ⟨r, hsome, hnone⟩ | hexceeded
  · obtain rfl := hnone.unique h
    obtain ⟨room, after, heval⟩ := hsome
    have hadm : (DepthLimit.new (some max)).Admits max := admits_of_eval hcall hcond heval hmax
    have hlt : 0 + max < max := hadm max rfl
    omega
  · exact hexceeded

/-! ### The height is the threshold -/

/-- An expression without calls outside of procedures has an outcome without a ceiling, which is no
exceeded ceiling, and has it under every ceiling from its height on. If it has no choices outside of
procedures either and the outcome is a value, every ceiling below its height is exceeded. -/
theorem ends_of_height {e : Expr} (h : e.CallFree) (fresh : Nat) (env : Environment) :
    ∃ r, Ends none fresh e env r ∧ (∀ k, r ≠ .error (.recursionLimit k)) ∧
      (∀ max, e.height ≤ max → Ends (some max) fresh e env r) ∧
      (e.CondFree → ∀ v, r = .ok v →
        ∀ max < e.height, Ends (some max) fresh e env (.error (.recursionLimit max))) := by
  obtain ⟨r, after, heval⟩ := total_eval h le_rfl env ⟨.new none, fresh, []⟩
  have hends : Ends none fresh e env r := ⟨e.height, after, heval⟩
  have hne : ∀ k, r ≠ .error (.recursionLimit k) := fun k hk => by
    have hmax := hends.max_of_recursionLimit hk
    contradiction
  refine ⟨r, hends, hne, fun max hmax => ?_, ?_⟩
  · refine ⟨e.height, _, eval_withMax (some max) heval hne fun j hj _ k hk => ?_⟩
    obtain rfl := Option.some.inj hk
    simpa [DepthLimit.withMax, DepthLimit.new] using hj.trans_le hmax
  · rintro hcond v rfl max hmax
    exact hends.exceeded_below_height h hcond hmax

/-- A procedure that calls itself is a leaf, and of two operands the higher one counts: `4` levels
are enough and `3` are not. -/
theorem ends_of_height_nested :
    let e : Expr := .letIn ['f'] (.lambda ['x'] (.call (.var ['x']) (.var ['x'])))
      (.binary .add (.binary .mul (.number 2) (.number 3)) (.number 1))
    e.CallFree ∧ Ends (some 4) 0 e .empty (.ok (.number 7)) ∧
      Ends (some 3) 0 e .empty (.error (.recursionLimit 3)) := by
  intro e
  have hcall : e.CallFree := ⟨trivial, ⟨trivial, trivial⟩, trivial⟩
  obtain ⟨r, hends, -, habove, hbelow⟩ := ends_of_height hcall 0 .empty
  have hvalue : Ends none 0 e .empty (.ok (.number 7)) := .of_eval 4 (by decide +kernel)
  obtain rfl := hends.unique hvalue
  exact ⟨hcall, habove 4 (by decide),
    hbelow ⟨trivial, ⟨trivial, trivial⟩, trivial⟩ _ rfl 3 (by decide)⟩

end Expr

end UnaryLisp
