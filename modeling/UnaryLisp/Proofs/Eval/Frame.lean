import Mathlib.Data.List.Basic
import UnaryLisp.Proofs.Eval.Congruence
import UnaryLisp.Proofs.Eval.Operation

/-!
# Evaluations under way

An evaluation that is under way has an environment, an expression and the outcomes of what has ended
in it so far. These decide what it does next: it begins a nested evaluation, makes a closure, or
ends with an outcome. A value that is bound, applied or passed on is one of those that have been
given in this very evaluation, or the value of a name in its environment.

## Main definitions

* `Value.closures`, `Environment.closures`, `Outcome.closures`: the closures that occur.
* `Frame`: an evaluation under way.
* `Frame.Next`: what an evaluation under way does next.

## Main results

* `Frame.Next.closures_subset`: an evaluation goes on with closures that occur in it.
-/

namespace UnaryLisp

/-! ### Closures that occur -/

mutual

/-- The closures that occur in a value, those in the environments of closures among them. -/
def Value.closures : Value → List Value
  | .number _ | .bool _ => []
  | .closure i env x body => .closure i env x body :: env.closures

/-- The closures that occur in an environment. -/
def Environment.closures : Environment → List Value
  | .empty => []
  | .bind _ value outer => value.closures ++ outer.closures

end

/-- The closures that occur in an error. -/
def EvalError.closures : EvalError → List Value
  | .applyNonFunction value => value.closures
  | .unboundVariable _ | .typeMismatch _ _ | .divisionByZero _ | .integerOverflow _ _ _
  | .recursionLimit _ => []

/-- The closures that occur in an outcome. -/
def Outcome.closures : Outcome → List Value
  | .ok value => value.closures
  | .error e => e.closures

theorem Value.closures_subset_iff {i : Nat} {env : Environment} {x : Name} {body : Expr}
    {known : List Value} : (Value.closure i env x body).closures ⊆ known ↔
      .closure i env x body ∈ known ∧ env.closures ⊆ known := by
  rw [closures, List.cons_subset]

theorem Environment.closures_bind_subset_iff {env : Environment} {x : Name} {v : Value}
    {known : List Value} :
    (env.bind x v).closures ⊆ known ↔ v.closures ⊆ known ∧ env.closures ⊆ known := by
  rw [closures, List.append_subset]

theorem Environment.Binds.closures_subset {x : Name} {v : Value} {env : Environment}
    (h : env.Binds x v) : v.closures ⊆ env.closures := by
  induction h with
  | here =>
    rw [Environment.closures]
    exact List.subset_append_left _ _
  | there _ _ ih =>
    rw [Environment.closures]
    exact List.subset_append_of_subset_right _ ih

theorem Operator.Gives.closures_eq_nil {op : Operator} {v w : Value} {r : Outcome}
    (h : op.Gives v w r) : r.closures = [] := by
  cases h <;> rfl

/-! ### What an evaluation does next -/

/-- An evaluation under way: its environment, its expression, and the outcomes of what has ended in
it, the latest first. -/
structure Frame where
  env : Environment
  e : Expr
  done : List Outcome
deriving DecidableEq

/-- What an evaluation can do. -/
inductive Move where
  /-- It begins a nested evaluation. -/
  | enter (env : Environment) (e : Expr)
  /-- It makes a closure. -/
  | make (env : Environment) (x : Name) (body : Expr)
  /-- It ends with an outcome. -/
  | leave (r : Outcome)

/-- What an evaluation under way does next. -/
inductive Frame.Next : Frame → Move → Prop
  | number {env : Environment} (n : Number) :
      Next ⟨env, .number n, []⟩ (.leave (.ok (.number n)))
  | bool {env : Environment} (b : Bool) : Next ⟨env, .bool b, []⟩ (.leave (.ok (.bool b)))
  | var {env : Environment} {x : Name} {v : Value} (h : env.Binds x v) :
      Next ⟨env, .var x, []⟩ (.leave (.ok v))
  | unbound {env : Environment} {x : Name} (h : ∀ v, ¬ env.Binds x v) :
      Next ⟨env, .var x, []⟩ (.leave (.error (.unboundVariable x)))
  | left {env : Environment} {op : Operator} {left right : Expr} :
      Next ⟨env, .binary op left right, []⟩ (.enter env left)
  | right {env : Environment} {op : Operator} {left right : Expr} {v : Value} :
      Next ⟨env, .binary op left right, [.ok v]⟩ (.enter env right)
  | operator {env : Environment} {op : Operator} {left right : Expr} {v w : Value} {r : Outcome}
      (h : op.Gives v w r) : Next ⟨env, .binary op left right, [.ok w, .ok v]⟩ (.leave r)
  | test {env : Environment} {test yes no : Expr} :
      Next ⟨env, .cond test yes no, []⟩ (.enter env test)
  | yes {env : Environment} {test yes no : Expr} :
      Next ⟨env, .cond test yes no, [.ok (.bool true)]⟩ (.enter env yes)
  | no {env : Environment} {test yes no : Expr} :
      Next ⟨env, .cond test yes no, [.ok (.bool false)]⟩ (.enter env no)
  | mismatch {env : Environment} {test yes no : Expr} {v : Value} (hv : v.kind ≠ .boolean) :
      Next ⟨env, .cond test yes no, [.ok v]⟩ (.leave (.error (.typeMismatch .test v.kind)))
  | branch {env : Environment} {test yes no : Expr} {v w : Value} :
      Next ⟨env, .cond test yes no, [.ok w, .ok v]⟩ (.leave (.ok w))
  | init {env : Environment} {x : Name} {init body : Expr} :
      Next ⟨env, .letIn x init body, []⟩ (.enter env init)
  | letBody {env : Environment} {x : Name} {init body : Expr} {v : Value} :
      Next ⟨env, .letIn x init body, [.ok v]⟩ (.enter (env.bind x v) body)
  | letResult {env : Environment} {x : Name} {init body : Expr} {v w : Value} :
      Next ⟨env, .letIn x init body, [.ok w, .ok v]⟩ (.leave (.ok w))
  | lambda {env : Environment} {x : Name} {body : Expr} :
      Next ⟨env, .lambda x body, []⟩ (.make env x body)
  | closure {env : Environment} {x : Name} {body : Expr} {c : Value} :
      Next ⟨env, .lambda x body, [.ok c]⟩ (.leave (.ok c))
  | callee {env : Environment} {callee arg : Expr} :
      Next ⟨env, .call callee arg, []⟩ (.enter env callee)
  | nonFunction {env : Environment} {callee arg : Expr} {f : Value} (hf : f.kind ≠ .procedure) :
      Next ⟨env, .call callee arg, [.ok f]⟩ (.leave (.error (.applyNonFunction f)))
  | arg {env captured : Environment} {callee arg body : Expr} {i : Nat} {x : Name} :
      Next ⟨env, .call callee arg, [.ok (.closure i captured x body)]⟩ (.enter env arg)
  | callBody {env captured : Environment} {callee arg body : Expr} {i : Nat} {x : Name}
      {v : Value} : Next ⟨env, .call callee arg, [.ok v, .ok (.closure i captured x body)]⟩
        (.enter (captured.bind x v) body)
  | callResult {env : Environment} {callee arg : Expr} {f v w : Value} :
      Next ⟨env, .call callee arg, [.ok w, .ok v, .ok f]⟩ (.leave (.ok w))
  /-- What fails in an evaluation makes it fail. -/
  | fail {env : Environment} {e : Expr} {err : EvalError} {done : List Outcome} :
      Next ⟨env, e, .error err :: done⟩ (.leave (.error err))

/-! ### What an evaluation goes on with -/

/-- The closures that occur in what an evaluation does. -/
def Move.closures : Move → List Value
  | .enter env _ | .make env _ _ => env.closures
  | .leave r => r.closures

namespace Frame

/-- The closures that occur in an evaluation under way are among the known ones. -/
structure Known (known : List Value) (frame : Frame) : Prop where
  env : frame.env.closures ⊆ known
  done : ∀ r ∈ frame.done, r.closures ⊆ known

theorem Known.mono {known known' : List Value} {frame : Frame} (h : frame.Known known)
    (hsub : known ⊆ known') : frame.Known known' :=
  ⟨List.Subset.trans h.env hsub, fun r hr => List.Subset.trans (h.done r hr) hsub⟩

/-- An evaluation goes on with closures that occur in it. -/
theorem Next.closures_subset {frame : Frame} {move : Move} {known : List Value}
    (h : frame.Next move) (hknown : frame.Known known) : move.closures ⊆ known := by
  obtain ⟨henv, hdone⟩ := hknown
  have hlast {r : Outcome} {rest : List Outcome} (heq : frame.done = r :: rest) :
      r.closures ⊆ known := hdone r (heq ▸ List.mem_cons_self)
  cases h with
  | number | bool | unbound | mismatch => exact List.nil_subset _
  | var h => exact List.Subset.trans h.closures_subset henv
  | operator h =>
    rw [Move.closures, h.closures_eq_nil]
    exact List.nil_subset _
  | left | right | test | yes | no | init | lambda | callee | arg => exact henv
  | letBody =>
    rw [Move.closures, Environment.closures_bind_subset_iff]
    exact ⟨hlast rfl, henv⟩
  | callBody =>
    have hclosure := hdone _ (List.mem_cons_of_mem _ List.mem_cons_self)
    rw [Move.closures, Environment.closures_bind_subset_iff]
    exact ⟨hlast rfl, (Value.closures_subset_iff.mp hclosure).2⟩
  | branch | letResult | closure | callResult | nonFunction | fail => exact hlast rfl

end Frame

end UnaryLisp
