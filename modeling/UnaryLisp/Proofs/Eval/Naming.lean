import UnaryLisp.Proofs.Eval.Lockstep
import UnaryLisp.Proofs.Expr.Grammar

/-!
# Names that can be written

Evaluation makes up no names. If every name in an expression is an identifier, and every name in the
closures of its environment, then the same holds of the closures in its value; so a closure that a
program makes shows an identifier in print.

## Main definitions

* `Value.WellNamed`, `Environment.WellNamed`: every name in a closure is an identifier.

## Main results

* `Comparison.isSimulation_naming`: evaluation keeps names.
* `Expr.WellNamed.value`: the value of an expression with identifiers for names has such names.
-/

namespace UnaryLisp

mutual

/-- Every name in a closure of the value is an identifier. -/
def Value.WellNamed : Value → Prop
  | .number _ | .bool _ => True
  | .closure _ env x body => x.IsIdentifier ∧ body.WellNamed ∧ env.WellNamed

/-- Every name in a closure of the environment is an identifier. -/
def Environment.WellNamed : Environment → Prop
  | .empty => True
  | .bind _ value outer => value.WellNamed ∧ outer.WellNamed

end

section

variable {env : Environment} {x : Name} {v : Value}

theorem Value.wellNamed_number (n : Number) : (Value.number n).WellNamed := by
  rw [Value.WellNamed]
  trivial

theorem Value.wellNamed_bool (b : Bool) : (Value.bool b).WellNamed := by
  rw [Value.WellNamed]
  trivial

theorem Value.wellNamed_closure_iff {i : Nat} {body : Expr} :
    (Value.closure i env x body).WellNamed ↔
      Name.IsIdentifier x ∧ body.WellNamed ∧ env.WellNamed := by
  rw [Value.WellNamed]

theorem Environment.wellNamed_empty : Environment.empty.WellNamed := by
  rw [Environment.WellNamed]
  trivial

theorem Environment.wellNamed_bind_iff :
    (env.bind x v).WellNamed ↔ v.WellNamed ∧ env.WellNamed := by
  rw [Environment.WellNamed]

theorem Environment.Binds.wellNamed (h : env.Binds x v) (henv : env.WellNamed) : v.WellNamed := by
  induction h with
  | here => exact (Environment.wellNamed_bind_iff.mp henv).1
  | there _ _ ih => exact ih (Environment.wellNamed_bind_iff.mp henv).2

end

/-! ### The invariant -/

/-- Each evaluation is compared with itself. Values and expressions correspond to themselves where
their names are identifiers. -/
def Comparison.naming : Comparison where
  link := .same
  Allowed _ := True
  Values v w := v = w ∧ v.WellNamed
  Code env e env' e' := env = env' ∧ e = e' ∧ e.WellNamed ∧ env.WellNamed

namespace Comparison

theorem code_naming_bind {env : Environment} {body : Expr} (x : Name) (hbody : body.WellNamed)
    (henv : env.WellNamed) :
    ∀ v w, naming.Values v w → naming.Code (env.bind x v) body (env.bind x w) body := by
  rintro v _ ⟨rfl, hv⟩
  exact ⟨rfl, rfl, hbody, Environment.wellNamed_bind_iff.mpr ⟨hv, henv⟩⟩

theorem level_naming {env : Environment} {e : Expr} (h : e.WellNamed) (henv : env.WellNamed) :
    naming.Level env e env e := by
  have hcode {part : Expr} (hpart : part.WellNamed) : naming.Code env part env part :=
    ⟨rfl, rfl, hpart, henv⟩
  cases e with
  | number n => exact .leaf rfl rfl (.ok ⟨rfl, Value.wellNamed_number n⟩)
  | bool b => exact .leaf rfl rfl (.ok ⟨rfl, Value.wellNamed_bool b⟩)
  | var x =>
    refine .leaf rfl rfl ?_
    cases hx : env.value x with
    | ok v => exact .ok ⟨rfl, (Environment.value_eq_ok_iff.mp hx).wellNamed henv⟩
    | error err => exact .error trivial
  | binary op left right => exact .binary (hcode h.1) (hcode h.2)
  | cond test yes no => exact .cond (hcode h.1) (hcode h.2.1) (hcode h.2.2)
  | letIn x init body => exact .letIn (hcode h.2.1) (code_naming_bind x h.2.2 henv)
  | lambda x body =>
    refine .lambda fun i j hij => ?_
    obtain rfl : i = j := hij
    exact ⟨rfl, Value.wellNamed_closure_iff.mpr ⟨h.1, h.2, henv⟩⟩
  | call callee arg => exact .call (hcode h.1) (hcode h.2)

/-- Evaluation keeps names. -/
theorem isSimulation_naming : naming.IsSimulation where
  allowed _ := trivial
  number n := ⟨rfl, Value.wellNamed_number n⟩
  bool b := ⟨rfl, Value.wellNamed_bool b⟩
  values := by
    rintro v _ ⟨rfl, hv⟩
    cases v with
    | number n => exact .number n
    | bool b => exact .bool b
    | closure i env x body =>
      obtain ⟨-, hbody, henv⟩ := Value.wellNamed_closure_iff.mp hv
      exact .closure rfl (code_naming_bind x hbody henv)
  code := by
    rintro env e _ _ ⟨rfl, rfl, h, henv⟩
    exact level_naming h henv

end Comparison

/-- The value of an expression with identifiers for names has such names. -/
theorem Expr.WellNamed.value {e : Expr} (h : e.WellNamed) {env : Environment}
    (henv : env.WellNamed) {machine : Machine} {v : Value}
    (hends : EndsFrom machine env e (.ok v)) : v.WellNamed := by
  cases Comparison.isSimulation_naming.corresponds_self rfl ⟨rfl, rfl, h, henv⟩ hends with
  | ok hv => exact hv.2

end UnaryLisp
