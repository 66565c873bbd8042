import Mathlib.Algebra.Group.End
import UnaryLisp.Proofs.Eval.Congruence
import UnaryLisp.Proofs.Eval.Operation

/-!
# Identities of closures

The identities that occur in a value, an environment or an outcome, and their renaming by a
permutation. Renaming changes neither the kind of a value nor which values are equal, so the rules
for names and operators carry over to what is renamed.

## Main definitions

* `Value.identities`, `Environment.identities`, `Outcome.identities`: the identities that occur.
* `Value.rename`, `Environment.rename`, `Outcome.rename`: renaming by a permutation.
* `Outcome.Alike`: two outcomes in an environment that differ only in the identities of closures
  that the environment does not know.

## Main results

* `Environment.Binds.rename`, `Operator.Gives.rename`: the rules carry over.
* `Outcome.rename_congr`: only the identities that occur matter.
-/

namespace UnaryLisp

/-! ### Identities that occur -/

mutual

/-- The identities that occur in a value. -/
def Value.identities : Value → List Nat
  | .number _ | .bool _ => []
  | .closure i env _ _ => i :: env.identities

/-- The identities that occur in an environment. -/
def Environment.identities : Environment → List Nat
  | .empty => []
  | .bind _ value outer => value.identities ++ outer.identities

end

/-- The identities that occur in an error. -/
def EvalError.identities : EvalError → List Nat
  | .applyNonFunction value => value.identities
  | .unboundVariable _ | .typeMismatch _ _ | .divisionByZero _ | .integerOverflow _ _ _
  | .recursionLimit _ => []

/-- The identities that occur in an outcome. -/
def Outcome.identities : Outcome → List Nat
  | .ok value => value.identities
  | .error e => e.identities

/-! ### Renaming -/

mutual

/-- The value with its identities renamed. -/
def Value.rename (π : Equiv.Perm Nat) : Value → Value
  | .number n => .number n
  | .bool b => .bool b
  | .closure i env x body => .closure (π i) (env.rename π) x body

/-- The environment with its identities renamed. -/
def Environment.rename (π : Equiv.Perm Nat) : Environment → Environment
  | .empty => .empty
  | .bind x value outer => .bind x (value.rename π) (outer.rename π)

end

/-- The error with its identities renamed. -/
def EvalError.rename (π : Equiv.Perm Nat) : EvalError → EvalError
  | .applyNonFunction value => .applyNonFunction (value.rename π)
  | .unboundVariable x => .unboundVariable x
  | .typeMismatch demand found => .typeMismatch demand found
  | .divisionByZero dividend => .divisionByZero dividend
  | .integerOverflow op left right => .integerOverflow op left right
  | .recursionLimit limit => .recursionLimit limit

/-- The outcome with its identities renamed. -/
def Outcome.rename (π : Equiv.Perm Nat) : Outcome → Outcome
  | .ok value => .ok (value.rename π)
  | .error e => .error (e.rename π)

/-- The outcomes are the same up to the identities of closures that the environment does not
know. -/
def Outcome.Alike (env : Environment) (r r' : Outcome) : Prop :=
  ∃ π : Equiv.Perm Nat, (∀ i ∈ env.identities, π i = i) ∧ r' = r.rename π

section Congr

variable {π σ : Equiv.Perm Nat}

mutual

theorem Value.rename_congr : (v : Value) → (∀ i ∈ v.identities, π i = σ i) →
    v.rename π = v.rename σ
  | .number _, _ | .bool _, _ => rfl
  | .closure i env x body, h => by
    rw [Value.identities] at h
    rw [Value.rename, Value.rename, h i (List.mem_cons_self ..),
      Environment.rename_congr env fun j hj => h j (List.mem_cons_of_mem i hj)]

theorem Environment.rename_congr : (env : Environment) → (∀ i ∈ env.identities, π i = σ i) →
    env.rename π = env.rename σ
  | .empty, _ => rfl
  | .bind x v outer, h => by
    rw [Environment.identities] at h
    rw [Environment.rename, Environment.rename,
      Value.rename_congr v fun j hj => h j (List.mem_append_left _ hj),
      Environment.rename_congr outer fun j hj => h j (List.mem_append_right _ hj)]

end

theorem Outcome.rename_congr {r : Outcome} (h : ∀ i ∈ r.identities, π i = σ i) :
    r.rename π = r.rename σ := by
  match r with
  | .ok v => exact congrArg Except.ok (v.rename_congr h)
  | .error e =>
    cases e with
    | applyNonFunction v =>
      exact congrArg (Except.error ∘ EvalError.applyNonFunction) (v.rename_congr h)
    | _ => rfl

end Congr

mutual

theorem Value.rename_one : (v : Value) → v.rename 1 = v
  | .number _ | .bool _ => rfl
  | .closure i env x body => by
    rw [Value.rename, Environment.rename_one env]
    rfl

theorem Environment.rename_one : (env : Environment) → env.rename 1 = env
  | .empty => rfl
  | .bind x v outer => by
    rw [Environment.rename, Value.rename_one v, Environment.rename_one outer]

end

mutual

theorem Value.rename_mul (π σ : Equiv.Perm Nat) : (v : Value) →
    (v.rename σ).rename π = v.rename (π * σ)
  | .number _ | .bool _ => rfl
  | .closure i env x body => by
    rw [Value.rename, Value.rename, Value.rename, Environment.rename_mul π σ env]
    rfl

theorem Environment.rename_mul (π σ : Equiv.Perm Nat) : (env : Environment) →
    (env.rename σ).rename π = env.rename (π * σ)
  | .empty => rfl
  | .bind x v outer => by
    rw [Environment.rename, Environment.rename, Environment.rename, Value.rename_mul π σ v,
      Environment.rename_mul π σ outer]

end

theorem Outcome.rename_mul (π σ : Equiv.Perm Nat) (r : Outcome) :
    Outcome.rename π (r.rename σ) = r.rename (π * σ) := by
  match r with
  | .ok v => exact congrArg Except.ok (v.rename_mul π σ)
  | .error e =>
    cases e with
    | applyNonFunction v =>
      exact congrArg (Except.error ∘ EvalError.applyNonFunction) (v.rename_mul π σ)
    | _ => rfl

theorem Outcome.rename_one (r : Outcome) : r.rename 1 = r := by
  match r with
  | .ok v => exact congrArg Except.ok v.rename_one
  | .error e =>
    cases e with
    | applyNonFunction v =>
      exact congrArg (Except.error ∘ EvalError.applyNonFunction) v.rename_one
    | _ => rfl

theorem Environment.rename_eq_self {π : Equiv.Perm Nat} {env : Environment}
    (h : ∀ i ∈ env.identities, π i = i) : env.rename π = env :=
  (env.rename_congr h : env.rename π = env.rename 1).trans env.rename_one

/-! ### Outcomes that are alike -/

namespace Outcome.Alike

variable {env : Environment} {r r' r'' : Outcome}

theorem symm (h : Alike env r r') : Alike env r' r := by
  obtain ⟨π, hfix, rfl⟩ := h
  refine ⟨π⁻¹, fun i hi => ?_, ?_⟩
  · rw [Equiv.Perm.inv_eq_iff_eq, hfix i hi]
  · rw [rename_mul, inv_mul_cancel, rename_one]

theorem trans (h : Alike env r r') (h' : Alike env r' r'') : Alike env r r'' := by
  obtain ⟨π, hfix, rfl⟩ := h
  obtain ⟨σ, hfix', rfl⟩ := h'
  refine ⟨σ * π, fun i hi => ?_, rename_mul σ π r⟩
  rw [Equiv.Perm.mul_apply, hfix i hi, hfix' i hi]

end Outcome.Alike

/-! ### The rules for names and operators -/

theorem Environment.Binds.identities_subset {x : Name} {v : Value} {env : Environment}
    (h : env.Binds x v) : v.identities ⊆ env.identities := by
  induction h with
  | here =>
    rw [Environment.identities]
    exact List.subset_append_left _ _
  | there _ _ ih =>
    rw [Environment.identities]
    exact List.subset_append_of_subset_right _ ih

theorem Environment.Binds.rename (π : Equiv.Perm Nat) {x : Name} {v : Value} {env : Environment}
    (h : env.Binds x v) : (env.rename π).Binds x (v.rename π) := by
  induction h with
  | here => exact .here
  | there hne _ ih => exact .there hne ih

theorem Environment.not_binds_rename (π : Equiv.Perm Nat) {x : Name} {env : Environment}
    (h : ∀ v, ¬ env.Binds x v) (v : Value) : ¬ (env.rename π).Binds x v := by
  intro hv
  have hback := hv.rename π⁻¹
  rw [Environment.rename_mul, inv_mul_cancel, Environment.rename_one] at hback
  exact h _ hback

@[simp] theorem Value.kind_rename (π : Equiv.Perm Nat) (v : Value) :
    (v.rename π).kind = v.kind := by
  cases v <;> rfl

theorem Value.same_rename (π : Equiv.Perm Nat) (v w : Value) :
    (v.rename π).same (w.rename π) = v.same w := by
  cases v <;> cases w <;> simp [Value.rename, Value.same]

theorem Value.equal_rename_iff (π : Equiv.Perm Nat) {v w : Value} :
    (v.rename π).Equal (w.rename π) ↔ v.Equal w := by
  rw [← Value.same_iff, ← Value.same_iff, Value.same_rename]

namespace Operator.Gives

variable {op : Operator} {v w : Value} {r : Outcome}

theorem identities_eq_nil (h : op.Gives v w r) : r.identities = [] := by
  cases h <;> rfl

theorem rename (π : Equiv.Perm Nat) (h : op.Gives v w r) :
    op.Gives (v.rename π) (w.rename π) (r.rename π) := by
  cases h with
  | equal h => exact .equal ((Value.equal_rename_iff π).mpr h)
  | unequal h => exact .unequal (mt (Value.equal_rename_iff π).mp h)
  | number h => exact .number h
  | overflow h hi => exact .overflow h hi
  | divisionByZero a => exact .divisionByZero a
  | left hop hv => exact v.kind_rename π ▸ .left hop (by rwa [v.kind_rename])
  | right hop hw => exact w.kind_rename π ▸ .right hop (by rwa [w.kind_rename])

end Operator.Gives

end UnaryLisp
