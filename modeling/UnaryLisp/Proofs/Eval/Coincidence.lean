import UnaryLisp.Proofs.Eval.Scope

/-!
# What an expression reads of its environment

An evaluation reads of its environment the values of the free names of the expression, and nothing
else: not the other bindings, nor the order of the bindings, nor those that are hidden by others.
Two evaluations of one expression, in environments that agree on its free names, run in lockstep.
The closures that they make have different environments, so agreement is a relation between values:
closures agree when their environments agree on the free names of the body.

## Main definitions

* `Value.Agree`, `Outcome.Agree`: what the two evaluations end with.
* `Environment.AgreeOn`: two environments agree on some names.

## Main results

* `Comparison.isSimulation_reading`: evaluations in environments that agree are a simulation.
* `Expr.endAlike_of_lookup_eq`: environments in which the free names of an expression have the same
  values give the same outcome.
-/

namespace UnaryLisp

/-! ### Values and environments that agree -/

/-- The values are the same number or truth value, or closures with one identity, one parameter and
one body, whose environments have values that agree for the free names of the body, or both none. -/
inductive Value.Agree : Value → Value → Prop
  | number (n : Number) : Agree (.number n) (.number n)
  | bool (b : Bool) : Agree (.bool b) (.bool b)
  | closure {i : Nat} {env env' : Environment} {x : Name} {body : Expr}
      (henv : ∀ y ∈ body.freeNames, y ≠ x → Option.Rel Agree (env.lookup y) (env'.lookup y)) :
      Agree (.closure i env x body) (.closure i env' x body)

/-- The outcomes are values that agree, or the same error. -/
def Outcome.Agree : Outcome → Outcome → Prop :=
  Corresponds Value.Agree fun _ => True

/-- For each of the names, the environments have values that agree, or both none. -/
def Environment.AgreeOn (names : List Name) (env env' : Environment) : Prop :=
  ∀ x ∈ names, Option.Rel Value.Agree (env.lookup x) (env'.lookup x)

mutual

theorem Value.Agree.refl : (v : Value) → v.Agree v
  | .number n => .number n
  | .bool b => .bool b
  | .closure _ env _ _ => .closure fun y _ _ => Environment.rel_lookup_self env y

theorem Environment.rel_lookup_self : (env : Environment) → (x : Name) →
    Option.Rel Value.Agree (env.lookup x) (env.lookup x)
  | .empty, _ => .none
  | .bind y v outer, x => by
    rw [Environment.lookup]
    by_cases hy : y = x
    · rw [if_pos hy]
      exact .some (Value.Agree.refl v)
    · rw [if_neg hy]
      exact Environment.rel_lookup_self outer x

end

namespace Environment.AgreeOn

variable {names names' : List Name} {env env' : Environment}

theorem mono (h : AgreeOn names env env') (hsub : names' ⊆ names) : AgreeOn names' env env' :=
  fun x hx => h x (hsub hx)

/-- A name that both environments bind to values that agree need not be agreed on before. -/
theorem bind {x : Name} {v w : Value} (h : AgreeOn (names.filter (· ≠ x)) env env')
    (hv : v.Agree w) : AgreeOn names (env.bind x v) (env'.bind x w) := by
  intro y hy
  rw [lookup, lookup]
  by_cases hxy : x = y
  · rw [if_pos hxy, if_pos hxy]
    exact .some hv
  · rw [if_neg hxy, if_neg hxy]
    exact h y (List.mem_filter.mpr ⟨hy, decide_eq_true (Ne.symm hxy)⟩)

theorem value (h : AgreeOn names env env') {x : Name} (hx : x ∈ names) :
    Outcome.Agree (env.value x) (env'.value x) := by
  have hrel := h x hx
  unfold Environment.value
  generalize env.lookup x = found at hrel ⊢
  generalize env'.lookup x = found' at hrel ⊢
  cases hrel with
  | none => exact .error trivial
  | some hv => exact .ok hv

end Environment.AgreeOn

/-! ### The simulation -/

/-- An expression corresponds to itself in environments that agree on its free names. -/
def Comparison.reading : Comparison where
  link := .same
  Allowed _ := True
  Values := Value.Agree
  Code env e env' e' := e = e' ∧ env.AgreeOn e.freeNames env'

namespace Comparison

variable {env env' : Environment}

/-- The parts of an expression whose free names are among its own read no more than it does. -/
theorem code_reading {e part : Expr} (h : env.AgreeOn e.freeNames env')
    (hsub : part.freeNames ⊆ e.freeNames) : reading.Code env part env' part :=
  ⟨rfl, h.mono hsub⟩

theorem code_reading_bind {e body : Expr} {x : Name} (h : env.AgreeOn e.freeNames env')
    (hsub : body.freeNames.filter (· ≠ x) ⊆ e.freeNames) :
    ∀ v w, reading.Values v w → reading.Code (env.bind x v) body (env'.bind x w) body :=
  fun _ _ hv => ⟨rfl, (h.mono hsub).bind hv⟩

theorem level_reading {e : Expr} (h : env.AgreeOn e.freeNames env') :
    reading.Level env e env' e := by
  cases e with
  | number n => exact .leaf rfl rfl (.ok (.number n))
  | bool b => exact .leaf rfl rfl (.ok (.bool b))
  | var x => exact .leaf rfl rfl (h.value (List.mem_singleton_self x))
  | binary op left right =>
    exact .binary (code_reading h (List.subset_append_left _ _))
      (code_reading h (List.subset_append_right _ _))
  | cond test yes no =>
    refine .cond (code_reading h ?_) (code_reading h ?_) (code_reading h ?_) <;>
      simp [Expr.freeNames, List.append_assoc]
  | letIn x init body =>
    exact .letIn (code_reading h (List.subset_append_left _ _))
      (code_reading_bind h (List.subset_append_right _ _))
  | lambda x body =>
    refine .lambda fun i j hij => ?_
    obtain rfl : i = j := hij
    exact .closure fun y hy hne => h y (List.mem_filter.mpr ⟨hy, decide_eq_true hne⟩)
  | call callee arg =>
    exact .call (code_reading h (List.subset_append_left _ _))
      (code_reading h (List.subset_append_right _ _))

/-- Evaluations of one expression in environments that agree on its free names are a simulation. -/
theorem isSimulation_reading : reading.IsSimulation where
  allowed _ := trivial
  number := .number
  bool := .bool
  values h := by
    cases h with
    | number n => exact .number n
    | bool b => exact .bool b
    | closure henv =>
      refine .closure rfl fun v w hv => ⟨rfl, Environment.AgreeOn.bind (fun y hy => ?_) hv⟩
      obtain ⟨hfree, hne⟩ := List.mem_filter.mp hy
      exact henv y hfree (of_decide_eq_true hne)
  code := by
    rintro env e env' _ ⟨rfl, h⟩
    exact level_reading h

end Comparison

namespace Expr

variable {e : Expr} {env env' : Environment}

/-- From every state, the evaluations of an expression in two environments that have the same values
for its free names go on for ever both or end both: with the same error, with the same number or
truth value, or with closures that have one parameter and one body, and environments that agree on
the free names of the body. -/
theorem endAlike_of_lookup_eq (h : ∀ x ∈ e.freeNames, env.lookup x = env'.lookup x)
    (machine : Machine) : EndAlike Outcome.Agree machine env e env' e := by
  have hagree : env.AgreeOn e.freeNames env' := by
    intro x hx
    rw [← h x hx]
    exact env.rel_lookup_self x
  exact Comparison.isSimulation_reading.endAlike rfl machine ⟨rfl, hagree⟩

/-- A closure is made that knows another one, in environments that have their bindings in another
order, one of them with a hidden binding and one that the expression does not use. -/
theorem endAlike_of_lookup_eq_reordered :
    let f := Value.closure 0 (.bind ['k'] (.number 1) .empty) ['x'] (.var ['k'])
    let e := letIn ['g'] (.lambda ['y'] (.call (.var ['f']) (.var ['n'])))
      (.lambda ['z'] (.call (.var ['g']) (.var ['u'])))
    let env := Environment.bind ['f'] f (.bind ['n'] (.number 2) .empty)
    let env' := Environment.bind ['n'] (.number 2) (.bind ['w'] (.bool true)
      (.bind ['f'] f (.bind ['f'] (.number 3) .empty)))
    let g := Value.closure 1 env ['y'] (.call (.var ['f']) (.var ['n']))
    let v := Value.closure 2 (env.bind ['g'] g) ['z'] (.call (.var ['g']) (.var ['u']))
    let machine : Machine := ⟨.new (some 5), 1, []⟩
    (∀ x ∈ e.freeNames, env.lookup x = env'.lookup x) ∧
      EndAlike Outcome.Agree machine env e env' e ∧ EndsFrom machine env e (.ok v) ∧
      ∃ r', EndsFrom machine env' e r' ∧ Outcome.Agree (.ok v) r' := by
  intro f e env env' g v machine
  have h : ∀ x ∈ e.freeNames, env.lookup x = env'.lookup x := by
    simp [e, env, env', freeNames, Environment.lookup]
  have halike := endAlike_of_lookup_eq h machine
  have hends : EndsFrom machine env e (.ok v) := ⟨2, ⟨.new (some 5), 3, []⟩, by decide +kernel⟩
  exact ⟨h, halike, hends, halike.exists_of_left hends⟩

end Expr

end UnaryLisp
