import Mathlib.Data.List.Basic
import UnaryLisp.Proofs.Eval.Lockstep

/-!
# Names in scope

Which names an evaluation can find unbound is known before it starts: those that are free in the
expression and that the environment does not bind. The invariant behind this speaks of closures.
Wherever a closure is reached, its body has no free names but its parameter, the names that the
environment of the closure binds, and the names that were unbound to begin with.

## Main definitions

* `Expr.freeNames`: the names that an expression uses and does not bind.
* `Environment.Defines`: an environment binds a name.
* `Value.Scoped`, `Environment.Scoped`: the closures in a value or an environment find their free
  names bound, some given ones aside.
* `Value.WellScoped`, `Environment.WellScoped`: they find all of them bound.

## Main results

* `Comparison.isSimulation_scope`: evaluation keeps the invariant.
* `Expr.scope_sound`: only a free name that the environment does not bind is found unbound, and
  where there is none the value is well-scoped.
-/

namespace UnaryLisp

/-! ### Free names -/

/-- The names that an expression uses and does not bind. The initializer of a `letIn` is outside of
its binding. -/
def Expr.freeNames : Expr → List Name
  | .number _ | .bool _ => []
  | .var x => [x]
  | .binary _ left right => left.freeNames ++ right.freeNames
  | .cond test yes no => test.freeNames ++ yes.freeNames ++ no.freeNames
  | .letIn x init body => init.freeNames ++ body.freeNames.filter (· ≠ x)
  | .lambda x body => body.freeNames.filter (· ≠ x)
  | .call callee arg => callee.freeNames ++ arg.freeNames

namespace Environment

/-- The environment binds the name. -/
def Defines (env : Environment) (x : Name) : Prop :=
  ∃ v, env.Binds x v

instance (env : Environment) (x : Name) : Decidable (env.Defines x) :=
  decidable_of_iff ((env.lookup x).isSome = true) <| by
    rw [Option.isSome_iff_exists]
    exact exists_congr fun v => lookup_eq_some_iff

theorem defines_bind_iff {env : Environment} {x y : Name} {v : Value} :
    (env.bind x v).Defines y ↔ x = y ∨ env.Defines y := by
  constructor
  · rintro ⟨w, hw⟩
    cases hw with
    | here => exact .inl rfl
    | there _ h => exact .inr ⟨w, h⟩
  · intro h
    by_cases hxy : x = y
    · exact ⟨v, hxy ▸ .here⟩
    · obtain ⟨w, hw⟩ := h.resolve_left hxy
      exact ⟨w, .there hxy hw⟩

end Environment

/-! ### Scoped values -/

mutual

/-- Every closure in the value has, apart from its parameter and the names in `loose`, only free
names that its environment binds. -/
def Value.Scoped (loose : List Name) : Value → Prop
  | .number _ | .bool _ => True
  | .closure _ env x body =>
    (∀ y ∈ body.freeNames, y ≠ x → env.Defines y ∨ y ∈ loose) ∧ env.Scoped loose

/-- Every closure in the environment has, apart from its parameter and the names in `loose`, only
free names that its environment binds. -/
def Environment.Scoped (loose : List Name) : Environment → Prop
  | .empty => True
  | .bind _ value outer => value.Scoped loose ∧ outer.Scoped loose

end

/-- Every closure in the value finds all free names of its body bound. -/
def Value.WellScoped (v : Value) : Prop :=
  v.Scoped []

/-- Every closure in the environment finds all free names of its body bound. -/
def Environment.WellScoped (env : Environment) : Prop :=
  env.Scoped []

mutual

theorem Value.Scoped.mono {loose loose' : List Name} (hsub : loose ⊆ loose') :
    (v : Value) → v.Scoped loose → v.Scoped loose'
  | .number _, _ | .bool _, _ => by rw [Value.Scoped]; trivial
  | .closure _ env x body, h => by
    rw [Value.Scoped] at h ⊢
    obtain ⟨hbody, henv⟩ := h
    exact ⟨fun y hy hne => (hbody y hy hne).imp_right (hsub ·),
      Environment.Scoped.mono hsub env henv⟩

theorem Environment.Scoped.mono {loose loose' : List Name} (hsub : loose ⊆ loose') :
    (env : Environment) → env.Scoped loose → env.Scoped loose'
  | .empty, _ => by rw [Environment.Scoped]; trivial
  | .bind _ v outer, h => by
    rw [Environment.Scoped] at h ⊢
    exact ⟨Value.Scoped.mono hsub v h.1, Environment.Scoped.mono hsub outer h.2⟩

end

theorem Environment.Binds.scoped {loose : List Name} {x : Name} {v : Value} {env : Environment}
    (h : env.Binds x v) (henv : env.Scoped loose) : v.Scoped loose := by
  induction h with
  | here =>
    rw [Environment.Scoped] at henv
    exact henv.1
  | there _ _ ih =>
    rw [Environment.Scoped] at henv
    exact ih henv.2

/-! ### The invariant -/

/-- The expression has, apart from the names in `loose`, only free names that the environment binds,
and so have the closures in the environment. -/
structure Expr.ScopedIn (loose : List Name) (env : Environment) (e : Expr) : Prop where
  closures : env.Scoped loose
  names : ∀ y ∈ e.freeNames, env.Defines y ∨ y ∈ loose

theorem Expr.ScopedIn.bind {loose : List Name} {env : Environment} {x : Name} {v : Value}
    {body : Expr} (henv : env.Scoped loose) (hv : v.Scoped loose)
    (hbody : ∀ y ∈ body.freeNames, y ≠ x → env.Defines y ∨ y ∈ loose) :
    body.ScopedIn loose (env.bind x v) where
  closures := by
    rw [Environment.Scoped]
    exact ⟨hv, henv⟩
  names y hy := by
    rw [Environment.defines_bind_iff]
    by_cases hxy : x = y
    · exact .inl (.inl hxy)
    · exact (hbody y hy (Ne.symm hxy)).imp_left .inr

/-- Each evaluation is compared with itself. Values and expressions correspond to themselves where
they are scoped, and only names in `loose` are found unbound. -/
def Comparison.scope (loose : List Name) : Comparison where
  link := .same
  Allowed e := ∀ x, e = .unboundVariable x → x ∈ loose
  Values v w := v = w ∧ v.Scoped loose
  Code env e env' e' := env = env' ∧ e = e' ∧ e.ScopedIn loose env

namespace Comparison

variable {loose : List Name}

/-- The parts of an expression whose free names are among its own are scoped with it. -/
theorem code_scope {env : Environment} {e part : Expr} (h : e.ScopedIn loose env)
    (hsub : part.freeNames ⊆ e.freeNames) : (scope loose).Code env part env part :=
  ⟨rfl, rfl, h.closures, fun y hy => h.names y (hsub hy)⟩

/-- The body of a binding is scoped with the expression around it. -/
theorem code_scope_bind {env : Environment} {e body : Expr} {x : Name} (h : e.ScopedIn loose env)
    (hsub : body.freeNames.filter (· ≠ x) ⊆ e.freeNames) :
    ∀ v w, (scope loose).Values v w →
      (scope loose).Code (env.bind x v) body (env.bind x w) body := by
  rintro v _ ⟨rfl, hv⟩
  refine ⟨rfl, rfl, .bind h.closures hv fun y hy hne => h.names y (hsub ?_)⟩
  exact List.mem_filter.mpr ⟨hy, decide_eq_true hne⟩

theorem level_scope {env : Environment} {e : Expr} (h : e.ScopedIn loose env) :
    (scope loose).Level env e env e := by
  cases e with
  | number n => exact .leaf rfl rfl (.ok ⟨rfl, by rw [Value.Scoped]; trivial⟩)
  | bool b => exact .leaf rfl rfl (.ok ⟨rfl, by rw [Value.Scoped]; trivial⟩)
  | var x =>
    refine .leaf rfl rfl ?_
    cases hx : env.value x with
    | ok v => exact .ok ⟨rfl, (Environment.value_eq_ok_iff.mp hx).scoped h.closures⟩
    | error err =>
      obtain ⟨hunbound, rfl⟩ := Environment.value_eq_error_iff.mp hx
      refine .error fun y hy => ?_
      obtain rfl := EvalError.unboundVariable.inj hy
      exact (h.names x (List.mem_singleton_self x)).resolve_left fun ⟨v, hv⟩ => hunbound v hv
  | binary op left right =>
    exact .binary (code_scope h (List.subset_append_left _ _))
      (code_scope h (List.subset_append_right _ _))
  | cond test yes no =>
    refine .cond (code_scope h ?_) (code_scope h ?_) (code_scope h ?_) <;>
      simp [Expr.freeNames, List.append_assoc]
  | letIn x init body =>
    exact .letIn (code_scope h (List.subset_append_left _ _))
      (code_scope_bind h (List.subset_append_right _ _))
  | lambda x body =>
    refine .lambda fun i j hij => ?_
    obtain rfl : i = j := hij
    refine ⟨rfl, ?_⟩
    rw [Value.Scoped]
    exact ⟨fun y hy hne => h.names y (List.mem_filter.mpr ⟨hy, decide_eq_true hne⟩), h.closures⟩
  | call callee arg =>
    exact .call (code_scope h (List.subset_append_left _ _))
      (code_scope h (List.subset_append_right _ _))

/-- Evaluation keeps scoped what is scoped. -/
theorem isSimulation_scope (loose : List Name) : (scope loose).IsSimulation where
  allowed hne x hx := absurd hx (hne x)
  number n := ⟨rfl, by rw [Value.Scoped]; trivial⟩
  bool b := ⟨rfl, by rw [Value.Scoped]; trivial⟩
  values := by
    rintro v _ ⟨rfl, hv⟩
    cases v with
    | number n => exact .number n
    | bool b => exact .bool b
    | closure i env x body =>
      rw [Value.Scoped] at hv
      refine .closure rfl ?_
      rintro w _ ⟨rfl, hw⟩
      exact ⟨rfl, rfl, .bind hv.2 hw hv.1⟩
  code := by
    rintro env e _ _ ⟨rfl, rfl, h⟩
    exact level_scope h

end Comparison

namespace Expr

variable {e : Expr} {env : Environment} {machine : Machine} {r : Outcome}

/-- An evaluation in scope ends with a value in scope or with an error, where only a loose name is
found unbound. -/
theorem ScopedIn.ends {loose : List Name} (h : e.ScopedIn loose env)
    (hends : EndsFrom machine env e r) :
    Corresponds (fun v w => v = w ∧ v.Scoped loose)
      (fun err => ∀ x, err = .unboundVariable x → x ∈ loose) r r :=
  (Comparison.isSimulation_scope loose).corresponds_self rfl ⟨rfl, rfl, h⟩ hends

/-- In a well-scoped environment only a name that is free in the expression and that the environment
does not bind is found unbound. If the environment binds all free names of the expression, the value
is well-scoped. -/
theorem scope_sound (henv : env.WellScoped) (hends : EndsFrom machine env e r) :
    (∀ x, r = .error (.unboundVariable x) → x ∈ e.freeNames ∧ ¬ env.Defines x) ∧
      ((∀ x ∈ e.freeNames, env.Defines x) → ∀ v, r = .ok v → v.WellScoped) ∧
      (env = .empty → e.freeNames = [] → ∀ x, r ≠ .error (.unboundVariable x)) := by
  have hunbound : ∀ x, r = .error (.unboundVariable x) → x ∈ e.freeNames ∧ ¬ env.Defines x := by
    rintro x rfl
    -- what is loose is exactly what is free and not bound
    have hscoped : e.ScopedIn (e.freeNames.filter (¬ env.Defines ·)) env := by
      refine ⟨henv.mono (List.nil_subset _) env, fun y hy => ?_⟩
      by_cases hdef : env.Defines y
      · exact .inl hdef
      · exact .inr (List.mem_filter.mpr ⟨hy, decide_eq_true hdef⟩)
    cases hscoped.ends hends with
    | error hloose =>
      obtain ⟨hfree, hdef⟩ := List.mem_filter.mp (hloose x rfl)
      exact ⟨hfree, of_decide_eq_true hdef⟩
  refine ⟨hunbound, ?_, ?_⟩
  · rintro hbound v rfl
    have hscoped : e.ScopedIn [] env := ⟨henv, fun y hy => .inl (hbound y hy)⟩
    cases hscoped.ends hends with
    | ok hv => exact hv.2
  · intro _ hclosed x hx
    have hfree := (hunbound x hx).1
    rw [hclosed] at hfree
    cases hfree

/-- A closure that is made and applied in the evaluation uses a name that nothing binds, beside one
from the environment that finds its names. -/
theorem scope_sound_unbound :
    let env := Environment.bind ['f'] (.closure 0 (.bind ['k'] (.number 1) .empty) ['x']
      (.binary .add (.var ['x']) (.var ['k']))) .empty
    let e := letIn ['g'] (.lambda ['k'] (.call (.var ['f']) (.var ['y'])))
      (.call (.var ['g']) (.number 2))
    env.WellScoped ∧ EndsFrom ⟨.new none, 1, []⟩ env e (.error (.unboundVariable ['y'])) ∧
      ['y'] ∈ e.freeNames ∧ ¬ env.Defines ['y'] := by
  intro env e
  have henv : env.WellScoped := by
    simp [env, Environment.WellScoped, Environment.Scoped, Value.Scoped, freeNames,
      Environment.defines_bind_iff]
  have hends : EndsFrom ⟨.new none, 1, []⟩ env e (.error (.unboundVariable ['y'])) := by
    have heval : (e.eval 4 env ⟨.new none, 1, []⟩).map Prod.fst =
        some (.error (.unboundVariable ['y'])) := by decide +kernel
    obtain ⟨⟨_, after⟩, heval, rfl⟩ := Option.map_eq_some_iff.mp heval
    exact ⟨4, after, heval⟩
  exact ⟨henv, hends, (scope_sound henv hends).1 _ rfl⟩

end Expr

end UnaryLisp
