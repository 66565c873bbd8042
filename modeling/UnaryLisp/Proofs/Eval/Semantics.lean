import UnaryLisp.Proofs.Eval.Identity

/-!
# Rules of evaluation

What an expression evaluates to in an environment, as rules without a depth counter. The rules leave
open where the identities of closures come from: a supply says which identities are known and which
one a new closure may have. A supply that allows every unknown identity gives the rules of the
language; one that counts gives the identities that a run hands out.

## Main definitions

* `Supply`: a source of identities, with `Supply.unknown` and `Supply.counter`.
* `BigStep`: the rules.
* `Expr.Derives`: an expression evaluates to an outcome by the rules of the language.
* `Supply.Follows`: a supply can do what another one does, up to renaming.
* `BigStep.Followed`: what is derived with one supply is derived with another, up to renaming.

## Main results

* `BigStep.covers`: a derivation forgets no identity, and knows those of its outcome.
* `BigStep.rename`: what is derived with one supply is derived, up to renaming, with a supply that
  follows it.
-/

namespace UnaryLisp

/-! ### Supplies of identities -/

/-- A source of identities for closures. -/
structure Supply (σ : Type) where
  /-- The identity is known. -/
  Known : σ → Nat → Prop
  /-- A new closure may have the identity, and the supply is then in the second state. -/
  Alloc : σ → Nat → σ → Prop
  known_alloc : ∀ {s i s'}, Alloc s i s' → Known s' i
  known_mono : ∀ {s i s' j}, Alloc s i s' → Known s j → Known s' j

namespace Supply

/-- The supply that allows every identity that is not in the list of the known ones. -/
def unknown : Supply (List Nat) where
  Known used i := i ∈ used
  Alloc used i used' := i ∉ used ∧ used' = i :: used
  known_alloc := by
    rintro _ i _ ⟨-, rfl⟩
    exact List.mem_cons_self
  known_mono := by
    rintro _ i _ j ⟨-, rfl⟩ hj
    exact List.mem_cons_of_mem i hj

/-- The supply that counts upwards. -/
def counter : Supply Nat where
  Known fresh i := i < fresh
  Alloc fresh i fresh' := i = fresh ∧ fresh' = fresh + 1
  known_alloc := by
    rintro fresh _ _ ⟨rfl, rfl⟩
    exact Nat.lt_add_one _
  known_mono := by
    rintro fresh _ _ j ⟨rfl, rfl⟩ hj
    exact Nat.lt_add_right 1 hj

variable {σ : Type} (S : Supply σ)

/-- The identities in the list are known. -/
def Covers (s : σ) (l : List Nat) : Prop :=
  ∀ i ∈ l, S.Known s i

/-- Whatever is known in the first state is known in the second. -/
def Grows (s s' : σ) : Prop :=
  ∀ i, S.Known s i → S.Known s' i

variable {S} {s s' s'' : σ} {l l' : List Nat}

theorem Covers.mono (h : S.Covers s l) (hs : S.Grows s s') : S.Covers s' l :=
  fun i hi => hs i (h i hi)

theorem Covers.append (h : S.Covers s l) (h' : S.Covers s l') : S.Covers s (l ++ l') := by
  intro i hi
  rcases List.mem_append.mp hi with hi | hi
  · exact h i hi
  · exact h' i hi

theorem Grows.trans (h : S.Grows s s') (h' : S.Grows s' s'') : S.Grows s s'' :=
  fun i hi => h' i (h i hi)

end Supply

/-! ### The rules -/

/-- The expression evaluates to the outcome in the environment, and takes the supply of identities
from the first state to the second. -/
inductive BigStep {σ : Type} (S : Supply σ) : σ → Environment → Expr → Outcome → σ → Prop
  | number {s : σ} {env : Environment} (n : Number) :
      BigStep S s env (.number n) (.ok (.number n)) s
  | bool {s : σ} {env : Environment} (b : Bool) : BigStep S s env (.bool b) (.ok (.bool b)) s
  | var {s : σ} {env : Environment} {x : Name} {v : Value} (h : env.Binds x v) :
      BigStep S s env (.var x) (.ok v) s
  | unbound {s : σ} {env : Environment} {x : Name} (h : ∀ v, ¬ env.Binds x v) :
      BigStep S s env (.var x) (.error (.unboundVariable x)) s
  | binary {s s₁ s₂ : σ} {env : Environment} {op : Operator} {left right : Expr} {v w : Value}
      {r : Outcome} (hl : BigStep S s env left (.ok v) s₁) (hr : BigStep S s₁ env right (.ok w) s₂)
      (hop : op.Gives v w r) : BigStep S s env (.binary op left right) r s₂
  | leftError {s s₁ : σ} {env : Environment} {op : Operator} {left right : Expr} {x : EvalError}
      (hl : BigStep S s env left (.error x) s₁) :
      BigStep S s env (.binary op left right) (.error x) s₁
  | rightError {s s₁ s₂ : σ} {env : Environment} {op : Operator} {left right : Expr} {v : Value}
      {x : EvalError} (hl : BigStep S s env left (.ok v) s₁)
      (hr : BigStep S s₁ env right (.error x) s₂) :
      BigStep S s env (.binary op left right) (.error x) s₂
  | condTrue {s s₁ s₂ : σ} {env : Environment} {test yes no : Expr} {r : Outcome}
      (ht : BigStep S s env test (.ok (.bool true)) s₁) (hy : BigStep S s₁ env yes r s₂) :
      BigStep S s env (.cond test yes no) r s₂
  | condFalse {s s₁ s₂ : σ} {env : Environment} {test yes no : Expr} {r : Outcome}
      (ht : BigStep S s env test (.ok (.bool false)) s₁) (hn : BigStep S s₁ env no r s₂) :
      BigStep S s env (.cond test yes no) r s₂
  | condMismatch {s s₁ : σ} {env : Environment} {test yes no : Expr} {v : Value}
      (ht : BigStep S s env test (.ok v) s₁) (hv : v.kind ≠ .boolean) :
      BigStep S s env (.cond test yes no) (.error (.typeMismatch .test v.kind)) s₁
  | testError {s s₁ : σ} {env : Environment} {test yes no : Expr} {x : EvalError}
      (ht : BigStep S s env test (.error x) s₁) :
      BigStep S s env (.cond test yes no) (.error x) s₁
  | letIn {s s₁ s₂ : σ} {env : Environment} {x : Name} {init body : Expr} {v : Value} {r : Outcome}
      (hi : BigStep S s env init (.ok v) s₁) (hb : BigStep S s₁ (env.bind x v) body r s₂) :
      BigStep S s env (.letIn x init body) r s₂
  | initError {s s₁ : σ} {env : Environment} {x : Name} {init body : Expr} {err : EvalError}
      (hi : BigStep S s env init (.error err) s₁) :
      BigStep S s env (.letIn x init body) (.error err) s₁
  | lambda {s s' : σ} {env : Environment} {x : Name} {body : Expr} {i : Nat}
      (hi : S.Alloc s i s') : BigStep S s env (.lambda x body) (.ok (.closure i env x body)) s'
  | call {s s₁ s₂ s₃ : σ} {env captured : Environment} {callee arg body : Expr} {i : Nat} {x : Name}
      {v : Value} {r : Outcome} (hc : BigStep S s env callee (.ok (.closure i captured x body)) s₁)
      (ha : BigStep S s₁ env arg (.ok v) s₂) (hb : BigStep S s₂ (captured.bind x v) body r s₃) :
      BigStep S s env (.call callee arg) r s₃
  | calleeError {s s₁ : σ} {env : Environment} {callee arg : Expr} {x : EvalError}
      (hc : BigStep S s env callee (.error x) s₁) : BigStep S s env (.call callee arg) (.error x) s₁
  | nonFunction {s s₁ : σ} {env : Environment} {callee arg : Expr} {f : Value}
      (hc : BigStep S s env callee (.ok f) s₁) (hf : f.kind ≠ .procedure) :
      BigStep S s env (.call callee arg) (.error (.applyNonFunction f)) s₁
  | argError {s s₁ s₂ : σ} {env captured : Environment} {callee arg body : Expr} {i : Nat}
      {x : Name} {err : EvalError}
      (hc : BigStep S s env callee (.ok (.closure i captured x body)) s₁)
      (ha : BigStep S s₁ env arg (.error err) s₂) :
      BigStep S s env (.call callee arg) (.error err) s₂

/-- By the rules of the language the expression evaluates to the outcome in the environment. -/
def Expr.Derives (env : Environment) (e : Expr) (r : Outcome) : Prop :=
  ∃ used, BigStep .unknown env.identities env e r used

namespace BigStep

variable {σ τ : Type} {S : Supply σ} {T : Supply τ} {s s' : σ} {env : Environment} {e : Expr}
  {r : Outcome}

/-! ### Known identities -/

/-- A derivation forgets no identity, and knows those of its outcome. -/
theorem covers (h : BigStep S s env e r s') (henv : S.Covers s env.identities) :
    S.Grows s s' ∧ S.Covers s' r.identities := by
  induction h with
  | number | bool | unbound =>
    refine ⟨fun i hi => hi, fun i hi => ?_⟩
    cases hi
  | var hx => exact ⟨fun i hi => hi, fun i hi => henv i (hx.identities_subset hi)⟩
  | binary _ _ hop ihl ihr =>
    obtain ⟨hg₁, -⟩ := ihl henv
    obtain ⟨hg₂, -⟩ := ihr (henv.mono hg₁)
    refine ⟨hg₁.trans hg₂, fun i hi => ?_⟩
    rw [hop.identities_eq_nil] at hi
    cases hi
  | leftError _ ih | testError _ ih | initError _ ih | calleeError _ ih => exact ih henv
  | rightError _ _ ih₁ ih₂ | condTrue _ _ ih₁ ih₂ | condFalse _ _ ih₁ ih₂
  | argError _ _ ih₁ ih₂ =>
    obtain ⟨hg₁, -⟩ := ih₁ henv
    obtain ⟨hg₂, hr⟩ := ih₂ (henv.mono hg₁)
    exact ⟨hg₁.trans hg₂, hr⟩
  | condMismatch _ _ ih =>
    refine ⟨(ih henv).1, fun i hi => ?_⟩
    cases hi
  | letIn _ _ ihi ihb =>
    obtain ⟨hg₁, hv⟩ := ihi henv
    obtain ⟨hg₂, hr⟩ := ihb (hv.append (henv.mono hg₁))
    exact ⟨hg₁.trans hg₂, hr⟩
  | lambda hi =>
    have hg : S.Grows _ _ := fun j hj => S.known_mono hi hj
    refine ⟨hg, fun j hj => ?_⟩
    rcases List.mem_cons.mp hj with rfl | hj
    · exact S.known_alloc hi
    · exact henv.mono hg j hj
  | call _ _ _ ihc iha ihb =>
    obtain ⟨hg₁, hf⟩ := ihc henv
    obtain ⟨hg₂, hv⟩ := iha (henv.mono hg₁)
    have hcaptured : S.Covers _ _ := fun j hj => hg₂ j (hf j (List.mem_cons_of_mem _ hj))
    obtain ⟨hg₃, hr⟩ := ihb (hv.append hcaptured)
    exact ⟨hg₁.trans (hg₂.trans hg₃), hr⟩
  | nonFunction _ _ ih => exact ih henv

end BigStep

/-! ### Renaming along supplies -/

namespace Supply

variable {σ τ : Type} (S : Supply σ)

/-- The permutations agree on the known identities. -/
def Agree (s : σ) (π π' : Equiv.Perm Nat) : Prop :=
  ∀ i, S.Known s i → π' i = π i

/-- The second supply can do what the first one does, up to renaming. A renaming that relates two
states extends to the identity of a new closure and still relates the states after it. -/
def Follows (T : Supply τ) (R : Equiv.Perm Nat → σ → τ → Prop) : Prop :=
  ∀ {π s t i s'}, R π s t → S.Alloc s i s' →
    ∃ π' t', T.Alloc t (π' i) t' ∧ R π' s' t' ∧ S.Agree s π π'

variable {S} {s s' : σ} {π π' π'' : Equiv.Perm Nat}

theorem Agree.refl : S.Agree s π π :=
  fun _ _ => rfl

theorem Agree.trans (h : S.Agree s π π') (hs : S.Grows s s') (h' : S.Agree s' π' π'') :
    S.Agree s π π'' :=
  fun i hi => (h' i (hs i hi)).trans (h i hi)

theorem Agree.rename_env (h : S.Agree s π π') {env : Environment}
    (henv : S.Covers s env.identities) : env.rename π' = env.rename π :=
  env.rename_congr fun i hi => h i (henv i hi)

theorem Agree.rename_outcome (h : S.Agree s π π') {r : Outcome} (hr : S.Covers s r.identities) :
    r.rename π' = r.rename π :=
  r.rename_congr fun i hi => h i (hr i hi)

end Supply

namespace BigStep

variable {σ τ : Type} {S : Supply σ} {T : Supply τ} {R : Equiv.Perm Nat → σ → τ → Prop}
  {s s' : σ} {env : Environment} {e : Expr} {r : Outcome}

variable (S T R) in
/-- What is derived from related states is derived with the second supply, up to a renaming that
relates the states after it. -/
def Followed (s : σ) (env : Environment) (e : Expr) (r : Outcome) (s' : σ) : Prop :=
  S.Covers s env.identities → ∀ {π t}, R π s t →
    ∃ π' t', BigStep T t (env.rename π) e (r.rename π') t' ∧ R π' s' t' ∧ S.Agree s π π'

/-- Two premises in sequence are followed under one renaming. -/
theorem Followed.seq {env' : Environment} {e' : Expr} {r' : Outcome} {s₁ : σ} {t : τ}
    {π : Equiv.Perm Nat} (hf : Followed S T R s env e r s₁)
    (hf' : Followed S T R s₁ env' e' r' s') (h : BigStep S s env e r s₁)
    (henv : S.Covers s env.identities) (henv' : S.Covers s₁ env'.identities) (hst : R π s t) :
    ∃ π' t₁ t', BigStep T t (env.rename π) e (r.rename π') t₁ ∧
      BigStep T t₁ (env'.rename π') e' (r'.rename π') t' ∧ R π' s' t' ∧ S.Agree s π π' := by
  obtain ⟨hg, hr⟩ := h.covers henv
  obtain ⟨π₁, t₁, h₁, hst₁, hπ₁⟩ := hf henv hst
  obtain ⟨π₂, t₂, h₂, hst₂, hπ₂⟩ := hf' henv' hst₁
  -- The later renaming agrees with the earlier one on all that the first premise knows.
  rw [← hπ₂.rename_outcome hr] at h₁
  rw [← hπ₂.rename_env henv'] at h₂
  exact ⟨π₂, t₁, t₂, h₁, h₂, hst₂, hπ₁.trans hg hπ₂⟩

/-- What is derived with one supply is derived, up to renaming, with a supply that follows it. -/
theorem rename (hR : S.Follows T R) (h : BigStep S s env e r s') : Followed S T R s env e r s' := by
  induction h with
  | number n => exact fun _ _ _ hst => ⟨_, _, .number n, hst, .refl⟩
  | bool b => exact fun _ _ _ hst => ⟨_, _, .bool b, hst, .refl⟩
  | var hx => exact fun _ _ _ hst => ⟨_, _, .var (hx.rename _), hst, .refl⟩
  | unbound hx =>
    exact fun _ _ _ hst => ⟨_, _, .unbound (Environment.not_binds_rename _ hx), hst, .refl⟩
  | binary hl _ hop ihl ihr =>
    intro henv π t hst
    obtain ⟨π', t₁, t₂, hl', hr', hst', hπ⟩ :=
      ihl.seq ihr hl henv (henv.mono (hl.covers henv).1) hst
    rw [hπ.rename_env henv] at hr'
    exact ⟨π', t₂, .binary hl' hr' (hop.rename π'), hst', hπ⟩
  | leftError _ ih =>
    intro henv π t hst
    obtain ⟨π', t', h', hst', hπ⟩ := ih henv hst
    exact ⟨π', t', .leftError h', hst', hπ⟩
  | rightError hl _ ihl ihr =>
    intro henv π t hst
    obtain ⟨π', t₁, t₂, hl', hr', hst', hπ⟩ :=
      ihl.seq ihr hl henv (henv.mono (hl.covers henv).1) hst
    rw [hπ.rename_env henv] at hr'
    exact ⟨π', t₂, .rightError hl' hr', hst', hπ⟩
  | condTrue ht _ iht ihy =>
    intro henv π t hst
    obtain ⟨π', t₁, t₂, ht', hy', hst', hπ⟩ :=
      iht.seq ihy ht henv (henv.mono (ht.covers henv).1) hst
    rw [hπ.rename_env henv] at hy'
    exact ⟨π', t₂, .condTrue ht' hy', hst', hπ⟩
  | condFalse ht _ iht ihn =>
    intro henv π t hst
    obtain ⟨π', t₁, t₂, ht', hn', hst', hπ⟩ :=
      iht.seq ihn ht henv (henv.mono (ht.covers henv).1) hst
    rw [hπ.rename_env henv] at hn'
    exact ⟨π', t₂, .condFalse ht' hn', hst', hπ⟩
  | condMismatch _ hv ih =>
    intro henv π t hst
    obtain ⟨π', t', ht', hst', hπ⟩ := ih henv hst
    have hv' := (Value.kind_rename π' _).trans_ne hv
    exact ⟨π', t', Value.kind_rename π' _ ▸ .condMismatch ht' hv', hst', hπ⟩
  | testError _ ih =>
    intro henv π t hst
    obtain ⟨π', t', h', hst', hπ⟩ := ih henv hst
    exact ⟨π', t', .testError h', hst', hπ⟩
  | letIn hi _ ihi ihb =>
    intro henv π t hst
    obtain ⟨hg, hv⟩ := hi.covers henv
    obtain ⟨π', t₁, t₂, hi', hb', hst', hπ⟩ :=
      ihi.seq ihb hi henv (hv.append (henv.mono hg)) hst
    rw [Environment.rename, hπ.rename_env henv] at hb'
    exact ⟨π', t₂, .letIn hi' hb', hst', hπ⟩
  | initError _ ih =>
    intro henv π t hst
    obtain ⟨π', t', h', hst', hπ⟩ := ih henv hst
    exact ⟨π', t', .initError h', hst', hπ⟩
  | lambda hi =>
    intro henv π t hst
    obtain ⟨π', t', hi', hst', hπ⟩ := hR hst hi
    rw [← hπ.rename_env henv]
    exact ⟨π', t', .lambda hi', hst', hπ⟩
  | call hc ha _ ihc iha ihb =>
    intro henv π t hst
    obtain ⟨hg₁, hf⟩ := hc.covers henv
    obtain ⟨hg₂, hv⟩ := ha.covers (henv.mono hg₁)
    have hcaptured : S.Covers _ _ := fun j hj => hf j (List.mem_cons_of_mem _ hj)
    obtain ⟨π₂, t₁, t₂, hc', ha', hst₂, hπ₂⟩ := ihc.seq iha hc henv (henv.mono hg₁) hst
    obtain ⟨π₃, t₃, hb', hst₃, hπ₃⟩ := ihb (hv.append (hcaptured.mono hg₂)) hst₂
    rw [hπ₂.rename_env henv] at ha'
    exact ⟨π₃, t₃, .call hc' ha' hb', hst₃, hπ₂.trans (hg₁.trans hg₂) hπ₃⟩
  | calleeError _ ih =>
    intro henv π t hst
    obtain ⟨π', t', h', hst', hπ⟩ := ih henv hst
    exact ⟨π', t', .calleeError h', hst', hπ⟩
  | nonFunction _ hf ih =>
    intro henv π t hst
    obtain ⟨π', t', hc', hst', hπ⟩ := ih henv hst
    exact ⟨π', t', .nonFunction hc' ((Value.kind_rename π' _).trans_ne hf), hst', hπ⟩
  | argError hc _ ihc iha =>
    intro henv π t hst
    obtain ⟨π', t₁, t₂, hc', ha', hst', hπ⟩ :=
      ihc.seq iha hc henv (henv.mono (hc.covers henv).1) hst
    rw [hπ.rename_env henv] at ha'
    exact ⟨π', t₂, .argError hc' ha', hst', hπ⟩

end BigStep

end UnaryLisp
