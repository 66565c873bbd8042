import UnaryLisp.Proofs.Eval.Semantics

/-!
# Adequacy of evaluation

Without a ceiling, evaluation ends with an outcome exactly when the rules derive it. The run is
first compared with the rules for a supply of identities that counts, which fit it exactly; then
that supply is compared with the one of the language, up to renaming.

## Main definitions

* `EvalM.Settles`: without a ceiling, and with enough room, an evaluation ends with an outcome.

## Main results

* `BigStep.of_eval`: what an evaluation ends with is derived.
* `BigStep.settles`: evaluation ends with what is derived.
* `Expr.derives_iff_ends`: evaluation ends with an outcome exactly when it is derived, and the
  outcome is unique, up to the identities of new closures.
-/

namespace UnaryLisp

/-! ### From runs to derivations -/

namespace BigStep

open EvalM

/-- One level of evaluation ends with an outcome that is derived, if what is nested in it does. -/
theorem of_evalWith {room : Nat}
    (ih : ∀ {e env machine r after}, e.eval room env machine = some (r, after) →
      machine.limit.max = none → BigStep .counter machine.fresh env e r after.fresh)
    {e : Expr} {env : Environment} {machine after : Machine} {r : Outcome}
    (h : e.evalWith (Expr.eval room) env machine = some (r, after))
    (hmax : machine.limit.max = none) :
    BigStep .counter machine.fresh env e r after.fresh := by
  have next {e : Expr} {mid : Machine} {v : Value}
      (hv : e.eval room env machine = some (.ok v, mid)) : mid.limit.max = none := by
    rw [(Expr.limit_of_eval hv).1, hmax]
  cases e with
  | number n =>
    obtain ⟨rfl, rfl⟩ := Prod.mk.inj (Option.some.inj h)
    exact .number n
  | bool b =>
    obtain ⟨rfl, rfl⟩ := Prod.mk.inj (Option.some.inj h)
    exact .bool b
  | var x =>
    obtain ⟨hx, rfl⟩ := Prod.mk.inj (Option.some.inj h)
    cases r with
    | ok v => exact .var (Environment.value_eq_ok_iff.mp hx)
    | error err =>
      obtain ⟨hunbound, rfl⟩ := Environment.value_eq_error_iff.mp hx
      exact .unbound hunbound
  | binary op left right =>
    rcases bind_eq_some_iff.mp h with ⟨x, hl, rfl⟩ | ⟨v, mid, hl, h⟩
    · exact .leftError (ih hl hmax)
    · rcases bind_eq_some_iff.mp h with ⟨x, hr, rfl⟩ | ⟨w, mid', hr, h⟩
      · exact .rightError (ih hl hmax) (ih hr (next hl))
      · obtain ⟨hop, rfl⟩ := Prod.mk.inj (Option.some.inj h)
        exact .binary (ih hl hmax) (ih hr (next hl)) (Operator.apply_eq_iff.mp hop)
  | cond test yes no =>
    rcases bind_eq_some_iff.mp h with ⟨x, ht, rfl⟩ | ⟨v, mid, ht, h⟩
    · exact .testError (ih ht hmax)
    · cases v with
      | bool b =>
        cases b with
        | true => exact .condTrue (ih ht hmax) (ih h (next ht))
        | false => exact .condFalse (ih ht hmax) (ih h (next ht))
      | number | closure =>
        obtain ⟨rfl, rfl⟩ := Prod.mk.inj (Option.some.inj h)
        exact .condMismatch (ih ht hmax) (by simp [Value.kind])
  | letIn x init body =>
    rcases bind_eq_some_iff.mp h with ⟨err, hi, rfl⟩ | ⟨v, mid, hi, h⟩
    · exact .initError (ih hi hmax)
    · exact .letIn (ih hi hmax) (ih h (next hi))
  | lambda x body =>
    obtain ⟨rfl, rfl⟩ := Prod.mk.inj (Option.some.inj h)
    exact .lambda ⟨rfl, rfl⟩
  | call callee arg =>
    rcases bind_eq_some_iff.mp h with ⟨err, hc, rfl⟩ | ⟨f, mid, hc, h⟩
    · exact .calleeError (ih hc hmax)
    · cases f with
      | closure i captured x body =>
        rcases bind_eq_some_iff.mp h with ⟨err, ha, rfl⟩ | ⟨v, mid', ha, h⟩
        · exact .argError (ih hc hmax) (ih ha (next hc))
        · rcases bind_eq_some_iff.mp h with ⟨err, hnote, -⟩ | ⟨_, noted, hnote, hb⟩
          · cases hnote
          · obtain ⟨-, rfl⟩ := Prod.mk.inj (Option.some.inj hnote)
            have hmax' : mid'.limit.max = none := by
              rw [(Expr.limit_of_eval ha).1, next hc]
            have hbody := ih hb hmax'
            exact .call (ih hc hmax) (ih ha (next hc)) hbody
      | number | bool =>
        obtain ⟨rfl, rfl⟩ := Prod.mk.inj (Option.some.inj h)
        exact .nonFunction (ih hc hmax) (by simp [Value.kind])

/-- What an evaluation without a ceiling ends with is derived. -/
theorem of_eval {room : Nat} {e : Expr} {env : Environment} {machine after : Machine} {r : Outcome}
    (h : e.eval room env machine = some (r, after)) (hmax : machine.limit.max = none) :
    BigStep .counter machine.fresh env e r after.fresh := by
  induction room generalizing e env machine after r with
  | zero => contradiction
  | succ room ih =>
    rw [Expr.eval_succ] at h
    rcases nested_eq_some_iff.mp h with ⟨max, henter, -⟩ | ⟨inner, mid, henter, hact, rfl⟩
    · rw [DepthLimit.enter_eq_error henter] at hmax
      contradiction
    · have hlevel := of_evalWith ih hact ((DepthLimit.max_of_enter henter).trans hmax)
      exact hlevel

end BigStep

/-! ### From derivations to runs -/

namespace EvalM

variable {α β : Type}

/-- Without a ceiling, and with enough room, the evaluation ends with the outcome. It leaves the
depth counter as it was, and takes the count of closures from the first number to the second. -/
def Settles (act : Nat → EvalM α) (fresh : Nat) (r : Except EvalError α) (fresh' : Nat) : Prop :=
  ∀ limit journal, limit.max = none → ∃ enough journal', ∀ room, enough ≤ room →
    act room ⟨limit, fresh, journal⟩ = some (r, ⟨limit, fresh', journal'⟩)

namespace Settles

variable {act : Nat → EvalM α} {next : Nat → α → EvalM β} {fresh fresh₁ fresh₂ : Nat}

theorem ofExcept (r : Except EvalError α) : Settles (fun _ => EvalM.ofExcept r) fresh r fresh :=
  fun _ journal _ => ⟨0, journal, fun _ _ => rfl⟩

theorem bind {a : α} {r : Except EvalError β} (hact : Settles act fresh (.ok a) fresh₁)
    (hnext : Settles (fun room => next room a) fresh₁ r fresh₂) :
    Settles (fun room => act room >>= next room) fresh r fresh₂ := by
  intro limit journal hmax
  obtain ⟨enough₁, journal₁, h₁⟩ := hact limit journal hmax
  obtain ⟨enough₂, journal₂, h₂⟩ := hnext limit journal₁ hmax
  refine ⟨max enough₁ enough₂, journal₂, fun room hroom => ?_⟩
  exact bind_eq_some_iff.mpr (.inr ⟨a, _, h₁ room (by omega), h₂ room (by omega)⟩)

theorem bind_error {x : EvalError} (hact : Settles act fresh (.error x) fresh₁) :
    Settles (fun room => act room >>= next room) fresh (.error x) fresh₁ := by
  intro limit journal hmax
  obtain ⟨enough, journal', h⟩ := hact limit journal hmax
  exact ⟨enough, journal', fun room hroom =>
    bind_eq_some_iff.mpr (.inl ⟨x, h room hroom, rfl⟩)⟩

theorem note (x : Name) (v : Value) : Settles (fun _ => EvalM.note x v) fresh (.ok ()) fresh :=
  fun limit journal _ => ⟨0, ⟨x, v, limit.depth⟩ :: journal, fun _ _ => rfl⟩

/-- An expression settles when one level of its evaluation does. -/
theorem eval {e : Expr} {env : Environment} {r : Outcome}
    (h : Settles (fun room => e.evalWith (Expr.eval room) env) fresh r fresh₁) :
    Settles (fun room => e.eval room env) fresh r fresh₁ := by
  intro limit journal hmax
  have henter := DepthLimit.enter_of_max_eq_none hmax
  obtain ⟨enough, journal', hlevel⟩ := h { limit with depth := limit.depth + 1 } journal hmax
  refine ⟨enough + 1, journal', fun room hroom => ?_⟩
  obtain ⟨room, rfl⟩ : ∃ inner, room = inner + 1 := ⟨room - 1, by omega⟩
  change e.eval (room + 1) env _ = _
  rw [Expr.eval_succ]
  exact nested_eq_some_iff.mpr (.inr ⟨_, _, henter, hlevel room (by omega), rfl⟩)

theorem closure (env : Environment) (x : Name) (body : Expr) :
    Settles (fun _ => EvalM.closure env x body) fresh (.ok (.closure fresh env x body))
      (fresh + 1) :=
  fun _ journal _ => ⟨0, journal, fun _ _ => rfl⟩

end Settles

end EvalM

/-- Evaluation without a ceiling ends with what is derived. -/
theorem BigStep.settles {fresh fresh' : Nat} {env : Environment} {e : Expr} {r : Outcome}
    (h : BigStep .counter fresh env e r fresh') :
    EvalM.Settles (fun room => e.eval room env) fresh r fresh' := by
  induction h with
  | number n => exact .eval (.ofExcept (.ok (Value.number n)))
  | bool b => exact .eval (.ofExcept (.ok (Value.bool b)))
  | var hx =>
    rw [← Environment.value_eq_ok_iff] at hx
    exact .eval (hx ▸ .ofExcept _)
  | unbound hx =>
    have hvalue := Environment.value_eq_error_iff.mpr ⟨hx, rfl⟩
    exact .eval (hvalue ▸ .ofExcept _)
  | binary _ _ hop ihl ihr =>
    rw [← Operator.apply_eq_iff] at hop
    exact .eval (.bind ihl (.bind ihr (hop ▸ .ofExcept _)))
  | leftError _ ih | testError _ ih | initError _ ih | calleeError _ ih =>
    exact .eval (.bind_error ih)
  | rightError _ _ ihl ihr => exact .eval (.bind ihl (.bind_error ihr))
  | condTrue _ _ iht ihb | condFalse _ _ iht ihb => exact .eval (.bind iht ihb)
  | @condMismatch _ _ _ _ _ _ v _ hv iht =>
    refine .eval (.bind iht ?_)
    cases v with
    | bool => contradiction
    | number | closure => exact .ofExcept (.error _)
  | letIn _ _ ihi ihb => exact .eval (.bind ihi ihb)
  | @lambda _ _ env x body _ hi =>
    obtain ⟨rfl, rfl⟩ := hi
    exact .eval (.closure env x body)
  | call _ _ _ ihc iha ihb => exact .eval (.bind ihc (.bind iha (.bind (.note _ _) ihb)))
  | @nonFunction _ _ _ _ _ f _ hf ihc =>
    refine .eval (.bind ihc ?_)
    cases f with
    | closure => contradiction
    | number | bool => exact .ofExcept (.error _)
  | argError _ _ ihc iha => exact .eval (.bind ihc (.bind_error iha))

/-! ### Supplies that follow each other -/

namespace Supply

/-- A count hands out identities that are not known. -/
theorem counter_follows_unknown :
    counter.Follows unknown fun π fresh used => π = 1 ∧ ∀ i ∈ used, i < fresh := by
  rintro π fresh used i fresh' ⟨rfl, hused⟩ ⟨rfl, rfl⟩
  refine ⟨1, i :: used, ⟨fun hi => ?_, rfl⟩, ⟨rfl, fun j hj => ?_⟩, .refl⟩
  · exact Nat.lt_irrefl i (hused i hi)
  · rcases List.mem_cons.mp hj with rfl | hj
    · exact Nat.lt_add_one j
    · exact Nat.lt_add_right 1 (hused j hj)

/-- Which identities are unknown does not depend on how they are named. -/
theorem unknown_follows_unknown (π : Equiv.Perm Nat) :
    unknown.Follows unknown fun π' used used' => π' = π ∧ used' = used.map π := by
  rintro π used _ i _ ⟨rfl, rfl⟩ ⟨hi, rfl⟩
  refine ⟨π, π i :: used.map π, ⟨fun hmem => ?_, rfl⟩, ⟨rfl, rfl⟩, .refl⟩
  obtain ⟨j, hj, hij⟩ := List.mem_map.mp hmem
  exact hi (π.injective hij ▸ hj)

/-- An unknown identity can be renamed to the next number of a count. -/
theorem unknown_follows_counter :
    unknown.Follows counter fun π used fresh => ∀ i ∈ used, π i < fresh := by
  rintro π used fresh i _ hused ⟨hi, rfl⟩
  have hold (j : Nat) (hj : j ∈ used) : (Equiv.swap (π i) fresh * π) j = π j := by
    have hne : π j ≠ π i := fun hij => hi (π.injective hij ▸ hj)
    exact Equiv.swap_apply_of_ne_of_ne hne (hused j hj).ne
  have hnew : (Equiv.swap (π i) fresh * π) i = fresh := Equiv.swap_apply_left _ _
  refine ⟨Equiv.swap (π i) fresh * π, fresh + 1, ⟨hnew, rfl⟩, fun j hj => ?_, hold⟩
  rcases List.mem_cons.mp hj with rfl | hj
  · rw [hnew]
    exact Nat.lt_add_one fresh
  · rw [hold j hj]
    exact Nat.lt_add_right 1 (hused j hj)

end Supply

namespace Expr

variable {fresh : Nat} {e : Expr} {env : Environment} {r r' : Outcome}

theorem derives_of_ends (hfresh : ∀ i ∈ env.identities, i < fresh)
    (h : Ends none fresh e env r) : e.Derives env r := by
  obtain ⟨room, after, heval⟩ := h
  have hrun := BigStep.of_eval heval rfl
  obtain ⟨π, used, hstep, ⟨rfl, -⟩, -⟩ :=
    hrun.rename Supply.counter_follows_unknown hfresh ⟨rfl, hfresh⟩
  rw [env.rename_one, r.rename_one] at hstep
  exact ⟨used, hstep⟩

theorem Derives.alike (h : e.Derives env r) (halike : Outcome.Alike env r r') :
    e.Derives env r' := by
  obtain ⟨used, hstep⟩ := h
  obtain ⟨π, hfix, rfl⟩ := halike
  have hids : env.identities.map π = env.identities :=
    (List.map_congr_left hfix).trans (List.map_id _)
  obtain ⟨_, used', hstep', ⟨rfl, -⟩, -⟩ :=
    hstep.rename (Supply.unknown_follows_unknown π) (fun _ hi => hi) ⟨rfl, rfl⟩
  rw [hids, Environment.rename_eq_self hfix] at hstep'
  exact ⟨used', hstep'⟩

theorem exists_ends_of_derives (hfresh : ∀ i ∈ env.identities, i < fresh)
    (h : e.Derives env r) : ∃ r', Ends none fresh e env r' ∧ Outcome.Alike env r r' := by
  obtain ⟨used, hstep⟩ := h
  have hstart : ∀ i ∈ env.identities, (1 : Equiv.Perm Nat) i < fresh := hfresh
  obtain ⟨π, fresh', hrun, -, hπ⟩ :=
    hstep.rename Supply.unknown_follows_counter (fun _ hi => hi) hstart
  rw [env.rename_one] at hrun
  obtain ⟨room, journal, heval⟩ := hrun.settles (.new none) [] rfl
  exact ⟨r.rename π, ⟨room, _, heval room le_rfl⟩, π, hπ, rfl⟩

/-- Without a ceiling, evaluation ends with an outcome exactly when the rules derive it, and they
derive one outcome only; both up to the identities of new closures. -/
theorem derives_iff_ends (hfresh : ∀ i ∈ env.identities, i < fresh) (r : Outcome) :
    (e.Derives env r ↔ ∃ r', Ends none fresh e env r' ∧ Outcome.Alike env r' r) ∧
      ∀ r', e.Derives env r → e.Derives env r' → Outcome.Alike env r r' := by
  refine ⟨⟨fun h => ?_, ?_⟩, fun r' h h' => ?_⟩
  · obtain ⟨r', hends, halike⟩ := exists_ends_of_derives hfresh h
    exact ⟨r', hends, halike.symm⟩
  · rintro ⟨r', hends, halike⟩
    exact (derives_of_ends hfresh hends).alike halike
  · obtain ⟨out, hends, halike⟩ := exists_ends_of_derives hfresh h
    obtain ⟨out', hends', halike'⟩ := exists_ends_of_derives hfresh h'
    obtain rfl := hends.unique hends'
    exact halike.trans halike'.symm

/-- Where one closure is known, a new closure may have any other identity. -/
theorem derives_iff_ends_lambda :
    let env := Environment.bind ['f'] (.closure 0 .empty ['x'] (.var ['x'])) .empty
    (∀ i ∈ env.identities, i < 1) ∧
      (lambda ['y'] (.var ['f'])).Derives env (.ok (.closure 7 env ['y'] (.var ['f']))) := by
  have hfresh : ∀ i ∈ (Environment.bind ['f'] (.closure 0 .empty ['x'] (.var ['x']))
      .empty).identities, i < 1 := by decide
  refine ⟨hfresh, (derives_iff_ends hfresh _).1.mpr ⟨_, ⟨1, _, rfl⟩, Equiv.swap 1 7, ?_, rfl⟩⟩
  decide

end Expr

end UnaryLisp
