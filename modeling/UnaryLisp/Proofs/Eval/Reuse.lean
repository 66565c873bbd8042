import UnaryLisp.Proofs.Eval.Renumbering
import UnaryLisp.Proofs.Eval.Trace

/-!
# Using an evaluator again

Between evaluations an evaluator is nothing but its depth counter. Each evaluation leaves the
counter where it found it, whether it ends with a value or with an error, and however far in the
error comes up. In between, the counter never stands above its ceiling, and it is never left at
depth zero, where leaving has no effect. So an evaluator that has served any number of calls serves
the next one as a new evaluator does.

## Main definitions

* `DepthLimit.UpTo`: a counter with a given ceiling that is not above it.
* `Occurrence.InBounds`: the counter at an occurrence is not above the ceiling, nor left at depth
  zero.
* `Call`: an expression to evaluate in an environment.
* `DepthLimit.Serves`: an evaluator serves calls one after the other.

## Main results

* `Expr.inBounds_of_evalTraced`: all occurrences of an evaluation are in bounds.
* `DepthLimit.Serves.limit_eq`: calls leave the counter of an evaluator as it was.
* `DepthLimit.Serves.alike`: a call has the outcome that it has when it is the first one.
* `Expr.eval_reusable`: evaluations keep to the bounds of the counter and leave it as it was, and
  one evaluator serves calls as new ones do.
-/

namespace UnaryLisp

/-! ### The counter during an evaluation -/

/-- The counter has the ceiling `max`, and is not above it. -/
def DepthLimit.UpTo (limit : DepthLimit) (max : Option Nat) : Prop :=
  limit.max = max ∧ ∀ m, max = some m → limit.depth ≤ m

/-- The counter has the ceiling `max` and is not above it, and it is not left at depth zero. -/
def Occurrence.InBounds (max : Option Nat) : Occurrence → Prop
  | .enter limit _ _ | .refuse limit _ => limit.UpTo max
  | .make _ => True
  | .leave limit _ _ _ => limit.UpTo max ∧ 0 < limit.depth

theorem DepthLimit.upTo_deeper {limit : DepthLimit} (h : limit.Admits 0) :
    limit.deeper.UpTo limit.max := by
  refine ⟨rfl, fun m hm => ?_⟩
  have hlt : limit.depth < m := h m hm
  exact hlt

namespace Expr

/-- From the counter `limit`, a trace in bounds stays in bounds, and the counter is kept. -/
theorem congruence_inBounds (limit : DepthLimit) :
    TraceM.Congruence fun α (_ : EvalM α) (act : TraceM α) =>
      ∀ machine past, machine.limit = limit → (∀ o ∈ past, o.InBounds limit.max) →
        (∀ o ∈ (act machine past).2, o.InBounds limit.max) ∧
          ∀ r after, (act machine past).1 = some (r, after) → after.limit = limit where
  ofExcept := by
    intro α result machine past hlimit hpast
    refine ⟨hpast, fun r after h => ?_⟩
    obtain ⟨-, rfl⟩ := Prod.mk.inj (Option.some.inj h)
    exact hlimit
  note := by
    intro x v machine past hlimit hpast
    refine ⟨hpast, fun r after h => ?_⟩
    obtain ⟨-, rfl⟩ := Prod.mk.inj (Option.some.inj h)
    exact hlimit
  closure := by
    intro env x body machine past hlimit hpast
    refine ⟨List.forall_mem_cons.mpr ⟨trivial, hpast⟩, fun r after h => ?_⟩
    obtain ⟨-, rfl⟩ := Prod.mk.inj (Option.some.inj h)
    exact hlimit
  bind := by
    intro α β _ act _ next hact hnext machine past hlimit hpast
    obtain ⟨htrace, hafter⟩ := hact machine past hlimit hpast
    rcases hrun : act machine past with ⟨_ | ⟨_ | a, mid⟩, trace⟩
    · rw [hrun] at htrace hafter
      rw [TraceM.bind_of_none hrun]
      exact ⟨htrace, fun r after h => by contradiction⟩
    · rw [hrun] at htrace hafter
      rw [TraceM.bind_of_error hrun]
      refine ⟨htrace, fun r after h => ?_⟩
      obtain ⟨-, rfl⟩ := Prod.mk.inj (Option.some.inj h)
      exact hafter _ _ rfl
    · rw [hrun] at htrace hafter
      rw [TraceM.bind_of_ok hrun]
      exact hnext a mid trace (hafter _ _ rfl) htrace

/-- All occurrences of an evaluation are in bounds. -/
theorem inBounds_of_evalTraced (room : Nat) (e : Expr) (env : Environment) (machine : Machine)
    (past : List Occurrence) (hbound : machine.limit.UpTo machine.limit.max)
    (hpast : ∀ o ∈ past, o.InBounds machine.limit.max) :
    ∀ o ∈ (e.evalTraced room env machine past).2, o.InBounds machine.limit.max := by
  induction room generalizing e env machine past with
  | zero => exact hpast
  | succ room ih =>
    rw [evalTraced_succ, TraceM.nested]
    cases henter : machine.limit.enter with
    | error max => exact List.forall_mem_cons.mpr ⟨hbound, hpast⟩
    | ok inner =>
      obtain ⟨hadm, rfl⟩ := DepthLimit.admits_of_enter henter
      have hdeeper := DepthLimit.upTo_deeper hadm
      obtain ⟨htrace, hafter⟩ := evalTracedWith_congr
        (congruence_inBounds machine.limit.deeper) (eval room) (evalTraced room)
        (fun e env m past hm hpast => by
          refine ⟨hm ▸ ih e env m past (hm ▸ hdeeper) (hm ▸ hpast), fun r after h => ?_⟩
          rw [evalTraced_fst] at h
          exact (limit_of_eval h).1.trans hm) e env
        { machine with limit := machine.limit.deeper }
        (.enter machine.limit.deeper env e :: past) rfl
        (List.forall_mem_cons.mpr ⟨hdeeper, hpast⟩)
      dsimp only
      rcases hrun : e.evalTracedWith (evalTraced room) env
        { machine with limit := machine.limit.deeper }
        (.enter machine.limit.deeper env e :: past) with ⟨_ | ⟨r, after⟩, trace⟩
      · rw [hrun] at htrace
        exact htrace
      · rw [hrun] at htrace hafter
        -- the counter that is left is the one that was entered
        have hleave : after.limit = machine.limit.deeper := hafter r after rfl
        refine List.forall_mem_cons.mpr ⟨⟨hleave ▸ hdeeper, ?_⟩, htrace⟩
        rw [hleave]
        exact Nat.succ_pos machine.limit.depth

end Expr

/-! ### Calls of one evaluator -/

/-- An expression to evaluate in an environment, with closures numbered from `first`. -/
structure Call where
  e : Expr
  env : Environment
  first : Nat
  /-- The numbers of the closures in the environment are in use. -/
  known : ∀ i ∈ env.identities, i < first

/-- An evaluator serves the calls one after the other, with the outcomes beside them. It has the
first counter at the beginning and the second one at the end. -/
inductive DepthLimit.Serves : DepthLimit → List (Call × Outcome) → DepthLimit → Prop
  | nil (limit : DepthLimit) : Serves limit [] limit
  | cons {limit limit' : DepthLimit} {call : Call} {room : Nat} {journal : List Application}
      {r : Outcome} {after : Machine} {calls : List (Call × Outcome)}
      (h : call.e.eval room call.env ⟨limit, call.first, journal⟩ = some (r, after))
      (hrest : Serves after.limit calls limit') : Serves limit ((call, r) :: calls) limit'

namespace DepthLimit.Serves

variable {limit limit' : DepthLimit} {calls : List (Call × Outcome)}

/-- Calls leave the counter of an evaluator as it was. -/
theorem limit_eq (h : Serves limit calls limit') : limit' = limit := by
  induction h with
  | nil => rfl
  | cons h _ ih => exact ih.trans (Expr.limit_of_eval h).1

/-- Every call has the outcome that it has when it is the first one, up to the identities of new
closures. -/
theorem alike (h : Serves limit calls limit') {call : Call} {r : Outcome}
    (hmem : (call, r) ∈ calls) {first : Nat} (hfirst : ∀ i ∈ call.env.identities, i < first) :
    ∃ r', Expr.EndsFrom ⟨limit, first, []⟩ call.env call.e r' ∧ Outcome.Alike call.env r r' := by
  induction h with
  | nil => cases hmem
  | @cons limit _ served room journal _ after _ h hrest ih =>
    have hlimit : after.limit = limit := (Expr.limit_of_eval h).1
    rcases List.mem_cons.mp hmem with heq | hmem
    · obtain ⟨rfl, rfl⟩ := Prod.mk.inj heq
      obtain ⟨r', after', heval', halike⟩ := Expr.exists_eval_alike h call.known
        ⟨limit, first, []⟩ rfl hfirst
      exact ⟨r', ⟨room, after', heval'⟩, halike⟩
    · rw [← hlimit]
      exact ih hmem

/-- An evaluator that has served calls can serve one more. -/
theorem concat (h : Serves limit calls limit') {call : Call} {room : Nat}
    {journal : List Application} {r : Outcome} {after : Machine}
    (heval : call.e.eval room call.env ⟨limit', call.first, journal⟩ = some (r, after)) :
    Serves limit (calls ++ [(call, r)]) after.limit := by
  induction h with
  | nil => exact .cons heval (.nil _)
  | cons h _ ih => exact .cons h (ih heval)

end DepthLimit.Serves

namespace Expr

/-- An evaluation whose counter is not above its ceiling keeps it there, leaves it only at a
positive depth, and in the end has it as it was, whatever the outcome. A new evaluator is therefore
as good as new after any sequence of calls: each call has the outcome that a new evaluator gives, up
to the identities of new closures, and a call that a new evaluator brings to an end can be served
next. -/
theorem eval_reusable {machine : Machine} (hbound : machine.limit.UpTo machine.limit.max) :
    (∀ (room : Nat) (e : Expr) (env : Environment),
      (e.evalTraced room env machine []).1 = e.eval room env machine ∧
      (∀ o ∈ (e.evalTraced room env machine []).2, o.InBounds machine.limit.max) ∧
      ∀ r after, e.eval room env machine = some (r, after) → after.limit = machine.limit) ∧
    ∀ max calls limit, (DepthLimit.new max).Serves calls limit → limit = .new max ∧
      (∀ call r, (call, r) ∈ calls → ∀ first, (∀ i ∈ call.env.identities, i < first) →
        ∃ r', Ends max first call.e call.env r' ∧ Outcome.Alike call.env r r') ∧
      ∀ (call : Call) first r' journal, (∀ i ∈ call.env.identities, i < first) →
        Ends max first call.e call.env r' →
        ∃ r, EndsFrom ⟨limit, call.first, journal⟩ call.env call.e r ∧
          (DepthLimit.new max).Serves (calls ++ [(call, r)]) limit ∧
          Outcome.Alike call.env r r' := by
  refine ⟨fun room e env => ⟨evalTraced_fst room e env machine [], ?_, ?_⟩, ?_⟩
  · exact inBounds_of_evalTraced room e env machine [] hbound (by simp)
  · exact fun r after h => (limit_of_eval h).1
  · intro max calls limit h
    obtain rfl := h.limit_eq
    refine ⟨rfl, fun call r hmem first hfirst => h.alike hmem hfirst, ?_⟩
    rintro call first r' journal hfirst ⟨room, after', heval'⟩
    obtain ⟨r, after, heval, halike⟩ := exists_eval_alike heval' hfirst
      ⟨.new max, call.first, journal⟩ rfl call.known
    have hserves := h.concat heval
    rw [(limit_of_eval heval).1] at hserves
    exact ⟨r, ⟨room, after, heval⟩, hserves, halike.symm⟩

/-- From depth one, below the ceiling three, an expression is nested too deep. An evaluator with the
ceiling two gives up on it, and then makes a closure, as often as it is asked to. -/
theorem eval_reusable_after_error :
    let e := Expr.binary .add (.number 1) (.binary .add (.number 2) (.number 3))
    let machine : Machine := ⟨⟨1, some 3⟩, 0, []⟩
    let identity := Expr.lambda ['x'] (.var ['x'])
    machine.limit.UpTo machine.limit.max ∧
      (∀ o ∈ (e.evalTraced 9 .empty machine []).2, o.InBounds (some 3)) ∧
      (∃ r, Ends (some 2) 5 identity .empty r ∧
        Outcome.Alike .empty (.ok (.closure 7 .empty ['x'] (.var ['x']))) r) ∧
      ∃ r, EndsFrom ⟨.new (some 2), 7, [⟨['x'], .bool true, 1⟩]⟩ .empty identity r ∧
        Outcome.Alike .empty r (.ok (.closure 0 .empty ['x'] (.var ['x']))) := by
  intro e machine identity
  have hbound : machine.limit.UpTo machine.limit.max := ⟨rfl, by simp [machine]⟩
  obtain ⟨hduring, hafter⟩ := eval_reusable hbound
  have hknown : ∀ i ∈ Environment.empty.identities, i < 7 := by simp [Environment.identities]
  let calls : List (Call × Outcome) :=
    [(⟨e, .empty, 7, hknown⟩, .error (.recursionLimit 2)),
      (⟨identity, .empty, 7, hknown⟩, .ok (.closure 7 .empty ['x'] (.var ['x'])))]
  let start : Machine := ⟨.new (some 2), 7, []⟩
  have herror : e.eval 3 .empty start = some (.error (.recursionLimit 2), start) := rfl
  have hok : identity.eval 3 .empty start =
      some (.ok (.closure 7 .empty ['x'] (.var ['x'])), { start with fresh := 8 }) := rfl
  have hserves : (DepthLimit.new (some 2)).Serves calls (.new (some 2)) :=
    .cons herror (.cons hok (.nil _))
  obtain ⟨-, hcalls, hnext⟩ := hafter _ _ _ hserves
  have hnew : Ends (some 2) 0 identity .empty (.ok (.closure 0 .empty ['x'] (.var ['x']))) :=
    ⟨1, ⟨.new (some 2), 1, []⟩, rfl⟩
  obtain ⟨r, hends, -, halike⟩ := hnext ⟨identity, .empty, 7, hknown⟩ 0 _ [⟨['x'], .bool true, 1⟩]
    (by simp [Environment.identities]) hnew
  refine ⟨hbound, (hduring 9 e .empty).2.1, ?_, r, hends, halike⟩
  exact hcalls _ _ (List.mem_cons_of_mem _ List.mem_cons_self) 5 (by simp [Environment.identities])

end Expr

end UnaryLisp
