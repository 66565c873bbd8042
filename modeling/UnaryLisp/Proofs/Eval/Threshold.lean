import Mathlib.Data.Nat.Find
import Mathlib.Logic.ExistsUnique
import UnaryLisp.Proofs.Eval.Congruence

/-!
# Depth limits and thresholds

Under a ceiling every evaluation ends: each level further in is one level closer to the ceiling. A
ceiling shows only by being exceeded. An evaluation that does not report a ceiling ends alike under
every higher ceiling and under none; so an evaluation that ends without a ceiling has a threshold,
the least ceiling that it does not exceed, and one that does not end exceeds every ceiling.

## Main definitions

* `DepthLimit.Admits`: the limit allows to enter a level that lies a given number of levels in.

## Main results

* `Expr.exists_eval_of_lt`: under a ceiling an evaluation ends within the room up to the ceiling.
* `Expr.eval_withMax`: an evaluation that reports no ceiling ends alike under a looser one.
* `Expr.depth_threshold`: the dichotomy of evaluations under ceilings and without one.
-/

namespace UnaryLisp

/-! ### Ceilings -/

namespace DepthLimit

/-- The ceiling, if there is one, lies above the level `levels` further in. -/
def Admits (limit : DepthLimit) (levels : Nat) : Prop :=
  ∀ max, limit.max = some max → limit.depth + levels < max

/-- The limit with another ceiling. -/
def withMax (limit : DepthLimit) (max : Option Nat) : DepthLimit :=
  { limit with max }

/-- The limit one level further in, whatever the ceiling. -/
def deeper (limit : DepthLimit) : DepthLimit :=
  { limit with depth := limit.depth + 1 }

theorem enter_of_admits {limit : DepthLimit} (h : limit.Admits 0) :
    limit.enter = .ok limit.deeper := by
  unfold enter
  split
  · next max hmax =>
    have hlt : limit.depth < max := h max hmax
    rw [if_neg (Nat.not_le.mpr hlt), deeper]
  · rfl

theorem admits_of_enter {limit inner : DepthLimit} (h : limit.enter = .ok inner) :
    limit.Admits 0 ∧ inner = limit.deeper := by
  have hadm : limit.Admits 0 := by
    intro max hmax
    by_contra hle
    have hge : max ≤ limit.depth := Nat.le_of_not_lt hle
    simp only [enter, hmax, if_pos hge] at h
    contradiction
  rw [enter_of_admits hadm] at h
  exact ⟨hadm, (Except.ok.inj h).symm⟩

theorem admits_deeper {limit : DepthLimit} {levels : Nat} :
    limit.deeper.Admits levels ↔ limit.Admits (levels + 1) := by
  simp only [Admits, deeper]
  constructor <;> intro h max hmax <;> have := h max hmax <;> omega

end DepthLimit

/-- The state with another ceiling. -/
def Machine.withMax (machine : Machine) (max : Option Nat) : Machine :=
  { machine with limit := machine.limit.withMax max }

namespace Expr

open EvalM

/-! ### Under a ceiling every evaluation ends -/

theorem congruence_halts (limit : DepthLimit) : Congruence fun α (act _ : EvalM α) =>
    ∀ machine : Machine, machine.limit = limit →
      ∃ result after, act machine = some (result, after) ∧ after.limit = limit where
  ofExcept result _ machine h := ⟨result, machine, rfl, h⟩
  closure _ _ _ _ h := ⟨_, _, rfl, h⟩
  note _ _ _ h := ⟨_, _, rfl, h⟩
  bind := by
    intro α β act _ next _ hact hnext machine hlimit
    obtain ⟨result, mid, hrun, hmid⟩ := hact machine hlimit
    cases result with
    | error e => exact ⟨.error e, mid, bind_eq_some_iff.mpr (.inl ⟨e, hrun, rfl⟩), hmid⟩
    | ok a =>
      obtain ⟨result, after, hrest, hafter⟩ := hnext a mid hmid
      exact ⟨result, after, bind_eq_some_iff.mpr (.inr ⟨a, mid, hrun, hrest⟩), hafter⟩

/-- Under a ceiling an evaluation ends within the room up to the ceiling. -/
theorem exists_eval_of_lt {max : Nat} (room : Nat) (e : Expr) (env : Environment)
    (machine : Machine) (hmax : machine.limit.max = some max)
    (hroom : max - machine.limit.depth < room) :
    ∃ r after, e.eval room env machine = some (r, after) ∧ after.limit = machine.limit := by
  induction room generalizing e env machine with
  | zero => omega
  | succ room ih =>
    cases henter : machine.limit.enter with
    | error k =>
      exact ⟨_, machine, nested_eq_some_iff.mpr (.inl ⟨k, henter, rfl, rfl⟩), rfl⟩
    | ok inner =>
      obtain ⟨hadm, rfl⟩ := DepthLimit.admits_of_enter henter
      -- each level further in leaves one level less up to the ceiling
      have hlt : machine.limit.depth < max := hadm max hmax
      have hinner : max - machine.limit.deeper.depth < room := by
        simp only [DepthLimit.deeper]
        omega
      have hlevel := evalWith_congr (congruence_halts machine.limit.deeper) (eval room) (eval room)
        (fun e env m hm => by
          obtain ⟨r, after, heval, hafter⟩ := ih e env m (by rw [hm]; exact hmax) (by rwa [hm])
          exact ⟨r, after, heval, hafter.trans hm⟩) e env
      obtain ⟨r, mid, hact, hmid⟩ := hlevel { machine with limit := machine.limit.deeper } rfl
      refine ⟨r, _, nested_eq_some_iff.mpr (.inr ⟨_, mid, henter, hact, rfl⟩), ?_⟩
      rw [hmid]
      exact DepthLimit.leave_of_enter henter

/-! ### A looser ceiling does not show -/

theorem congruence_withMax (limit : DepthLimit) (max : Option Nat) :
    Congruence fun α (act act' : EvalM α) => ∀ machine result after, machine.limit = limit →
      act machine = some (result, after) → after.limit = limit ∧
        ((∀ k, result ≠ .error (.recursionLimit k)) →
          act' (machine.withMax max) = some (result, after.withMax max)) where
  ofExcept := by
    intro α result _ machine _ _ hlimit h
    obtain ⟨rfl, rfl⟩ := Prod.mk.inj (Option.some.inj h)
    exact ⟨hlimit, fun _ => rfl⟩
  closure := by
    intro env x body machine _ _ hlimit h
    obtain ⟨rfl, rfl⟩ := Prod.mk.inj (Option.some.inj h)
    exact ⟨hlimit, fun _ => rfl⟩
  note := by
    intro x v machine _ _ hlimit h
    obtain ⟨rfl, rfl⟩ := Prod.mk.inj (Option.some.inj h)
    exact ⟨hlimit, fun _ => rfl⟩
  bind := by
    intro α β act act' next next' hact hnext machine result after hlimit h
    rcases bind_eq_some_iff.mp h with ⟨e, hfail, rfl⟩ | ⟨a, mid, hok, hrest⟩
    · obtain ⟨hafter, hmove⟩ := hact _ _ _ hlimit hfail
      refine ⟨hafter, fun hne => bind_eq_some_iff.mpr (.inl ⟨e, hmove fun k hk => ?_, rfl⟩)⟩
      exact hne k (congrArg _ (Except.error.inj hk))
    · obtain ⟨hmid, hmove⟩ := hact _ _ _ hlimit hok
      obtain ⟨hafter, hmove'⟩ := hnext a _ _ _ hmid hrest
      exact ⟨hafter, fun hne =>
        bind_eq_some_iff.mpr (.inr ⟨a, _, hmove (by simp), hmove' hne⟩)⟩

/-- An evaluation that reports no ceiling ends alike under a ceiling that, as far as the room goes,
refuses no level that the old one admits. -/
theorem eval_withMax {room : Nat} (max : Option Nat) {e : Expr} {env : Environment}
    {machine after : Machine} {r : Outcome} (h : e.eval room env machine = some (r, after))
    (hne : ∀ k, r ≠ .error (.recursionLimit k))
    (hmax : ∀ j < room, machine.limit.Admits j → (machine.limit.withMax max).Admits j) :
    e.eval room env (machine.withMax max) = some (r, after.withMax max) := by
  induction room generalizing e env machine after r with
  | zero => contradiction
  | succ room ih =>
    rw [eval_succ] at h ⊢
    rcases nested_eq_some_iff.mp h with ⟨k, -, rfl, -⟩ | ⟨inner, mid, henter, hact, rfl⟩
    · exact absurd rfl (hne k)
    · obtain ⟨hadm, rfl⟩ := DepthLimit.admits_of_enter henter
      have henter' : (machine.limit.withMax max).enter = .ok (machine.limit.withMax max).deeper :=
        DepthLimit.enter_of_admits (hmax 0 (Nat.succ_pos room) hadm)
      have hdeeper : ∀ j < room, machine.limit.deeper.Admits j →
          (machine.limit.deeper.withMax max).Admits j := fun j hj hadm' =>
        DepthLimit.admits_deeper.mpr
          (hmax (j + 1) (Nat.succ_lt_succ hj) (DepthLimit.admits_deeper.mp hadm'))
      have hlevel := evalWith_congr (congruence_withMax machine.limit.deeper max)
        (eval room) (eval room)
        (fun e env m r' m' hm heval => by
          refine ⟨(limit_of_eval heval).1.trans hm, fun hne' => ih heval hne' ?_⟩
          rwa [hm]) e env
      obtain ⟨-, hmove⟩ := hlevel _ _ _ rfl hact
      exact nested_eq_some_iff.mpr (.inr ⟨_, _, henter', hmove hne, rfl⟩)

/-! ### Thresholds -/

section Threshold

variable {fresh : Nat} {e : Expr} {env : Environment} {r : Outcome}

theorem Ends.max_of_recursionLimit {max : Option Nat} (h : Ends max fresh e env r) {k : Nat}
    (hr : r = .error (.recursionLimit k)) : max = some k := by
  obtain ⟨room, after, heval⟩ := h
  exact (limit_of_eval heval).2 k hr

theorem exists_ends_some (fresh : Nat) (e : Expr) (env : Environment) (max : Nat) :
    ∃ r, Ends (some max) fresh e env r := by
  obtain ⟨r, after, heval, -⟩ := exists_eval_of_lt (max + 1) e env
    ⟨.new (some max), fresh, []⟩ rfl (Nat.lt_succ_of_le (Nat.sub_le max _))
  exact ⟨r, max + 1, after, heval⟩

/-- An evaluation that does not exceed its ceiling ends alike without one. -/
theorem Ends.without_max {max : Option Nat} (h : Ends max fresh e env r)
    (hne : ∀ k, r ≠ .error (.recursionLimit k)) : Ends none fresh e env r := by
  obtain ⟨room, after, heval⟩ := h
  refine ⟨room, _, eval_withMax none heval hne fun j _ _ k hk => ?_⟩
  contradiction

/-- An evaluation that does not exceed its ceiling ends alike under a higher one. -/
theorem Ends.raise {max max' : Nat} (hle : max ≤ max') (h : Ends (some max) fresh e env r)
    (hne : ∀ k, r ≠ .error (.recursionLimit k)) : Ends (some max') fresh e env r := by
  obtain ⟨room, after, heval⟩ := h
  refine ⟨room, _, eval_withMax (some max') heval hne fun j _ hadm k hk => ?_⟩
  obtain rfl := Option.some.inj hk
  exact Nat.lt_of_lt_of_le (hadm max rfl) hle

/-- An evaluation that ends without a ceiling ends alike under some ceiling. -/
theorem Ends.exists_max (h : Ends none fresh e env r)
    (hne : ∀ k, r ≠ .error (.recursionLimit k)) : ∃ max, Ends (some max) fresh e env r := by
  obtain ⟨room, after, heval⟩ := h
  refine ⟨room, room, _, eval_withMax (some room) heval hne fun j hj _ k hk => ?_⟩
  obtain rfl := Option.some.inj hk
  simpa [DepthLimit.withMax, DepthLimit.new] using hj

/-- Under a ceiling an evaluation ends as it does without one or exceeds the ceiling. -/
theorem ends_none_or_exceeded (fresh : Nat) (e : Expr) (env : Environment) (max : Nat) :
    (∃ r, Ends (some max) fresh e env r ∧ Ends none fresh e env r) ∨
      Ends (some max) fresh e env (.error (.recursionLimit max)) := by
  obtain ⟨r, hr⟩ := exists_ends_some fresh e env max
  by_cases hlimit : ∃ k, r = .error (.recursionLimit k)
  · obtain ⟨k, rfl⟩ := hlimit
    obtain rfl : max = k := Option.some.inj (hr.max_of_recursionLimit rfl)
    exact .inr hr
  · exact .inl ⟨r, hr, hr.without_max (not_exists.mp hlimit)⟩

theorem ends_zero (fresh : Nat) (e : Expr) (env : Environment) :
    Ends (some 0) fresh e env (.error (.recursionLimit 0)) :=
  ⟨1, _, nested_eq_some_iff.mpr (.inl ⟨0, rfl, rfl, rfl⟩)⟩

/-- Under every ceiling an evaluation ends, with one outcome. If it ends without a ceiling, then not
with an exceeded one, and there is a threshold from which on it ends alike under a ceiling and below
which it exceeds the ceiling. If it does not end without a ceiling, it exceeds every ceiling. -/
theorem depth_threshold (fresh : Nat) (e : Expr) (env : Environment) :
    (∀ max, ∃! r, Ends (some max) fresh e env r) ∧
    (∀ r, Ends none fresh e env r → (∀ k, r ≠ .error (.recursionLimit k)) ∧
      ∃ threshold, 1 ≤ threshold ∧
        (∀ max, threshold ≤ max → Ends (some max) fresh e env r) ∧
        ∀ max < threshold, Ends (some max) fresh e env (.error (.recursionLimit max))) ∧
    ((∀ r, ¬ Ends none fresh e env r) →
      ∀ max, Ends (some max) fresh e env (.error (.recursionLimit max))) := by
  refine ⟨fun max => ?_, fun r hr => ?_, fun hnone max => ?_⟩
  · obtain ⟨r, hr⟩ := exists_ends_some fresh e env max
    exact ⟨r, hr, fun r' hr' => hr'.unique hr⟩
  · have hne : ∀ k, r ≠ .error (.recursionLimit k) := by
      intro k hk
      have hmax := hr.max_of_recursionLimit hk
      contradiction
    classical
    have hex := hr.exists_max hne
    refine ⟨hne, Nat.find hex, ?_, fun max hmax => ?_, fun max hmax => ?_⟩
    · -- the ceiling zero is exceeded at once
      refine Nat.one_le_iff_ne_zero.mpr fun hzero => ?_
      have hspec := Nat.find_spec hex
      rw [hzero] at hspec
      exact hne 0 (hspec.unique (ends_zero fresh e env))
    · exact (Nat.find_spec hex).raise hmax hne
    · rcases ends_none_or_exceeded fresh e env max with ⟨r', hsome, hnone⟩ | hexceeded
      · obtain rfl := hnone.unique hr
        exact absurd hsome (Nat.find_min hex hmax)
      · exact hexceeded
  · rcases ends_none_or_exceeded fresh e env max with ⟨r, -, hr⟩ | hexceeded
    · exact absurd hr (hnone r)
    · exact hexceeded

end Threshold

end Expr

end UnaryLisp
