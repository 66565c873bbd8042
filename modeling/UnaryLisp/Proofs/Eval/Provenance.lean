import UnaryLisp.Proofs.Eval.History

/-!
# Where closures come from

In a run that evaluates one expression after the other, in environments made of what the run has
brought about, closures are numbered in the order in which they are made. A closure that is made is
therefore new, and two closures are equal exactly when they have been made at the same moment,
however they have been passed on since.

## Main definitions

* `Run`: a sequence of evaluations, with everything that happens in it.

## Main results

* `Run.history_and_at`: a run is a history, and between two evaluations nothing is under way.
* `Occurrence.History.same_eq_false`: a closure that is made is unequal to everything there is.
* `Occurrence.History.exists_same_of_leave`: an equality compares the values that its operands have
  given in this very evaluation.
* `Occurrence.History.same_eq_false_of_lambda`: a procedure on the right of an equality is unequal
  to what is on the left.
* `Occurrence.History.same_iff`: closures are equal when they have been made at the same moment.
-/

namespace UnaryLisp

open Occurrence

/-! ### Runs -/

/-- A run with the trace of what has happened in it, and the state at its end if its last evaluation
has come to an end. -/
inductive Run : List Occurrence → Option Machine → Prop
  | new (maxDepth : Option Nat) : Run [] (some ⟨.new maxDepth, 0, []⟩)
  /-- The evaluation of an expression in an environment made of what there is. -/
  | eval {trace : List Occurrence} {machine : Machine} {env : Environment}
      (h : Run trace (some machine)) (henv : env.closures ⊆ made trace) (room : Nat) (e : Expr) :
      Run (e.evalTraced room env machine trace).2
        ((e.evalTraced room env machine trace).1.map Prod.snd)
  /-- A closure over an environment made of what there is. -/
  | closure {trace : List Occurrence} {machine : Machine} {env : Environment}
      (h : Run trace (some machine)) (henv : env.closures ⊆ made trace) (x : Name) (body : Expr) :
      Run (TraceM.closure env x body machine trace).2
        ((TraceM.closure env x body machine trace).1.map Prod.snd)
  /-- The depth counter starts anew. -/
  | reset {trace : List Occurrence} {machine : Machine} (h : Run trace (some machine))
      (maxDepth : Option Nat) : Run trace (some { machine with limit := .new maxDepth })

theorem Occurrence.At.eval {trace : List Occurrence} {machine : Machine} (h : At machine trace [])
    {env : Environment} (henv : env.closures ⊆ made trace) (room : Nat) (e : Expr) :
    Yields (Over trace []) (e.evalTraced room env machine trace) :=
  e.yields_evalTraced room env machine trace [] h (.start h.underWay_eq henv)

/-- Whatever happens in a run follows what comes before it, and between two evaluations nothing is
under way. -/
theorem Run.history_and_at {trace : List Occurrence} {machine : Option Machine}
    (h : Run trace machine) : History trace ∧ ∀ m ∈ machine, At m trace [] := by
  induction h with
  | new maxDepth =>
    refine ⟨.nil, fun m hm => ?_⟩
    obtain rfl := Option.some.inj hm
    exact ⟨.nil, rfl, rfl⟩
  | @eval trace machine env _ henv room e ih =>
    obtain ⟨hhistory, hover⟩ := (ih.2 machine rfl).eval henv room e
    refine ⟨hhistory, fun m hm => ?_⟩
    obtain ⟨⟨r, after⟩, hrun, rfl⟩ := Option.map_eq_some_iff.mp hm
    exact (hover r after hrun).at_ended
  | @closure trace machine env _ henv x body ih =>
    obtain ⟨hhistory, hfresh, hidle⟩ := ih.2 machine rfl
    have hmake : History (.make (.closure machine.fresh env x body) :: trace) := by
      rw [hfresh]
      exact hhistory.cons (.make (.direct hidle henv))
    refine ⟨hmake, fun m hm => ?_⟩
    obtain rfl := Option.some.inj hm
    exact ⟨hmake, congrArg Nat.succ hfresh, congrArg (ended _) hidle⟩
  | @reset trace machine _ maxDepth ih =>
    obtain ⟨hhistory, hfresh, hidle⟩ := ih.2 machine rfl
    refine ⟨hhistory, fun m hm => ?_⟩
    obtain rfl := Option.some.inj hm
    exact ⟨hhistory, hfresh, hidle⟩

theorem Run.history {trace : List Occurrence} {machine : Option Machine} (h : Run trace machine) :
    History trace :=
  h.history_and_at.1

/-! ### When closures are equal -/

theorem Value.same_self (v : Value) : v.same v :=
  Value.same_iff.mpr (by cases v <;> constructor)

theorem Value.same_comm (v w : Value) : v.same w = w.same v := by
  cases v <;> cases w <;> simp [same, Bool.beq_comm]

namespace Occurrence

variable {past trace : List Occurrence} {o : Occurrence} {c c' v : Value}

theorem made_append (trace past : List Occurrence) :
    made (trace ++ past) = made trace ++ made past := by
  induction trace with
  | nil => rfl
  | cons o trace ih => cases o <;> simp [made, ih]

theorem made_suffix (h : past <:+ trace) : made past <:+ made trace := by
  obtain ⟨since, rfl⟩ := h
  exact ⟨made since, (made_append since past).symm⟩

theorem exists_make_of_mem_made (h : v ∈ made past) : ∃ before, .make v :: before <:+ past := by
  induction past with
  | nil => cases h
  | cons o past ih =>
    cases o with
    | make w =>
      rcases List.mem_cons.mp h with rfl | h
      · exact ⟨past, List.suffix_rfl⟩
      · exact (ih h).imp fun _ hsuffix => hsuffix.trans (List.suffix_cons _ _)
    | enter | refuse | leave =>
      exact (ih h).imp fun _ hsuffix => hsuffix.trans (List.suffix_cons _ _)

theorem Follows.exists_eq_closure (h : Follows past (.make c)) :
    ∃ env x body, c = .closure (made past).length env x body := by
  cases h with
  | make => exact ⟨_, _, _, rfl⟩

namespace History

theorem of_suffix (h : History trace) (hsuffix : past <:+ trace) : History past := by
  induction h with
  | nil => exact List.suffix_nil.mp hsuffix ▸ .nil
  | cons h ho ih =>
    rcases List.suffix_cons_iff.mp hsuffix with rfl | hsuffix
    · exact h.cons ho
    · exact ih hsuffix

theorem follows (h : History trace) (hsuffix : o :: past <:+ trace) : Follows past o := by
  cases h.of_suffix hsuffix with
  | cons _ ho => exact ho

theorem closures_subset_of_suffix (h : History trace) (hsuffix : o :: past <:+ trace) :
    o.closures ⊆ made (o :: past) :=
  (h.of_suffix hsuffix).closures_subset o List.mem_cons_self

/-- The numbers of the closures that have been made are in use. -/
theorem identity_lt (h : History past) {i : Nat} {env : Environment} {x : Name} {body : Expr}
    (hmem : .closure i env x body ∈ made past) : i < (made past).length := by
  obtain ⟨before, hsuffix⟩ := exists_make_of_mem_made hmem
  obtain ⟨_, _, _, heq⟩ := (h.follows hsuffix).exists_eq_closure
  obtain ⟨rfl, -⟩ := Value.closure.inj heq
  exact (made_suffix hsuffix).length_le

/-- A closure that is made is unequal to everything there is. -/
theorem same_eq_false (h : History trace) (hsuffix : .make c :: past <:+ trace)
    (hv : v.closures ⊆ made past) : c.same v = false := by
  obtain ⟨env, x, body, rfl⟩ := (h.follows hsuffix).exists_eq_closure
  cases v with
  | number | bool => rfl
  | closure j env' x' body' =>
    have hpast := h.of_suffix ((List.suffix_cons _ _).trans hsuffix)
    have hlt := hpast.identity_lt (Value.closures_subset_iff.mp hv).1
    exact beq_false_of_ne (Nat.ne_of_gt hlt)

/-- An evaluation of a procedure ends with a closure over its environment that has just been
made. -/
theorem exists_make_of_leave (h : History trace) {limit : DepthLimit} {env : Environment} {x : Name}
    {body : Expr} {r : Outcome} (hsuffix : .leave limit env (.lambda x body) r :: past <:+ trace) :
    ∃ before, past = .make (.closure (made before).length env x body) :: before ∧
      r = .ok (.closure (made before).length env x body) := by
  have hpast := h.of_suffix ((List.suffix_cons _ _).trans hsuffix)
  -- nothing but a closure comes about in the evaluation of a procedure
  have hmade {r : Outcome} {done : List Outcome}
      (hin : Inside past ⟨env, .lambda x body, r :: done⟩) :
      ∃ before, past = .make (.closure (made before).length env x body) :: before ∧
        r = .ok (.closure (made before).length env x body) := by
    obtain ⟨outer, heq⟩ := hin.exists_underWay_eq
    cases hpast.ended heq with
    | made _ hnext =>
      cases hnext with
      | lambda => exact ⟨_, rfl, rfl⟩
    | refused _ hnext | left _ hnext => cases hnext
  cases h.follows hsuffix with
  | leave hin hnext =>
    cases hnext with
    | closure | fail => exact hmade hin

/-- An evaluation of an equality ends with the comparison of two values, which its operands have
given in this very evaluation. -/
theorem exists_same_of_leave (h : History trace) {limit : DepthLimit} {env : Environment}
    {left right : Expr} {u : Value}
    (hsuffix : .leave limit env (.binary .eq left right) (.ok u) :: past <:+ trace) :
    ∃ v w outer, underWay past = ⟨env, .binary .eq left right, [.ok w, .ok v]⟩ :: outer ∧
      u = .bool (v.same w) := by
  cases h.follows hsuffix with
  | leave hin hnext =>
    cases hnext with
    | @operator _ _ _ _ v w _ hgives =>
      obtain ⟨outer, heq⟩ := hin.exists_underWay_eq
      have happly := Operator.apply_eq_iff.mpr hgives
      exact ⟨v, w, outer, heq, (Except.ok.inj happly).symm⟩

/-- A value is unequal to a procedure that is evaluated after it. -/
theorem same_eq_false_of_lambda (h : History past) {env : Environment} {left : Expr} {x : Name}
    {body : Expr} {v w : Value} {outer : List Frame}
    (hin : underWay past = ⟨env, .binary .eq left (.lambda x body), [.ok w, .ok v]⟩ :: outer) :
    v.same w = false := by
  cases h.ended hin with
  | made _ hnext => cases hnext
  | @left _ _ _ _ _ before hbefore hnext =>
    cases hnext with
    | right =>
      -- the value of the left operand is there when the closure of the right one is made
      obtain ⟨past, rfl, hclosure⟩ := h.exists_make_of_leave List.suffix_rfl
      obtain rfl := Except.ok.inj hclosure
      have hpast := h.of_suffix ((List.suffix_cons _ _).trans (List.suffix_cons _ _))
      have htail := congrArg List.tail hbefore
      rw [underWay, tail_ended] at htail
      have hmem : ⟨env, .binary .eq left (.lambda x body), [.ok v]⟩ ∈ underWay past :=
        List.mem_of_mem_tail (htail ▸ List.mem_cons_self)
      have hleft : v.closures ⊆ made past := (hpast.known _ hmem).done (.ok v) List.mem_cons_self
      rw [Value.same_comm]
      exact h.same_eq_false (List.suffix_cons _ _) hleft

/-- Equal closures have been made at the same moment. -/
theorem eq_of_same (h : History trace) {before before' : List Occurrence}
    (hc : .make c :: before <:+ trace) (hc' : .make c' :: before' <:+ trace) (hsame : c.same c') :
    Occurrence.make c :: before = .make c' :: before' := by
  -- of two moments, one comes first; what is made later is new
  have hlater {v w : Value} {past past' : List Occurrence} (hv : .make v :: past <:+ trace)
      (hw : .make w :: past' <:+ past) (hsame : v.same w) : False := by
    have hmade := h.closures_subset_of_suffix ((hw.trans (List.suffix_cons _ past)).trans hv)
    have hnew := h.same_eq_false hv (List.Subset.trans hmade (made_suffix hw).subset)
    rw [hnew] at hsame
    cases hsame
  rcases List.suffix_or_suffix_of_suffix hc hc' with hle | hle
  · rcases List.suffix_cons_iff.mp hle with heq | hlt
    · exact heq
    · exact (hlater hc' hlt (Value.same_comm c c' ▸ hsame)).elim
  · rcases List.suffix_cons_iff.mp hle with heq | hlt
    · exact heq.symm
    · exact (hlater hc hlt hsame).elim

/-- Closures are equal when they have been made at the same moment. -/
theorem same_iff (h : History trace) (hc : c ∈ made trace) (hc' : c' ∈ made trace) :
    c.same c' ↔ ∃ before, .make c :: before <:+ trace ∧ .make c' :: before <:+ trace := by
  constructor
  · intro hsame
    obtain ⟨before, hmake⟩ := exists_make_of_mem_made hc
    obtain ⟨before', hmake'⟩ := exists_make_of_mem_made hc'
    obtain ⟨-, rfl⟩ := List.cons.inj (h.eq_of_same hmake hmake' hsame)
    exact ⟨before, hmake, hmake'⟩
  · rintro ⟨before, hmake, hmake'⟩
    have heq := (List.suffix_of_suffix_length_le hmake hmake' (Nat.le_refl _)).eq_of_length rfl
    obtain rfl := Occurrence.make.inj (List.cons.inj heq).1
    exact c.same_self

end History

end Occurrence

end UnaryLisp
