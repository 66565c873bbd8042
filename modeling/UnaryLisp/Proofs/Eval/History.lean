import Mathlib.Data.List.Chain
import UnaryLisp.Proofs.Eval.Frame
import UnaryLisp.Proofs.Eval.Trace

/-!
# Histories

The trace of an evaluation says at each moment which evaluations are under way, and what has ended
in each of them. What can happen next is what the innermost of them does next, or, if nothing is
under way, a new evaluation of something made of what there is. A trace in which everything follows
what comes before it is a history. Evaluation writes histories, whether it ends or not.

## Main definitions

* `Occurrence.made`, `Occurrence.underWay`: the closures that have been made, and the evaluations
  that have begun and not ended.
* `Occurrence.Follows`: what can happen next.
* `Occurrence.History`: everything follows what comes before it.
* `Occurrence.Ended`: how something has ended in the innermost evaluation.

## Main results

* `Occurrence.History.closures_subset`: nothing refers to a closure before it is made.
* `Occurrence.History.ended`: what is put down as ended in an evaluation has just ended in it.
* `Expr.yields_evalTraced`: an evaluation that goes on with a history writes a history, and closures
  are numbered in the order in which they are made.
-/

namespace UnaryLisp

namespace Occurrence

/-! ### What can happen next -/

/-- The closures that have been made, the latest first. -/
def made : List Occurrence → List Value
  | [] => []
  | .make v :: past => v :: made past
  | .enter _ _ _ :: past | .refuse _ _ :: past | .leave _ _ _ _ :: past => made past

/-- Puts the outcome down in the innermost of the evaluations. -/
def ended (r : Outcome) : List Frame → List Frame
  | [] => []
  | ⟨env, e, done⟩ :: outer => ⟨env, e, r :: done⟩ :: outer

/-- The evaluations that have begun and not ended, the innermost first. An evaluation that ends or
is refused, and a closure that is made, is put down in the evaluation around it. -/
def underWay : List Occurrence → List Frame
  | [] => []
  | .enter _ env e :: past => ⟨env, e, []⟩ :: underWay past
  | .refuse _ max :: past => ended (.error (.recursionLimit max)) (underWay past)
  | .make c :: past => ended (.ok c) (underWay past)
  | .leave _ _ _ r :: past => ended r (underWay past).tail

/-- The innermost evaluation under way. -/
def Inside (past : List Occurrence) (frame : Frame) : Prop :=
  (underWay past).head? = some frame

instance (past : List Occurrence) (frame : Frame) : Decidable (Inside past frame) :=
  inferInstanceAs (Decidable (_ = _))

/-- What is to be done next: what the innermost evaluation does next, or, when nothing is under way,
something with an environment made of what there is. -/
inductive Due (past : List Occurrence) : Move → Prop
  | start {env : Environment} {e : Expr} (hidle : underWay past = [])
      (henv : env.closures ⊆ made past) : Due past (.enter env e)
  | direct {env : Environment} {x : Name} {body : Expr} (hidle : underWay past = [])
      (henv : env.closures ⊆ made past) : Due past (.make env x body)
  | next {frame : Frame} {move : Move} (h : Inside past frame) (hnext : frame.Next move) :
      Due past move

/-- What can happen next. -/
inductive Follows (past : List Occurrence) : Occurrence → Prop
  | enter {limit : DepthLimit} {env : Environment} {e : Expr} (h : Due past (.enter env e)) :
      Follows past (.enter limit env e)
  | refuse {limit : DepthLimit} {max : Nat} {env : Environment} {e : Expr}
      (h : Due past (.enter env e)) (hmax : limit.enter = .error max) :
      Follows past (.refuse limit max)
  /-- Closures are numbered in the order in which they are made. -/
  | make {env : Environment} {x : Name} {body : Expr} (h : Due past (.make env x body)) :
      Follows past (.make (.closure (made past).length env x body))
  | leave {limit : DepthLimit} {env : Environment} {e : Expr} {done : List Outcome} {r : Outcome}
      (h : Inside past ⟨env, e, done⟩) (hnext : Frame.Next ⟨env, e, done⟩ (.leave r)) :
      Follows past (.leave limit env e r)

/-- Everything in the trace follows what comes before it. -/
inductive History : List Occurrence → Prop
  | nil : History []
  | cons {o : Occurrence} {past : List Occurrence} (h : History past) (ho : Follows past o) :
      History (o :: past)

variable {past trace : List Occurrence} {frame : Frame} {outer : List Frame} {o : Occurrence}

theorem Inside.exists_underWay_eq (h : Inside past frame) :
    ∃ outer, underWay past = frame :: outer :=
  List.head?_eq_some_iff.mp h

theorem Inside.of_underWay (h : underWay past = frame :: outer) : Inside past frame :=
  congrArg List.head? h

theorem tail_ended (r : Outcome) (frames : List Frame) : (ended r frames).tail = frames.tail := by
  cases frames <;> rfl

/-! ### Nothing refers to a closure before it is made -/

/-- The closures that occur in what happens. -/
def closures : Occurrence → List Value
  | .enter _ env _ => env.closures
  | .refuse _ _ => []
  | .make v => v.closures
  | .leave _ _ _ r => r.closures

theorem made_subset_cons (o : Occurrence) (past : List Occurrence) :
    made past ⊆ made (o :: past) := by
  cases o with
  | make v => exact List.subset_cons_self v _
  | _ => exact List.Subset.refl _

theorem Due.closures_subset {move : Move} (h : Due past move)
    (hknown : ∀ frame ∈ underWay past, frame.Known (made past)) : move.closures ⊆ made past := by
  cases h with
  | start _ henv | direct _ henv => exact henv
  | next h hnext => exact hnext.closures_subset (hknown _ (List.mem_of_mem_head? h))

/-- What happens next refers to closures that have been made, or to the one being made. -/
theorem Follows.closures_subset (h : Follows past o)
    (hknown : ∀ frame ∈ underWay past, frame.Known (made past)) :
    o.closures ⊆ made (o :: past) := by
  cases h with
  | enter h => exact h.closures_subset hknown
  | refuse => exact List.nil_subset _
  | make h =>
    exact Value.closures_subset_iff.mpr
      ⟨List.mem_cons_self, List.subset_cons_of_subset _ (h.closures_subset hknown)⟩
  | leave h hnext => exact hnext.closures_subset (hknown _ (List.mem_of_mem_head? h))

/-- Closures that have been made stay known when an outcome is put down. -/
theorem known_ended {known : List Value} {r : Outcome} {frames : List Frame}
    (h : ∀ frame ∈ frames, frame.Known known) (hr : r.closures ⊆ known) :
    ∀ frame ∈ ended r frames, frame.Known known := by
  cases frames with
  | nil => exact h
  | cons frame outer =>
    obtain ⟨hframe, houter⟩ := List.forall_mem_cons.mp h
    exact List.forall_mem_cons.mpr
      ⟨⟨hframe.env, List.forall_mem_cons.mpr ⟨hr, hframe.done⟩⟩, houter⟩

/-- The evaluations under way in a history refer to closures that are made in it. -/
theorem History.known (h : History trace) : ∀ frame ∈ underWay trace, frame.Known (made trace) := by
  induction h with
  | nil => simp [underWay]
  | @cons o past _ ho ih =>
    have hclosures := ho.closures_subset ih
    have hpast : ∀ frame ∈ underWay past, frame.Known (made (o :: past)) :=
      fun frame hmem => (ih frame hmem).mono (made_subset_cons o past)
    cases o with
    | enter limit env e => exact List.forall_mem_cons.mpr ⟨⟨hclosures, by simp⟩, hpast⟩
    | refuse | make => exact known_ended hpast hclosures
    | leave =>
      exact known_ended (fun frame hmem => hpast frame (List.mem_of_mem_tail hmem)) hclosures

/-- Nothing in a history refers to a closure that is not made in it. -/
theorem History.closures_subset (h : History trace) : ∀ o ∈ trace, o.closures ⊆ made trace := by
  induction h with
  | nil => simp
  | @cons o past h ho ih =>
    refine List.forall_mem_cons.mpr ⟨ho.closures_subset h.known, fun o' ho' => ?_⟩
    exact List.Subset.trans (ih o' ho') (made_subset_cons o past)

/-! ### What has ended in an evaluation -/

/-- The first evaluation is what the second one has begun. -/
def Nested (inner outer : Frame) : Prop :=
  outer.Next (.enter inner.env inner.e)

theorem isChain_ended {frames : List Frame} (h : frames.IsChain Nested) (r : Outcome) :
    (ended r frames).IsChain Nested := by
  cases h with
  | nil => exact .nil
  | singleton => exact .singleton _
  | cons_cons hnested h => exact .cons_cons hnested h

/-- Each evaluation under way is what the one around it has begun. -/
theorem History.nested (h : History trace) : (underWay trace).IsChain Nested := by
  induction h with
  | nil => exact .nil
  | @cons o past _ ho ih =>
    cases ho with
    | enter h =>
      cases h with
      | start hidle =>
        rw [underWay, hidle]
        exact .singleton _
      | next h hnext =>
        obtain ⟨outer, heq⟩ := h.exists_underWay_eq
        rw [heq] at ih
        rw [underWay, heq]
        exact .cons_cons hnext ih
    | refuse | make => exact isChain_ended ih _
    | leave => exact isChain_ended ih.tail _

/-- The latest of what has ended in the innermost evaluation, with the outcome `r`: a closure has
been made, a nested evaluation has been refused, or one has ended. -/
inductive Ended (frame : Frame) (outer : List Frame) : Outcome → List Occurrence → Prop
  | made {env : Environment} {x : Name} {body : Expr} {before : List Occurrence}
      (h : underWay before = frame :: outer) (hnext : frame.Next (.make env x body)) :
      Ended frame outer (.ok (.closure (made before).length env x body))
        (.make (.closure (made before).length env x body) :: before)
  | refused {limit : DepthLimit} {max : Nat} {env : Environment} {e : Expr}
      {before : List Occurrence} (h : underWay before = frame :: outer)
      (hnext : frame.Next (.enter env e)) :
      Ended frame outer (.error (.recursionLimit max)) (.refuse limit max :: before)
  | left {limit : DepthLimit} {env : Environment} {e : Expr} {done : List Outcome} {r : Outcome}
      {before : List Occurrence} (h : underWay before = ⟨env, e, done⟩ :: frame :: outer)
      (hnext : frame.Next (.enter env e)) : Ended frame outer r (.leave limit env e r :: before)

theorem eq_of_ended_eq {r r' : Outcome} {frames : List Frame} {env : Environment} {e : Expr}
    {done : List Outcome} (h : ended r frames = ⟨env, e, r' :: done⟩ :: outer) :
    r = r' ∧ frames = ⟨env, e, done⟩ :: outer := by
  cases frames with
  | nil => cases h
  | cons frame frames =>
    obtain ⟨hframe, rfl⟩ := List.cons.inj h
    obtain ⟨rfl, rfl, hdone⟩ := Frame.mk.inj hframe
    obtain ⟨rfl, rfl⟩ := List.cons.inj hdone
    exact ⟨rfl, rfl⟩

/-- What is put down as the latest to have ended in the innermost evaluation has just ended in
it. -/
theorem History.ended (h : History trace) {env : Environment} {e : Expr} {r : Outcome}
    {done : List Outcome} (hin : underWay trace = ⟨env, e, r :: done⟩ :: outer) :
    Ended ⟨env, e, done⟩ outer r trace := by
  cases h with
  | nil => cases hin
  | @cons o past h ho =>
    cases ho with
    | enter => simp [underWay] at hin
    | refuse hdue =>
      obtain ⟨rfl, heq⟩ := eq_of_ended_eq hin
      cases hdue with
      | start hidle => simp [hidle] at heq
      | next hinside hnext =>
        obtain rfl := Option.some.inj (hinside.symm.trans (Inside.of_underWay heq))
        exact .refused heq hnext
    | make hdue =>
      obtain ⟨rfl, heq⟩ := eq_of_ended_eq hin
      cases hdue with
      | direct hidle => simp [hidle] at heq
      | next hinside hnext =>
        obtain rfl := Option.some.inj (hinside.symm.trans (Inside.of_underWay heq))
        exact .made heq hnext
    | leave hinside =>
      obtain ⟨rest, hpast⟩ := hinside.exists_underWay_eq
      rw [underWay, hpast] at hin
      obtain ⟨rfl, rfl⟩ := eq_of_ended_eq hin
      have hnested := h.nested
      rw [hpast] at hnested
      exact .left hpast (List.isChain_cons_cons.mp hnested).1

/-! ### Evaluations write histories -/

/-- The trace is a history, at the end of which the evaluations are under way, and the next closure
gets the next number. -/
structure At (machine : Machine) (trace : List Occurrence) (frames : List Frame) : Prop where
  history : History trace
  fresh : machine.fresh = (made trace).length
  underWay_eq : underWay trace = frames

/-- The trace of a result is a history, and the result satisfies `P` if there is one. -/
def Yields (P : Outcome → Machine → List Occurrence → Prop)
    (result : Option (Outcome × Machine) × List Occurrence) : Prop :=
  History result.2 ∧ ∀ r after, result.1 = some (r, after) → P r after result.2

/-- An evaluation that was begun inside of the evaluations `frames` is over. -/
structure Over (past : List Occurrence) (frames : List Frame) (r : Outcome) (after : Machine)
    (trace : List Occurrence) : Prop where
  suffix : past <:+ trace
  at_ended : At after trace (Occurrence.ended r frames)
  closures_subset : r.closures ⊆ made trace

/-- The evaluation of `e` in `env` is the innermost one, and the next it does is to end. -/
structure Ready (past : List Occurrence) (env : Environment) (e : Expr) (outer : List Frame)
    (r : Outcome) (after : Machine) (trace : List Occurrence) : Prop where
  suffix : past <:+ trace
  exists_at : ∃ done, At after trace (⟨env, e, done⟩ :: outer) ∧
    Frame.Next ⟨env, e, done⟩ (.leave r)

section

variable {env : Environment} {e : Expr} {done : List Outcome} {machine : Machine}
  {act : TraceM Value} {next : Value → TraceM Value}

/-- Where there is no result, the trace is all there is. -/
theorem Yields.none {P : Outcome → Machine → List Occurrence → Prop} (htrace : History trace) :
    Yields P (none, trace) :=
  ⟨htrace, fun _ _ h => by cases h⟩

/-- An evaluation is as ready as what it goes on with after a nested evaluation; when the nested one
fails, it fails. -/
theorem Yields.bind (hact : Yields (Over past (⟨env, e, done⟩ :: outer)) (act machine past))
    (hnext : ∀ v mid trace, At mid trace (⟨env, e, .ok v :: done⟩ :: outer) →
      Yields (Ready trace env e outer) (next v mid trace)) :
    Yields (Ready past env e outer) ((act >>= next) machine past) := by
  rcases hrun : act machine past with ⟨_ | ⟨err | v, mid⟩, trace⟩
  · rw [TraceM.bind_of_none hrun]
    rw [hrun] at hact
    exact .none hact.1
  · rw [TraceM.bind_of_error hrun]
    rw [hrun] at hact
    have hover := hact.2 (.error err) mid rfl
    refine ⟨hact.1, fun r after h => ?_⟩
    obtain ⟨rfl, rfl⟩ := Prod.mk.inj (Option.some.inj h)
    exact ⟨hover.suffix, _, hover.at_ended, .fail⟩
  · rw [TraceM.bind_of_ok hrun]
    rw [hrun] at hact
    have hover := hact.2 (.ok v) mid rfl
    obtain ⟨htrace, hready⟩ := hnext v mid trace hover.at_ended
    refine ⟨htrace, fun r after h => ?_⟩
    have hr := hready r after h
    exact ⟨hover.suffix.trans hr.suffix, hr.exists_at⟩

/-- A nested evaluation whose value is the value of the whole. -/
theorem Yields.tail (hact : Yields (Over past (⟨env, e, done⟩ :: outer)) (act machine past))
    (hnext : ∀ v, Frame.Next ⟨env, e, .ok v :: done⟩ (.leave (.ok v))) :
    Yields (Ready past env e outer) (act machine past) := by
  refine ⟨hact.1, fun r after h => ?_⟩
  have hover := hact.2 r after h
  cases r with
  | ok v => exact ⟨hover.suffix, _, hover.at_ended, hnext v⟩
  | error err => exact ⟨hover.suffix, _, hover.at_ended, .fail⟩

/-- An evaluation that ends without anything nested in it. -/
theorem Yields.quiet {r : Outcome} (h : At machine past (⟨env, e, done⟩ :: outer))
    (hnext : Frame.Next ⟨env, e, done⟩ (.leave r)) :
    Yields (Ready past env e outer) (TraceM.quiet (EvalM.ofExcept r) machine past) := by
  refine ⟨h.history, fun r' after heq => ?_⟩
  obtain ⟨rfl, rfl⟩ := Prod.mk.inj (Option.some.inj heq)
  exact ⟨List.suffix_rfl, done, h, hnext⟩

end

end Occurrence

namespace Expr

open Occurrence

/-- If nested evaluations write histories, so does a level of evaluation. -/
theorem yields_evalTracedWith {eval : Expr → Environment → TraceM Value}
    (heval : ∀ e env machine past frames, At machine past frames → Due past (.enter env e) →
      Yields (Over past frames) (eval e env machine past))
    {e : Expr} {env : Environment} {machine : Machine} {past : List Occurrence}
    {outer : List Frame} (h : At machine past (⟨env, e, []⟩ :: outer)) :
    Yields (Ready past env e outer) (e.evalTracedWith eval env machine past) := by
  -- a nested evaluation begins when it is what the evaluation does next
  have hgo {mid : Machine} {trace : List Occurrence} {done : List Outcome} {env' : Environment}
      {part : Expr} (h : At mid trace (⟨env, e, done⟩ :: outer))
      (hnext : Frame.Next ⟨env, e, done⟩ (.enter env' part)) :
      Yields (Over trace (⟨env, e, done⟩ :: outer)) (eval part env' mid trace) :=
    heval part env' mid trace _ h (.next (.of_underWay h.underWay_eq) hnext)
  cases e with
  | number n => exact .quiet h (.number n)
  | bool b => exact .quiet h (.bool b)
  | var x =>
    refine .quiet h ?_
    cases hvalue : env.value x with
    | ok v => exact .var (Environment.value_eq_ok_iff.mp hvalue)
    | error err =>
      obtain ⟨hunbound, rfl⟩ := Environment.value_eq_error_iff.mp hvalue
      exact .unbound hunbound
  | binary op left right =>
    refine .bind (hgo h .left) fun v mid trace hv => ?_
    refine .bind (hgo hv .right) fun w mid' trace' hw => ?_
    exact .quiet hw (.operator (op.gives_apply v w))
  | cond test yes no =>
    refine .bind (hgo h .test) fun v mid trace hv => ?_
    cases v with
    | bool b =>
      cases b with
      | true => exact .tail (hgo hv .yes) fun _ => .branch
      | false => exact .tail (hgo hv .no) fun _ => .branch
    | number | closure => exact .quiet hv (.mismatch (by simp [Value.kind]))
  | letIn x init body =>
    refine .bind (hgo h .init) fun v mid trace hv => ?_
    exact .tail (hgo hv .letBody) fun _ => .letResult
  | lambda x body =>
    have hmake : History (.make (.closure machine.fresh env x body) :: past) := by
      rw [h.fresh]
      exact h.history.cons (.make (.next (.of_underWay h.underWay_eq) .lambda))
    refine ⟨hmake, fun r after heq => ?_⟩
    obtain ⟨rfl, rfl⟩ := Prod.mk.inj (Option.some.inj heq)
    refine ⟨List.suffix_cons _ past, _, ⟨hmake, congrArg Nat.succ h.fresh, ?_⟩, .closure⟩
    exact congrArg (ended _) h.underWay_eq
  | call callee arg =>
    refine .bind (hgo h .callee) fun f mid trace hf => ?_
    cases f with
    | closure i captured x body =>
      refine .bind (hgo hf .arg) fun v mid' trace' hv => ?_
      -- the journal has no part in what happens
      exact .tail (hgo ⟨hv.history, hv.fresh, hv.underWay_eq⟩ .callBody) fun _ => .callResult
    | number | bool => exact .quiet hf (.nonFunction (by simp [Value.kind]))

/-- An evaluation that goes on with a history writes a history. -/
theorem yields_evalTraced (room : Nat) (e : Expr) (env : Environment) (machine : Machine)
    (past : List Occurrence) (frames : List Frame) (h : At machine past frames)
    (hdue : Due past (.enter env e)) :
    Yields (Over past frames) (e.evalTraced room env machine past) := by
  induction room generalizing e env machine past frames with
  | zero => exact .none h.history
  | succ room ih =>
    obtain ⟨hpast, hfresh, rfl⟩ := h
    rw [evalTraced_succ, TraceM.nested]
    cases henter : machine.limit.enter with
    | error max =>
      have hrefuse := hpast.cons (.refuse hdue henter)
      refine ⟨hrefuse, fun r after heq => ?_⟩
      obtain ⟨rfl, rfl⟩ := Prod.mk.inj (Option.some.inj heq)
      exact ⟨List.suffix_cons _ past, ⟨hrefuse, hfresh, rfl⟩, List.nil_subset _⟩
    | ok limit =>
      have hlevel := yields_evalTracedWith ih
        (⟨hpast.cons (.enter hdue), hfresh, rfl⟩ : At { machine with limit }
          (.enter limit env e :: past) (⟨env, e, []⟩ :: underWay past))
      dsimp only
      rcases hrun : e.evalTracedWith (evalTraced room) env { machine with limit }
        (.enter limit env e :: past) with ⟨_ | ⟨r, after⟩, trace⟩
      · rw [hrun] at hlevel
        exact .none hlevel.1
      · rw [hrun] at hlevel
        obtain ⟨hsuffix, done, hat, hnext⟩ := hlevel.2 r after rfl
        have hleave : History (.leave after.limit env e r :: trace) :=
          hat.history.cons (.leave (.of_underWay hat.underWay_eq) hnext)
        refine ⟨hleave, fun r' after' heq => ?_⟩
        obtain ⟨rfl, rfl⟩ := Prod.mk.inj (Option.some.inj heq)
        refine ⟨?_, ⟨hleave, hat.fresh, ?_⟩, ?_⟩
        · exact ((List.suffix_cons _ past).trans hsuffix).trans (List.suffix_cons _ trace)
        · exact congrArg (fun frames => ended r frames.tail) hat.underWay_eq
        · exact hleave.closures_subset _ List.mem_cons_self

end Expr

end UnaryLisp
