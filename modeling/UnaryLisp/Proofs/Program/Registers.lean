import UnaryLisp.Proofs.Eval.Provenance
import UnaryLisp.Session

/-!
# Sessions are runs

The registers of a session hold values and environments that come from its own steps. Whatever the
steps are, and whether they fail or not, they make up a run, and the registers hold nothing that the
run has not brought about. What holds of closures along runs holds in sessions.

## Main definitions

* `Session.After`: the session is at the end of a run, which its registers come from.
* `Session.Reached`: the session is the result of steps.

## Main results

* `Session.After.step`: a step takes the run further.
* `Session.Reached.exists_after`: every session that can be reached is at the end of a run.
* `closure_identity`: in sessions and along runs, a closure that is made is new, values are passed
  on as they are, an equality compares what its operands have given, and closures are equal exactly
  if they have been made at the same moment.
-/

namespace UnaryLisp

open Occurrence

namespace Session

/-- The session is at the end of a run, and nothing is in its registers that the run has not brought
about. -/
structure After (session : Session) (trace : List Occurrence) : Prop where
  run : Run trace (some session.machine)
  environments : ∀ p ∈ session.environments, p.2.closures ⊆ made trace
  values : ∀ p ∈ session.values, p.2.closures ⊆ made trace

/-- The session is at the end of a run that goes on from `trace`. -/
def Since (session : Session) (trace : List Occurrence) : Prop :=
  ∃ trace', trace <:+ trace' ∧ session.After trace'

/-- The session is the result of a sequence of steps. -/
inductive Reached : Session → Prop
  | new (maxDepth : Option Nat) : Reached (.new maxDepth)
  | step {session after : Session} {room : Nat} {step : Step} {answer : Answer}
      (h : Reached session) (hstep : session.step room step = some (answer, after)) : Reached after

namespace After

variable {session : Session} {trace : List Occurrence}

theorem new (maxDepth : Option Nat) : (Session.new maxDepth).After [] where
  run := .new maxDepth
  environments := by simp [Session.new, Environment.closures]
  values := by simp [Session.new]

/-- What is in the registers is still there when the run has gone on. -/
theorem extend {trace' : List Occurrence} {machine : Machine} (h : session.After trace)
    (hrun : Run trace' (some machine)) (hsuffix : trace <:+ trace') :
    After { session with machine } trace' where
  run := hrun
  environments p hp := List.Subset.trans (h.environments p hp) (made_suffix hsuffix).subset
  values p hp := List.Subset.trans (h.values p hp) (made_suffix hsuffix).subset

theorem keep {v : Value} (h : session.After trace) (store : Option Text)
    (hv : v.closures ⊆ made trace) : (session.keep store v).After trace := by
  cases store with
  | none => exact h
  | some name => exact ⟨h.run, h.environments, List.forall_mem_cons.mpr ⟨hv, h.values⟩⟩

theorem finish {trace' : List Occurrence} {machine : Machine} {r : Outcome}
    (h : session.After trace) (store : Option Text) (hrun : Run trace' (some machine))
    (hsuffix : trace <:+ trace') (hr : r.closures ⊆ made trace') :
    (session.finish store r machine).2.After trace' := by
  have hextend := h.extend hrun hsuffix
  cases r with
  | ok v => exact hextend.keep store hr
  | error err => exact hextend

theorem since (h : session.After trace) : session.Since trace :=
  ⟨trace, List.suffix_rfl, h⟩

theorem withEnvironment (h : session.After trace) {name : Text}
    {next : Environment → Option (Answer × Session)}
    (hnext : ∀ env, env.closures ⊆ made trace → ∀ p ∈ next env, p.2.Since trace) :
    ∀ p ∈ session.withEnvironment name next, p.2.Since trace := by
  rw [Session.withEnvironment]
  cases hlookup : session.environments.lookup name with
  | none => exact fun p hp => Option.some.inj hp ▸ h.since
  | some env =>
    obtain ⟨_, _, heq, -⟩ := List.lookup_eq_some_iff.mp hlookup
    exact hnext env (h.environments (name, env) (by simp [heq]))

theorem withValue (h : session.After trace) {name : Text}
    {next : Value → Option (Answer × Session)}
    (hnext : ∀ v, v.closures ⊆ made trace → ∀ p ∈ next v, p.2.Since trace) :
    ∀ p ∈ session.withValue name next, p.2.Since trace := by
  rw [Session.withValue]
  cases hlookup : session.values.lookup name with
  | none => exact fun p hp => Option.some.inj hp ▸ h.since
  | some v =>
    obtain ⟨_, _, heq, -⟩ := List.lookup_eq_some_iff.mp hlookup
    exact hnext v (h.values (name, v) (by simp [heq]))

theorem withExpr (h : session.After trace) {text : Text}
    {next : Expr → Option (Answer × Session)} (hnext : ∀ e, ∀ p ∈ next e, p.2.Since trace) :
    ∀ p ∈ session.withExpr text next, p.2.Since trace := by
  rw [Session.withExpr]
  cases Expr.parse text with
  | error cause => exact fun p hp => Option.some.inj hp ▸ h.since
  | ok e => exact hnext e

/-- An evaluation takes the run of a session further. -/
theorem eval (h : session.After trace) {env : Environment} (henv : env.closures ⊆ made trace)
    (store : Option Text) {room : Nat} {e : Expr} {r : Outcome} {machine : Machine}
    (heval : e.eval room env session.machine = some (r, machine)) :
    (session.finish store r machine).2.Since trace := by
  have hrun := h.run.eval henv room e
  have hidle := h.run.history_and_at.2 _ rfl
  obtain ⟨-, hover⟩ := hidle.eval henv room e
  rw [Expr.evalTraced_fst, heval] at hrun hover
  have hend := hover r machine rfl
  exact ⟨_, hend.suffix, h.finish store hrun hend.suffix hend.closures_subset⟩

/-- A closure takes the run of a session further. -/
theorem closure (h : session.After trace) {env : Environment} (henv : env.closures ⊆ made trace)
    (store : Option Text) {x : Name} {body : Expr} {r : Outcome} {machine : Machine}
    (hmake : EvalM.closure env x body session.machine = some (r, machine)) :
    (session.finish store r machine).2.Since trace := by
  obtain ⟨rfl, rfl⟩ := Prod.mk.inj (Option.some.inj hmake)
  have hrun := h.run.closure henv x body
  refine ⟨_, List.suffix_cons _ trace, h.finish store hrun (List.suffix_cons _ trace) ?_⟩
  exact hrun.history.closures_subset _ List.mem_cons_self

/-- A step takes the run of a session further. -/
theorem step (h : session.After trace) (room : Nat) (step : Step) :
    ∀ p ∈ session.step room step, p.2.Since trace := by
  cases step with
  | eval text name store =>
    refine h.withEnvironment fun env henv => h.withExpr fun e p hp => ?_
    obtain ⟨⟨r, machine⟩, heval, rfl⟩ := Option.map_eq_some_iff.mp hp
    exact h.eval henv store heval
  | extend name x value store =>
    refine h.withEnvironment fun env henv => h.withValue fun v hv p hp => ?_
    obtain rfl := Option.some.inj hp
    have hbind : (env.bind x v).closures ⊆ made trace :=
      Environment.closures_bind_subset_iff.mpr ⟨hv, henv⟩
    exact since ⟨h.run, List.forall_mem_cons.mpr ⟨hbind, h.environments⟩, h.values⟩
  | lookup name x store =>
    refine h.withEnvironment fun env henv p hp => ?_
    cases hlookup : env.lookup x with
    | none =>
      rw [hlookup] at hp
      exact Option.some.inj hp ▸ h.since
    | some v =>
      rw [hlookup] at hp
      obtain rfl := Option.some.inj hp
      have hv := (Environment.lookup_eq_some_iff.mp hlookup).closures_subset
      exact (h.keep store (List.Subset.trans hv henv)).since
  | environment name =>
    refine h.withEnvironment fun env _ p hp => ?_
    exact Option.some.inj hp ▸ h.since
  | closure x text name store =>
    refine h.withEnvironment fun env henv => h.withExpr fun body p hp => ?_
    obtain ⟨⟨r, machine⟩, hmake, rfl⟩ := Option.map_eq_some_iff.mp hp
    exact h.closure henv store hmake
  | equal left right =>
    refine h.withValue fun v _ => h.withValue fun w _ p hp => ?_
    exact Option.some.inj hp ▸ h.since
  | binary op left right store =>
    refine h.withValue fun v _ => h.withValue fun w _ p hp => ?_
    obtain rfl := Option.some.inj hp
    refine (h.finish store h.run List.suffix_rfl ?_).since
    rw [(op.gives_apply v w).closures_eq_nil]
    exact List.nil_subset _
  | machine => exact fun p hp => Option.some.inj hp ▸ h.since
  | reset maxDepth =>
    intro p hp
    obtain rfl := Option.some.inj hp
    exact since ⟨h.run.reset maxDepth, h.environments, h.values⟩

end After

/-- Every session that can be reached is at the end of a run. -/
theorem Reached.exists_after {session : Session} (h : session.Reached) :
    ∃ trace, session.After trace := by
  induction h with
  | new maxDepth => exact ⟨[], .new maxDepth⟩
  | step _ hstep ih =>
    obtain ⟨trace, hafter⟩ := ih
    obtain ⟨trace', -, hafter'⟩ := hafter.step _ _ _ hstep
    exact ⟨trace', hafter'⟩

end Session

/-- Every session is at the end of a run that its registers come from, and what happens in a run is
what happens in evaluations, up to the outcome of each. Along a run, a procedure gives a closure
that has just been made, and a closure that is made is unequal to everything there is. Everything
follows what comes before it, so that a value is passed on as it is. An equality compares the values
that its operands have given in this very evaluation, and a procedure on its right is unequal to
what is on its left. Hence, at any moment, closures are equal exactly if they have been made at the
same moment, and then they are the same in every part. -/
theorem closure_identity :
    (∀ session : Session, session.Reached → ∃ trace, session.After trace) ∧
    (∀ (room : Nat) (e : Expr) (env : Environment) (machine : Machine) (past : List Occurrence),
      (e.evalTraced room env machine past).1 = e.eval room env machine ∧
      ∀ r after, e.eval room env machine = some (r, after) →
        (∃ limit before, (e.evalTraced room env machine past).2 = .leave limit env e r :: before) ∨
        ∃ limit max, r = .error (.recursionLimit max) ∧
          (e.evalTraced room env machine past).2 = .refuse limit max :: past) ∧
    ∀ trace machine, Run trace machine →
      (∀ limit env x body r past, .leave limit env (.lambda x body) r :: past <:+ trace →
        ∃ before, past = .make (.closure (made before).length env x body) :: before ∧
          r = .ok (.closure (made before).length env x body)) ∧
      (∀ c past, .make c :: past <:+ trace → ∀ v : Value, v.closures ⊆ made past →
        c.same v = false ∧ Operator.eq.apply c v = .ok (.bool false)) ∧
      (∀ o past, o :: past <:+ trace → Follows past o ∧ o.closures ⊆ made (o :: past)) ∧
      (∀ limit env left right u past,
        .leave limit env (.binary .eq left right) (.ok u) :: past <:+ trace →
        ∃ v w, Inside past ⟨env, .binary .eq left right, [.ok w, .ok v]⟩ ∧
          v.closures ⊆ made past ∧ w.closures ⊆ made past ∧ u = .bool (v.same w) ∧
          ∀ x body, right = .lambda x body → u = .bool false) ∧
      (∀ v : Value, v.same v) ∧
      ∀ past, past <:+ trace → ∀ c ∈ made past, ∀ c' ∈ made past,
        (c.same c' ↔ ∃ before, .make c :: before <:+ past ∧ .make c' :: before <:+ past) ∧
        (Operator.eq.apply c c' = .ok (.bool true) ↔ c.same c') ∧
        (c.same c' → c = c') := by
  refine ⟨fun _ h => h.exists_after, fun room e env machine past =>
    ⟨e.evalTraced_fst room env machine past, fun _ _ h => Expr.evalTraced_snd h past⟩,
    fun trace machine h => ?_⟩
  have hhistory := h.history
  refine ⟨fun _ _ _ _ _ _ hleave => hhistory.exists_make_of_leave hleave, ?_, ?_, ?_,
    Value.same_self, ?_⟩
  · intro c past hmake v hv
    have hnew := hhistory.same_eq_false hmake hv
    exact ⟨hnew, by rw [Operator.apply, hnew]⟩
  · exact fun o past ho => ⟨hhistory.follows ho, hhistory.closures_subset_of_suffix ho⟩
  · intro limit env left right u past hleave
    have hpast := hhistory.of_suffix ((List.suffix_cons _ past).trans hleave)
    obtain ⟨v, w, outer, hin, rfl⟩ := hhistory.exists_same_of_leave hleave
    have hknown := (hpast.known _ (hin ▸ List.mem_cons_self)).done
    refine ⟨v, w, .of_underWay hin, hknown (.ok v) (by simp), hknown (.ok w) (by simp), rfl, ?_⟩
    rintro x body rfl
    rw [hpast.same_eq_false_of_lambda hin]
  · intro past hpast c hc c' hc'
    have hpast := hhistory.of_suffix hpast
    refine ⟨hpast.same_iff hc hc', by simp [Operator.apply], fun hsame => ?_⟩
    obtain ⟨before, hmake⟩ := exists_make_of_mem_made hc
    obtain ⟨before', hmake'⟩ := exists_make_of_mem_made hc'
    exact Occurrence.make.inj (List.cons.inj (hpast.eq_of_same hmake hmake' hsame)).1

/-- A procedure in the body of another one is evaluated twice, in environments that do not differ,
and the two closures are compared. Where a procedure is compared with itself, no other answer can
come out. -/
theorem closure_identity_again :
    let maker := Expr.lambda ['u'] (.lambda ['x'] (.var ['x']))
    let once := Expr.call (.var ['m']) (.bool true)
    let e := Expr.letIn ['m'] maker (.binary .eq once once)
    let captured := Environment.empty.bind ['u'] (.bool true)
    let first := Value.closure 1 captured ['x'] (.var ['x'])
    let second := Value.closure 2 captured ['x'] (.var ['x'])
    let start : Machine := ⟨.new none, 0, []⟩
    let identity := Expr.lambda ['x'] (.var ['x'])
    (∀ room u after, (Expr.binary .eq identity identity).eval room .empty start =
      some (.ok u, after) → u = .bool false) ∧
    ∃ trace machine, Run trace (some machine) ∧
      e.eval 4 .empty start = some (.ok (.bool false), machine) ∧
      first ∈ made trace ∧ second ∈ made trace ∧ first.same second = false ∧
      ¬ ∃ before, .make first :: before <:+ trace ∧ .make second :: before <:+ trace := by
  intro maker once e captured first second start identity
  obtain ⟨-, htraced, hruns⟩ := closure_identity
  have henv : Environment.empty.closures ⊆ made [] := List.nil_subset _
  refine ⟨fun room u after heval => ?_, ?_⟩
  · have hrun := (Run.new none).eval henv room (.binary .eq identity identity)
    obtain ⟨-, -, -, heq, -⟩ := hruns _ _ hrun
    rcases (htraced room _ .empty start []).2 _ _ heval with ⟨_, _, htrace⟩ | ⟨_, _, hr, -⟩
    · obtain ⟨_, _, -, -, -, -, hfalse⟩ := heq _ _ _ _ _ _ ⟨[], htrace.symm⟩
      exact hfalse _ _ rfl
    · cases hr
  let trace := (e.evalTraced 4 .empty start []).2
  let env := Environment.empty.bind ['m'] (.closure 0 .empty ['u'] (.lambda ['x'] (.var ['x'])))
  let after : Machine := ⟨.new none, 3, [⟨['u'], .bool true, 3⟩, ⟨['u'], .bool true, 3⟩]⟩
  have heval : e.eval 4 .empty start = some (.ok (.bool false), after) := by decide +kernel
  have hrun : Run trace (some after) := by
    have hrun := (Run.new none).eval henv 4 e
    rw [(htraced 4 e .empty start []).1, heval] at hrun
    exact hrun
  obtain ⟨-, -, -, heq, -, hequal⟩ := hruns trace _ hrun
  have hleave : .leave ⟨2, none⟩ env (.binary .eq once once) (.ok (.bool false)) :: trace.drop 2 <:+
      trace := by decide +kernel
  have hinside : Inside (trace.drop 2) ⟨env, .binary .eq once once, [.ok second, .ok first]⟩ := by
    decide +kernel
  have hmade : first ∈ made trace ∧ second ∈ made trace := by decide +kernel
  obtain ⟨v, w, hin, -, -, hu, -⟩ := heq _ _ _ _ _ _ hleave
  obtain ⟨-, -, hdone⟩ := Frame.mk.inj (Option.some.inj (hin.symm.trans hinside))
  obtain ⟨hw, hv⟩ : w = second ∧ v = first := by simpa using hdone
  have hsame : first.same second = false := by
    rw [← hv, ← hw]
    exact (Value.bool.inj hu).symm
  refine ⟨trace, after, hrun, heval, hmade.1, hmade.2, hsame, fun hbefore => ?_⟩
  have hboth := (hequal trace List.suffix_rfl first hmade.1 second hmade.2).1.mpr hbefore
  rw [hsame] at hboth
  cases hboth

end UnaryLisp
