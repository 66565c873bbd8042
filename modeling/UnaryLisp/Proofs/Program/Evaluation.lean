import Mathlib.Data.List.FinRange
import UnaryLisp.Program.Basic
import UnaryLisp.Proofs.Eval.Renumbering

/-!
# The expressions of a program, one by one

The evaluation of one expression of a program depends on nothing that another one leaves behind but
the number from which it counts its closures, and that number shows only in the identities of the
closures it makes. So the expressions can be evaluated with any numbers, as long as no number is
used twice; the results are the same up to a renaming of identities. Evaluating in order up to the
first failure gives the result that all the evaluations together have.

## Main definitions

* `Program.Halts`: the evaluation of an expression ends.
* `Program.Alike`: two results of a program are the same, the identities of closures aside.
* `Program.Turn`, `Program.Separate`: evaluations of all expressions, with numbers of their own.
* `Program.Turn.outcome`: the result that they have together.

## Main results

* `Program.evaluate_shift`: the evaluation of an expression from another number on.
* `Program.Separate.alike`: separate evaluations of the same expressions have the same result.
* `Program.exists_separate`: evaluation in order has the result of separate evaluations.
* `Program.earliest_of_inOrder`: the failure of an evaluation in order is the earliest one.
-/

namespace UnaryLisp

namespace Program

/-! ### One expression -/

section

variable {room room' first first' : Nat} {maxDepth : Option Nat} {form : Text}
  {evaluation evaluation' : Evaluation}

theorem evaluate_eq_some_iff :
    evaluate room maxDepth first form = some evaluation ↔
      (∃ cause, Expr.parse form = .error cause ∧
        evaluation = ⟨.error (.malformed cause), first, []⟩) ∨
      ∃ e r after, Expr.parse form = .ok e ∧
        e.eval room .empty ⟨.new maxDepth, first, []⟩ = some (r, after) ∧
        evaluation = ⟨r.mapError .undefined, after.fresh, after.journal.reverse⟩ := by
  rw [evaluate]
  cases hparse : Expr.parse form with
  | error cause => simp [eq_comm]
  | ok e =>
    cases heval : e.eval room .empty ⟨.new maxDepth, first, []⟩ with
    | none => simp [heval]
    | some out =>
      obtain ⟨_ | _, after⟩ := out <;> simp [heval, eq_comm, Except.mapError]

theorem evaluate_mono (hle : room ≤ room')
    (h : evaluate room maxDepth first form = some evaluation) :
    evaluate room' maxDepth first form = some evaluation := by
  rw [evaluate_eq_some_iff] at h ⊢
  refine h.imp_right ?_
  rintro ⟨e, r, after, hparse, heval, rfl⟩
  exact ⟨e, r, after, hparse, Expr.eval_mono hle heval, rfl⟩

theorem evaluate_unique (h : evaluate room maxDepth first form = some evaluation)
    (h' : evaluate room' maxDepth first form = some evaluation') : evaluation = evaluation' := by
  have hmax := evaluate_mono (Nat.le_max_left room room') h
  rw [evaluate_mono (Nat.le_max_right room room') h'] at hmax
  exact (Option.some.inj hmax).symm

/-- From another number on, an expression is evaluated with as many closures, and to the same result
up to the shift of their numbers. -/
theorem evaluate_shift (h : evaluate room maxDepth first form = some evaluation) (first' : Nat) :
    ∃ evaluation' count, evaluate room maxDepth first' form = some evaluation' ∧
      evaluation.fresh = first + count ∧ evaluation'.fresh = first' + count ∧
      ∀ π : Equiv.Perm Nat, (∀ k < count, π (first + k) = first' + k) →
        evaluation'.result = evaluation.result.map (Value.rename π) := by
  rcases evaluate_eq_some_iff.mp h with ⟨cause, hparse, rfl⟩ | ⟨e, r, after, hparse, heval, rfl⟩
  · exact ⟨_, 0, evaluate_eq_some_iff.mpr (.inl ⟨cause, hparse, rfl⟩), rfl, rfl, fun _ _ => rfl⟩
  · have hm : (Link.shift first first').Aligned ⟨.new maxDepth, first, []⟩
        ⟨.new maxDepth, first', []⟩ := ⟨rfl, fun k => ⟨k, rfl, rfl⟩⟩
    obtain ⟨r', after', heval', hr, -, count, hfresh, hfresh'⟩ :=
      ((Comparison.isSimulation_renumbered _).lockstep room ⟨.empty, rfl⟩).exists_of_left hm heval
    refine ⟨_, count, evaluate_eq_some_iff.mpr (.inr ⟨e, r', after', hparse, heval', rfl⟩),
      hfresh, hfresh', fun π hπ => ?_⟩
    cases hr with
    | error => rfl
    | @ok v w hvw =>
      -- all identities in the value are among those that were counted
      have hlt := Expr.identities_lt_of_eval heval (by simp [Environment.identities])
      refine congrArg Except.ok (hvw.eq_rename ?_)
      rintro i hi _ ⟨k, rfl, rfl⟩
      have hk : first + k < first + count := hfresh ▸ hlt _ hi
      exact hπ k (Nat.lt_of_add_lt_add_left hk)

end

/-- The evaluation of the expression ends. -/
def Halts (maxDepth : Option Nat) (form : Text) : Prop :=
  ∃ room evaluation, evaluate room maxDepth 0 form = some evaluation

/-- Under a ceiling every evaluation ends. -/
theorem halts_some (max : Nat) (form : Text) : Halts (some max) form := by
  cases hparse : Expr.parse form with
  | error cause => exact ⟨0, _, evaluate_eq_some_iff.mpr (.inl ⟨cause, hparse, rfl⟩)⟩
  | ok e =>
    obtain ⟨r, room, after, heval⟩ := Expr.exists_ends_some 0 e .empty max
    exact ⟨room, _, evaluate_eq_some_iff.mpr (.inr ⟨e, r, after, hparse, heval, rfl⟩)⟩

/-- There is enough room for all of finitely many evaluations that end. -/
theorem exists_room {maxDepth : Option Nat} {forms : List Text}
    (h : ∀ form ∈ forms, Halts maxDepth form) :
    ∃ room, ∀ form ∈ forms, ∀ first, ∃ evaluation,
      evaluate room maxDepth first form = some evaluation := by
  induction forms with
  | nil => exact ⟨0, by simp⟩
  | cons form forms ih =>
    rw [List.forall_mem_cons] at h
    obtain ⟨room, evaluation, heval⟩ := h.1
    obtain ⟨room', hroom'⟩ := ih h.2
    refine ⟨max room room', List.forall_mem_cons.mpr ⟨fun first => ?_, fun g hg first => ?_⟩⟩
    · obtain ⟨evaluation', _, heval', -⟩ := evaluate_shift heval first
      exact ⟨evaluation', evaluate_mono (Nat.le_max_left _ _) heval'⟩
    · obtain ⟨evaluation', heval'⟩ := hroom' g hg first
      exact ⟨evaluation', evaluate_mono (Nat.le_max_right _ _) heval'⟩

/-! ### Results -/

/-- The results are the same list of values, the identities of closures aside, or the same
failure. -/
def Alike (outcome outcome' : Except Failure (List Value)) : Prop :=
  ∃ π : Equiv.Perm Nat, outcome' = outcome.map (List.map (Value.rename π))

theorem alike_error (failure : Failure) : Alike (.error failure) (.error failure) :=
  ⟨1, rfl⟩

theorem mapM_map_result {ι : Type} {f f' : ι → Except Failure Value} {g : Value → Value}
    (l : List ι) (h : ∀ i ∈ l, f' i = (f i).map g) :
    l.mapM f' = (l.mapM f).map (List.map g) := by
  induction l with
  | nil => rfl
  | cons i l ih =>
    rw [List.forall_mem_cons] at h
    rw [List.mapM_cons, List.mapM_cons, h.1, ih h.2]
    cases f i with
    | error failure => rfl
    | ok v =>
      cases l.mapM f with
      | error failure => rfl
      | ok vs => rfl

theorem mapM_result_cons {evaluation : Evaluation} {v : Value} (hok : evaluation.result = .ok v)
    (evaluations : List Evaluation) :
    (evaluation :: evaluations).mapM Evaluation.result =
      (evaluations.mapM Evaluation.result).map (v :: ·) := by
  rw [List.mapM_cons, hok]
  cases evaluations.mapM Evaluation.result <;> rfl

/-- A failure that is not that of the first evaluation is that of the others. -/
theorem mapM_result_of_cons_error {evaluation : Evaluation} {evaluations : List Evaluation}
    {v : Value} {failure : Failure} (hok : evaluation.result = .ok v)
    (h : (evaluation :: evaluations).mapM Evaluation.result = .error failure) :
    evaluations.mapM Evaluation.result = .error failure := by
  rw [mapM_result_cons hok] at h
  cases hmap : evaluations.mapM Evaluation.result with
  | error failure' =>
    rw [hmap] at h
    exact h
  | ok vs =>
    rw [hmap] at h
    contradiction

/-! ### All expressions -/

/-- An evaluation with closures that are numbered from `first` on. -/
structure Turn where
  first : Nat
  evaluation : Evaluation

namespace Turn

/-- It is the evaluation of the expression. -/
def Of (maxDepth : Option Nat) (form : Text) (turn : Turn) : Prop :=
  ∃ room, evaluate room maxDepth turn.first form = some turn.evaluation

/-- No number is used by both evaluations. -/
def Apart (turn turn' : Turn) : Prop :=
  ∀ k, turn.first ≤ k → k < turn.evaluation.fresh →
    ¬ (turn'.first ≤ k ∧ k < turn'.evaluation.fresh)

theorem Apart.symm {turn turn' : Turn} (h : turn.Apart turn') : turn'.Apart turn :=
  fun k hle hlt hk => h k hk.1 hk.2 ⟨hle, hlt⟩

theorem apart_of_le {turn turn' : Turn} (h : turn.evaluation.fresh ≤ turn'.first) :
    turn.Apart turn' :=
  fun _ _ hlt hk => absurd (Nat.lt_of_lt_of_le hlt h) (Nat.not_lt.mpr hk.1)

/-- The result of evaluations together: the values, or the earliest failure. -/
def outcome {count : Nat} (turn : Fin count → Turn) : Except Failure (List Value) :=
  (List.finRange count).mapM fun i => (turn i).evaluation.result

theorem outcome_cons {count : Nat} (t : Turn) (turn : Fin count → Turn) :
    outcome (Fin.cons t turn) = (do
      let v ← t.evaluation.result
      let vs ← outcome turn
      pure (v :: vs)) := by
  rw [outcome, List.finRange_succ, List.mapM_cons, List.mapM_map]
  rfl

theorem Of.shift {maxDepth : Option Nat} {form : Text} {turn turn' : Turn}
    (h : turn.Of maxDepth form) (h' : turn'.Of maxDepth form) :
    ∃ count, turn.evaluation.fresh = turn.first + count ∧
      turn'.evaluation.fresh = turn'.first + count ∧
      ∀ π : Equiv.Perm Nat, (∀ k < count, π (turn.first + k) = turn'.first + k) →
        turn'.evaluation.result = turn.evaluation.result.map (Value.rename π) := by
  obtain ⟨room, heval⟩ := h
  obtain ⟨room', heval'⟩ := h'
  obtain ⟨evaluation, count, hshift, hfresh, hfresh', hresult⟩ := evaluate_shift heval turn'.first
  obtain rfl := evaluate_unique hshift heval'
  exact ⟨count, hfresh, hfresh', hresult⟩

end Turn

/-- These are evaluations of the expressions, no two of which use the same number. -/
structure Separate (maxDepth : Option Nat) (forms : List Text) (turn : Fin forms.length → Turn) :
    Prop where
  evaluated : ∀ i, (turn i).Of maxDepth (forms.get i)
  apart : ∀ i j, i ≠ j → (turn i).Apart (turn j)

/-- Separate evaluations of the same expressions have the same result. -/
theorem Separate.alike {maxDepth : Option Nat} {forms : List Text}
    {turn turn' : Fin forms.length → Turn} (h : Separate maxDepth forms turn)
    (h' : Separate maxDepth forms turn') : Alike (Turn.outcome turn) (Turn.outcome turn') := by
  choose count hfresh hfresh' hresult using fun i => (h.evaluated i).shift (h'.evaluated i)
  -- one permutation takes the numbers of every evaluation to those of its counterpart
  obtain ⟨π, hπ⟩ := exists_perm_of_pairs
    ((List.finRange forms.length).flatMap fun i => (List.range (count i)).map fun k =>
      ((turn i).first + k, (turn' i).first + k)) (by
    simp only [List.mem_flatMap, List.mem_finRange, true_and, List.mem_map, List.mem_range]
    rintro _ ⟨i, k, hk, rfl⟩ _ ⟨j, l, hl, rfl⟩
    by_cases hij : i = j
    · subst hij
      simp only [Nat.add_left_cancel_iff]
    · have hi := hfresh i
      have hj := hfresh j
      have hi' := hfresh' i
      have hj' := hfresh' j
      have hapart := h.apart i j hij ((turn i).first + k) (by omega) (by omega)
      have hapart' := h'.apart i j hij ((turn' i).first + k) (by omega) (by omega)
      dsimp only
      constructor <;> intro heq <;> omega)
  refine ⟨π, mapM_map_result _ fun i _ => hresult i π fun k hk => ?_⟩
  exact hπ ((turn i).first + k, (turn' i).first + k) (List.mem_flatMap.mpr
    ⟨i, List.mem_finRange i, List.mem_map.mpr ⟨k, List.mem_range.mpr hk, rfl⟩⟩)

/-! ### Evaluation in order -/

theorem inOrder_cons {room : Nat} {maxDepth : Option Nat} {first : Nat} {form : Text}
    {forms : List Text} {evaluations : List Evaluation}
    (h : inOrder room maxDepth first (form :: forms) = some evaluations) :
    ∃ evaluation, evaluate room maxDepth first form = some evaluation ∧
      ((∃ failure, evaluation.result = .error failure ∧ evaluations = [evaluation]) ∨
        ∃ v rest, evaluation.result = .ok v ∧
          inOrder room maxDepth evaluation.fresh forms = some rest ∧
          evaluations = evaluation :: rest) := by
  rw [inOrder] at h
  split at h
  · contradiction
  · next evaluation heval =>
    refine ⟨evaluation, heval, ?_⟩
    split at h
    · next failure hresult => exact .inl ⟨failure, hresult, (Option.some.inj h).symm⟩
    · next v hresult =>
      obtain ⟨rest, hrest, rfl⟩ := Option.map_eq_some_iff.mp h
      exact .inr ⟨v, rest, hresult, hrest, rfl⟩

theorem exists_inOrder {room : Nat} {maxDepth : Option Nat} {forms : List Text}
    (h : ∀ form ∈ forms, ∀ first, ∃ evaluation,
      evaluate room maxDepth first form = some evaluation) (first : Nat) :
    ∃ evaluations, inOrder room maxDepth first forms = some evaluations := by
  induction forms generalizing first with
  | nil => exact ⟨[], rfl⟩
  | cons form forms ih =>
    rw [List.forall_mem_cons] at h
    obtain ⟨evaluation, heval⟩ := h.1 first
    obtain ⟨rest, hrest⟩ := ih h.2 evaluation.fresh
    rw [inOrder, heval]
    cases hresult : evaluation.result with
    | error failure => exact ⟨[evaluation], by simp only [hresult]⟩
    | ok v => exact ⟨evaluation :: rest, by simp only [hresult, hrest, Option.map_some]⟩

/-- Evaluation in order has the result of separate evaluations of all expressions, those after a
failure among them. -/
theorem exists_separate {maxDepth : Option Nat} {forms : List Text}
    (h : ∀ form ∈ forms, Halts maxDepth form) (first : Nat) :
    ∃ turn : Fin forms.length → Turn, Separate maxDepth forms turn ∧
      (∀ i, first ≤ (turn i).first) ∧ ∀ room evaluations,
        inOrder room maxDepth first forms = some evaluations →
          evaluations.mapM Evaluation.result = Turn.outcome turn := by
  induction forms generalizing first with
  | nil =>
    refine ⟨Fin.elim0, ⟨fun i => i.elim0, fun i => i.elim0⟩, fun i => i.elim0, ?_⟩
    intro room evaluations hrun
    obtain rfl := Option.some.inj hrun
    rfl
  | cons form forms ih =>
    rw [List.forall_mem_cons] at h
    obtain ⟨room₀, evaluation₀, heval₀⟩ := h.1
    obtain ⟨evaluation, count, heval, -, hfresh, -⟩ := evaluate_shift heval₀ first
    obtain ⟨turn, hturn, hlater, hresult⟩ := ih h.2 evaluation.fresh
    -- the later evaluations count on from where the first one ends
    have hapart (i : Fin forms.length) : Turn.Apart ⟨first, evaluation⟩ (turn i) :=
      Turn.apart_of_le (hlater i)
    refine ⟨Fin.cons ⟨first, evaluation⟩ turn, ⟨?_, ?_⟩, ?_, ?_⟩
    · exact Fin.cases ⟨room₀, heval⟩ hturn.evaluated
    · refine Fin.cases (Fin.cases (fun hne => absurd rfl hne) fun j _ => hapart j) fun i =>
        Fin.cases (fun _ => (hapart i).symm) fun j hne => hturn.apart i j ?_
      exact fun hij => hne (congrArg Fin.succ hij)
    · refine Fin.cases le_rfl fun i => ?_
      have := hlater i
      simp only [Fin.cons_succ]
      omega
    · intro room evaluations hrun
      obtain ⟨evaluation', heval', hcases⟩ := inOrder_cons hrun
      obtain rfl := evaluate_unique heval heval'
      rw [Turn.outcome_cons]
      rcases hcases with ⟨failure, hfail, rfl⟩ | ⟨v, rest, hok, hrest, rfl⟩
      · rw [List.mapM_cons, hfail]
        rfl
      · rw [List.mapM_cons, hok, hresult room rest hrest]

/-- The evaluation of the expression has the result, with closures numbered from some number on. -/
def Gives (maxDepth : Option Nat) (form : Text) (result : Except Failure Value) : Prop :=
  ∃ room first evaluation, evaluate room maxDepth first form = some evaluation ∧
    evaluation.result = result

/-- The failure of an evaluation in order is that of the earliest expression that fails. -/
theorem earliest_of_inOrder {room : Nat} {maxDepth : Option Nat} {forms : List Text}
    {first : Nat} {evaluations : List Evaluation} {failure : Failure}
    (h : inOrder room maxDepth first forms = some evaluations)
    (hfail : evaluations.mapM Evaluation.result = .error failure) :
    ∃ before form after, forms = before ++ form :: after ∧ Gives maxDepth form (.error failure) ∧
      ∀ earlier ∈ before, ∃ v, Gives maxDepth earlier (.ok v) := by
  induction forms generalizing first evaluations with
  | nil =>
    obtain rfl := Option.some.inj h
    contradiction
  | cons form forms ih =>
    obtain ⟨evaluation, heval, hcases⟩ := inOrder_cons h
    rcases hcases with ⟨failure', hresult, rfl⟩ | ⟨v, rest, hresult, hrest, rfl⟩
    · rw [List.mapM_cons, hresult] at hfail
      obtain rfl : failure' = failure := Except.error.inj hfail
      exact ⟨[], form, forms, rfl, ⟨room, first, evaluation, heval, hresult⟩, by simp⟩
    · obtain ⟨before, g, after, rfl, hg, hbefore⟩ :=
        ih hrest (mapM_result_of_cons_error hresult hfail)
      refine ⟨form :: before, g, after, rfl, hg, List.forall_mem_cons.mpr ⟨?_, hbefore⟩⟩
      exact ⟨v, room, first, evaluation, heval, hresult⟩

end Program

end UnaryLisp
