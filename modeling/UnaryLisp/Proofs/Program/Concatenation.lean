import UnaryLisp.Proofs.Form.Sequence
import UnaryLisp.Proofs.Program.Pool

/-!
# One program behind another

Two programs with a gap between them are one program. It is cut into the expressions of the first
and then those of the second, and a run of it in order does what a run of the first does and then,
if that did not fail, what a run of the second does. The only trace that the first one leaves is the
number from which the second one counts its closures.

## Main definitions

* `Program.countAfter`: the number to count on from behind given evaluations.

## Main results

* `Program.inOrder_append_of_error`, `Program.inOrder_append_of_ok`: expressions behind others are
  evaluated if none of the others fails.
* `Program.inOrder_shift`: expressions are evaluated in order from another number on.
* `Program.returns_append`: two programs with a gap between them run one after the other.
-/

namespace UnaryLisp

namespace Program

variable {room room' first : Nat} {maxDepth : Option Nat} {form : Text} {forms : List Text}
  {evaluation : Evaluation} {evaluations evaluations' : List Evaluation} {failure : Failure}
  {v : Value} {vs : List Value}

/-! ### Results one after the other -/

theorem mapM_result_append (hok : evaluations.mapM Evaluation.result = .ok vs)
    (more : List Evaluation) :
    (evaluations ++ more).mapM Evaluation.result =
      (more.mapM Evaluation.result).map (vs ++ ·) := by
  rw [List.mapM_append, hok]
  cases more.mapM Evaluation.result <;> rfl

/-! ### Evaluation in order -/

theorem inOrder_cons_of_error (heval : evaluate room maxDepth first form = some evaluation)
    (hfail : evaluation.result = .error failure) (forms : List Text) :
    inOrder room maxDepth first (form :: forms) = some [evaluation] := by
  simp only [inOrder, heval, hfail]

theorem inOrder_cons_of_ok (heval : evaluate room maxDepth first form = some evaluation)
    (hok : evaluation.result = .ok v) (forms : List Text) :
    inOrder room maxDepth first (form :: forms) =
      (inOrder room maxDepth evaluation.fresh forms).map (evaluation :: ·) := by
  simp only [inOrder, heval, hok]

theorem inOrder_mono (hle : room ≤ room')
    (h : inOrder room maxDepth first forms = some evaluations) :
    inOrder room' maxDepth first forms = some evaluations := by
  induction forms generalizing first evaluations with
  | nil => exact h
  | cons form forms ih =>
    obtain ⟨evaluation, heval, hcases⟩ := inOrder_cons h
    have heval' := evaluate_mono hle heval
    rcases hcases with ⟨failure, hfail, rfl⟩ | ⟨v, rest, hok, hrest, rfl⟩
    · exact inOrder_cons_of_error heval' hfail forms
    · rw [inOrder_cons_of_ok heval' hok, ih hrest, Option.map_some]

theorem inOrder_unique (h : inOrder room maxDepth first forms = some evaluations)
    (h' : inOrder room' maxDepth first forms = some evaluations') : evaluations = evaluations' := by
  have hmax := inOrder_mono (Nat.le_max_left room room') h
  rw [inOrder_mono (Nat.le_max_right room room') h'] at hmax
  exact (Option.some.inj hmax).symm

/-- The number to count on from behind evaluations that counted from `first`. -/
def countAfter (first : Nat) (evaluations : List Evaluation) : Nat :=
  evaluations.foldl (fun _ evaluation => evaluation.fresh) first

/-- Nothing that follows a failure is evaluated. -/
theorem inOrder_append_of_error (h : inOrder room maxDepth first forms = some evaluations)
    (hfail : evaluations.mapM Evaluation.result = .error failure) (more : List Text) :
    inOrder room maxDepth first (forms ++ more) = some evaluations := by
  induction forms generalizing first evaluations with
  | nil =>
    obtain rfl := Option.some.inj h
    contradiction
  | cons form forms ih =>
    obtain ⟨evaluation, heval, hcases⟩ := inOrder_cons h
    rcases hcases with ⟨failure', hresult, rfl⟩ | ⟨v, rest, hresult, hrest, rfl⟩
    · exact inOrder_cons_of_error heval hresult (forms ++ more)
    · have hrestFail := mapM_result_of_cons_error hresult hfail
      rw [List.cons_append, inOrder_cons_of_ok heval hresult, ih hrest hrestFail, Option.map_some]

/-- Expressions behind others that do not fail are evaluated in the same way, from the number on
that the others have come to. -/
theorem inOrder_append_of_ok (h : inOrder room maxDepth first forms = some evaluations)
    (hok : evaluations.mapM Evaluation.result = .ok vs) (more : List Text) :
    inOrder room maxDepth first (forms ++ more) =
      (inOrder room maxDepth (countAfter first evaluations) more).map (evaluations ++ ·) := by
  induction forms generalizing first evaluations vs with
  | nil =>
    obtain rfl := Option.some.inj h
    simp [countAfter]
  | cons form forms ih =>
    obtain ⟨evaluation, heval, hcases⟩ := inOrder_cons h
    rcases hcases with ⟨failure, hresult, rfl⟩ | ⟨v, rest, hresult, hrest, rfl⟩
    · rw [List.mapM_cons, hresult] at hok
      contradiction
    · obtain ⟨ws, hws⟩ : ∃ ws, rest.mapM Evaluation.result = .ok ws := by
        rw [mapM_result_cons hresult] at hok
        cases hmap : rest.mapM Evaluation.result with
        | error failure =>
          rw [hmap] at hok
          contradiction
        | ok ws => exact ⟨ws, rfl⟩
      rw [List.cons_append, inOrder_cons_of_ok heval hresult, ih hrest hws, Option.map_map]
      rfl

/-- From another number on, expressions are evaluated in order to the same results, up to the shift
of the numbers of their closures. -/
theorem inOrder_shift (h : inOrder room maxDepth first forms = some evaluations) (first' : Nat) :
    ∃ evaluations' count, inOrder room maxDepth first' forms = some evaluations' ∧
      ∀ π : Equiv.Perm Nat, (∀ k < count, π (first + k) = first' + k) →
        evaluations'.mapM Evaluation.result =
          (evaluations.mapM Evaluation.result).map (List.map (Value.rename π)) := by
  induction forms generalizing first first' evaluations with
  | nil =>
    obtain rfl := Option.some.inj h
    exact ⟨[], 0, rfl, fun _ _ => rfl⟩
  | cons form forms ih =>
    obtain ⟨evaluation, heval, hcases⟩ := inOrder_cons h
    obtain ⟨evaluation', count, heval', hfresh, hfresh', hshift⟩ := evaluate_shift heval first'
    rcases hcases with ⟨failure, hfail, rfl⟩ | ⟨v, rest, hok, hrest, rfl⟩
    · have hfail' : evaluation'.result = .error failure := by
        obtain ⟨π, hπ⟩ := exists_perm_shift first first' count
        rw [hshift π hπ, hfail]
        rfl
      refine ⟨[evaluation'], count, inOrder_cons_of_error heval' hfail' forms, fun π _ => ?_⟩
      rw [List.mapM_cons, List.mapM_cons, hfail, hfail']
      rfl
    · obtain ⟨rest', more, hrest', hmore⟩ := ih hrest evaluation'.fresh
      have hok' (π : Equiv.Perm Nat) (hπ : ∀ k < count, π (first + k) = first' + k) :
          evaluation'.result = .ok (v.rename π) := by
        rw [hshift π hπ, hok]
        rfl
      obtain ⟨π₀, hπ₀⟩ := exists_perm_shift first first' count
      refine ⟨evaluation' :: rest', count + more, ?_, fun π hπ => ?_⟩
      · rw [inOrder_cons_of_ok heval' (hok' π₀ hπ₀), hrest', Option.map_some]
      · -- the numbers of the first evaluation come before those of the others
        have hhead (k) (hk : k < count) : π (first + k) = first' + k := hπ k (by omega)
        have htail (k) (hk : k < more) : π (evaluation.fresh + k) = evaluation'.fresh + k := by
          rw [hfresh, hfresh', Nat.add_assoc, Nat.add_assoc]
          exact hπ (count + k) (by omega)
        rw [mapM_result_cons (hok' π hhead), mapM_result_cons hok, hmore π htail]
        cases rest.mapM Evaluation.result <;> rfl

/-! ### Runs -/

section

variable {pool : Pool} {source : Text} {fa fb : List Text} {va : List Value}
  {outcome outcome' : Except Failure (List Value)}

theorem returns_unique (hsplit : splitProgram source = .ok forms)
    (h : Returns pool ⟨false, maxDepth⟩ source outcome)
    (h' : Returns pool ⟨false, maxDepth⟩ source outcome') : outcome = outcome' := by
  obtain ⟨room, evaluations, hrun, rfl⟩ := (returns_inOrder hsplit).mp h
  obtain ⟨room', evaluations', hrun', rfl⟩ := (returns_inOrder hsplit).mp h'
  rw [inOrder_unique hrun hrun']

/-- If the first expressions do not fail, a run returns their values and then the results of the
others, evaluated from the number on that the first ones have come to. -/
theorem returns_of_inOrder_append (hsplit : splitProgram source = .ok (fa ++ fb))
    (ha : inOrder room maxDepth 0 fa = some evaluations)
    (hok : evaluations.mapM Evaluation.result = .ok va) :
    Returns pool ⟨false, maxDepth⟩ source outcome ↔ ∃ room' more,
      inOrder room' maxDepth (countAfter 0 evaluations) fb = some more ∧
        outcome = (more.mapM Evaluation.result).map (va ++ ·) := by
  rw [returns_inOrder hsplit]
  constructor
  · rintro ⟨room', all, hrun, rfl⟩
    have hmax := inOrder_mono (Nat.le_max_right room room') hrun
    rw [inOrder_append_of_ok (inOrder_mono (Nat.le_max_left room room') ha) hok] at hmax
    obtain ⟨more, hmore, rfl⟩ := Option.map_eq_some_iff.mp hmax
    exact ⟨max room room', more, hmore, mapM_result_append hok more⟩
  · rintro ⟨room', more, hmore, rfl⟩
    refine ⟨max room room', evaluations ++ more, ?_, mapM_result_append hok more⟩
    rw [inOrder_append_of_ok (inOrder_mono (Nat.le_max_left room room') ha) hok,
      inOrder_mono (Nat.le_max_right room room') hmore, Option.map_some]

/-- Evaluation from another number on ends exactly if evaluation from zero on does, and one
permutation takes the results of one to those of the other. -/
theorem exists_perm_inOrder (maxDepth : Option Nat) (next : Nat) (forms : List Text) :
    ∃ π : Equiv.Perm Nat, ∀ outcome,
      (∃ room more, inOrder room maxDepth next forms = some more ∧
        more.mapM Evaluation.result = outcome) ↔
      ∃ room evaluations, inOrder room maxDepth 0 forms = some evaluations ∧
        (evaluations.mapM Evaluation.result).map (List.map (Value.rename π)) = outcome := by
  by_cases hends : ∃ room evaluations, inOrder room maxDepth 0 forms = some evaluations
  · obtain ⟨room, evaluations, hrun⟩ := hends
    obtain ⟨more, count, hmore, hshift⟩ := inOrder_shift hrun next
    obtain ⟨π, hπ⟩ := exists_perm_shift 0 next count
    refine ⟨π, fun outcome => ⟨?_, ?_⟩⟩
    · rintro ⟨room', more', hmore', rfl⟩
      obtain rfl := inOrder_unique hmore hmore'
      exact ⟨room, evaluations, hrun, (hshift π hπ).symm⟩
    · rintro ⟨room', evaluations', hrun', rfl⟩
      obtain rfl := inOrder_unique hrun hrun'
      exact ⟨room, more, hmore, hshift π hπ⟩
  · refine ⟨1, fun outcome => ⟨?_, ?_⟩⟩
    · rintro ⟨room, more, hmore, -⟩
      obtain ⟨evaluations, -, hrun, -⟩ := inOrder_shift hmore 0
      exact absurd ⟨room, evaluations, hrun⟩ hends
    · rintro ⟨room, evaluations, hrun, -⟩
      exact absurd ⟨room, evaluations, hrun⟩ hends

end

/-- Behind a program that can be cut and a gap, a text is cut as if it stood alone, and what is at
fault in it is the same. A run in order of both programs fails as the first one does, whatever the
second would do. If the first one returns values, the run of both returns these values followed by
those that the second one returns, the identities of closures aside, or fails as the second one
does, or does not end if the second one does not. -/
theorem returns_append {a gap : Text} {fa : List Text} (ha : splitProgram a = .ok fa)
    (hg : Text.IsGap gap) (hne : gap ≠ []) (b : Text) :
    splitProgram (a ++ gap ++ b) = (splitProgram b).map (fa ++ ·) ∧
    ∀ fb, splitProgram b = .ok fb → ∀ (pool : Pool) (maxDepth : Option Nat),
      (∀ failure, Returns pool ⟨false, maxDepth⟩ a (.error failure) → ∀ outcome,
        Returns pool ⟨false, maxDepth⟩ (a ++ gap ++ b) outcome ↔ outcome = .error failure) ∧
      ∀ va, Returns pool ⟨false, maxDepth⟩ a (.ok va) → ∃ π : Equiv.Perm Nat, ∀ outcome,
        Returns pool ⟨false, maxDepth⟩ (a ++ gap ++ b) outcome ↔
          ∃ result, Returns pool ⟨false, maxDepth⟩ b result ∧
            outcome = result.map fun vb => va ++ vb.map (Value.rename π) := by
  have hboth := splitProgram_append ha hg hne b
  refine ⟨hboth, fun fb hb pool maxDepth => ⟨fun failure hfail outcome => ?_, fun va hva => ?_⟩⟩
  · rw [hb] at hboth
    obtain ⟨room, evaluations, hrun, hresult⟩ := (returns_inOrder ha).mp hfail
    have hreturns : Returns pool ⟨false, maxDepth⟩ (a ++ gap ++ b) (.error failure) :=
      (returns_inOrder hboth).mpr
        ⟨room, evaluations, inOrder_append_of_error hrun hresult fb, hresult⟩
    exact ⟨fun h => returns_unique hboth h hreturns, fun h => h ▸ hreturns⟩
  · rw [hb] at hboth
    obtain ⟨room, evaluations, hrun, hresult⟩ := (returns_inOrder ha).mp hva
    obtain ⟨π, hπ⟩ := exists_perm_inOrder maxDepth (countAfter 0 evaluations) fb
    refine ⟨π, fun outcome => ?_⟩
    rw [returns_of_inOrder_append hboth hrun hresult]
    constructor
    · rintro ⟨room', more, hmore, rfl⟩
      obtain ⟨room'', alone, halone, heq⟩ := (hπ _).mp ⟨room', more, hmore, rfl⟩
      refine ⟨_, (returns_inOrder hb).mpr ⟨room'', alone, halone, rfl⟩, ?_⟩
      rw [← heq]
      cases alone.mapM Evaluation.result <;> rfl
    · rintro ⟨_, hreturns, rfl⟩
      obtain ⟨room'', alone, halone, rfl⟩ := (returns_inOrder hb).mp hreturns
      obtain ⟨room', more, hmore, heq⟩ := (hπ _).mpr ⟨room'', alone, halone, rfl⟩
      refine ⟨room', more, hmore, ?_⟩
      rw [heq]
      cases alone.mapM Evaluation.result <;> rfl

/-- The same procedure is written twice; and an expression that fails stands before one whose
evaluation does not end. -/
theorem returns_append_procedures :
    splitProgram "(lambda (x) x)".toList = .ok ["(lambda (x) x)".toList] ∧
      (∃ π : Equiv.Perm Nat, Returns .unavailable ⟨false, none⟩
        ("(lambda (x) x)".toList ++ ['\n'] ++ "(lambda (x) x)".toList)
        (.ok [.closure 0 .empty ['x'] (.var ['x']), .closure (π 0) .empty ['x'] (.var ['x'])])) ∧
      Returns .unavailable ⟨false, none⟩
        (['y'] ++ ['\n'] ++ "((lambda (x) (x x)) (lambda (x) (x x)))".toList)
        (.error (.undefined (.unboundVariable ['y']))) := by
  have hsplit : splitProgram "(lambda (x) x)".toList = .ok ["(lambda (x) x)".toList] := by
    decide +kernel
  have hread : Layer.read "(lambda (x) x)".toList = .ok (.lambda ['x'] ['x']) := by decide +kernel
  have hbody : Layer.read ['x'] = .ok (.var ['x']) := by decide +kernel
  have heval : evaluate 1 none 0 "(lambda (x) x)".toList =
      some ⟨.ok (.closure 0 .empty ['x'] (.var ['x'])), 1, []⟩ := by
    rw [evaluate, Expr.parse_of_read hread, Layer.assemble, Expr.parse_of_read hbody]
    rfl
  have hreturns : Returns .unavailable ⟨false, none⟩ "(lambda (x) x)".toList
      (.ok [.closure 0 .empty ['x'] (.var ['x'])]) :=
    (returns_inOrder hsplit).mpr ⟨1, _, inOrder_cons_of_ok heval rfl [], rfl⟩
  have hvar : Layer.read ['y'] = .ok (.var ['y']) := by decide +kernel
  have hfail : evaluate 1 none 0 ['y'] =
      some ⟨.error (.undefined (.unboundVariable ['y'])), 0, []⟩ := by
    rw [evaluate, Expr.parse_of_read hvar]
    rfl
  have hname : splitProgram ['y'] = .ok [['y']] := by decide +kernel
  have hloop : splitProgram "((lambda (x) (x x)) (lambda (x) (x x)))".toList =
      .ok ["((lambda (x) (x x)) (lambda (x) (x x)))".toList] := by decide +kernel
  have hgap : Text.IsGap ['\n'] := by decide
  have hne : ['\n'] ≠ [] := List.cons_ne_nil _ _
  refine ⟨hsplit, ?_, ?_⟩
  · obtain ⟨π, hπ⟩ := ((returns_append hsplit hgap hne _).2 _ hsplit
      .unavailable none).2 _ hreturns
    exact ⟨π, (hπ _).mpr ⟨_, hreturns, rfl⟩⟩
  · have hreturns' : Returns .unavailable ⟨false, none⟩ ['y']
        (.error (.undefined (.unboundVariable ['y']))) :=
      (returns_inOrder hname).mpr ⟨1, _, inOrder_cons_of_error hfail rfl [], rfl⟩
    exact (((returns_append hname hgap hne _).2 _ hloop .unavailable none).1 _ hreturns' _).mpr rfl

end Program

end UnaryLisp
