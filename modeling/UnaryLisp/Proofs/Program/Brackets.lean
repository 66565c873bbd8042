import UnaryLisp.Proofs.Expr.Refusal
import UnaryLisp.Proofs.Form.Sequence
import UnaryLisp.Proofs.Program.Pool

/-!
# Brackets at fault in a program

Cutting a program is the only place where a bracket is found that matches nothing. Once it is cut,
neither reading an expression nor cutting anything inside one finds such a bracket, or something
behind the end of a form. So a run reports a bracket at fault exactly if the program cannot be cut,
and the same holds for a single text and the outermost cut of it.

## Main results

* `Program.gives_of_returns`: a failure of a run is that of one of its expressions.
* `Program.brackets_at_outermost_cut`: brackets are at fault at the outermost cut only.
-/

namespace UnaryLisp

namespace Program

variable {pool : Pool} {config : Config} {room first : Nat} {maxDepth : Option Nat}
  {source form : Text} {forms : List Text} {evaluation : Evaluation}

/-! ### Where a failure comes from -/

theorem exists_mem_of_mapM_error {evaluations : List Evaluation} {failure : Failure}
    (h : evaluations.mapM Evaluation.result = .error failure) :
    ∃ evaluation ∈ evaluations, evaluation.result = .error failure := by
  induction evaluations with
  | nil => contradiction
  | cons evaluation evaluations ih =>
    cases hresult : evaluation.result with
    | error failure' =>
      rw [List.mapM_cons, hresult] at h
      obtain rfl : failure' = failure := Except.error.inj h
      exact ⟨evaluation, List.mem_cons_self, hresult⟩
    | ok v =>
      obtain ⟨other, hmem, hother⟩ := ih (mapM_result_of_cons_error hresult h)
      exact ⟨other, List.mem_cons_of_mem _ hmem, hother⟩

theorem exists_evaluate_of_inOrder {evaluations : List Evaluation}
    (h : inOrder room maxDepth first forms = some evaluations) (hmem : evaluation ∈ evaluations) :
    ∃ form ∈ forms, ∃ first', evaluate room maxDepth first' form = some evaluation := by
  induction forms generalizing first evaluations with
  | nil =>
    obtain rfl := Option.some.inj h
    contradiction
  | cons form forms ih =>
    obtain ⟨evaluation', heval, hcases⟩ := inOrder_cons h
    rcases hcases with ⟨_, -, rfl⟩ | ⟨_, rest, -, hrest, rfl⟩
    · obtain rfl := List.mem_singleton.mp hmem
      exact ⟨form, List.mem_cons_self, first, heval⟩
    · rcases List.mem_cons.mp hmem with rfl | hmem
      · exact ⟨form, List.mem_cons_self, first, heval⟩
      · obtain ⟨g, hg, hfound⟩ := ih hrest hmem
        exact ⟨g, List.mem_cons_of_mem form hg, hfound⟩

theorem exists_evaluate_of_inTurn {order : List Nat} {done : List (Nat × Evaluation)} {index : Nat}
    (h : inTurn room maxDepth forms first order = some done) (hmem : (index, evaluation) ∈ done) :
    ∃ form ∈ forms, ∃ first', evaluate room maxDepth first' form = some evaluation := by
  induction order generalizing first done with
  | nil =>
    obtain rfl := Option.some.inj h
    contradiction
  | cons next order ih =>
    rw [inTurn] at h
    cases hform : forms[next]? with
    | none =>
      rw [hform] at h
      exact ih h hmem
    | some form =>
      rw [hform] at h
      dsimp only at h
      split at h
      · contradiction
      · next evaluation' heval =>
        obtain ⟨rest, hrest, rfl⟩ := Option.map_eq_some_iff.mp h
        rcases List.mem_cons.mp hmem with heq | hmem
        · obtain ⟨rfl, rfl⟩ := Prod.mk.inj heq
          exact ⟨form, List.mem_of_getElem? hform, first, heval⟩
        · exact ih hrest hmem

theorem exists_evaluate_of_inParallel {evaluations : List Evaluation}
    (h : inParallel pool room maxDepth forms = some evaluations)
    (hmem : evaluation ∈ evaluations) :
    ∃ form ∈ forms, ∃ first, evaluate room maxDepth first form = some evaluation := by
  cases pool with
  | unavailable => exact exists_evaluate_of_inOrder h hmem
  | scheduled order =>
    obtain ⟨done, hdone, rfl⟩ := Option.map_eq_some_iff.mp h
    obtain ⟨index, -, hlookup⟩ := List.mem_filterMap.mp hmem
    obtain ⟨before, after, heq, -⟩ := List.lookup_eq_some_iff.mp hlookup
    exact exists_evaluate_of_inTurn hdone (heq ▸ List.mem_append_right _ List.mem_cons_self)

/-- A failure of a run, once the program is cut, is that of one of its expressions. -/
theorem gives_of_returns {failure : Failure} (hsplit : splitProgram source = .ok forms)
    (h : Returns pool config source (.error failure)) :
    ∃ form ∈ forms, Gives config.maxDepth form (.error failure) := by
  obtain ⟨parallel, maxDepth⟩ := config
  have hfound : ∃ room evaluation, (∃ form ∈ forms, ∃ first,
      evaluate room maxDepth first form = some evaluation) ∧
        evaluation.result = .error failure := by
    cases parallel with
    | false =>
      obtain ⟨room, evaluations, hrun, hfail⟩ := (returns_inOrder hsplit).mp h
      obtain ⟨evaluation, hmem, hresult⟩ := exists_mem_of_mapM_error hfail
      exact ⟨room, evaluation, exists_evaluate_of_inOrder hrun hmem, hresult⟩
    | true =>
      obtain ⟨room, evaluations, hrun, hfail⟩ := (returns_inParallel hsplit).mp h
      obtain ⟨evaluation, hmem, hresult⟩ := exists_mem_of_mapM_error hfail
      exact ⟨room, evaluation, exists_evaluate_of_inParallel hrun hmem, hresult⟩
  obtain ⟨room, evaluation, ⟨form, hform, first, heval⟩, hresult⟩ := hfound
  exact ⟨form, hform, room, first, evaluation, heval, hresult⟩

theorem parse_of_gives {cause : SyntaxError} (h : Gives maxDepth form (.error (.malformed cause))) :
    Expr.parse form = .error cause := by
  obtain ⟨room, first, evaluation, heval, hresult⟩ := h
  rcases evaluate_eq_some_iff.mp heval with ⟨cause', hparse, rfl⟩ | ⟨e, r, after, -, -, rfl⟩
  · obtain rfl : cause' = cause := Failure.malformed.inj (Except.error.inj hresult)
    exact hparse
  · cases r with
    | error err => exact absurd (Except.error.inj hresult) (by simp)
    | ok v => contradiction

/-- A run that reports an error of reading reports that of the cut or of an expression. -/
theorem exists_parse_of_returns {cause : SyntaxError}
    (h : Returns pool config source (.error (.malformed cause))) :
    splitProgram source = .error cause ∨ ∃ forms, splitProgram source = .ok forms ∧
      ∃ form ∈ forms, Expr.parse form = .error cause := by
  cases hsplit : splitProgram source with
  | error cause' =>
    have heq := (returns_of_error hsplit).mp h
    obtain rfl : cause = cause' := Failure.malformed.inj (Except.error.inj heq)
    exact .inl rfl
  | ok forms =>
    obtain ⟨form, hform, hgives⟩ := gives_of_returns hsplit h
    exact .inr ⟨forms, rfl, form, hform, parse_of_gives hgives⟩

/-! ### Brackets -/

/-- Brackets that a run finds at fault are so when the program is cut. -/
theorem splitProgram_of_returns {cause : SyntaxError}
    (h : Returns pool config source (.error (.malformed cause))) (hb : cause.OfBrackets) :
    splitProgram source = .error cause := by
  refine (exists_parse_of_returns h).resolve_right ?_
  rintro ⟨forms, hsplit, form, hform, hparse⟩
  have hpart := (splitProgram_eq_ok_iff.mp hsplit).2 form hform
  exact (Expr.Reaches.not_ofBrackets hpart .refl).1 cause hparse hb

/-- Once a program is cut, reading one of its expressions comes to no text in which a bracket is at
fault or something follows the end of a form, and neither does cutting such a text and its parts. So
a run never reports something behind the end of a form, and it reports a bracket at fault exactly if
the program cannot be cut. Reading a single text finds a bracket at fault only where cutting it
does. If all blanks of a program separate, a run never reports that there is nothing to read. -/
theorem brackets_at_outermost_cut :
    (∀ source forms, splitProgram source = .ok forms → ∀ form ∈ forms, ∀ t, Expr.Reaches form t →
      (∀ cause, Expr.parse t = .error cause → ¬ cause.OfBrackets) ∧
      ∀ p, Text.Nested t p → ∀ cause, splitForm p = .error cause → ¬ cause.OfBrackets) ∧
    (∀ (pool : Pool) (config : Config) (source : Text),
      (∀ form trailing, ¬ Returns pool config source
        (.error (.malformed (.trailingInput form trailing)))) ∧
      (∀ fragment, Returns pool config source (.error (.malformed (.unbalanced fragment))) ↔
        splitProgram source = .error (.unbalanced fragment)) ∧
      (∀ cause, splitProgram source = .error cause → ∃ fragment, cause = .unbalanced fragment) ∧
      (Text.Tidy source → ¬ Returns pool config source (.error (.malformed .empty)))) ∧
    ∀ text cause, Expr.parse text = .error cause → cause.OfBrackets →
      splitForm text = .error cause := by
  refine ⟨fun source forms hsplit form hform t ht => ?_, fun pool config source => ?_,
    fun text cause => Expr.splitForm_of_parse⟩
  · exact ht.not_ofBrackets ((splitProgram_eq_ok_iff.mp hsplit).2 form hform)
  · refine ⟨fun form trailing h => ?_, fun fragment => ⟨fun h => ?_, fun h => ?_⟩,
      fun cause => exists_unbalanced_of_splitProgram, fun htidy h => ?_⟩
    · obtain ⟨_, hfragment⟩ := exists_unbalanced_of_splitProgram
        (splitProgram_of_returns h trivial)
      contradiction
    · exact splitProgram_of_returns h trivial
    · exact (returns_of_error h).mpr rfl
    · rcases exists_parse_of_returns h with hsplit | ⟨forms, hsplit, form, hform, hparse⟩
      · obtain ⟨_, hfragment⟩ := exists_unbalanced_of_splitProgram hsplit
        contradiction
      · obtain ⟨hspread, hparts⟩ := splitProgram_eq_ok_iff.mp hsplit
        exact Expr.parse_ne_empty (hparts form hform)
          (fun c hc => htidy c ((hspread.isInfix hform).subset hc)) hparse

/-- A form inside an expression of a program is refused; a program and a text have brackets that
match nothing. -/
theorem brackets_at_outermost_cut_nested :
    splitProgram "(+ (x] y) z".toList = .ok ["(+ (x] y)".toList, ['z']] ∧
      Expr.Reaches "(+ (x] y)".toList "(x]".toList ∧
      Expr.parse "(x]".toList = .error (.callArity "(x]".toList) ∧
      ¬ (SyntaxError.callArity "(x]".toList).OfBrackets ∧
      ¬ Returns .unavailable ⟨false, none⟩ "(+ (x] y) z".toList (.error (.malformed .empty)) ∧
      Returns .unavailable ⟨true, none⟩ "x] (y".toList
        (.error (.malformed (.unbalanced "x]".toList))) ∧
      splitForm "(x) y".toList = .error (.trailingInput "(x)".toList ['y']) := by
  obtain ⟨hinside, hrun, houter⟩ := brackets_at_outermost_cut
  have hsplit : splitProgram "(+ (x] y) z".toList = .ok ["(+ (x] y)".toList, ['z']] := by
    decide +kernel
  have hread : Layer.read "(+ (x] y)".toList = .ok (.binary .add "(x]".toList ['y']) := by
    decide +kernel
  have hreach : Expr.Reaches "(+ (x] y)".toList "(x]".toList :=
    .child .refl hread List.mem_cons_self
  have hrefused : Layer.read "(x]".toList = .error (.callArity "(x]".toList) := by decide +kernel
  have hparse : Expr.parse "(x]".toList = .error (.callArity "(x]".toList) := by
    rw [Expr.parse_eq, hrefused]
    rfl
  have htidy : Text.Tidy "(+ (x] y) z".toList := by
    have hall : "(+ (x] y) z".toList.all fun c => !Text.isBlank c || Text.isSeparator c := by
      decide +kernel
    intro c hc hb
    simpa [hb] using List.all_eq_true.mp hall c hc
  have hstray : splitProgram "x] (y".toList = .error (.unbalanced "x]".toList) := by decide +kernel
  have htrailing : Layer.read "(x) y".toList = .error (.trailingInput "(x)".toList ['y']) := by
    decide +kernel
  refine ⟨hsplit, hreach, hparse, ?_, ?_, ?_, ?_⟩
  · exact (hinside _ _ hsplit _ List.mem_cons_self _ hreach).1 _ hparse
  · exact (hrun _ _ _).2.2.2 htidy
  · exact ((hrun _ _ _).2.1 _).mpr hstray
  · refine houter _ _ ?_ trivial
    rw [Expr.parse_eq, htrailing]
    rfl

end Program

end UnaryLisp
