import UnaryLisp.Proofs.Form.Sequence
import UnaryLisp.Proofs.Program.Pool

/-!
# Programs of one expression

A text can be evaluated as an expression by itself, or run as a program. The two ways trim and cut
it differently, but a program of one expression has nothing but blanks around it, so both read the
same expression and fail alike if there is none. A text that is read as an expression is such a
program, unless blanks that do not separate stand at its ends.

## Main definitions

* `Program.Evaluates`: what the evaluation of an expression by itself ends with.

## Main results

* `Expr.parse_of_splitProgram`: the only expression of a program is read as the program is.
* `splitProgram_of_parse`: a text that is read as an expression is a program of one expression.
* `Program.evaluates_iff_returns`: both ways give the same result.
-/

namespace UnaryLisp

open Text

/-! ### Reading the only expression of a program -/

/-- Around the only part of a text there are but blanks. -/
theorem Text.Spread.trim_eq {part t : Text} (h : Spread [part] t) : trim t = trim part := by
  cases h with
  | @cons gap part rest _ hg _ hr =>
    cases hr with
    | nil hrest =>
      exact trim_append_append (Expr.isBlank_of_isGap hg) (Expr.isBlank_of_isGap hrest) part

/-- The only expression of a program is read as the program is. -/
theorem Expr.parse_of_splitProgram {text form : Text} (h : splitProgram text = .ok [form]) :
    parse form = parse text := by
  obtain ⟨hspread, -⟩ := splitProgram_eq_ok_iff.mp h
  rw [← parse_trim form, ← hspread.trim_eq, parse_trim]

theorem Expr.isPart_trim_of_parse {text : Text} {e : Expr} (h : parse text = .ok e) :
    IsPart (trim text) := by
  obtain ⟨hw, hn⟩ := parse_eq_ok_iff.mp h
  exact (parse_of_padded hw hn).1.isPart

/-- What trimming takes off are the blanks at the two ends. -/
theorem Text.exists_ends_append_trim (t : Text) :
    ∃ before after, t = before ++ trim t ++ after ∧ before ⊆ t.takeWhile isBlank ∧
      after ⊆ t.rtakeWhile isBlank := by
  obtain ⟨before, after, hbefore, hafter, ht⟩ := exists_eq_append_trim_append t
  refine ⟨before, after, ht, fun c hc => ?_, fun c hc => ?_⟩
  · rw [ht, List.append_assoc, List.takeWhile_append_of_pos hbefore]
    exact List.mem_append_left _ hc
  · have hrev : ∀ c ∈ after.reverse, isBlank c := fun c hc => hafter c (List.mem_reverse.mp hc)
    rw [ht, List.rtakeWhile, List.reverse_append, List.takeWhile_append_of_pos hrev]
    simp [hc]

/-- A text that is read as an expression, with no other blanks than separators at its ends, is a
program of one expression. -/
theorem splitProgram_of_parse {text : Text} {e : Expr} (h : Expr.parse text = .ok e)
    (hends : ∀ c ∈ text.takeWhile isBlank ++ text.rtakeWhile isBlank, isSeparator c) :
    splitProgram text = .ok [trim text] := by
  obtain ⟨before, after, ht, hbefore, hafter⟩ := exists_ends_append_trim text
  have hgap : IsGap before := fun c hc => hends c (List.mem_append_left _ (hbefore hc))
  have hgap' : IsGap after := fun c hc => hends c (List.mem_append_right _ (hafter hc))
  refine splitProgram_eq_ok_iff.mpr ⟨?_, List.forall_mem_singleton.mpr
    (Expr.isPart_trim_of_parse h)⟩
  have hspread : Spread [trim text] (before ++ trim text ++ after) :=
    .cons hgap (.inr (not_startsPlain_of_isGap hgap')) (.nil hgap')
  rwa [← ht] at hspread

namespace Program

/-! ### Evaluating the only expression of a program -/

/-- The evaluation of the expression by itself ends with the result. -/
def Evaluates (maxDepth : Option Nat) (text : Text) (result : Except Failure Value) : Prop :=
  ∃ room evaluation, evaluate room maxDepth 0 text = some evaluation ∧ evaluation.result = result

theorem evaluate_congr {text form : Text} (h : Expr.parse form = Expr.parse text) (room : Nat)
    (maxDepth : Option Nat) (first : Nat) :
    evaluate room maxDepth first form = evaluate room maxDepth first text := by
  simp only [evaluate, h]

theorem inOrder_singleton (room : Nat) (maxDepth : Option Nat) (first : Nat) (form : Text) :
    inOrder room maxDepth first [form] =
      (evaluate room maxDepth first form).map fun evaluation => [evaluation] := by
  rw [inOrder]
  cases evaluate room maxDepth first form with
  | none => rfl
  | some evaluation => cases hresult : evaluation.result <;> simp [hresult, inOrder]

/-- A complete schedule leaves one expression no choice. -/
theorem inParallel_singleton {pool : Pool} (hpool : pool.Complete) (room : Nat)
    (maxDepth : Option Nat) (form : Text) :
    inParallel pool room maxDepth [form] =
      (evaluate room maxDepth 0 form).map fun evaluation => [evaluation] := by
  cases pool with
  | unavailable => exact inOrder_singleton room maxDepth 0 form
  | scheduled order =>
    have horder : order 1 = [0] := List.perm_singleton.mp (hpool 1)
    simp only [inParallel, List.length_singleton, horder, inTurn, List.getElem?_cons_zero]
    cases evaluate room maxDepth 0 form with
    | none => rfl
    | some evaluation => rfl

/-- A program of one expression returns what the evaluation of its text gives. -/
theorem returns_single {pool : Pool} {config : Config} {text form : Text}
    {outcome : Except Failure (List Value)} (hpool : pool.Complete)
    (h : splitProgram text = .ok [form]) :
    Returns pool config text outcome ↔
      ∃ result, Evaluates config.maxDepth text result ∧ outcome = result.map fun v => [v] := by
  have hone (evaluation : Evaluation) :
      [evaluation].mapM Evaluation.result = evaluation.result.map fun v => [v] := by
    rw [List.mapM_cons, List.mapM_nil]
    cases evaluation.result <;> rfl
  have hrun : Returns pool config text outcome ↔ ∃ room evaluations,
      (evaluate room config.maxDepth 0 form).map (fun evaluation => [evaluation]) =
        some evaluations ∧ evaluations.mapM Evaluation.result = outcome := by
    obtain ⟨_ | _, maxDepth⟩ := config
    · simp only [returns_inOrder h, inOrder_singleton]
    · simp only [returns_inParallel h, inParallel_singleton hpool]
  rw [hrun]
  simp only [evaluate_congr (Expr.parse_of_splitProgram h), Evaluates, Option.map_eq_some_iff]
  constructor
  · rintro ⟨room, _, ⟨evaluation, heval, rfl⟩, rfl⟩
    exact ⟨_, ⟨room, evaluation, heval, rfl⟩, hone evaluation⟩
  · rintro ⟨_, ⟨room, evaluation, heval, rfl⟩, rfl⟩
    exact ⟨room, _, ⟨evaluation, heval, rfl⟩, hone evaluation⟩

/-- A program of one expression and the expression by itself have the same result, in order or in
parallel: the run returns the one value that the evaluation ends with, or both fail with the same
failure, or neither ends. A text that is read as an expression is a program of one expression,
namely of the trimmed text, if the blanks at its ends are separators. -/
theorem evaluates_iff_returns (text : Text) :
    (∀ form, splitProgram text = .ok [form] →
      ∀ (pool : Pool) (config : Config), pool.Complete →
        (∀ result, Evaluates config.maxDepth text result ↔
          Returns pool config text (result.map fun v => [v])) ∧
        ∀ outcome, Returns pool config text outcome →
          ∃ result : Except Failure Value, outcome = result.map fun v => [v]) ∧
    ∀ e, Expr.parse text = .ok e →
      (∀ c ∈ text.takeWhile isBlank ++ text.rtakeWhile isBlank, isSeparator c) →
        splitProgram text = .ok [trim text] := by
  refine ⟨fun form h pool config hpool => ⟨fun result => ?_, fun outcome hout => ?_⟩,
    fun e => splitProgram_of_parse⟩
  · rw [returns_single hpool h]
    constructor
    · exact fun heval => ⟨result, heval, rfl⟩
    · rintro ⟨other, heval, heq⟩
      obtain rfl : result = other := by
        cases result <;> cases other <;> simp_all [Except.map]
      exact heval
  · obtain ⟨result, -, rfl⟩ := (returns_single hpool h).mp hout
    exact ⟨result, rfl⟩

/-- The value of this expression is a procedure, and the run is one in parallel. -/
theorem evaluates_iff_returns_lambda :
    Pool.Complete (.scheduled fun count => (List.range count).reverse) ∧
      Expr.parse "\n[lambda (x) y) ".toList = .ok (.lambda ['x'] (.var ['y'])) ∧
      splitProgram "\n[lambda (x) y) ".toList = .ok ["[lambda (x) y)".toList] ∧
      Returns (.scheduled fun count => (List.range count).reverse) ⟨true, none⟩
        "\n[lambda (x) y) ".toList (.ok [.closure 0 .empty ['x'] (.var ['y'])]) := by
  have hpool : Pool.Complete (.scheduled fun count => (List.range count).reverse) :=
    fun count => List.reverse_perm _
  have hread : Layer.read "\n[lambda (x) y) ".toList = .ok (.lambda ['x'] ['y']) := by
    decide +kernel
  have hbody : Layer.read ['y'] = .ok (.var ['y']) := by decide +kernel
  have hparse : Expr.parse "\n[lambda (x) y) ".toList = .ok (.lambda ['x'] (.var ['y'])) := by
    rw [Expr.parse_of_read hread, Layer.assemble, Expr.parse_of_read hbody]
    rfl
  have hsplit : splitProgram "\n[lambda (x) y) ".toList = .ok ["[lambda (x) y)".toList] :=
    (evaluates_iff_returns _).2 _ hparse (List.all_eq_true.mp (by decide +kernel))
  have heval : Evaluates none "\n[lambda (x) y) ".toList
      (.ok (.closure 0 .empty ['x'] (.var ['y']))) := by
    refine ⟨1, ⟨_, 1, []⟩, ?_, rfl⟩
    rw [evaluate, hparse]
    rfl
  exact ⟨hpool, hparse, hsplit,
    (((evaluates_iff_returns _).1 _ hsplit _ ⟨true, none⟩ hpool).1 _).mp heval⟩

end Program

end UnaryLisp
