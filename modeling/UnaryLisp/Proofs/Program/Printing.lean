import Mathlib.Data.List.Forall2
import UnaryLisp.Proofs.Eval.Naming
import UnaryLisp.Proofs.Eval.Substitution
import UnaryLisp.Proofs.Program.Concatenation
import UnaryLisp.Proofs.Program.Single

/-!
# Results in print

The results of a program are printed between brackets, with a comma and a space between one and the
next. No result has a comma in it: a number shows digits, and a procedure shows the name of its
parameter, which is an identifier since the program was read from a text. So the print can be cut
into the results again. Numbers and truth values are printed as they are written, hence a text with
such results in it is a program, and a run of it returns them.

## Main definitions

* `Text.cutAtCommas`: the pieces of a text between commas that a space follows.
* `Text.Joined`: a text that consists of items with gaps between them.

## Main results

* `Text.cutAtCommas_intercalate`: items without commas are found again.
* `Program.exists_forms_of_returns`: a program has one result for each of its expressions.
* `Program.returns_texts`: a program of printed numbers and truth values returns them.
* `Program.returns_printed`: results in print can be read back.
-/

namespace UnaryLisp

open Text

/-! ### Texts with delimiters -/

namespace Text

/-- The pieces of a text between commas that a space follows. -/
def cutAtCommas : Text → List Text
  | [] => [[]]
  | ',' :: ' ' :: t => [] :: cutAtCommas t
  | c :: t => (cutAtCommas t).modifyHead (c :: ·)

theorem cutAtCommas_cons {c : Char} (hc : c ≠ ',') (t : Text) :
    cutAtCommas (c :: t) = (cutAtCommas t).modifyHead (c :: ·) := by
  rw [cutAtCommas]
  exact fun _ heq _ => hc heq

theorem cutAtCommas_append {item : Text} (h : ',' ∉ item) (t : Text) :
    cutAtCommas (item ++ t) = (cutAtCommas t).modifyHead (item ++ ·) := by
  induction item with
  | nil => exact (congrFun List.modifyHead_id _).symm
  | cons c item ih =>
    rw [List.mem_cons, not_or] at h
    rw [List.cons_append, cutAtCommas_cons (Ne.symm h.1), ih h.2, List.modifyHead_modifyHead]
    rfl

/-- Items without commas are found again. -/
theorem cutAtCommas_intercalate {items : List Text} (hne : items ≠ [])
    (h : ∀ item ∈ items, ',' ∉ item) :
    cutAtCommas (List.intercalate [',', ' '] items) = items := by
  induction items with
  | nil => contradiction
  | cons item items ih =>
    rw [List.forall_mem_cons] at h
    cases items with
    | nil =>
      have hitem := cutAtCommas_append h.1 []
      rw [List.append_nil] at hitem
      rw [List.intercalate_singleton, hitem]
      simp [cutAtCommas]
    | cons next items =>
      rw [List.intercalate_cons_cons, List.append_assoc, cutAtCommas_append h.1]
      have hrest := ih (List.cons_ne_nil _ _) h.2
      simp only [List.cons_append, List.nil_append, cutAtCommas, hrest, List.modifyHead_cons,
        List.append_nil]

/-- The text consists of the items, with a gap between one and the next. -/
inductive Joined : List Text → Text → Prop
  | nil : Joined [] []
  | single (item : Text) : Joined [item] item
  | cons {item next gap t : Text} {items : List Text} (hg : IsGap gap) (hne : gap ≠ [])
      (h : Joined (next :: items) t) : Joined (item :: next :: items) (item ++ gap ++ t)

theorem Spread.gap_append {gap t : Text} {parts : List Text} (hg : IsGap gap)
    (h : Spread parts t) : Spread parts (gap ++ t) := by
  induction gap with
  | nil => exact h
  | cons c gap ih =>
    rw [IsGap, List.forall_mem_cons] at hg
    exact .cons_separator hg.1 (ih hg.2)

theorem Joined.spread {items : List Text} {t : Text} (h : Joined items t) : Spread items t := by
  induction h with
  | nil => exact .nil isGap_nil
  | single item =>
    have hspread : Spread [item] (item ++ []) :=
      .cons_part (.inr not_startsPlain_nil) (.nil isGap_nil)
    rwa [List.append_nil] at hspread
  | @cons item next gap t items hg hne _ ih =>
    rw [List.append_assoc]
    exact .cons_part (.inr (not_startsPlain_gap_append hg hne t)) (ih.gap_append hg)

/-- Words with gaps between them are cut into these words. -/
theorem Joined.splitProgram_eq {items : List Text} {t : Text} (h : Joined items t)
    (hwords : ∀ item ∈ items, IsWord item) : splitProgram t = .ok items :=
  splitProgram_eq_ok_iff.mpr ⟨h.spread, fun item hitem => .inl (hwords item hitem)⟩

end Text

/-! ### Values in print -/

namespace Literal

theorem exists_value_or_closure (v : Value) :
    (∃ c : Literal, v = c.value) ∨ ∃ i env x body, v = .closure i env x body := by
  cases v with
  | number n => exact .inl ⟨number n, rfl⟩
  | bool b => exact .inl ⟨bool b, rfl⟩
  | closure i env x body => exact .inr ⟨i, env, x, body, rfl⟩

theorem exists_value {v : Value} (h : v.kind ≠ .procedure) : ∃ c : Literal, v = c.value := by
  refine (exists_value_or_closure v).resolve_right ?_
  rintro ⟨i, env, x, body, rfl⟩
  exact h rfl

/-- A literal is printed as it is spelled. -/
theorem exists_spelled (c : Literal) : ∃ a : Atom, a.Spelled c.value.text := by
  cases c with
  | number n => exact ⟨_, .number (Decimal.numeral_ofInt n.toInt)⟩
  | bool b => exact ⟨_, .bool b⟩

theorem written (c : Literal) : c.expr.WellNamed ∧ c.expr.Written Eq Eq c.value.text := by
  cases c with
  | number n => exact ⟨trivial, .number (Decimal.numeral_ofInt n.toInt) rfl⟩
  | bool b => exact ⟨trivial, .bool rfl⟩

/-- A literal in print is read as the literal. -/
theorem parse_text (c : Literal) : Expr.parse c.value.text = .ok c.expr := by
  have hparse := Expr.parse_of_written c.written.1 c.written.2 isGap_nil isGap_nil
  rwa [List.nil_append, List.append_nil] at hparse

theorem eval_expr (c : Literal) {maxDepth : Option Nat} (hmax : maxDepth ≠ some 0) (first : Nat) :
    c.expr.eval 1 .empty ⟨.new maxDepth, first, []⟩ =
      some (.ok c.value, ⟨.new maxDepth, first, []⟩) := by
  have hadm : (DepthLimit.new maxDepth).Admits 0 := by
    rintro max rfl
    exact Nat.pos_of_ne_zero fun hzero => hmax (congrArg some hzero)
  rw [Expr.eval_succ]
  refine EvalM.nested_eq_some_iff.mpr (.inr ⟨_, ⟨(DepthLimit.new maxDepth).deeper, first, []⟩,
    DepthLimit.enter_of_admits hadm, ?_, rfl⟩)
  cases c <;> rfl

end Literal

namespace Value

variable {v : Value}

theorem isWord_text (h : v.kind ≠ .procedure) : IsWord v.text := by
  obtain ⟨c, rfl⟩ := Literal.exists_value h
  obtain ⟨a, ha⟩ := c.exists_spelled
  exact ha.isWord

theorem rename_eq_self (h : v.kind ≠ .procedure) (π : Equiv.Perm Nat) : v.rename π = v := by
  cases v with
  | number n => rw [rename]
  | bool b => rw [rename]
  | closure => exact absurd rfl h

theorem text_closure (i : Nat) (env : Environment) (x : Name) (body : Expr) :
    (closure i env x body).text = "#<procedure (".toList ++ x ++ ")>".toList := rfl

theorem text_ne_nil (v : Value) : v.text ≠ [] := by
  rcases Literal.exists_value_or_closure v with ⟨c, rfl⟩ | ⟨i, env, x, body, rfl⟩
  · obtain ⟨a, ha⟩ := c.exists_spelled
    exact ha.ne_nil
  · simp [text_closure]

/-- There is no comma in a value in print. -/
theorem comma_notMem_text (h : v.WellNamed) : ',' ∉ v.text := by
  intro hmem
  rcases Literal.exists_value_or_closure v with ⟨c, rfl⟩ | ⟨i, env, x, body, rfl⟩
  · obtain ⟨a, ha⟩ := c.exists_spelled
    exact absurd (ha.isSpellingChar hmem) (by decide)
  · obtain ⟨hx, -⟩ := wellNamed_closure_iff.mp h
    rw [text_closure, List.mem_append, List.mem_append] at hmem
    rcases hmem with (hmem | hmem) | hmem
    · exact absurd hmem (by decide)
    · exact absurd (hx.letters ',' hmem) (by decide)
    · exact absurd hmem (by decide)

end Value

namespace Program

variable {pool : Pool} {config : Config} {maxDepth : Option Nat} {source form text : Text}
  {forms : List Text} {v : Value} {vs : List Value}

/-! ### One result for each expression -/

theorem forall₂_of_mapM {ι : Type} {f : ι → Except Failure Value} {l : List ι}
    (h : l.mapM f = .ok vs) : List.Forall₂ (fun i v => f i = .ok v) l vs := by
  induction l generalizing vs with
  | nil =>
    obtain rfl := Except.ok.inj h
    exact .nil
  | cons i l ih =>
    rw [List.mapM_cons] at h
    cases hv : f i with
    | error failure =>
      rw [hv] at h
      contradiction
    | ok v =>
      cases hws : l.mapM f with
      | error failure =>
        rw [hv, hws] at h
        contradiction
      | ok ws =>
        rw [hv, hws] at h
        obtain rfl := Except.ok.inj h
        exact .cons hv (ih hws)

theorem gives_of_inOrder {room first : Nat} {evaluations : List Evaluation}
    (h : inOrder room maxDepth first forms = some evaluations)
    (hok : List.Forall₂ (fun evaluation v => evaluation.result = .ok v) evaluations vs) :
    List.Forall₂ (fun form v => Gives maxDepth form (.ok v)) forms vs := by
  induction forms generalizing first evaluations vs with
  | nil =>
    obtain rfl := Option.some.inj h
    cases hok with
    | nil => exact .nil
  | cons form forms ih =>
    obtain ⟨evaluation, heval, hcases⟩ := inOrder_cons h
    rcases hcases with ⟨failure, hfail, rfl⟩ | ⟨_, rest, -, hrest, rfl⟩
    · cases hok with
      | cons hv _ =>
        rw [hfail] at hv
        contradiction
    · cases hok with
      | cons hv hvs => exact .cons ⟨room, first, evaluation, heval, hv⟩ (ih hrest hvs)

theorem gives_of_separate {turn : Fin forms.length → Turn} (h : Separate maxDepth forms turn)
    (hok : Turn.outcome turn = .ok vs) :
    List.Forall₂ (fun form v => Gives maxDepth form (.ok v)) forms vs := by
  have hall := forall₂_of_mapM hok
  rw [← List.map_get_finRange forms, List.forall₂_map_left_iff]
  refine hall.imp fun i v hv => ?_
  obtain ⟨room, heval⟩ := h.evaluated i
  exact ⟨room, (turn i).first, (turn i).evaluation, heval, hv⟩

theorem gives_of_inParallel {room : Nat} {evaluations : List Evaluation} (hpool : pool.Complete)
    (h : inParallel pool room maxDepth forms = some evaluations)
    (hok : evaluations.mapM Evaluation.result = .ok vs) :
    List.Forall₂ (fun form v => Gives maxDepth form (.ok v)) forms vs := by
  cases pool with
  | unavailable => exact gives_of_inOrder h (forall₂_of_mapM hok)
  | scheduled order =>
    obtain ⟨done, hdone, rfl⟩ := Option.map_eq_some_iff.mp h
    obtain ⟨s, hs, hover, rfl⟩ := Pool.exists_over_of_inTurn hdone (hpool forms.length)
    obtain ⟨turn, hturn, houtcome⟩ := hs.sound.exists_separate hover
    exact gives_of_separate hturn (houtcome.symm.trans hok)

/-- A program has one result for each of its expressions. -/
theorem exists_forms_of_returns (hpool : pool.Complete)
    (h : Returns pool config source (.ok vs)) :
    ∃ forms, splitProgram source = .ok forms ∧
      List.Forall₂ (fun form v => Gives config.maxDepth form (.ok v)) forms vs := by
  cases hsplit : splitProgram source with
  | error cause =>
    have heq := (returns_of_error hsplit).mp h
    contradiction
  | ok forms =>
    refine ⟨forms, rfl, ?_⟩
    obtain ⟨_ | _, maxDepth⟩ := config
    · obtain ⟨room, evaluations, hrun, hok⟩ := (returns_inOrder hsplit).mp h
      exact gives_of_inOrder hrun (forall₂_of_mapM hok)
    · obtain ⟨room, evaluations, hrun, hok⟩ := (returns_inParallel hsplit).mp h
      exact gives_of_inParallel hpool hrun hok

theorem exists_gives_of_mem
    (h : List.Forall₂ (fun form v => Gives maxDepth form (.ok v)) forms vs) (hv : v ∈ vs) :
    ∃ form, Gives maxDepth form (.ok v) := by
  induction h with
  | nil => cases hv
  | cons hform _ ih =>
    rcases List.mem_cons.mp hv with rfl | hv
    · exact ⟨_, hform⟩
    · exact ih hv

theorem Gives.exists_ends (h : Gives maxDepth form (.ok v)) :
    ∃ e first, Expr.parse form = .ok e ∧ Expr.Ends maxDepth first e .empty (.ok v) := by
  obtain ⟨room, first, evaluation, heval, hresult⟩ := h
  rcases evaluate_eq_some_iff.mp heval with ⟨cause, -, rfl⟩ | ⟨e, r, after, hparse, hrun, rfl⟩
  · contradiction
  · cases r with
    | error => contradiction
    | ok w =>
      obtain rfl := Except.ok.inj hresult
      exact ⟨e, first, hparse, room, after, hrun⟩

/-- The names in a result are identifiers. -/
theorem Gives.wellNamed (h : Gives maxDepth form (.ok v)) : v.WellNamed := by
  obtain ⟨e, first, hparse, hends⟩ := h.exists_ends
  exact (Expr.parse_eq_ok_iff.mp hparse).2.value Environment.wellNamed_empty hends

/-- Under the ceiling zero nothing has a result. -/
theorem Gives.maxDepth_ne (h : Gives maxDepth form (.ok v)) : maxDepth ≠ some 0 := by
  rintro rfl
  obtain ⟨e, first, -, hends⟩ := h.exists_ends
  have hzero := hends.unique (Expr.ends_zero first e .empty)
  contradiction

/-! ### Results as programs -/

/-- A number or a truth value in print is evaluated to itself. -/
theorem evaluate_text (hv : v.kind ≠ .procedure) (hmax : maxDepth ≠ some 0) (first : Nat) :
    evaluate 1 maxDepth first v.text = some ⟨.ok v, first, []⟩ := by
  obtain ⟨c, rfl⟩ := Literal.exists_value hv
  exact evaluate_eq_some_iff.mpr
    (.inr ⟨c.expr, .ok c.value, _, c.parse_text, c.eval_expr hmax first, rfl⟩)

theorem inOrder_texts (h : ∀ v ∈ vs, v.kind ≠ .procedure ∧ maxDepth ≠ some 0) (first : Nat) :
    inOrder 1 maxDepth first (vs.map Value.text) =
      some (vs.map fun v => ⟨.ok v, first, []⟩) := by
  induction vs with
  | nil => rfl
  | cons v vs ih =>
    rw [List.forall_mem_cons] at h
    rw [List.map_cons, inOrder_cons_of_ok (evaluate_text h.1.1 h.1.2 first) rfl, ih h.2]
    rfl

theorem mapM_result_texts (first : Nat) (vs : List Value) :
    (vs.map fun v => (⟨.ok v, first, []⟩ : Evaluation)).mapM Evaluation.result = .ok vs := by
  induction vs with
  | nil => rfl
  | cons v vs ih =>
    rw [List.map_cons, mapM_result_cons rfl, ih]
    rfl

/-- A program of numbers and truth values in print returns them. -/
theorem returns_texts (hpool : pool.Complete)
    (h : ∀ v ∈ vs, v.kind ≠ .procedure ∧ config.maxDepth ≠ some 0)
    (htext : Joined (vs.map Value.text) text) : Returns pool config text (.ok vs) := by
  have hsplit : splitProgram text = .ok (vs.map Value.text) := by
    refine htext.splitProgram_eq (List.forall_mem_map.mpr fun v hv => ?_)
    exact Value.isWord_text (h v hv).1
  obtain ⟨_ | _, maxDepth⟩ := config
  · exact (returns_inOrder hsplit).mpr ⟨1, _, inOrder_texts h 0, mapM_result_texts 0 vs⟩
  · have hhalts : ∀ form ∈ vs.map Value.text, Halts maxDepth form :=
      List.forall_mem_map.mpr fun v hv => ⟨1, _, evaluate_text (h v hv).1 (h v hv).2 0⟩
    obtain ⟨room, evaluations, hrun⟩ := exists_inParallel hhalts pool
    obtain ⟨outcome, horder, -, hparallel⟩ := exists_outcome hhalts
    obtain rfl := (mapM_result_texts 0 vs).symm.trans (horder 1 _ (inOrder_texts h 0))
    -- there are no identities in which a parallel run could differ
    obtain ⟨π, hresult⟩ := hparallel pool room evaluations hpool hrun
    have hrename : vs.map (Value.rename π) = vs.map id :=
      List.map_congr_left fun v hv => Value.rename_eq_self (h v hv).1 π
    refine (returns_inParallel hsplit).mpr ⟨room, evaluations, hrun, ?_⟩
    rw [hresult, Except.map, hrename, List.map_id]

/-! ### Reading results back -/

theorem cutAtCommas_results (h : ∀ v ∈ vs, v.WellNamed) (hne : vs ≠ []) :
    cutAtCommas (List.intercalate [',', ' '] (vs.map Value.text)) = vs.map Value.text :=
  cutAtCommas_intercalate (mt List.map_eq_nil_iff.mp hne)
    (List.forall_mem_map.mpr fun v hv => Value.comma_notMem_text (h v hv))

theorem results_eq_nil_iff :
    List.intercalate [',', ' '] (vs.map Value.text) = [] ↔ vs = [] := by
  cases vs with
  | nil => simp
  | cons v vs =>
    cases vs with
    | nil => simp [List.intercalate_singleton, v.text_ne_nil]
    | cons w ws => simp [List.intercalate_cons_cons]

/-- The results of a program in print are brackets around a text that is cut into the results at its
commas, and that is empty if there are none. There is one result for each expression. A number or a
truth value in print is evaluated to itself under every ceiling but zero. If all results are such
values, then a text of them with gaps in between is a program that returns them again. -/
theorem returns_printed (hpool : pool.Complete) (h : Returns pool config source (.ok vs)) :
    (∃ body, formatResults vs = '[' :: body ++ [']'] ∧ (body = [] ↔ vs = []) ∧
      (vs ≠ [] → cutAtCommas body = vs.map Value.text)) ∧
    (∃ forms, splitProgram source = .ok forms ∧
      List.Forall₂ (fun form v => Gives config.maxDepth form (.ok v)) forms vs) ∧
    (∀ v ∈ vs, v.kind ≠ .procedure → ∀ maxDepth, maxDepth ≠ some 0 →
      Evaluates maxDepth v.text (.ok v)) ∧
    ((∀ v ∈ vs, v.kind ≠ .procedure) → ∀ text, Joined (vs.map Value.text) text →
      ∀ (pool' : Pool) (config' : Config), pool'.Complete →
        (config'.maxDepth = some 0 → config.maxDepth = some 0) →
          Returns pool' config' text (.ok vs)) := by
  obtain ⟨forms, hsplit, hforms⟩ := exists_forms_of_returns hpool h
  refine ⟨⟨_, rfl, results_eq_nil_iff, cutAtCommas_results fun v hv => ?_⟩,
    ⟨forms, hsplit, hforms⟩, fun v _ hkind maxDepth hmax => ?_, ?_⟩
  · obtain ⟨form, hform⟩ := exists_gives_of_mem hforms hv
    exact hform.wellNamed
  · exact ⟨1, _, evaluate_text hkind hmax 0, rfl⟩
  · intro hkind text htext pool' config' hpool' hmax
    refine returns_texts hpool' (fun v hv => ⟨hkind v hv, fun hzero => ?_⟩) htext
    obtain ⟨form, hform⟩ := exists_gives_of_mem hforms hv
    exact hform.maxDepth_ne (hmax hzero)

/-- The least number, whose absolute value is no number, is printed and read back. -/
theorem returns_printed_least :
    let vs := [Value.number Int64.minValue, .bool false]
    Returns .unavailable ⟨false, some 2⟩ "(- -9223372036854775807 1)#f".toList (.ok vs) ∧
      formatResults vs = "[-9223372036854775808, #f]".toList ∧
      cutAtCommas "-9223372036854775808, #f".toList = vs.map Value.text ∧
      Evaluates (some 1) "-9223372036854775808".toList (.ok (.number Int64.minValue)) ∧
      Pool.Complete (.scheduled fun count => (List.range count).reverse) ∧
      Returns (.scheduled fun count => (List.range count).reverse) ⟨true, some 1⟩
        "-9223372036854775808\n\t#f".toList (.ok vs) := by
  intro vs
  have htext : (Value.number Int64.minValue).text = "-9223372036854775808".toList := by
    change Decimal.ofInt Int64.minValue.toInt = _
    rw [Decimal.ofInt, Decimal.ofNat_eq_toDigits]
    decide +kernel
  have hforms : splitProgram "(- -9223372036854775807 1)#f".toList =
      .ok ["(- -9223372036854775807 1)".toList, "#f".toList] := by decide +kernel
  have hdifference : Expr.parse "(- -9223372036854775807 1)".toList =
      .ok (.binary .sub (.number (-9223372036854775807)) (.number 1)) := by
    have hread : Layer.read "(- -9223372036854775807 1)".toList =
        .ok (.binary .sub "-9223372036854775807".toList ['1']) := by decide +kernel
    have hleft : Layer.read "-9223372036854775807".toList =
        .ok (.number (-9223372036854775807)) := by decide +kernel
    have hright : Layer.read ['1'] = .ok (.number 1) := by decide +kernel
    rw [Expr.parse_of_read hread, Layer.assemble, Expr.parse_of_read hleft,
      Expr.parse_of_read hright]
    rfl
  have hfirst : evaluate 2 (some 2) 0 "(- -9223372036854775807 1)".toList =
      some ⟨.ok (.number Int64.minValue), 0, []⟩ := by
    refine evaluate_eq_some_iff.mpr (.inr ⟨_, _, _, hdifference, rfl, ?_⟩)
    rfl
  have hsecond : evaluate 2 (some 2) 0 "#f".toList = some ⟨.ok (.bool false), 0, []⟩ :=
    evaluate_mono (by decide) (evaluate_text (v := .bool false) (by decide) (by decide) 0)
  have hreturns : Returns .unavailable ⟨false, some 2⟩ "(- -9223372036854775807 1)#f".toList
      (.ok vs) := by
    refine (returns_inOrder hforms).mpr ⟨2, _, ?_, mapM_result_texts 0 vs⟩
    rw [inOrder_cons_of_ok hfirst rfl, inOrder_cons_of_ok hsecond rfl]
    rfl
  have hnone : Pool.Complete .unavailable := trivial
  have hpool : Pool.Complete (.scheduled fun count => (List.range count).reverse) :=
    fun count => List.reverse_perm _
  obtain ⟨⟨body, hbody, -, hcut⟩, -, heval, hagain⟩ := returns_printed hnone hreturns
  have hprint : formatResults vs = "[-9223372036854775808, #f]".toList := by
    rw [formatResults, List.map_cons, htext]
    rfl
  obtain rfl : body = "-9223372036854775808, #f".toList := by
    have hsame : '[' :: body ++ [']'] = '[' :: "-9223372036854775808, #f".toList ++ [']'] :=
      hbody.symm.trans hprint
    exact (List.cons.inj (List.append_cancel_right hsame)).2
  have hjoined : Joined (vs.map Value.text) "-9223372036854775808\n\t#f".toList := by
    have hgap : IsGap "\n\t".toList := by decide
    rw [List.map_cons, htext]
    exact .cons hgap (by decide) (.single "#f".toList)
  refine ⟨hreturns, hprint, hcut (List.cons_ne_nil _ _), ?_, hpool,
    hagain (by decide) _ hjoined _ ⟨true, some 1⟩ hpool (by decide)⟩
  rw [← htext]
  exact heval _ List.mem_cons_self (by decide) _ (by decide)

end Program

end UnaryLisp
