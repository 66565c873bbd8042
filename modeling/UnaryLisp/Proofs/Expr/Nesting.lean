import Mathlib.Order.MinMax
import UnaryLisp.Proofs.Expr.Refusal
import UnaryLisp.Proofs.Form.Depth

/-!
# Reading stays within the nesting of brackets

Reading an expression goes on with texts that stand between the outermost brackets: parts of the
form, or the inner part of a binding, which is cut once or twice more. The brackets of the form
match, so such a text is shorter than the form and its brackets are nested less deep. Hence reading
ends, and it is never nested deeper than the brackets of the text, one level more for the words
between the innermost ones. The expression that is read is not higher than that.

## Main definitions

* `Text.nesting`: how deep the brackets of a text are nested.
* `Expr.ReachesAt`: the texts that reading a text comes to on a level of nested calls.
* `Expr.parseUpTo`: reading with a fixed number of levels.
* `Expr.treeHeight`: the height of an expression.

## Main results

* `Text.depth_le_nesting`, `Text.exists_depth_eq_nesting`: the nesting of a text is the greatest
  depth of its prefixes.
* `Layer.nesting_lt_of_mem_children_read`: a subexpression is nested less deep than the form.
* `Expr.parseUpTo_eq_parse`: reading needs no more levels than brackets are nested, and one.
* `Expr.parse_within_nesting`: the levels of reading and the height of what is read.
-/

namespace UnaryLisp

open Text

/-! ### Nesting of brackets -/

namespace Text

/-- How deep the brackets of a text are nested: the greatest depth behind any of its characters, and
at least zero. -/
def nesting : Text → Nat
  | [] => 0
  | c :: t => (depth [c] + nesting t).toNat

variable {t q : Text}

/-- No prefix of a text is deeper than its brackets are nested. -/
theorem depth_le_nesting (h : q <+: t) : depth q ≤ nesting t := by
  induction t generalizing q with
  | nil =>
    obtain rfl := List.prefix_nil.mp h
    exact le_rfl
  | cons c t ih =>
    rw [nesting]
    rcases List.prefix_cons_iff.mp h with rfl | ⟨r, rfl, hr⟩
    · exact Int.natCast_nonneg _
    · have := ih hr
      rw [depth_cons]
      omega

/-- Some prefix of a text is as deep as its brackets are nested. -/
theorem exists_depth_eq_nesting (t : Text) : ∃ q, q <+: t ∧ depth q = nesting t := by
  induction t with
  | nil => exact ⟨[], List.prefix_rfl, rfl⟩
  | cons c t ih =>
    obtain ⟨q, hq, hdepth⟩ := ih
    rw [nesting]
    by_cases hneg : depth [c] + nesting t ≤ 0
    · exact ⟨[], List.nil_prefix, by rw [depth_nil]; omega⟩
    · refine ⟨c :: q, List.cons_prefix_cons.mpr ⟨rfl, hq⟩, ?_⟩
      rw [depth_cons, hdepth]
      omega

/-- What stands between brackets that match is nested less deep than the whole. -/
theorem nesting_lt_of_isInfix {o : Char} {body child rest : Text} (ho : isOpener o)
    (hb : Balanced body) (h : child <:+: body) : nesting child < nesting (o :: (body ++ rest)) := by
  obtain ⟨pre, post, rfl⟩ := h
  obtain ⟨q, ⟨r, rfl⟩, hq⟩ := exists_depth_eq_nesting child
  have hpre : 0 ≤ 0 + depth pre := hb.closesWithin le_rfl pre
    ⟨q ++ r ++ post, by simp⟩
  have hle : depth (o :: (pre ++ q)) ≤ nesting (o :: (pre ++ (q ++ r) ++ post ++ rest)) :=
    depth_le_nesting ⟨r ++ post ++ rest, by simp⟩
  rw [depth_cons, depth_append, depth_opener ho, hq] at hle
  omega

/-- Blanks around a text do not nest. -/
theorem nesting_trim_le (text : Text) : nesting (trim text) ≤ nesting text := by
  obtain ⟨pre, post, hpre, -, htext⟩ := exists_eq_append_trim_append text
  obtain ⟨q, ⟨r, hr⟩, hq⟩ := exists_depth_eq_nesting (trim text)
  have hplain (c) (hc : c ∈ pre) : isOpener c = false ∧ isCloser c = false := by
    have hblank := hpre c hc
    refine ⟨by_contra fun ho => ?_, by_contra fun ho => ?_⟩
    · simp [isBlank_of_isOpener (by simpa using ho)] at hblank
    · simp [isBlank_of_isCloser (by simpa using ho)] at hblank
  have hle : depth (pre ++ q) ≤ nesting text := by
    refine depth_le_nesting ⟨r ++ post, ?_⟩
    rw [htext, ← hr]
    simp
  rw [depth_append, (balanced_of_forall hplain).depth_eq, hq] at hle
  omega

end Text

/-! ### Subexpressions -/

namespace Layer

/-- A subexpression stands between the outermost brackets. -/
theorem Written.exists_inside {head atom : Text → Text → Prop} {layer : Layer Text}
    {t child : Text} (h : layer.Written head atom t) (hc : child ∈ layer.children) :
    ∃ o body c, isOpener o ∧ t = o :: (body ++ [c]) ∧ child <:+: body := by
  have henclosed {o : Char} {parts : List Text} {p : Text} (ho : isOpener o)
      (ht : Enclosed o parts t) (hp : p ∈ parts) (hchild : child <:+: p) :
      ∃ o body c, isOpener o ∧ t = o :: (body ++ [c]) ∧ child <:+: body := by
    obtain @⟨body, c, hb, -⟩ := ht
    exact ⟨o, body, c, ho, rfl, hchild.trans (hb.isInfix hp)⟩
  cases h with
  | number | bool | var => contradiction
  | binary _ ho ht => exact henclosed ho ht (List.mem_cons_of_mem _ hc) List.infix_rfl
  | cond _ ho ht => exact henclosed ho ht (List.mem_cons_of_mem _ hc) List.infix_rfl
  | @letIn x w y init binding body t o _ _ hb ho ht =>
    simp only [children, List.mem_cons, List.not_mem_nil, or_false] at hc
    rcases hc with rfl | rfl
    · exact henclosed ho ht (by simp) hb.isInfix
    · exact henclosed ho ht (by simp) List.infix_rfl
  | lambda _ _ _ ho ht =>
    obtain rfl := List.mem_singleton.mp hc
    exact henclosed ho ht (by simp) List.infix_rfl
  | call ho ht => exact henclosed ho ht hc List.infix_rfl

/-- A bracketed text that is read is a group. -/
theorem isGroup_of_read {text : Text} {layer : Layer Text} (h : read text = .ok layer)
    (ho : opens (trim text)) : IsGroup (trim text) := by
  cases htrim : trim text with
  | nil =>
    rw [htrim] at ho
    contradiction
  | cons o t =>
    rw [read, htrim] at h
    rw [htrim, opens_cons] at ho
    cases hs : splitForm (o :: t) with
    | error e => simp [readForm, ho, hs] at h
    | ok parts =>
      have hbare : trim (o :: t) = o :: t := by rw [← htrim, trim_trim]
      obtain ⟨henc, hparts⟩ := enclosed_of_splitForm ho (by rw [hbare]; rfl) hs
      rw [hbare] at henc
      exact isGroup_of_enclosed ho henc hparts

/-- The brackets of a subexpression are nested less deep than those of the form. -/
theorem nesting_lt_of_mem_children_read {text child : Text} {layer : Layer Text}
    (h : read text = .ok layer) (hc : child ∈ layer.children) :
    nesting child < nesting (trim text) := by
  obtain ⟨o, body, c, ho, ht, hinside⟩ := (understood_of_read h).written.exists_inside hc
  have hgroup : IsGroup (trim text) := isGroup_of_read h (by rw [ht]; exact ho)
  generalize trim text = t at ht hgroup
  obtain @⟨o', c', inside, -, hbalanced, -⟩ := hgroup
  obtain ⟨rfl, hrest⟩ := List.cons.inj ht
  obtain ⟨rfl, -⟩ := List.append_inj' hrest rfl
  exact nesting_lt_of_isInfix ho hbalanced hinside

/-- What is made of a construct depends only on what its subexpressions are read as. -/
theorem assemble_congr {parse parse' : Text → Except SyntaxError Expr} {layer : Layer Text}
    (h : ∀ child ∈ layer.children, parse child = parse' child) :
    layer.assemble parse = layer.assemble parse' := by
  cases layer with
  | number | bool | var => rfl
  | binary op left right =>
    simp only [assemble, h left (by simp [children]), h right (by simp [children])]
  | cond test yes no =>
    simp only [assemble, h test (by simp [children]), h yes (by simp [children]),
      h no (by simp [children])]
  | letIn name init body =>
    simp only [assemble, h init (by simp [children]), h body (by simp [children])]
  | lambda param body => simp only [assemble, h body (by simp [children])]
  | call callee arg =>
    simp only [assemble, h callee (by simp [children]), h arg (by simp [children])]

end Layer

/-! ### Levels of reading -/

namespace Expr

/-- Reading the text comes to the other one on a level of nested calls. The text itself is on the
first level. -/
inductive ReachesAt (text : Text) : Nat → Text → Prop
  | refl : ReachesAt text 1 text
  | child {n : Nat} {t child : Text} {layer : Layer Text} (h : ReachesAt text n t)
      (hread : Layer.read t = .ok layer) (hc : child ∈ layer.children) :
      ReachesAt text (n + 1) child

/-- Reads an expression with calls on `n` levels; what is below them is left to `deeper`. -/
def parseUpTo (deeper : Text → Except SyntaxError Expr) : Nat → Text → Except SyntaxError Expr
  | 0, text => deeper text
  | n + 1, text => (Layer.read text).bind (Layer.assemble (parseUpTo deeper n))

/-- The height of an expression. The body of a procedure counts like any subexpression. -/
def treeHeight : Expr → Nat
  | .number _ | .bool _ | .var _ => 1
  | .binary _ left right => max left.treeHeight right.treeHeight + 1
  | .cond test yes no => max test.treeHeight (max yes.treeHeight no.treeHeight) + 1
  | .letIn _ init body => max init.treeHeight body.treeHeight + 1
  | .lambda _ body => body.treeHeight + 1
  | .call callee arg => max callee.treeHeight arg.treeHeight + 1

variable {text t : Text} {n : Nat}

/-- Every level is paid for with a pair of brackets. -/
theorem ReachesAt.add_nesting_le (h : ReachesAt text n t) : n + nesting t ≤ 1 + nesting text := by
  induction h with
  | refl => exact le_rfl
  | @child n t child layer _ hread hc ih =>
    have hlt := Layer.nesting_lt_of_mem_children_read hread hc
    have hle := nesting_trim_le t
    omega

/-- Reading needs no more levels than brackets are nested, and one. -/
theorem parseUpTo_eq_parse (deeper : Text → Except SyntaxError Expr) (h : nesting text < n) :
    parseUpTo deeper n text = parse text := by
  induction n generalizing text with
  | zero => contradiction
  | succ n ih =>
    rw [parseUpTo, parse_eq]
    cases hread : Layer.read text with
    | error e => rfl
    | ok layer =>
      refine Layer.assemble_congr fun child hc => ih ?_
      have hlt := Layer.nesting_lt_of_mem_children_read hread hc
      have hle := nesting_trim_le text
      omega

/-- An expression that is made of subexpressions is one higher than the highest of them. -/
theorem treeHeight_le_of_assemble {parse : Text → Except SyntaxError Expr} {layer : Layer Text}
    {e : Expr} (h : layer.assemble parse = .ok e)
    (hle : ∀ child ∈ layer.children, ∀ sub, parse child = .ok sub → sub.treeHeight ≤ n) :
    e.treeHeight ≤ n + 1 := by
  cases layer with
  | number | bool | var =>
    obtain rfl := Except.ok.inj h
    exact Nat.succ_le_succ (Nat.zero_le n)
  | binary op left right =>
    obtain ⟨l, hl, h⟩ := bind_eq_ok h
    obtain ⟨r, hr, h⟩ := bind_eq_ok h
    obtain rfl := Except.ok.inj h
    exact Nat.succ_le_succ (max_le (hle left (by simp [Layer.children]) l hl)
      (hle right (by simp [Layer.children]) r hr))
  | cond test yes no =>
    obtain ⟨t, ht, h⟩ := bind_eq_ok h
    obtain ⟨y, hy, h⟩ := bind_eq_ok h
    obtain ⟨m, hm, h⟩ := bind_eq_ok h
    obtain rfl := Except.ok.inj h
    exact Nat.succ_le_succ (max_le (hle test (by simp [Layer.children]) t ht)
      (max_le (hle yes (by simp [Layer.children]) y hy) (hle no (by simp [Layer.children]) m hm)))
  | letIn name init body =>
    obtain ⟨i, hi, h⟩ := bind_eq_ok h
    obtain ⟨b, hb, h⟩ := bind_eq_ok h
    obtain rfl := Except.ok.inj h
    exact Nat.succ_le_succ (max_le (hle init (by simp [Layer.children]) i hi)
      (hle body (by simp [Layer.children]) b hb))
  | lambda param body =>
    obtain ⟨b, hb, h⟩ := bind_eq_ok h
    obtain rfl := Except.ok.inj h
    exact Nat.succ_le_succ (hle body (by simp [Layer.children]) b hb)
  | call callee arg =>
    obtain ⟨f, hf, h⟩ := bind_eq_ok h
    obtain ⟨a, ha, h⟩ := bind_eq_ok h
    obtain rfl := Except.ok.inj h
    exact Nat.succ_le_succ (max_le (hle callee (by simp [Layer.children]) f hf)
      (hle arg (by simp [Layer.children]) a ha))

/-- If nothing can be read below some levels, what is read is not higher than these. -/
theorem treeHeight_le_of_parseUpTo {e : Expr} {cause : SyntaxError}
    (h : parseUpTo (fun _ => .error cause) n text = .ok e) : e.treeHeight ≤ n := by
  induction n generalizing text e with
  | zero => contradiction
  | succ n ih =>
    rw [parseUpTo] at h
    cases hread : Layer.read text with
    | error e =>
      rw [hread] at h
      contradiction
    | ok layer =>
      rw [hread] at h
      exact treeHeight_le_of_assemble h fun child _ sub => ih

/-- Every text that reading goes on with is shorter than the form that it stands in and its brackets
are nested less deep. So reading comes to no more levels of nested calls than brackets are nested in
the text, and one, whatever would be answered below; and what is read is not higher than that. -/
theorem parse_within_nesting (text : Text) :
    (∀ layer, Layer.read text = .ok layer → ∀ child ∈ layer.children,
      child.length < (trim text).length ∧ nesting child < nesting (trim text)) ∧
    (∀ n t, ReachesAt text n t → n ≤ 1 + nesting text) ∧
    (∀ deeper, parseUpTo deeper (1 + nesting text) text = parse text) ∧
    ∀ e, parse text = .ok e → e.treeHeight ≤ 1 + nesting text := by
  have hlevels (deeper) : parseUpTo deeper (1 + nesting text) text = parse text :=
    parseUpTo_eq_parse deeper (by omega)
  refine ⟨fun layer hread child hc => ?_, fun n t h => ?_, hlevels, fun e h => ?_⟩
  · exact ⟨Layer.length_lt_of_mem_children_read hread hc,
      Layer.nesting_lt_of_mem_children_read hread hc⟩
  · have hle := h.add_nesting_le
    omega
  · rw [← hlevels fun _ => .error .empty] at h
    exact treeHeight_le_of_parseUpTo h

/-- Brackets are nested three deep, the calls of reading are nested on four levels, and the
expression is four high; the value of a binding is cut out of it in two more cuts. -/
theorem parse_within_nesting_attained :
    let text := "(let ([x 1]) (f (g x)))".toList
    let e : Expr := .letIn ['x'] (.number 1) (.call (.var ['f']) (.call (.var ['g']) (.var ['x'])))
    nesting text = 3 ∧ nesting ['1'] < nesting (trim text) ∧ ReachesAt text 4 ['x'] ∧
      (∀ t, ¬ ReachesAt text 5 t) ∧
      parseUpTo (fun _ => .error .empty) 4 text = .ok e ∧ e.treeHeight = 4 := by
  intro text e
  obtain ⟨hchildren, hlevel, hdeeper, -⟩ := parse_within_nesting text
  have hnesting : nesting text = 3 := by decide +kernel
  have hread : Layer.read text = .ok (.letIn ['x'] ['1'] "(f (g x))".toList) := by decide +kernel
  have hcall : Layer.read "(f (g x))".toList = .ok (.call ['f'] "(g x)".toList) := by
    decide +kernel
  have hinner : Layer.read "(g x)".toList = .ok (.call ['g'] ['x']) := by decide +kernel
  have hparse : parse text = .ok e := by decide +kernel
  refine ⟨hnesting, (hchildren _ hread ['1'] List.mem_cons_self).2, ?_, fun t ht => ?_, ?_,
    by decide⟩
  · exact .child (.child (.child .refl hread (by simp [Layer.children])) hcall
      (by simp [Layer.children])) hinner (by simp [Layer.children])
  · have hle := hlevel 5 t ht
    omega
  · have hends := hdeeper fun _ => .error .empty
    rwa [hnesting, hparse] at hends

end Expr

end UnaryLisp
