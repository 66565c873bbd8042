import UnaryLisp.Expr.Parse
import UnaryLisp.Proofs.Expr.Grammar

/-!
# Reading is the inverse of writing

Every text that writes an expression is read as that expression, whatever the layout and the
brackets, and a text from which an expression is read writes it. Blanks around a word inside the
text are taken for granted only when they separate; other blanks belong to the word, and reading
ignores them.

## Main results

* `Expr.parse_eq_ok_iff`: what is read from a text is what it writes, blanks around it aside.
* `Expr.parse_of_written`: a text that writes an expression is read as that expression.
* `Expr.written_of_parse`: a text that is read as an expression writes it.
-/

namespace UnaryLisp

open Text

/-- Reads the subexpressions of a construct, from left to right. -/
def Layer.assemble (parse : Text → Except SyntaxError Expr) :
    Layer Text → Except SyntaxError Expr
  | .number n => .ok (.number n)
  | .bool b => .ok (.bool b)
  | .var x => .ok (.var x)
  | .binary op left right => do
    let l ← parse left
    let r ← parse right
    return .binary op l r
  | .cond test yes no => do
    let t ← parse test
    let y ← parse yes
    let n ← parse no
    return .cond t y n
  | .letIn name init body => do
    let i ← parse init
    let b ← parse body
    return .letIn name i b
  | .lambda param body => do
    let b ← parse body
    return .lambda param b
  | .call callee arg => do
    let f ← parse callee
    let a ← parse arg
    return .call f a

namespace Expr

/-- An expression is read as its outermost construct and then its subexpressions. -/
theorem parse_eq (text : Text) :
    parse text = (Layer.read text).bind (Layer.assemble parse) := by
  rw [parse]
  split <;> next h => rw [h]; rfl

theorem parse_of_read {text : Text} {layer : Layer Text} (h : Layer.read text = .ok layer) :
    parse text = layer.assemble parse := by
  rw [parse_eq, h]
  rfl

theorem parse_trim (text : Text) : parse (trim text) = parse text := by
  rw [parse_eq, parse_eq, Layer.read, Layer.read, trim_trim]

theorem bind_eq_ok {α β : Type} {x : Except SyntaxError α}
    {f : α → Except SyntaxError β} {b : β} (h : x >>= f = .ok b) :
    ∃ a, x = .ok a ∧ f a = .ok b := by
  cases x with
  | error e => contradiction
  | ok a => exact ⟨a, rfl, h⟩

/-! ### What is written is read -/

theorem parse_of_padded {e : Expr} {t : Text} (h : e.Written Padded Padded t)
    (hn : e.WellNamed) : IsOperand t ∧ parse t = .ok e := by
  have hroot : ∀ {layer : Layer Text} {t : Text}, layer.Written Padded Padded t →
      (∀ x ∈ layer.names, Name.IsIdentifier x) → (∀ child ∈ layer.children, IsOperand child) →
      IsOperand t ∧ parse t = layer.assemble parse := fun hw hx hc =>
    ⟨Layer.isOperand_of_written hw hx fun child h => (hc child h).isPart,
      parse_of_read (Layer.read_of_written hw hx hc)⟩
  induction e generalizing t with
  | number n => exact hroot h (by simp [Layer.names]) (by simp [Layer.children])
  | bool b => exact hroot h (by simp [Layer.names]) (by simp [Layer.children])
  | var x => exact hroot h (by simpa [Layer.names, WellNamed] using hn) (by simp [Layer.children])
  | binary op left right ihl ihr =>
    obtain ⟨l, r, hw, hl, hr⟩ := h
    obtain ⟨hlo, hlp⟩ := ihl hl hn.1
    obtain ⟨hro, hrp⟩ := ihr hr hn.2
    obtain ⟨ho, hp⟩ := hroot hw (by simp [Layer.names]) (by simp [Layer.children, hlo, hro])
    refine ⟨ho, hp.trans ?_⟩
    simp only [Layer.assemble, hlp, hrp]
    rfl
  | cond test yes no iht ihy ihn =>
    obtain ⟨c, y, n, hw, ht, hy, hno⟩ := h
    obtain ⟨hto, htp⟩ := iht ht hn.1
    obtain ⟨hyo, hyp⟩ := ihy hy hn.2.1
    obtain ⟨hno, hnp⟩ := ihn hno hn.2.2
    obtain ⟨ho, hp⟩ := hroot hw (by simp [Layer.names]) (by simp [Layer.children, hto, hyo, hno])
    refine ⟨ho, hp.trans ?_⟩
    simp only [Layer.assemble, htp, hyp, hnp]
    rfl
  | letIn x init body ihi ihb =>
    obtain ⟨i, b, hw, hi, hb⟩ := h
    obtain ⟨hio, hip⟩ := ihi hi hn.2.1
    obtain ⟨hbo, hbp⟩ := ihb hb hn.2.2
    obtain ⟨ho, hp⟩ := hroot hw (by simpa [Layer.names] using hn.1)
      (by simp [Layer.children, hio, hbo])
    refine ⟨ho, hp.trans ?_⟩
    simp only [Layer.assemble, hip, hbp]
    rfl
  | lambda x body ihb =>
    obtain ⟨b, hw, hb⟩ := h
    obtain ⟨hbo, hbp⟩ := ihb hb hn.2
    obtain ⟨ho, hp⟩ := hroot hw (by simpa [Layer.names] using hn.1) (by simp [Layer.children, hbo])
    refine ⟨ho, hp.trans ?_⟩
    simp only [Layer.assemble, hbp]
    rfl
  | call callee arg ihf iha =>
    obtain ⟨f, a, hw, hf, ha⟩ := h
    obtain ⟨hfo, hfp⟩ := ihf hf hn.1
    obtain ⟨hao, hap⟩ := iha ha hn.2
    obtain ⟨ho, hp⟩ := hroot hw (by simp [Layer.names]) (by simp [Layer.children, hfo, hao])
    refine ⟨ho, hp.trans ?_⟩
    simp only [Layer.assemble, hfp, hap]
    rfl

/-! ### What is read is written -/

end Expr

/-- The blanks at the ends of a word belong to it. -/
theorem Layer.Written.of_trim {layer : Layer Text} {t : Text} (ht : IsPart t)
    (h : layer.Written Padded Padded (trim t)) : layer.Written Padded Padded t := by
  rcases ht with hword | hgroup
  · have hatom : ∀ {s : Text}, Padded (trim t) s → Padded t s := fun hp =>
      ⟨hword.2, by rw [← hp.2, trim_trim]⟩
    have hform : ∀ {o : Char} {parts : List Text}, isOpener o → ¬ Enclosed o parts (trim t) := by
      intro o parts ho henc
      have hmem : o ∈ trim t := by
        generalize trim t = s at henc
        obtain ⟨_, _⟩ := henc
        simp
      rw [(isPlain_iff.mp (hword.2 o (mem_of_mem_trim hmem))).1] at ho
      contradiction
    generalize trim t = s at h hatom hform
    cases h with
    | number hs hw => exact .number hs (hatom hw)
    | bool hw => exact .bool (hatom hw)
    | var hw => exact .var (hatom hw)
    | binary _ ho ht => exact absurd ht (hform ho)
    | cond _ ho ht => exact absurd ht (hform ho)
    | letIn _ _ _ ho ht => exact absurd ht (hform ho)
    | lambda _ _ _ ho ht => exact absurd ht (hform ho)
    | call ho ht => exact absurd ht (hform ho)
  · rwa [trim_of_isGroup hgroup] at h

namespace Expr

theorem Written.of_trim {e : Expr} {t : Text} (ht : IsPart t)
    (h : e.Written Padded Padded (trim t)) : e.Written Padded Padded t := by
  cases e with
  | number n => exact Layer.Written.of_trim ht h
  | bool b => exact Layer.Written.of_trim ht h
  | var x => exact Layer.Written.of_trim ht h
  | binary op left right =>
    obtain ⟨l, r, hw, hrest⟩ := h
    exact ⟨l, r, hw.of_trim ht, hrest⟩
  | cond test yes no =>
    obtain ⟨c, y, n, hw, hrest⟩ := h
    exact ⟨c, y, n, hw.of_trim ht, hrest⟩
  | letIn x init body =>
    obtain ⟨i, b, hw, hrest⟩ := h
    exact ⟨i, b, hw.of_trim ht, hrest⟩
  | lambda x body =>
    obtain ⟨b, hw, hrest⟩ := h
    exact ⟨b, hw.of_trim ht, hrest⟩
  | call callee arg =>
    obtain ⟨f, a, hw, hrest⟩ := h
    exact ⟨f, a, hw.of_trim ht, hrest⟩

theorem padded_of_parse {text : Text} {e : Expr} (h : parse text = .ok e) :
    e.Written Padded Padded (trim text) ∧ e.WellNamed := by
  induction hlen : text.length using Nat.strong_induction_on generalizing text e with
  | _ n ih =>
  subst hlen
  cases hread : Layer.read text with
  | error cause => simp [parse_eq, hread, Except.bind] at h
  | ok layer =>
    obtain ⟨hw, hx, hc⟩ := Layer.understood_of_read hread
    have hchild : ∀ {child : Text} {sub : Expr}, child ∈ layer.children → parse child = .ok sub →
        sub.Written Padded Padded child ∧ sub.WellNamed := by
      intro child sub hmem hparse
      have hlt : child.length < text.length := Nat.lt_of_lt_of_le
        (Layer.length_lt_of_mem_children_read hread hmem) (length_trim_le text)
      obtain ⟨hwritten, hnamed⟩ := ih child.length hlt hparse rfl
      exact ⟨hwritten.of_trim (hc child hmem), hnamed⟩
    rw [parse_of_read hread] at h
    cases layer with
    | number n =>
      obtain rfl := Except.ok.inj h
      exact ⟨hw, trivial⟩
    | bool b =>
      obtain rfl := Except.ok.inj h
      exact ⟨hw, trivial⟩
    | var x =>
      obtain rfl := Except.ok.inj h
      exact ⟨hw, hx x (by simp [Layer.names])⟩
    | binary op left right =>
      obtain ⟨l, hl, h⟩ := bind_eq_ok h
      obtain ⟨r, hr, h⟩ := bind_eq_ok h
      obtain rfl := Except.ok.inj h
      obtain ⟨hlw, hln⟩ := hchild (by simp [Layer.children]) hl
      obtain ⟨hrw, hrn⟩ := hchild (by simp [Layer.children]) hr
      exact ⟨⟨left, right, hw, hlw, hrw⟩, hln, hrn⟩
    | cond test yes no =>
      obtain ⟨c, ht, h⟩ := bind_eq_ok h
      obtain ⟨y, hy, h⟩ := bind_eq_ok h
      obtain ⟨n, hno, h⟩ := bind_eq_ok h
      obtain rfl := Except.ok.inj h
      obtain ⟨htw, htn⟩ := hchild (by simp [Layer.children]) ht
      obtain ⟨hyw, hyn⟩ := hchild (by simp [Layer.children]) hy
      obtain ⟨hnw, hnn⟩ := hchild (by simp [Layer.children]) hno
      exact ⟨⟨test, yes, no, hw, htw, hyw, hnw⟩, htn, hyn, hnn⟩
    | letIn x init body =>
      obtain ⟨i, hi, h⟩ := bind_eq_ok h
      obtain ⟨b, hb, h⟩ := bind_eq_ok h
      obtain rfl := Except.ok.inj h
      obtain ⟨hiw, hin⟩ := hchild (by simp [Layer.children]) hi
      obtain ⟨hbw, hbn⟩ := hchild (by simp [Layer.children]) hb
      exact ⟨⟨init, body, hw, hiw, hbw⟩, hx x (by simp [Layer.names]), hin, hbn⟩
    | lambda x body =>
      obtain ⟨b, hb, h⟩ := bind_eq_ok h
      obtain rfl := Except.ok.inj h
      obtain ⟨hbw, hbn⟩ := hchild (by simp [Layer.children]) hb
      exact ⟨⟨body, hw, hbw⟩, hx x (by simp [Layer.names]), hbn⟩
    | call callee arg =>
      obtain ⟨f, hf, h⟩ := bind_eq_ok h
      obtain ⟨a, ha, h⟩ := bind_eq_ok h
      obtain rfl := Except.ok.inj h
      obtain ⟨hfw, hfn⟩ := hchild (by simp [Layer.children]) hf
      obtain ⟨haw, han⟩ := hchild (by simp [Layer.children]) ha
      exact ⟨⟨callee, arg, hw, hfw, haw⟩, hfn, han⟩

/-- What is read from a text is what it writes, blanks around it aside. -/
theorem parse_eq_ok_iff {text : Text} {e : Expr} :
    parse text = .ok e ↔ e.Written Padded Padded (trim text) ∧ e.WellNamed := by
  constructor
  · exact padded_of_parse
  · rintro ⟨hw, hn⟩
    rw [← parse_trim]
    exact (parse_of_padded hw hn).2

/-! ### Words written as they are spelled -/

end Expr

/-- A word that is written as it is spelled is a word with no blanks around it. -/
theorem Layer.Written.padded {layer : Layer Text} {t : Text} (h : layer.Written Eq Eq t)
    (hx : ∀ x ∈ layer.names, Name.IsIdentifier x) : layer.Written Padded Padded t := by
  have hhead : ∀ {w : Text} (word : Reserved), w = word.symbol → Padded w word.symbol := by
    rintro w word rfl
    exact (Atom.Spelled.reserved word).padded
  have hname : ∀ {w : Text} {x : Name}, x ∈ layer.names → w = x → Padded w x := by
    rintro w x hmem rfl
    exact (Atom.Spelled.name (hx w hmem)).padded
  cases h with
  | number hs hw =>
    subst hw
    exact .number hs (Atom.Spelled.number hs).padded
  | @bool b w hw =>
    subst hw
    exact .bool (Atom.Spelled.bool b).padded
  | var hw => exact .var (hname (by simp [names]) hw)
  | @binary op w left right t o hw ho ht => exact .binary (hhead (.operator op) hw) ho ht
  | cond hw ho ht => exact .cond (hhead (.keyword .cond) hw) ho ht
  | letIn hw hy hb ho ht =>
    exact .letIn (hhead (.keyword .letIn) hw) (hname (by simp [names]) hy) hb ho ht
  | lambda hw hy hp ho ht =>
    exact .lambda (hhead (.keyword .lambda) hw) (hname (by simp [names]) hy) hp ho ht
  | call ho ht => exact .call ho ht

namespace Expr

theorem Written.padded {e : Expr} {t : Text} (h : e.Written Eq Eq t) (hn : e.WellNamed) :
    e.Written Padded Padded t := by
  induction e generalizing t with
  | number n => exact Layer.Written.padded h (by simp [Layer.names])
  | bool b => exact Layer.Written.padded h (by simp [Layer.names])
  | var x => exact Layer.Written.padded h (by simpa [Layer.names, WellNamed] using hn)
  | binary op left right ihl ihr =>
    obtain ⟨l, r, hw, hl, hr⟩ := h
    exact ⟨l, r, hw.padded (by simp [Layer.names]), ihl hl hn.1, ihr hr hn.2⟩
  | cond test yes no iht ihy ihn =>
    obtain ⟨c, y, n, hw, ht, hy, hno⟩ := h
    exact ⟨c, y, n, hw.padded (by simp [Layer.names]), iht ht hn.1, ihy hy hn.2.1, ihn hno hn.2.2⟩
  | letIn x init body ihi ihb =>
    obtain ⟨i, b, hw, hi, hb⟩ := h
    exact ⟨i, b, hw.padded (by simpa [Layer.names] using hn.1), ihi hi hn.2.1, ihb hb hn.2.2⟩
  | lambda x body ihb =>
    obtain ⟨b, hw, hb⟩ := h
    exact ⟨b, hw.padded (by simpa [Layer.names] using hn.1), ihb hb hn.2⟩
  | call callee arg ihf iha =>
    obtain ⟨f, a, hw, hf, ha⟩ := h
    exact ⟨f, a, hw.padded (by simp [Layer.names]), ihf hf hn.1, iha ha hn.2⟩

theorem isBlank_of_isGap {gap : Text} (hg : IsGap gap) : ∀ c ∈ gap, isBlank c :=
  fun c hc => isBlank_of_isSeparator (hg c hc)

/-- Every text that writes an expression, in whatever layout and with separators around it, is read
as that expression. -/
theorem parse_of_written {e : Expr} {before t after : Text} (hn : e.WellNamed)
    (ht : e.Written Eq Eq t) (hb : IsGap before) (ha : IsGap after) :
    parse (before ++ t ++ after) = .ok e := by
  have htrim : trim (before ++ t ++ after) = trim t :=
    trim_append_append (isBlank_of_isGap hb) (isBlank_of_isGap ha) t
  rw [← parse_trim, htrim, parse_trim]
  exact (parse_of_padded (ht.padded hn) hn).2

/-- A binding around a procedure, with no separator where brackets allow it to be left out, with
brackets of different kinds that close each other, and with leading zeros. -/
theorem parse_of_written_letIn :
    parse ([' '] ++ ['[', 'l', 'e', 't', '(', '[', 'a', '-', 'b', '\t', '-', '0', '0', '7', ')',
        ')', '(', 'l', 'a', 'm', 'b', 'd', 'a', '(', 'x', ']', 'a', '-', 'b', ']', ']'] ++ ['\n']) =
      .ok (.letIn ['a', '-', 'b'] (.number (-7)) (.lambda ['x'] (.var ['a', '-', 'b']))) := by
  have hab : Name.IsIdentifier ['a', '-', 'b'] := by decide
  have hx : Name.IsIdentifier ['x'] := by decide
  have hend : Spread [] [] := .nil isGap_nil
  have hparams : Enclosed '(' [['x']] ['(', 'x', ']'] :=
    ⟨.cons_part (.inr (by decide)) hend, by decide⟩
  have hlambda : Enclosed '(' [['l', 'a', 'm', 'b', 'd', 'a'], ['(', 'x', ']'], ['a', '-', 'b']]
      ['(', 'l', 'a', 'm', 'b', 'd', 'a', '(', 'x', ']', 'a', '-', 'b', ']'] :=
    ⟨.cons_part (.inr (by decide)) (.cons_part (.inl (by decide))
      (.cons_part (.inr (by decide)) hend)), by decide⟩
  have hseven : Decimal.Numeral (Int64.toInt (-7)) ['-', '0', '0', '7'] := .minus 2 7
  have hpair : Enclosed '[' [['a', '-', 'b'], ['-', '0', '0', '7']]
      ['[', 'a', '-', 'b', '\t', '-', '0', '0', '7', ')'] :=
    ⟨.cons_part (.inr (by decide)) (@Spread.cons ['\t'] _ _ _ (by decide) (.inr (by decide)) hend),
      by decide⟩
  have hbinding : Enclosed '(' [['[', 'a', '-', 'b', '\t', '-', '0', '0', '7', ')']]
      ['(', '[', 'a', '-', 'b', '\t', '-', '0', '0', '7', ')', ')'] :=
    ⟨.cons_part (.inl (by decide)) hend, by decide⟩
  have hlet : Enclosed '[' [['l', 'e', 't'],
      ['(', '[', 'a', '-', 'b', '\t', '-', '0', '0', '7', ')', ')'],
      ['(', 'l', 'a', 'm', 'b', 'd', 'a', '(', 'x', ']', 'a', '-', 'b', ']']]
      ['[', 'l', 'e', 't', '(', '[', 'a', '-', 'b', '\t', '-', '0', '0', '7', ')', ')',
        '(', 'l', 'a', 'm', 'b', 'd', 'a', '(', 'x', ']', 'a', '-', 'b', ']', ']'] :=
    ⟨.cons_part (.inr (by decide)) (.cons_part (.inl (by decide))
      (.cons_part (.inl (by decide)) hend)), by decide⟩
  exact parse_of_written ⟨hab, trivial, hx, hab⟩
    ⟨_, _, .letIn rfl rfl (.wrapped hpair hbinding) (by decide) hlet, .number hseven rfl,
      _, .lambda rfl rfl hparams (by decide) hlambda, .var rfl⟩ (by decide) (by decide)

/-- No text that writes an expression is a reserved word. -/
theorem trim_ne_symbol_of_written {e : Expr} {t : Text} (h : e.Written Padded Padded t)
    (hn : e.WellNamed) (word : Reserved) : trim t ≠ word.symbol := by
  intro hsym
  rcases (parse_of_padded h hn).1 with hg | ⟨-, a, hspell, hres⟩
  · have hopens := opens_of_isGroup hg
    rw [← trim_of_isGroup hg, hsym, opens_of_isWord (Atom.Spelled.reserved word).isWord] at hopens
    contradiction
  · rw [hsym] at hspell
    exact hres word (hspell.unique (.reserved word))

/-- A text that is read as an expression writes it, blanks around it aside. Its names are
identifiers, and wherever an expression stands, in the place of a callee as elsewhere, the text is
no reserved word. -/
theorem written_of_parse {text : Text} {e : Expr} (h : parse text = .ok e) :
    e.Written Padded Padded (trim text) ∧ e.WellNamed ∧
      ∀ (sub : Expr) (t : Text), sub.Written Padded Padded t → sub.WellNamed →
        ∀ word : Reserved, trim t ≠ word.symbol := by
  obtain ⟨hw, hn⟩ := parse_eq_ok_iff.mp h
  exact ⟨hw, hn, fun _ _ => trim_ne_symbol_of_written⟩

theorem parse_padded_operator :
    parse ['(', '\u00a0', '+', ' ', '1', ' ', '2', ')'] =
      .ok (.binary .add (.number 1) (.number 2)) := by
  have hform : Enclosed '(' [['\u00a0', '+'], ['1'], ['2']]
      ['(', '\u00a0', '+', ' ', '1', ' ', '2', ')'] :=
    ⟨.cons_part (.inr (by decide)) (@Spread.cons [' '] _ _ _ (by decide) (.inr (by decide))
      (@Spread.cons [' '] _ _ _ (by decide) (.inr (by decide)) (.nil isGap_nil))), by decide⟩
  have hone : Decimal.Numeral (Int64.toInt 1) ['1'] := .plain 0 1
  have htwo : Decimal.Numeral (Int64.toInt 2) ['2'] := .plain 0 2
  refine parse_eq_ok_iff.mpr ⟨⟨['1'], ['2'], ?_, ?_, ?_⟩, trivial, trivial⟩
  · exact .binary (w := ['\u00a0', '+']) ⟨List.all_eq_true.mp (by decide), by decide⟩
      (by decide) hform
  · exact .number hone (Atom.Spelled.number hone).padded
  · exact .number htwo (Atom.Spelled.number htwo).padded

/-- A blank that is no separator stands before the operator of this form. -/
theorem written_of_parse_padded_operator :
    parse ['(', '\u00a0', '+', ' ', '1', ' ', '2', ')'] =
        .ok (.binary .add (.number 1) (.number 2)) ∧
      (Expr.binary .add (.number 1) (.number 2)).Written Padded Padded
        (trim ['(', '\u00a0', '+', ' ', '1', ' ', '2', ')']) :=
  ⟨parse_padded_operator, (written_of_parse parse_padded_operator).1⟩

/-- The head of a form need not be written as it is spelled to be read. -/
theorem not_written_padded_operator :
    parse ['(', '\u00a0', '+', ' ', '1', ' ', '2', ')'] =
        .ok (.binary .add (.number 1) (.number 2)) ∧
      ¬ (Expr.binary .add (.number 1) (.number 2)).Written Eq Padded
        (trim ['(', '\u00a0', '+', ' ', '1', ' ', '2', ')']) := by
  refine ⟨parse_padded_operator, ?_⟩
  rintro ⟨l, r, hw, -, -⟩
  generalize ht : trim ['(', '\u00a0', '+', ' ', '1', ' ', '2', ')'] = t at hw
  have htrim : trim ['(', '\u00a0', '+', ' ', '1', ' ', '2', ')'] =
      ['(', '\u00a0', '+', ' ', '1', ' ', '2', ')'] := by decide
  rw [htrim] at ht
  cases hw with
  | @binary op w left right t o hw ho henc =>
    subst hw
    obtain @⟨body, c, hb, hc⟩ := henc
    cases hb with
    | @cons gap part rest parts hg happ hr =>
      -- what follows the bracket is neither a separator nor the operator itself
      cases gap with
      | nil => simp [Operator.symbol] at ht
      | cons a gap =>
        have hsep := hg a (by simp)
        simp only [List.cons_append, List.cons.injEq] at ht
        obtain ⟨-, rfl, -⟩ := ht
        contradiction

end Expr

end UnaryLisp
