import UnaryLisp.Expr.Layer
import UnaryLisp.Proofs.Expr.Spelling

/-!
# The grammar of expressions

The texts that write an expression. An atom is written as a word, every other construct as a form:
its head and its subexpressions, laid out between brackets. Either opening bracket opens a form and
either closing bracket closes one; only parameter lists and bindings ask for a bracket of their own.

Which words may stand for a spelling is left open, apart for the head of a form and for an atom.
With equality for both, words are written as they are spelled; with `Text.Padded`, blanks that do
not separate may stand around a spelling.

## Main definitions

* `Layer.Written`: the texts that write a construct, given the texts of its subexpressions.
* `Expr.Written`: the texts that write an expression.
* `Expr.WellNamed`: every name in the expression can be written.

## Main results

* `Layer.understood_of_read`: the construct that is read from a text is written by it.
* `Layer.read_of_written`: the construct that a text writes is read from it.
-/

namespace UnaryLisp

open Text

namespace Layer

/-- The binding `([name init])` or `[name init]` of the word `y` to the text `init`. -/
inductive Binding (y init : Text) : Text → Prop
  | wrapped {pair t : Text} (hp : Enclosed '[' [y, init] pair) (ht : Enclosed '(' [pair] t) :
      Binding y init t
  | bare {t : Text} (ht : Enclosed '[' [y, init] t) : Binding y init t

/-- The text writes the construct. The head of a form is a word that `head` relates to its spelling,
a number, a truth value or a name is a word that `atom` relates to its spelling. -/
inductive Written (head atom : Text → Text → Prop) : Layer Text → Text → Prop
  | number {n : Number} {s w : Text} (hs : Decimal.Numeral n.toInt s) (hw : atom w s) :
      Written head atom (.number n) w
  | bool {b : Bool} {w : Text} (hw : atom w (Atom.boolSymbol b)) : Written head atom (.bool b) w
  | var {x : Name} {w : Text} (hw : atom w x) : Written head atom (.var x) w
  | binary {op : Operator} {w left right t : Text} {o : Char} (hw : head w op.symbol)
      (ho : isOpener o) (ht : Enclosed o [w, left, right] t) :
      Written head atom (.binary op left right) t
  | cond {w test yes no t : Text} {o : Char} (hw : head w Keyword.cond.symbol)
      (ho : isOpener o) (ht : Enclosed o [w, test, yes, no] t) :
      Written head atom (.cond test yes no) t
  | letIn {x : Name} {w y init binding body t : Text} {o : Char} (hw : head w Keyword.letIn.symbol)
      (hy : atom y x) (hb : Binding y init binding) (ho : isOpener o)
      (ht : Enclosed o [w, binding, body] t) : Written head atom (.letIn x init body) t
  | lambda {x : Name} {w y params body t : Text} {o : Char} (hw : head w Keyword.lambda.symbol)
      (hy : atom y x) (hp : Enclosed '(' [y] params) (ho : isOpener o)
      (ht : Enclosed o [w, params, body] t) : Written head atom (.lambda x body) t
  | call {callee arg t : Text} {o : Char} (ho : isOpener o) (ht : Enclosed o [callee, arg] t) :
      Written head atom (.call callee arg) t

/-- The names that a construct itself mentions. -/
def names {α : Type} : Layer α → List Name
  | var x | letIn x _ _ | lambda x _ => [x]
  | number _ | bool _ | binary _ _ _ | cond _ _ _ | call _ _ => []

end Layer

namespace Expr

/-- The text writes the expression. The head of a form is a word that `head` relates to its
spelling, a number, a truth value or a name is a word that `atom` relates to its spelling. -/
def Written (head atom : Text → Text → Prop) : Expr → Text → Prop
  | .number n, t => Layer.Written head atom (.number n) t
  | .bool b, t => Layer.Written head atom (.bool b) t
  | .var x, t => Layer.Written head atom (.var x) t
  | .binary op left right, t => ∃ l r, Layer.Written head atom (.binary op l r) t ∧
      left.Written head atom l ∧ right.Written head atom r
  | .cond test yes no, t => ∃ c y n, Layer.Written head atom (.cond c y n) t ∧
      test.Written head atom c ∧ yes.Written head atom y ∧ no.Written head atom n
  | .letIn x init body, t => ∃ i b, Layer.Written head atom (.letIn x i b) t ∧
      init.Written head atom i ∧ body.Written head atom b
  | .lambda x body, t => ∃ b, Layer.Written head atom (.lambda x b) t ∧ body.Written head atom b
  | .call callee arg, t => ∃ f a, Layer.Written head atom (.call f a) t ∧
      callee.Written head atom f ∧ arg.Written head atom a

/-- Every name in the expression is an identifier. -/
def WellNamed : Expr → Prop
  | .number _ | .bool _ => True
  | .var x => x.IsIdentifier
  | .binary _ left right => left.WellNamed ∧ right.WellNamed
  | .cond test yes no => test.WellNamed ∧ yes.WellNamed ∧ no.WellNamed
  | .letIn x init body => x.IsIdentifier ∧ init.WellNamed ∧ body.WellNamed
  | .lambda x body => x.IsIdentifier ∧ body.WellNamed
  | .call callee arg => callee.WellNamed ∧ arg.WellNamed

end Expr

/-! ### Words and groups as parts of a form -/

theorem trim_of_isGroup {t : Text} (h : IsGroup t) : trim t = t := by
  obtain ⟨ho, _, hc⟩ := h
  exact trim_eq_self (bare_of_brackets ho hc _)

/-- A part that spells an atom is a word. -/
theorem padded_of_isPart {t : Text} {a : Atom} (hp : IsPart t) (ha : a.Spelled (trim t)) :
    Padded t (trim t) := by
  rcases hp with hw | hg
  · exact ⟨hw.2, rfl⟩
  · rw [trim_of_isGroup hg] at ha ⊢
    exact ha.padded

/-- A group, or a word that spells a number, a truth value or a name. -/
def IsOperand (t : Text) : Prop :=
  IsGroup t ∨ IsWord t ∧ ∃ a : Atom, a.Spelled (trim t) ∧ ∀ word, a ≠ .reserved word

theorem IsOperand.isPart {t : Text} (h : IsOperand t) : IsPart t :=
  h.elim .inr fun hw => .inl hw.1

namespace Layer

theorem name?_eq_some_iff {t : Text} {x : Name} :
    name? t = some x ↔ trim t = x ∧ x.IsIdentifier := by
  rw [name?]
  constructor
  · intro h
    split at h
    · next y hy =>
      obtain rfl := Option.some.inj h
      generalize hs : trim t = s
      have hspell := hs ▸ Atom.classify_eq_ok_iff.mp hy
      cases hspell with
      | name hid => exact ⟨rfl, hid⟩
    · contradiction
  · rintro ⟨rfl, hid⟩
    rw [Atom.classify_eq_ok_iff.mpr (.name hid)]

theorem partsWithin?_of_enclosed {o : Char} {parts : List Text} {t : Text} (ho : isOpener o)
    (h : Enclosed o parts t) (hp : ∀ p ∈ parts, IsPart p) : partsWithin? o t = some parts := by
  have hhead : t.head? = some o := by
    obtain ⟨_, _⟩ := h
    rfl
  rw [partsWithin?, if_pos hhead, splitForm_of_enclosed ho h hp]
  rfl

theorem enclosed_of_partsWithin? {o : Char} {parts : List Text} {t : Text} (ho : isOpener o)
    (ht : IsPart t) (h : partsWithin? o t = some parts) :
    Enclosed o parts t ∧ ∀ p ∈ parts, IsPart p := by
  rw [partsWithin?] at h
  split at h
  · next hhead =>
    have hgroup : IsGroup t := by
      refine ht.resolve_left fun hw => ?_
      have hplain := isPlain_iff.mp (hw.2 o (List.mem_of_mem_head? hhead))
      rw [hplain.1] at ho
      contradiction
    have htrim := trim_of_isGroup hgroup
    cases hs : splitForm t with
    | error e => simp [hs, Except.toOption] at h
    | ok found =>
      rw [hs] at h
      obtain rfl := Option.some.inj h
      have hcut := enclosed_of_splitForm ho (htrim.symm ▸ hhead) hs
      rwa [htrim] at hcut
  · contradiction

/-! ### Bindings and parameters -/

theorem isPart_single {a : Text} (h : IsPart a) : ∀ p ∈ [a], IsPart p := by
  simpa using h

theorem isPart_pair {a b : Text} (ha : IsPart a) (hb : IsPart b) : ∀ p ∈ [a, b], IsPart p := by
  simp [ha, hb]

theorem Binding.isGroup {y init t : Text} (h : Binding y init t) (hy : IsPart y)
    (hi : IsPart init) : IsGroup t := by
  cases h with
  | wrapped hp ht =>
    have hpair := isGroup_of_enclosed (by decide) hp (isPart_pair hy hi)
    exact isGroup_of_enclosed (by decide) ht (isPart_single (.inr hpair))
  | bare ht => exact isGroup_of_enclosed (by decide) ht (isPart_pair hy hi)

theorem readPair?_of_enclosed {y init t : Text} {x : Name} (h : Enclosed '[' [y, init] t)
    (hy : IsPart y) (hx : trim y = x) (hid : x.IsIdentifier) (hi : IsPart init) :
    readPair? t = some (x, init) := by
  rw [readPair?, partsWithin?_of_enclosed (by decide) h (isPart_pair hy hi)]
  simp only [name?_eq_some_iff.mpr ⟨hx, hid⟩, Option.map_some]

theorem enclosed_of_readPair? {init t : Text} {x : Name} (ht : IsPart t)
    (h : readPair? t = some (x, init)) :
    ∃ y, Enclosed '[' [y, init] t ∧ trim y = x ∧ x.IsIdentifier ∧ IsPart y ∧ IsPart init := by
  rw [readPair?] at h
  split at h
  · next y found hfound =>
    obtain ⟨name, hname, he⟩ := Option.map_eq_some_iff.mp h
    obtain ⟨rfl, rfl⟩ := Prod.mk.inj he
    obtain ⟨henc, hp⟩ := enclosed_of_partsWithin? (by decide) ht hfound
    obtain ⟨htrim, hid⟩ := name?_eq_some_iff.mp hname
    exact ⟨y, henc, htrim, hid, hp y (by simp), hp found (by simp)⟩
  · contradiction

theorem readBinding_of_binding {y init t : Text} {x : Name} (h : Binding y init t) (hy : IsPart y)
    (hx : trim y = x) (hid : x.IsIdentifier) (hi : IsPart init) :
    readBinding t = .ok (x, init) := by
  have hbind : (unwrap? t).bind readPair? = some (x, init) := by
    cases h with
    | @wrapped pair t hp ht =>
      have hpair := isGroup_of_enclosed (by decide) hp (isPart_pair hy hi)
      have hhead : t.head? = some '(' := by
        obtain ⟨_, _⟩ := ht
        rfl
      rw [unwrap?, if_pos hhead,
        partsWithin?_of_enclosed (by decide) ht (isPart_single (.inr hpair))]
      exact readPair?_of_enclosed hp hy hx hid hi
    | bare ht =>
      have hhead : t.head? ≠ some '(' := by
        obtain ⟨_, _⟩ := ht
        simp
      rw [unwrap?, if_neg hhead]
      exact readPair?_of_enclosed ht hy hx hid hi
  rw [readBinding, hbind]

theorem binding_of_readBinding {init t : Text} {x : Name} (ht : IsPart t)
    (h : readBinding t = .ok (x, init)) :
    ∃ y, Binding y init t ∧ trim y = x ∧ x.IsIdentifier ∧ IsPart y ∧ IsPart init := by
  rw [readBinding] at h
  split at h
  · next hb =>
    obtain rfl := Except.ok.inj h
    obtain ⟨pair, hu, hpair⟩ := Option.bind_eq_some_iff.mp hb
    rw [unwrap?] at hu
    split at hu
    · split at hu
      · next inner hinner =>
        obtain rfl := Option.some.inj hu
        obtain ⟨henc, hp⟩ := enclosed_of_partsWithin? (by decide) ht hinner
        obtain ⟨y, hy, hrest⟩ := enclosed_of_readPair? (hp inner (by simp)) hpair
        exact ⟨y, .wrapped hy henc, hrest⟩
      · contradiction
    · obtain rfl := Option.some.inj hu
      obtain ⟨y, hy, hrest⟩ := enclosed_of_readPair? ht hpair
      exact ⟨y, .bare hy, hrest⟩
  · contradiction

theorem readParameter_of_enclosed {y t : Text} {x : Name} (h : Enclosed '(' [y] t) (hy : IsPart y)
    (hx : trim y = x) (hid : x.IsIdentifier) : readParameter t = .ok x := by
  rw [readParameter, partsWithin?_of_enclosed (by decide) h (isPart_single hy)]
  simp only [name?_eq_some_iff.mpr ⟨hx, hid⟩]

theorem enclosed_of_readParameter {t : Text} {x : Name} (ht : IsPart t)
    (h : readParameter t = .ok x) :
    ∃ y, Enclosed '(' [y] t ∧ trim y = x ∧ x.IsIdentifier ∧ IsPart y := by
  rw [readParameter] at h
  split at h
  · next y hy =>
    split at h
    · next name hname =>
      obtain rfl := Except.ok.inj h
      obtain ⟨henc, hp⟩ := enclosed_of_partsWithin? (by decide) ht hy
      obtain ⟨htrim, hid⟩ := name?_eq_some_iff.mp hname
      exact ⟨y, henc, htrim, hid, hp y (by simp)⟩
    · contradiction
  · contradiction

/-! ### The construct that is read is written -/

theorem padded_of_isIdentifier {y : Text} {x : Name} (hy : IsPart y) (hx : trim y = x)
    (hid : x.IsIdentifier) : Padded y x := by
  subst hx
  exact padded_of_isPart hy (.name hid)

/-- What is known of a construct that was read from a text. -/
structure Understood (layer : Layer Text) (t : Text) : Prop where
  written : layer.Written Padded Padded t
  names : ∀ x ∈ layer.names, Name.IsIdentifier x
  children : ∀ child ∈ layer.children, IsPart child

theorem understood_of_readReserved {form w t : Text} {word : Reserved} {operands : List Text}
    {layer : Layer Text} {o : Char} (ho : isOpener o) (hw : Padded w word.symbol)
    (ht : Enclosed o (w :: operands) t) (hp : ∀ p ∈ operands, IsPart p)
    (h : readReserved form word operands = .ok layer) : Understood layer t := by
  unfold readReserved at h
  split at h
  · next binding body =>
    cases hb : readBinding binding with
    | error e => simp [hb, Except.map] at h
    | ok pair =>
      rw [hb] at h
      obtain rfl := Except.ok.inj h
      obtain ⟨y, hbind, hx, hid, hy, hi⟩ := binding_of_readBinding (hp binding (by simp)) hb
      exact ⟨.letIn hw (padded_of_isIdentifier hy hx hid) hbind ho ht, by simpa [names] using hid,
        by simpa [children] using ⟨hi, hp body (by simp)⟩⟩
  · next params body =>
    cases hb : readParameter params with
    | error e => simp [hb, Except.map] at h
    | ok param =>
      rw [hb] at h
      obtain rfl := Except.ok.inj h
      obtain ⟨y, henc, hx, hid, hy⟩ := enclosed_of_readParameter (hp params (by simp)) hb
      exact ⟨.lambda hw (padded_of_isIdentifier hy hx hid) henc ho ht, by simpa [names] using hid,
        by simpa [children] using hp body (by simp)⟩
  · obtain rfl := Except.ok.inj h
    exact ⟨.cond hw ho ht, by simp [names], hp⟩
  · obtain rfl := Except.ok.inj h
    exact ⟨.binary hw ho ht, by simp [names], hp⟩
  · contradiction

theorem understood_of_readCall {form callee t : Text} {operands : List Text} {layer : Layer Text}
    {o : Char} (ho : isOpener o) (ht : Enclosed o (callee :: operands) t)
    (hp : ∀ p ∈ callee :: operands, IsPart p) (h : readCall form callee operands = .ok layer) :
    Understood layer t := by
  unfold readCall at h
  split at h
  · obtain rfl := Except.ok.inj h
    exact ⟨.call ho ht, by simp [names], hp⟩
  · contradiction

theorem understood_of_readForm {t : Text} {layer : Layer Text} (hbare : trim t = t)
    (hopens : opens t) (h : readForm t = .ok layer) : Understood layer t := by
  obtain ⟨o, hhead, ho⟩ : ∃ o, t.head? = some o ∧ isOpener o := by
    simpa [opens, Option.any_eq_true] using hopens
  unfold readForm at h
  split at h
  · contradiction
  · contradiction
  · next head operands hs =>
    obtain ⟨henc, hp⟩ := enclosed_of_splitForm ho (hbare.symm ▸ hhead) hs
    rw [hbare] at henc
    have hcall : readCall t head operands = .ok layer → Understood layer t :=
      understood_of_readCall ho henc hp
    split at h
    · exact hcall h
    · split at h
      · contradiction
      · next word hword =>
        have hspell := Atom.classify_eq_ok_iff.mp hword
        have hpad := padded_of_isPart (hp head (by simp)) hspell
        generalize trim head = s at hspell hpad
        cases hspell with
        | reserved =>
          exact understood_of_readReserved ho hpad henc
            (fun p hpm => hp p (List.mem_cons_of_mem head hpm)) h
      · exact hcall h

theorem understood_of_readWord {t : Text} {layer : Layer Text} (hbare : trim t = t)
    (h : readWord t = .ok layer) : Understood layer t := by
  cases hc : Atom.classify t with
  | error e => simp [readWord, hc] at h
  | ok a =>
    have hspell : a.Spelled (trim t) := Atom.classify_eq_ok_iff.mp hc
    rw [hbare] at hspell
    have hpad := hspell.padded
    rw [readWord, hc] at h
    cases hspell with
    | reserved word => contradiction
    | bool b =>
      obtain rfl := Except.ok.inj h
      exact ⟨.bool hpad, by simp [names], by simp [children]⟩
    | number hs =>
      obtain rfl := Except.ok.inj h
      exact ⟨.number hs hpad, by simp [names], by simp [children]⟩
    | name hid =>
      obtain rfl := Except.ok.inj h
      exact ⟨.var hpad, by simpa [names] using hid, by simp [children]⟩

/-- The construct that is read from a text is written by it, blanks around it aside. -/
theorem understood_of_read {text : Text} {layer : Layer Text} (h : read text = .ok layer) :
    Understood layer (trim text) := by
  simp only [read] at h
  split at h
  · contradiction
  · split at h
    · next hopens => exact understood_of_readForm (trim_trim text) hopens h
    · exact understood_of_readWord (trim_trim text) h

/-! ### The construct that is written is read -/

theorem read_of_enclosed {o : Char} {parts : List Text} {t : Text} (ho : isOpener o)
    (ht : Enclosed o parts t) : read t = readForm t := by
  have htrim := trim_eq_self (bare_of_enclosed ho ht)
  obtain ⟨_, _⟩ := ht
  simp only [read, htrim, List.isEmpty_cons, Bool.false_eq_true, if_false, opens_cons, if_pos ho]

theorem isPart_of_isIdentifier {y : Text} {x : Name} (hx : x.IsIdentifier) (hy : Padded y x) :
    IsPart y :=
  .inl ((Atom.Spelled.name hx).isWord_of_padded hy)

theorem isPart_reserved_cons {w : Text} {operands : List Text} {word : Reserved}
    (hw : Padded w word.symbol) (hp : ∀ p ∈ operands, IsPart p) :
    ∀ p ∈ w :: operands, IsPart p := by
  intro p hpm
  rcases List.mem_cons.mp hpm with rfl | hpm
  · exact .inl ((Atom.Spelled.reserved word).isWord_of_padded hw)
  · exact hp p hpm

theorem read_of_reserved {o : Char} {w t : Text} {operands : List Text} (word : Reserved)
    (ho : isOpener o) (hw : Padded w word.symbol) (ht : Enclosed o (w :: operands) t)
    (hp : ∀ p ∈ operands, IsPart p) : read t = readReserved t word operands := by
  have hword : IsWord w := (Atom.Spelled.reserved word).isWord_of_padded hw
  have hclass : Atom.classify w = .ok (.reserved word) :=
    Atom.classify_eq_ok_iff.mpr (hw.2.symm ▸ .reserved word)
  rw [read_of_enclosed ho ht, readForm, splitForm_of_enclosed ho ht (isPart_reserved_cons hw hp)]
  simp only [opens_of_isWord hword, Bool.false_eq_true, if_false, hclass]

theorem read_of_call {o : Char} {callee arg t : Text} (ho : isOpener o)
    (hf : IsOperand callee) (ha : IsOperand arg) (ht : Enclosed o [callee, arg] t) :
    read t = .ok (.call callee arg) := by
  rw [read_of_enclosed ho ht, readForm,
    splitForm_of_enclosed ho ht (isPart_pair hf.isPart ha.isPart)]
  rcases hf with hg | ⟨hw, a, hspell, hres⟩
  · simp only [opens_of_isGroup hg, if_true, readCall]
  · simp only [opens_of_isWord hw, Bool.false_eq_true, if_false,
      Atom.classify_eq_ok_iff.mpr hspell]
    cases a with
    | reserved word => exact absurd rfl (hres word)
    | bool b => rfl
    | number n => rfl
    | name x => rfl

theorem read_of_padded {w s : Text} {a : Atom} (ha : a.Spelled s) (hw : Padded w s) :
    read w = readWord s := by
  have hne : s.isEmpty = false := List.isEmpty_eq_false_iff.mpr ha.ne_nil
  simp only [read, hw.2, hne, Bool.false_eq_true, if_false, opens_of_isWord ha.isWord]

/-- The construct that a text writes is read from it, when its subexpressions can be read. -/
theorem read_of_written {layer : Layer Text} {t : Text} (h : layer.Written Padded Padded t)
    (hn : ∀ x ∈ layer.names, Name.IsIdentifier x)
    (hc : ∀ child ∈ layer.children, IsOperand child) : read t = .ok layer := by
  have hparts : ∀ child ∈ layer.children, IsPart child := fun child h => (hc child h).isPart
  have hword : ∀ {a : Atom} {s : Text}, a.Spelled s → Atom.classify s = .ok a := fun ha =>
    Atom.classify_eq_ok_iff.mpr (by rwa [trim_eq_self ha.bare])
  cases h with
  | number hs hw =>
    rw [read_of_padded (.number hs) hw, readWord, hword (.number hs)]
  | @bool b _ hw =>
    rw [read_of_padded (.bool b) hw, readWord, hword (.bool b)]
  | @var x _ hw =>
    have hid : x.IsIdentifier := hn x (by simp [names])
    rw [read_of_padded (.name hid) hw, readWord, hword (.name hid)]
  | @binary op w left right t o hw ho ht =>
    rw [read_of_reserved (.operator op) ho hw ht hparts]
    rfl
  | cond hw ho ht =>
    rw [read_of_reserved (.keyword .cond) ho hw ht hparts]
    rfl
  | @letIn x w y init binding body t o hw hy hb ho ht =>
    have hid : x.IsIdentifier := hn x (by simp [names])
    have hypart : IsPart y := isPart_of_isIdentifier hid hy
    have hinit : IsPart init := hparts init (by simp [children])
    have hbinding : IsPart binding := .inr (hb.isGroup hypart hinit)
    rw [read_of_reserved (.keyword .letIn) ho hw ht
        (isPart_pair hbinding (hparts body (by simp [children]))), readReserved,
      readBinding_of_binding hb hypart hy.2 hid hinit]
    rfl
  | @lambda x w y params body t o hw hy hp ho ht =>
    have hid : x.IsIdentifier := hn x (by simp [names])
    have hypart : IsPart y := isPart_of_isIdentifier hid hy
    have hparams : IsPart params :=
      .inr (isGroup_of_enclosed (by decide) hp (isPart_single hypart))
    rw [read_of_reserved (.keyword .lambda) ho hw ht
        (isPart_pair hparams (hparts body (by simp [children]))), readReserved,
      readParameter_of_enclosed hp hypart hy.2 hid]
    rfl
  | @call callee arg t o ho ht =>
    exact read_of_call ho (hc callee (by simp [children])) (hc arg (by simp [children])) ht

/-- A text that writes a construct with readable subexpressions can itself be a subexpression. -/
theorem isOperand_of_written {layer : Layer Text} {t : Text} (h : layer.Written Padded Padded t)
    (hn : ∀ x ∈ layer.names, Name.IsIdentifier x)
    (hc : ∀ child ∈ layer.children, IsPart child) : IsOperand t := by
  have hatom : ∀ {a : Atom} {s : Text}, a.Spelled s → Padded t s → (∀ word, a ≠ .reserved word) →
      IsOperand t := fun ha hw hres => .inr ⟨ha.isWord_of_padded hw, _, hw.2.symm ▸ ha, hres⟩
  have hform : ∀ {o : Char} {w : Text} {operands : List Text} (word : Reserved), isOpener o →
      Padded w word.symbol → Enclosed o (w :: operands) t → (∀ p ∈ operands, IsPart p) →
      IsOperand t := fun _ ho hw ht hp =>
    .inl (isGroup_of_enclosed ho ht (isPart_reserved_cons hw hp))
  cases h with
  | number hs hw => exact hatom (.number hs) hw (by simp)
  | @bool b _ hw => exact hatom (.bool b) hw (by simp)
  | @var x _ hw => exact hatom (.name (hn x (by simp [names]))) hw (by simp)
  | @binary op w left right t o hw ho ht => exact hform (.operator op) ho hw ht hc
  | cond hw ho ht => exact hform (.keyword .cond) ho hw ht hc
  | @letIn x w y init binding body t o hw hy hb ho ht =>
    have hypart : IsPart y := isPart_of_isIdentifier (hn x (by simp [names])) hy
    have hbinding : IsPart binding := .inr (hb.isGroup hypart (hc init (by simp [children])))
    exact hform (.keyword .letIn) ho hw ht
      (isPart_pair hbinding (hc body (by simp [children])))
  | @lambda x w y params body t o hw hy hp ho ht =>
    have hypart : IsPart y := isPart_of_isIdentifier (hn x (by simp [names])) hy
    have hparams : IsPart params :=
      .inr (isGroup_of_enclosed (by decide) hp (isPart_single hypart))
    exact hform (.keyword .lambda) ho hw ht
      (isPart_pair hparams (hc body (by simp [children])))
  | call ho ht => exact .inl (isGroup_of_enclosed ho ht hc)

end Layer

end UnaryLisp
