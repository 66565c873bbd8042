import Mathlib.Data.List.Forall2
import UnaryLisp.Proofs.Expr.Refusal
import UnaryLisp.Proofs.Form.Tokens

/-!
# Reading sees tokens only

Texts with the same tokens are read alike: both spell the same expression, or both are refused for
the same reason. The errors quote the texts as they stand, so they are the same up to what they
quote. The two readings are followed side by side: cutting finds akin parts, so the outermost
constructs are the same with akin texts in them, and akin texts have the same tokens again.

## Main definitions

* `SyntaxError.unquoted`: an error without the texts it quotes.
* `SyntaxError.Agree`: two results that are related, or errors that are the same up to quotations.
* `Layer.Alike`: the same construct with related contents.

## Main results

* `agree_splitForm`: forms with the same tokens are cut into akin parts.
* `Layer.agree_read`: texts with the same tokens have the same outermost construct.
* `Expr.agree_parse`: texts with the same tokens are read alike.
-/

namespace UnaryLisp

open Text

/-! ### Errors up to what they quote -/

namespace SyntaxError

/-- The error without the texts it quotes. What it says of a reserved word stays. -/
def unquoted : SyntaxError → SyntaxError
  | empty => empty
  | unbalanced _ => unbalanced []
  | trailingInput _ _ => trailingInput [] []
  | emptyForm _ => emptyForm []
  | malformedBinding _ => malformedBinding []
  | malformedParameter _ => malformedParameter []
  | arity word found _ => arity word found []
  | callArity _ => callArity []
  | unrecognizedToken _ => unrecognizedToken []
  | integerOutOfRange _ => integerOutOfRange []
  | reservedWord word => reservedWord word

/-- Both results are fine and related, or both are errors, the same up to what they quote. -/
inductive Agree {α : Type} (R : α → α → Prop) :
    Except SyntaxError α → Except SyntaxError α → Prop
  | ok {a b : α} (h : R a b) : Agree R (.ok a) (.ok b)
  | error {cause cause' : SyntaxError} (h : cause.unquoted = cause'.unquoted) :
      Agree R (.error cause) (.error cause')

variable {α β : Type} {R : α → α → Prop} {S : β → β → Prop} {x y : Except SyntaxError α}

theorem Agree.bind {f g : α → Except SyntaxError β} (h : Agree R x y)
    (hfg : ∀ a b, R a b → Agree S (f a) (g b)) : Agree S (x >>= f) (y >>= g) := by
  cases h with
  | ok h => exact hfg _ _ h
  | error h => exact .error h

theorem Agree.map {f g : α → β} (h : Agree R x y) (hfg : ∀ a b, R a b → S (f a) (g b)) :
    Agree S (x.map f) (y.map g) := by
  cases h with
  | ok h => exact .ok (hfg _ _ h)
  | error h => exact .error h

theorem Agree.toOption_rel (h : Agree R x y) : Option.Rel R x.toOption y.toOption := by
  cases h with
  | ok h => exact .some h
  | error => exact .none

end SyntaxError

open SyntaxError (Agree)

/-! ### Akin parts are treated alike -/

namespace Text

theorem Akin.opens_eq {p q : Text} (h : Akin p q) : opens p = opens q := by
  cases h with
  | word hp hq => rw [opens_of_isWord hp, opens_of_isWord hq]
  | group hp hq => rw [opens_of_isGroup hp, opens_of_isGroup hq]

/-- Akin parts open with the same bracket, if with any. -/
theorem Akin.head?_eq_iff {p q : Text} {o : Char} (ho : isOpener o) (h : Akin p q) :
    p.head? = some o ↔ q.head? = some o := by
  cases h with
  | word hp hq =>
    have hword {w : Text} (hw : IsWord w) : w.head? ≠ some o := by
      intro hhead
      have := (isPlain_iff.mp (hw.2 o (List.mem_of_mem_head? hhead))).1
      simp [ho] at this
    exact iff_of_false (hword hp) (hword hq)
  | group hp hq h =>
    obtain ⟨o₁, _, hhead, hlex, -⟩ := exists_lex_group hp
    obtain ⟨o₂, _, hhead', hlex', -⟩ := exists_lex_group hq
    rw [hlex, hlex'] at h
    rw [hhead, hhead', Token.opener.inj (List.cons.inj h).1]

theorem Akin.tokens_eq {p q : Text} (h : Akin p q) : tokens p = tokens q := by
  cases h with
  | word _ _ h => rw [tokens, tokens, h]
  | group hp hq h => rw [tokens, tokens, trim_of_isGroup hp, trim_of_isGroup hq, h]

end Text

theorem Atom.classify_congr {p q : Text} (h : trim p = trim q) : classify p = classify q := by
  simp only [classify, h]

/-- A text with a bracket or a separator in it is a word of no known shape. -/
theorem Atom.classify_of_not_isPlain {t : Text} {c : Char} (hc : c ∈ trim t)
    (hplain : ¬ isPlain c) : classify t = .error (.unrecognizedToken (trim t)) := by
  cases hclass : classify t with
  | ok a => exact absurd ((classify_eq_ok_iff.mp hclass).isWord.2 c hc) hplain
  | error cause =>
    rcases of_classify_error hclass with ⟨hnil, -⟩ | ⟨⟨i, hi⟩, -⟩ | rfl
    · simp [hnil] at hc
    · exact absurd (isPlain_of_isSpellingChar (isSpellingChar_of_mem_numeral hi hc)).1 hplain
    · rfl

/-- Akin parts spell the same name, if any. -/
theorem Layer.name?_congr {p q : Text} (h : Akin p q) : name? p = name? q := by
  cases h with
  | word _ _ h => rw [name?, name?, Atom.classify_congr h]
  | group hp hq =>
    have hgroup {t : Text} (ht : IsGroup t) : name? t = none := by
      have htrim := trim_of_isGroup ht
      obtain ⟨ho, -, -⟩ := ht
      rw [name?, Atom.classify_of_not_isPlain (htrim ▸ List.mem_cons_self) (by simp [isPlain, ho])]
    rw [hgroup hp, hgroup hq]

/-! ### Forms with the same tokens -/

/-- What stands before a closing bracket is laid out with akin parts if it has the same tokens. -/
theorem forall₂_akin_scan {cs cs' inside inside' rest rest' : Text}
    (h : untilClosed 0 cs = some (inside, rest)) (h' : untilClosed 0 cs' = some (inside', rest'))
    (heq : lex inside = lex inside') :
    List.Forall₂ Akin (Level.scan inside).parts (Level.scan inside').parts := by
  obtain ⟨body, c, more, rfl, hbal, hc, hmore, -⟩ := exists_balanced_of_untilClosed h
  obtain ⟨body', c', more', rfl, hbal', hc', hmore', -⟩ := exists_balanced_of_untilClosed h'
  obtain rfl := hmore rfl
  obtain rfl := hmore' rfl
  obtain ⟨parts, hs, hp⟩ := hbal.exists_spread
  obtain ⟨parts', hs', hp'⟩ := hbal'.exists_spread
  rw [Level.parts_scan_append_closer hs hp hc, Level.parts_scan_append_closer hs' hp' hc']
  refine hs.forall₂_akin hs' hp hp' ?_
  rw [lex_append_closer hc, lex_append_closer hc'] at heq
  exact List.append_cancel_right heq

/-- What two groups hold, and what follows them, agrees if their tokens do. -/
theorem agree_splitGroup {o : Char} {cs cs' : Text} (hb : Bare (o :: cs)) (hb' : Bare (o :: cs'))
    (heq : lex cs = lex cs') : Agree (List.Forall₂ Akin) (splitGroup o cs) (splitGroup o cs') := by
  have hclosed := untilClosed_lex 0 cs
  rw [heq, untilClosed_lex] at hclosed
  unfold splitGroup
  cases hu : untilClosed 0 cs with
  | none =>
    rw [hu, Option.map_none, Option.map_eq_none_iff] at hclosed
    simp only [hclosed]
    exact .error rfl
  | some found =>
    obtain ⟨inside, rest⟩ := found
    rw [hu, Option.map_some, Option.map_eq_some_iff] at hclosed
    obtain ⟨⟨inside', rest'⟩, hu', hlex⟩ := hclosed
    obtain ⟨hinside, hrest⟩ := Prod.mk.inj hlex
    rw [← append_of_untilClosed hu] at hb
    rw [← append_of_untilClosed hu'] at hb'
    have hend : trimStart rest = [] ↔ lex rest = [] :=
      @Bare.trimStart_eq_nil_iff (o :: inside) rest hb
    have hend' : trimStart rest' = [] ↔ lex rest = [] := by
      rw [← hrest]
      exact @Bare.trimStart_eq_nil_iff (o :: inside') rest' hb'
    simp only [hu']
    cases ht : trimStart rest with
    | nil =>
      simp only [hend'.mpr (hend.mp ht)]
      exact .ok (forall₂_akin_scan hu hu' hinside.symm)
    | cons a as =>
      obtain ⟨a', as', ht'⟩ : ∃ a' as', trimStart rest' = a' :: as' :=
        List.exists_cons_of_ne_nil fun hnil => by
          rw [hend.mpr (hend'.mp hnil)] at ht
          contradiction
      simp only [ht']
      exact .error rfl

/-- Forms with the same tokens are cut into akin parts. -/
theorem agree_splitForm {s t : Text} (ho : opens (trim s)) (h : tokens s = tokens t) :
    Agree (List.Forall₂ Akin) (splitForm s) (splitForm t) := by
  have hb := bare_trim s
  have hb' := bare_trim t
  rw [splitForm, splitForm]
  rw [tokens, tokens] at h
  generalize trim s = s at *
  generalize trim t = t at *
  cases s with
  | nil => contradiction
  | cons o cs =>
    rw [opens_cons] at ho
    rw [lex_cons_opener ho] at h
    obtain ⟨cs', rfl, -, hlex⟩ := hb'.exists_cons_of_lex h.symm
    simp only [if_pos ho]
    exact agree_splitGroup hb hb' hlex.symm

theorem Text.Akin.agree_splitForm {p q : Text} (h : Akin p q) (ho : opens p) :
    Agree (List.Forall₂ Akin) (splitForm p) (splitForm q) := by
  cases h with
  | word hp => simp [opens_of_isWord hp] at ho
  | group hp hq heq =>
    have htokens := (Akin.group hp hq heq).tokens_eq
    exact UnaryLisp.agree_splitForm ((trim_of_isGroup hp).symm ▸ ho) htokens

/-! ### The outermost construct -/

namespace Layer

/-- The same construct, with related texts in it. -/
inductive Alike (R : Text → Text → Prop) : Layer Text → Layer Text → Prop
  | number (n : Number) : Alike R (.number n) (.number n)
  | bool (b : Bool) : Alike R (.bool b) (.bool b)
  | var (x : Name) : Alike R (.var x) (.var x)
  | binary {op : Operator} {left left' right right' : Text} (hl : R left left')
      (hr : R right right') : Alike R (.binary op left right) (.binary op left' right')
  | cond {test test' yes yes' no no' : Text} (ht : R test test') (hy : R yes yes')
      (hn : R no no') : Alike R (.cond test yes no) (.cond test' yes' no')
  | letIn {x : Name} {init init' body body' : Text} (hi : R init init') (hb : R body body') :
      Alike R (.letIn x init body) (.letIn x init' body')
  | lambda {x : Name} {body body' : Text} (hb : R body body') :
      Alike R (.lambda x body) (.lambda x body')
  | call {callee callee' arg arg' : Text} (hf : R callee callee') (ha : R arg arg') :
      Alike R (.call callee arg) (.call callee' arg')

/-- A name with the text it is bound to, in akin texts. -/
def AlikePair (a b : Name × Text) : Prop :=
  a.1 = b.1 ∧ Akin a.2 b.2

variable {p q : Text}

theorem rel_partsWithin? {o : Char} (ho : isOpener o) (h : Akin p q) :
    Option.Rel (List.Forall₂ Akin) (partsWithin? o p) (partsWithin? o q) := by
  by_cases hhead : p.head? = some o
  · have hopens : opens p := by simp [opens, hhead, ho]
    rw [partsWithin?, partsWithin?, if_pos hhead, if_pos ((h.head?_eq_iff ho).mp hhead)]
    exact (h.agree_splitForm hopens).toOption_rel
  · have hhead' : q.head? ≠ some o := fun hq => hhead ((h.head?_eq_iff ho).mpr hq)
    rw [partsWithin?, partsWithin?, if_neg hhead, if_neg hhead']
    exact .none

theorem rel_readPair? (h : Akin p q) : Option.Rel AlikePair (readPair? p) (readPair? q) := by
  have hparts := rel_partsWithin? (o := '[') rfl h
  unfold readPair?
  generalize partsWithin? '[' p = ps at *
  generalize partsWithin? '[' q = qs at *
  cases hparts with
  | none => exact .none
  | some hparts =>
    cases hparts with
    | nil => exact .none
    | cons hx hparts =>
      cases hparts with
      | nil => exact .none
      | cons hinit hparts =>
        cases hparts with
        | nil =>
          simp only [name?_congr hx]
          cases name? _ with
          | none => exact .none
          | some x => exact .some ⟨rfl, hinit⟩
        | cons => exact .none

theorem rel_unwrap? (h : Akin p q) : Option.Rel Akin (unwrap? p) (unwrap? q) := by
  have hparts := rel_partsWithin? (o := '(') rfl h
  have hhead := h.head?_eq_iff (o := '(') rfl
  unfold unwrap?
  by_cases hp : p.head? = some '('
  · rw [if_pos hp, if_pos (hhead.mp hp)]
    generalize partsWithin? '(' p = ps at *
    generalize partsWithin? '(' q = qs at *
    cases hparts with
    | none => exact .none
    | some hparts =>
      cases hparts with
      | nil => exact .none
      | cons hinner hparts =>
        cases hparts with
        | nil => exact .some hinner
        | cons => exact .none
  · rw [if_neg hp, if_neg fun hq => hp (hhead.mpr hq)]
    exact .some h

theorem agree_readBinding (h : Akin p q) : Agree AlikePair (readBinding p) (readBinding q) := by
  have hbinding :
      Option.Rel AlikePair ((unwrap? p).bind readPair?) ((unwrap? q).bind readPair?) := by
    have hinner := rel_unwrap? h
    generalize unwrap? p = inner at *
    generalize unwrap? q = inner' at *
    cases hinner with
    | none => exact .none
    | some hinner => exact rel_readPair? hinner
  unfold readBinding
  generalize (unwrap? p).bind readPair? = binding at *
  generalize (unwrap? q).bind readPair? = binding' at *
  cases hbinding with
  | none => exact .error rfl
  | some hbinding => exact .ok hbinding

theorem agree_readParameter (h : Akin p q) : Agree Eq (readParameter p) (readParameter q) := by
  have hparts := rel_partsWithin? (o := '(') rfl h
  unfold readParameter
  generalize partsWithin? '(' p = ps at *
  generalize partsWithin? '(' q = qs at *
  cases hparts with
  | none => exact .error rfl
  | some hparts =>
    cases hparts with
    | nil => exact .error rfl
    | cons hx hparts =>
      cases hparts with
      | nil =>
        simp only [name?_congr hx]
        cases name? _ with
        | none => exact .error rfl
        | some x => exact .ok rfl
      | cons => exact .error rfl

theorem readReserved_of_length_ne {word : Reserved} {operands : List Text}
    (h : operands.length ≠ word.operands) (form : Text) :
    readReserved form word operands = .error (.arity word operands.length form) := by
  unfold readReserved
  split
  · exact absurd rfl h
  · exact absurd rfl h
  · exact absurd rfl h
  · exact absurd rfl h
  · rfl

variable {form form' : Text} {operands operands' : List Text}

theorem agree_readReserved (word : Reserved) (h : List.Forall₂ Akin operands operands') :
    Agree (Alike Akin) (readReserved form word operands) (readReserved form' word operands') := by
  by_cases hlen : operands.length = word.operands
  · rcases word with (_ | _ | _) | op
    · obtain ⟨binding, body, rfl⟩ := List.length_eq_two.mp hlen
      obtain _ | ⟨hbinding, _ | ⟨hbody, _ | _⟩⟩ := h
      refine (agree_readBinding hbinding).map ?_
      rintro ⟨x, init⟩ ⟨x', init'⟩ ⟨rfl, hinit⟩
      exact .letIn hinit hbody
    · obtain ⟨parameter, body, rfl⟩ := List.length_eq_two.mp hlen
      obtain _ | ⟨hparameter, _ | ⟨hbody, _ | _⟩⟩ := h
      refine (agree_readParameter hparameter).map ?_
      rintro x _ rfl
      exact .lambda hbody
    · obtain ⟨test, yes, no, rfl⟩ := List.length_eq_three.mp hlen
      obtain _ | ⟨htest, _ | ⟨hyes, _ | ⟨hno, _ | _⟩⟩⟩ := h
      exact .ok (.cond htest hyes hno)
    · obtain ⟨left, right, rfl⟩ := List.length_eq_two.mp hlen
      obtain _ | ⟨hleft, _ | ⟨hright, _ | _⟩⟩ := h
      exact .ok (.binary hleft hright)
  · have hlen' : operands'.length ≠ word.operands := h.length_eq ▸ hlen
    rw [readReserved_of_length_ne hlen, readReserved_of_length_ne hlen', h.length_eq]
    exact .error rfl

theorem agree_readCall {callee callee' : Text} (hcallee : Akin callee callee')
    (h : List.Forall₂ Akin operands operands') :
    Agree (Alike Akin) (readCall form callee operands) (readCall form' callee' operands') := by
  cases h with
  | nil => exact .error rfl
  | cons harg h =>
    cases h with
    | nil => exact .ok (.call hcallee harg)
    | cons => exact .error rfl

theorem agree_readForm (h : Agree (List.Forall₂ Akin) (splitForm form) (splitForm form')) :
    Agree (Alike Akin) (readForm form) (readForm form') := by
  unfold readForm
  generalize splitForm form = found at *
  generalize splitForm form' = found' at *
  cases h with
  | error h => exact .error h
  | ok h =>
    cases h with
    | nil => exact .error rfl
    | @cons head head' operands operands' hhead hoperands =>
      simp only [← hhead.opens_eq]
      by_cases ho : opens head
      · simp only [if_pos ho]
        exact agree_readCall hhead hoperands
      · simp only [if_neg ho]
        -- a head without brackets spells the same atom in both forms
        have hclass : Atom.classify head = Atom.classify head' := by
          cases hhead with
          | word _ _ h => exact Atom.classify_congr h
          | group hp => exact absurd (opens_of_isGroup hp) ho
        rw [← hclass]
        cases Atom.classify head with
        | error cause => exact .error rfl
        | ok atom =>
          cases atom with
          | reserved word => exact agree_readReserved word hoperands
          | bool | number | name => exact agree_readCall hhead hoperands

/-- Texts with the same tokens are the same word, or neither of them is a word. -/
theorem agree_readWord {s t : Text} (hs : Bare s) (ht : Bare t) (hne : s ≠ []) (hne' : t ≠ [])
    (h : lex s = lex t) : Agree (Alike Akin) (readWord s) (readWord t) := by
  by_cases hplain : ∀ c ∈ s, isPlain c
  · have hlex : lex t = [.word s] := by rw [← h, lex_word ⟨hne, hplain⟩, trim_eq_self hs]
    obtain rfl := ht.eq_of_lex_word hlex
    unfold readWord
    cases Atom.classify t with
    | error cause => exact .error rfl
    | ok atom =>
      cases atom with
      | reserved word => exact .error rfl
      | bool b => exact .ok (.bool b)
      | number n => exact .ok (.number n)
      | name x => exact .ok (.var x)
  · have hplain' : ¬ ∀ c ∈ t, isPlain c := by
      intro hall
      have hlex : lex s = [.word t] := by rw [h, lex_word ⟨hne', hall⟩, trim_eq_self ht]
      exact hplain (hs.eq_of_lex_word hlex ▸ hall)
    have hunknown {u : Text} (hu : Bare u) (hall : ¬ ∀ c ∈ u, isPlain c) :
        readWord u = .error (.unrecognizedToken (trim u)) := by
      obtain ⟨c, hc, hnot⟩ : ∃ c ∈ u, ¬ isPlain c := by simpa using hall
      rw [readWord, Atom.classify_of_not_isPlain ((trim_eq_self hu).symm ▸ hc) hnot]
    rw [hunknown hs hplain, hunknown ht hplain']
    exact .error rfl

/-- Texts with the same tokens have the same outermost construct. -/
theorem agree_read {s t : Text} (h : tokens s = tokens t) :
    Agree (Alike Akin) (read s) (read t) := by
  have hb := bare_trim s
  have hb' := bare_trim t
  have hnil : trim s = [] ↔ trim t = [] := by
    rw [hb.eq_nil_iff_lex, hb'.eq_nil_iff_lex, ← tokens, ← tokens, h]
  have hopens : opens (trim s) ↔ opens (trim t) := by
    rw [hb.opens_iff_lex, hb'.opens_iff_lex, ← tokens, ← tokens, h]
  simp only [read, List.isEmpty_iff]
  by_cases hs : trim s = []
  · rw [if_pos hs, if_pos (hnil.mp hs)]
    exact .error rfl
  · have ht : trim t ≠ [] := fun ht => hs (hnil.mpr ht)
    rw [if_neg hs, if_neg ht]
    by_cases ho : opens (trim s)
    · rw [if_pos ho, if_pos (hopens.mp ho)]
      refine agree_readForm ?_
      rw [splitForm_trim, splitForm_trim]
      exact agree_splitForm ho h
    · rw [if_neg ho, if_neg fun ht => ho (hopens.mpr ht)]
      exact agree_readWord hb hb' hs ht h

/-- The same construct is put together alike if its contents are read alike. -/
theorem Alike.agree_assemble {R : Text → Text → Prop} {parse : Text → Except SyntaxError Expr}
    {layer layer' : Layer Text} (h : Alike R layer layer')
    (hR : ∀ child ∈ layer.children, ∀ child', R child child' →
      Agree Eq (parse child) (parse child')) :
    Agree Eq (layer.assemble parse) (layer'.assemble parse) := by
  cases h with
  | number | bool | var => exact .ok rfl
  | binary hl hr =>
    refine (hR _ (by simp [children]) _ hl).bind ?_
    rintro l _ rfl
    refine (hR _ (by simp [children]) _ hr).bind ?_
    rintro r _ rfl
    exact .ok rfl
  | cond ht hy hn =>
    refine (hR _ (by simp [children]) _ ht).bind ?_
    rintro t _ rfl
    refine (hR _ (by simp [children]) _ hy).bind ?_
    rintro y _ rfl
    refine (hR _ (by simp [children]) _ hn).bind ?_
    rintro n _ rfl
    exact .ok rfl
  | letIn hi hb =>
    refine (hR _ (by simp [children]) _ hi).bind ?_
    rintro i _ rfl
    refine (hR _ (by simp [children]) _ hb).bind ?_
    rintro b _ rfl
    exact .ok rfl
  | lambda hb =>
    refine (hR _ (by simp [children]) _ hb).bind ?_
    rintro b _ rfl
    exact .ok rfl
  | call hf ha =>
    refine (hR _ (by simp [children]) _ hf).bind ?_
    rintro f _ rfl
    refine (hR _ (by simp [children]) _ ha).bind ?_
    rintro a _ rfl
    exact .ok rfl

end Layer

/-! ### Expressions -/

namespace Expr

/-- Texts with the same tokens are read alike. -/
theorem agree_parse {s t : Text} (h : tokens s = tokens t) : Agree Eq (parse s) (parse t) := by
  induction hlen : s.length using Nat.strong_induction_on generalizing s t with
  | _ n ih =>
  subst hlen
  have hread := Layer.agree_read h
  rw [parse_eq, parse_eq]
  generalize hs : Layer.read s = found at hread
  generalize Layer.read t = found' at hread
  cases hread with
  | error h => exact .error h
  | ok halike =>
    refine halike.agree_assemble fun child hc child' hakin => ?_
    have hlt : child.length < s.length := Nat.lt_of_lt_of_le
      (Layer.length_lt_of_mem_children_read hs hc) (length_trim_le s)
    exact ih child.length hlt hakin.tokens_eq rfl

/-- Layout does not matter. Two texts with the same tokens, whatever separates these, whatever
blanks stand around words and around the whole, and whatever shapes the closing brackets have, spell
the same expression, or neither spells one and the errors are the same up to the texts they
quote. -/
theorem parse_of_tokens_eq {s t : Text} (h : tokens s = tokens t) :
    (∃ e, parse s = .ok e ∧ parse t = .ok e) ∨
      ∃ cause cause', parse s = .error cause ∧ parse t = .error cause' ∧
        cause.unquoted = cause'.unquoted := by
  have hagree := agree_parse h
  generalize parse s = result at *
  generalize parse t = result' at *
  cases hagree with
  | ok h => exact .inl ⟨_, rfl, congrArg Except.ok h.symm⟩
  | error h => exact .inr ⟨_, _, rfl, rfl, h⟩

/-- A form inside another one lacks an operand, in two layouts: with other separators, with blanks
that separate nothing around a word and around the whole, and with closing brackets of the other
shape. -/
theorem parse_of_tokens_eq_nested :
    tokens "(+ 1 (if #t\n2))".toList = tokens "\u2003(+\t1(if\u00a0 #t 2] ]\u00a0".toList ∧
      ∃ cause, parse "\u2003(+\t1(if\u00a0 #t 2] ]\u00a0".toList = .error cause ∧
        cause.unquoted = .arity (.keyword .cond) 2 [] := by
  have htokens : tokens "(+ 1 (if #t\n2))".toList =
      tokens "\u2003(+\t1(if\u00a0 #t 2] ]\u00a0".toList := by decide +kernel
  have houter : Layer.read "(+ 1 (if #t\n2))".toList =
      .ok (.binary .add "1".toList "(if #t\n2)".toList) := by decide +kernel
  have hone : Layer.read "1".toList = .ok (.number 1) := by decide +kernel
  have hinner : Layer.read "(if #t\n2)".toList =
      .error (.arity (.keyword .cond) 2 "(if #t\n2)".toList) := by decide +kernel
  have hparse : parse "(+ 1 (if #t\n2))".toList =
      .error (.arity (.keyword .cond) 2 "(if #t\n2)".toList) := by
    rw [parse_of_read houter, Layer.assemble, parse_of_read hone, parse_eq, hinner]
    rfl
  rcases parse_of_tokens_eq htokens with ⟨e, he, -⟩ | ⟨cause, cause', hs, ht, hcause⟩
  · rw [hparse] at he
    contradiction
  · rw [hparse] at hs
    obtain rfl := Except.error.inj hs
    exact ⟨htokens, cause', ht, hcause.symm⟩

end Expr

end UnaryLisp
