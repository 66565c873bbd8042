import UnaryLisp.Proofs.Expr.Reading

/-!
# Why a text is not read

Reading fails where it comes to a text whose outermost construct cannot be read. All that can be
wrong with such a text is said in one place, and what is known of the texts that reading comes to
tells which of it can happen: every text below the outermost one is a word or a group, so its
brackets match.

## Main definitions

* `Layer.Refused`: what is wrong with a text whose outermost construct cannot be read.
* `Expr.Reaches`: the texts that reading a text comes to.
* `Text.Nested`: the texts that cutting a text and its parts again and again comes to.
* `Text.Tidy`: a text in which all blanks separate.
* `SyntaxError.OfBrackets`: the errors that put the blame on a bracket, or on what follows a form.

## Main results

* `Layer.refused_of_read`: a text that is not read has one of these things wrong with it.
* `Expr.exists_reaches_of_parse`: an error is that of a text that reading comes to.
* `Expr.splitForm_of_parse`: brackets that are at fault are so at the outermost cut.
* `Expr.Reaches.not_ofBrackets`: inside a part no bracket is at fault.
* `Expr.parse_ne_empty`: inside a part in which all blanks separate, nothing is empty.
-/

namespace UnaryLisp

open Text

/-! ### Cutting parts -/

namespace Text

/-- Cutting the text and its parts again and again comes to the other one, be it a subexpression, a
binding or a parameter list. -/
inductive Nested (text : Text) : Text → Prop
  | refl : Nested text text
  | part {t p : Text} {parts : List Text} (h : Nested text t) (hs : splitForm t = .ok parts)
      (hp : p ∈ parts) : Nested text p

end Text

theorem Text.Nested.isPart {t p : Text} (h : Nested t p) (ht : IsPart t) : IsPart p := by
  induction h with
  | refl => exact ht
  | part _ hs hp _ => exact (isPart_of_splitForm hs hp).1

/-! ### Texts that are refused -/

/-- The error blames a bracket that matches nothing, or something behind the end of a form. -/
def SyntaxError.OfBrackets : SyntaxError → Prop
  | unbalanced _ | trailingInput _ _ => True
  | empty | emptyForm _ | malformedBinding _ | malformedParameter _ | arity _ _ _ | callArity _
  | unrecognizedToken _ | integerOutOfRange _ | reservedWord _ => False

/-- A word that spells nothing is empty, a numeral that is too large, or of no known shape. -/
theorem Atom.of_classify_error {text : Text} {cause : SyntaxError}
    (h : classify text = .error cause) :
    (trim text = [] ∧ cause = .empty) ∨
      (∃ i, Decimal.Numeral i (trim text)) ∧ cause = .integerOutOfRange (trim text) ∨
      cause = .unrecognizedToken (trim text) := by
  simp only [classify] at h
  split at h
  · next hempty => exact .inl ⟨List.isEmpty_iff.mp hempty, (Except.error.inj h).symm⟩
  · refine .inr ?_
    unfold ofWord at h
    split at h
    · contradiction
    · split at h
      · contradiction
      · split at h
        · contradiction
        · split at h
          · next i hi =>
            split at h
            · contradiction
            · exact .inl ⟨⟨i, Decimal.toInt?_eq_some_iff.mp hi⟩, (Except.error.inj h).symm⟩
          · split at h
            · contradiction
            · exact .inr (Except.error.inj h).symm

theorem Atom.not_ofBrackets_of_classify {text : Text} {cause : SyntaxError}
    (h : classify text = .error cause) : ¬ cause.OfBrackets := by
  rcases of_classify_error h with ⟨-, rfl⟩ | ⟨-, rfl⟩ | rfl <;> exact id

namespace Layer

/-- What is wrong with the text, which has no blanks at its ends, as a construct. -/
inductive Refused (t : Text) : SyntaxError → Prop
  | empty (h : t = []) : Refused t .empty
  | word {cause : SyntaxError} (hne : t ≠ []) (ho : opens t = false)
      (h : Atom.classify t = .error cause) : Refused t cause
  | reservedWord {word : Reserved} (ho : opens t = false)
      (h : Atom.classify t = .ok (.reserved word)) : Refused t (.reservedWord word)
  | split {cause : SyntaxError} (ho : opens t) (h : splitForm t = .error cause) : Refused t cause
  | emptyForm (ho : opens t) (h : splitForm t = .ok []) : Refused t (.emptyForm t)
  | head {head : Text} {operands : List Text} {cause : SyntaxError} (ho : opens t)
      (h : splitForm t = .ok (head :: operands)) (hw : opens head = false)
      (hhead : Atom.classify head = .error cause) : Refused t cause
  | arity {head : Text} {operands : List Text} {word : Reserved} (ho : opens t)
      (h : splitForm t = .ok (head :: operands))
      (hhead : Atom.classify head = .ok (.reserved word))
      (hne : operands.length ≠ word.operands) : Refused t (.arity word operands.length t)
  | binding {head binding body : Text} (ho : opens t) (h : splitForm t = .ok [head, binding, body])
      (hhead : Atom.classify head = .ok (.reserved (.keyword .letIn)))
      (hb : readBinding binding = .error (.malformedBinding binding)) :
      Refused t (.malformedBinding binding)
  | parameter {head parameter body : Text} (ho : opens t)
      (h : splitForm t = .ok [head, parameter, body])
      (hhead : Atom.classify head = .ok (.reserved (.keyword .lambda)))
      (hp : readParameter parameter = .error (.malformedParameter parameter)) :
      Refused t (.malformedParameter parameter)
  | callArity {head : Text} {operands : List Text} (ho : opens t)
      (h : splitForm t = .ok (head :: operands)) (hne : operands.length ≠ 1) :
      Refused t (.callArity t)

theorem eq_of_readBinding_error {t : Text} {cause : SyntaxError}
    (h : readBinding t = .error cause) : cause = .malformedBinding t := by
  unfold readBinding at h
  split at h
  · contradiction
  · exact (Except.error.inj h).symm

theorem eq_of_readParameter_error {t : Text} {cause : SyntaxError}
    (h : readParameter t = .error cause) : cause = .malformedParameter t := by
  unfold readParameter at h
  split at h
  · split at h
    · contradiction
    · exact (Except.error.inj h).symm
  · exact (Except.error.inj h).symm

theorem refused_of_readReserved {t head : Text} {word : Reserved} {operands : List Text}
    {cause : SyntaxError} (ho : opens t) (hs : splitForm t = .ok (head :: operands))
    (hhead : Atom.classify head = .ok (.reserved word))
    (h : readReserved t word operands = .error cause) : Refused t cause := by
  unfold readReserved at h
  split at h
  · next binding body =>
    cases hb : readBinding binding with
    | error e =>
      rw [hb] at h
      obtain rfl := Except.error.inj h
      obtain rfl := eq_of_readBinding_error hb
      exact .binding ho hs hhead hb
    | ok pair => simp [hb, Except.map] at h
  · next parameter body =>
    cases hp : readParameter parameter with
    | error e =>
      rw [hp] at h
      obtain rfl := Except.error.inj h
      obtain rfl := eq_of_readParameter_error hp
      exact .parameter ho hs hhead hp
    | ok param => simp [hp, Except.map] at h
  · contradiction
  · contradiction
  · next hlet hlambda hcond hop =>
    obtain rfl := Except.error.inj h
    refine .arity ho hs hhead fun hlen => ?_
    rcases word with (_ | _ | _) | op
    · obtain ⟨binding, body, rfl⟩ := List.length_eq_two.mp hlen
      exact hlet binding body rfl rfl
    · obtain ⟨parameter, body, rfl⟩ := List.length_eq_two.mp hlen
      exact hlambda parameter body rfl rfl
    · obtain ⟨test, yes, no, rfl⟩ := List.length_eq_three.mp hlen
      exact hcond test yes no rfl rfl
    · obtain ⟨left, right, rfl⟩ := List.length_eq_two.mp hlen
      exact hop op left right rfl rfl

theorem refused_of_readCall {t callee : Text} {operands : List Text} {cause : SyntaxError}
    (ho : opens t) (hs : splitForm t = .ok (callee :: operands))
    (h : readCall t callee operands = .error cause) : Refused t cause := by
  unfold readCall at h
  split at h
  · contradiction
  · next hne =>
    obtain rfl := Except.error.inj h
    refine .callArity ho hs fun hlen => ?_
    obtain ⟨arg, rfl⟩ := List.length_eq_one_iff.mp hlen
    exact hne arg rfl

theorem refused_of_readForm {t : Text} {cause : SyntaxError} (ho : opens t)
    (h : readForm t = .error cause) : Refused t cause := by
  unfold readForm at h
  split at h
  · next e hs =>
    obtain rfl := Except.error.inj h
    exact .split ho hs
  · next hs =>
    obtain rfl := Except.error.inj h
    exact .emptyForm ho hs
  · next head operands hs =>
    split at h
    · exact refused_of_readCall ho hs h
    · next hw =>
      split at h
      · next e hc =>
        obtain rfl := Except.error.inj h
        exact .head ho hs (by simpa using hw) hc
      · next word hc => exact refused_of_readReserved ho hs hc h
      · exact refused_of_readCall ho hs h

theorem refused_of_readWord {t : Text} {cause : SyntaxError} (hne : t ≠ []) (ho : opens t = false)
    (h : readWord t = .error cause) : Refused t cause := by
  unfold readWord at h
  split at h
  · next e hc =>
    obtain rfl := Except.error.inj h
    exact .word hne ho hc
  · contradiction
  · contradiction
  · contradiction
  · next word hc =>
    obtain rfl := Except.error.inj h
    exact .reservedWord ho hc

/-- A text whose outermost construct is not read has one of these things wrong with it, blanks
around it aside. -/
theorem refused_of_read {text : Text} {cause : SyntaxError} (h : read text = .error cause) :
    Refused (trim text) cause := by
  simp only [read] at h
  split at h
  · next hempty =>
    obtain rfl := Except.error.inj h
    exact .empty (List.isEmpty_iff.mp hempty)
  · next hempty =>
    split at h
    · next ho => exact refused_of_readForm ho h
    · next ho =>
      have hne : trim text ≠ [] := fun hnil => hempty (List.isEmpty_iff.mpr hnil)
      exact refused_of_readWord hne (by simpa using ho) h

/-- Only cutting the whole text finds a bracket at fault. -/
theorem Refused.splitForm_eq {t : Text} {cause : SyntaxError} (h : Refused t cause)
    (hb : cause.OfBrackets) : splitForm t = .error cause := by
  cases h with
  | split _ h => exact h
  | word _ _ h => exact absurd hb (Atom.not_ofBrackets_of_classify h)
  | head _ _ _ h => exact absurd hb (Atom.not_ofBrackets_of_classify h)
  | empty | reservedWord | emptyForm | arity | binding | parameter | callArity => exact hb.elim

/-! ### Subexpressions stand in the text -/

theorem Binding.isInfix {y init t : Text} (h : Binding y init t) : init <:+: t := by
  cases h with
  | wrapped hp ht => exact (hp.isInfix (by simp)).trans (ht.isInfix (List.mem_singleton_self _))
  | bare ht => exact ht.isInfix (by simp)

theorem Written.isInfix {head atom : Text → Text → Prop} {layer : Layer Text} {t child : Text}
    (h : layer.Written head atom t) (hc : child ∈ layer.children) : child <:+: t := by
  cases h with
  | number | bool | var => contradiction
  | binary _ _ ht => exact ht.isInfix (List.mem_cons_of_mem _ hc)
  | cond _ _ ht => exact ht.isInfix (List.mem_cons_of_mem _ hc)
  | @letIn x w y init binding body t o _ _ hb _ ht =>
    simp only [children, List.mem_cons, List.not_mem_nil, or_false] at hc
    rcases hc with rfl | rfl
    · exact hb.isInfix.trans (ht.isInfix (by simp))
    · exact ht.isInfix (by simp)
  | lambda _ _ _ _ ht =>
    obtain rfl := List.mem_singleton.mp hc
    exact ht.isInfix (by simp)
  | call _ ht => exact ht.isInfix hc

private theorem bind_eq_error {α β : Type} {x : Except SyntaxError α}
    {f : α → Except SyntaxError β} {cause : SyntaxError} (h : x >>= f = .error cause) :
    x = .error cause ∨ ∃ a, x = .ok a ∧ f a = .error cause := by
  cases x with
  | error e => exact .inl (congrArg Except.error (Except.error.inj h))
  | ok a => exact .inr ⟨a, rfl, h⟩

/-- Once the outermost construct is read, an error is that of a subexpression. -/
theorem exists_child_of_assemble {parse : Text → Except SyntaxError Expr} {layer : Layer Text}
    {cause : SyntaxError} (h : layer.assemble parse = .error cause) :
    ∃ child ∈ layer.children, parse child = .error cause := by
  cases layer with
  | number | bool | var => contradiction
  | binary op left right =>
    rcases bind_eq_error h with hl | ⟨l, -, h⟩
    · exact ⟨left, by simp [children], hl⟩
    · rcases bind_eq_error h with hr | ⟨r, -, h⟩
      · exact ⟨right, by simp [children], hr⟩
      · contradiction
  | cond test yes no =>
    rcases bind_eq_error h with ht | ⟨t, -, h⟩
    · exact ⟨test, by simp [children], ht⟩
    · rcases bind_eq_error h with hy | ⟨y, -, h⟩
      · exact ⟨yes, by simp [children], hy⟩
      · rcases bind_eq_error h with hn | ⟨n, -, h⟩
        · exact ⟨no, by simp [children], hn⟩
        · contradiction
  | letIn name init body =>
    rcases bind_eq_error h with hi | ⟨i, -, h⟩
    · exact ⟨init, by simp [children], hi⟩
    · rcases bind_eq_error h with hb | ⟨b, -, h⟩
      · exact ⟨body, by simp [children], hb⟩
      · contradiction
  | lambda param body =>
    rcases bind_eq_error h with hb | ⟨b, -, h⟩
    · exact ⟨body, by simp [children], hb⟩
    · contradiction
  | call callee arg =>
    rcases bind_eq_error h with hf | ⟨f, -, h⟩
    · exact ⟨callee, by simp [children], hf⟩
    · rcases bind_eq_error h with ha | ⟨a, -, h⟩
      · exact ⟨arg, by simp [children], ha⟩
      · contradiction

end Layer

namespace Expr

/-! ### Texts that reading comes to -/

/-- Reading the text comes to the other one: to itself, and from there to the subexpressions of the
construct that is read. -/
inductive Reaches (text : Text) : Text → Prop
  | refl : Reaches text text
  | child {t child : Text} {layer : Layer Text} (h : Reaches text t)
      (hread : Layer.read t = .ok layer) (hc : child ∈ layer.children) : Reaches text child

theorem Reaches.trans {text t u : Text} (h : Reaches text t) (h' : Reaches t u) :
    Reaches text u := by
  induction h' with
  | refl => exact h
  | child _ hread hc ih => exact .child ih hread hc

/-- An error is that of a text that reading comes to. -/
theorem exists_reaches_of_parse {text : Text} {cause : SyntaxError}
    (h : parse text = .error cause) : ∃ t, Reaches text t ∧ Layer.read t = .error cause := by
  induction hlen : text.length using Nat.strong_induction_on generalizing text with
  | _ n ih =>
  subst hlen
  cases hread : Layer.read text with
  | error e =>
    rw [parse_eq, hread] at h
    obtain rfl := Except.error.inj h
    exact ⟨text, .refl, hread⟩
  | ok layer =>
    rw [parse_of_read hread] at h
    obtain ⟨child, hc, hchild⟩ := Layer.exists_child_of_assemble h
    have hlt : child.length < text.length := Nat.lt_of_lt_of_le
      (Layer.length_lt_of_mem_children_read hread hc) (length_trim_le text)
    obtain ⟨t, hreach, ht⟩ := ih child.length hlt hchild rfl
    exact ⟨t, Reaches.trans (.child .refl hread hc) hreach, ht⟩

/-- Below the outermost text, reading comes to words and groups. -/
theorem Reaches.eq_or_isPart {text t : Text} (h : Reaches text t) : t = text ∨ IsPart t := by
  cases h with
  | refl => exact .inl rfl
  | child _ hread hc => exact .inr ((Layer.understood_of_read hread).children _ hc)

theorem Reaches.isPart {text t : Text} (h : Reaches text t) (ht : IsPart text) : IsPart t :=
  h.eq_or_isPart.elim (fun heq => heq ▸ ht) id

/-- The texts that reading comes to stand in the text. -/
theorem Reaches.isInfix {text t : Text} (h : Reaches text t) : t <:+: text := by
  induction h with
  | refl => exact List.infix_refl text
  | @child t child layer _ hread hc ih =>
    have hchild : child <:+: trim t := (Layer.understood_of_read hread).written.isInfix hc
    exact (hchild.trans (trim_isInfix t)).trans ih

/-! ### Brackets at fault -/

/-- Brackets that are at fault are so at the outermost cut. -/
theorem splitForm_of_parse {text : Text} {cause : SyntaxError} (h : parse text = .error cause)
    (hb : cause.OfBrackets) : splitForm text = .error cause := by
  obtain ⟨t, hreach, hread⟩ := exists_reaches_of_parse h
  have hsplit : splitForm t = .error cause := by
    rw [← splitForm_trim]
    exact (Layer.refused_of_read hread).splitForm_eq hb
  rcases hreach.eq_or_isPart with rfl | hpart
  · exact hsplit
  · obtain rfl := eq_empty_of_splitForm hpart hsplit
    exact hb.elim

/-- In a part and in what reading and cutting it come to, no bracket is at fault. -/
theorem Reaches.not_ofBrackets {text t : Text} (ht : IsPart text) (h : Reaches text t) :
    (∀ cause, parse t = .error cause → ¬ cause.OfBrackets) ∧
      ∀ p, Nested t p → ∀ cause, splitForm p = .error cause → ¬ cause.OfBrackets := by
  have hsplit (p) (hp : IsPart p) (cause) (h : splitForm p = .error cause) :
      ¬ cause.OfBrackets := by
    obtain rfl := eq_empty_of_splitForm hp h
    exact id
  refine ⟨fun cause hparse hb => ?_, fun p hp => hsplit p (hp.isPart (h.isPart ht))⟩
  exact hsplit t (h.isPart ht) cause (splitForm_of_parse hparse hb) hb

end Expr

/-! ### Texts in which all blanks separate -/

/-- Every blank of the text is a separator. -/
def Text.Tidy (t : Text) : Prop :=
  ∀ c ∈ t, isBlank c → isSeparator c

/-- A part in which all blanks separate has none at its ends. -/
theorem Text.Tidy.trim_eq {t : Text} (h : Tidy t) (ht : IsPart t) : trim t = t := by
  rcases ht with hword | hgroup
  · have hblank (c) (hc : c ∈ t) : isBlank c = false := by
      by_contra hb
      have hsep := h c hc (by simpa using hb)
      rw [(isPlain_iff.mp (hword.2 c hc)).2.2] at hsep
      contradiction
    exact trim_eq_self ⟨fun c hc => hblank c (List.mem_of_mem_head? hc),
      fun c hc => hblank c (List.mem_of_getLast? hc)⟩
  · exact trim_of_isGroup hgroup

/-- A part in which all blanks separate, and the head of a form in it, are not empty. -/
theorem Layer.Refused.ne_empty {t : Text} {cause : SyntaxError} (h : Refused t cause)
    (ht : IsPart t) (htidy : Tidy t) : cause ≠ .empty := by
  have hclass {p : Text} (hp : IsPart p) (htidy : Tidy p) : Atom.classify p ≠ .error .empty := by
    intro hc
    rcases Atom.of_classify_error hc with ⟨hnil, -⟩ | ⟨-, h⟩ | h
    · exact hp.ne_nil (htidy.trim_eq hp ▸ hnil)
    · contradiction
    · contradiction
  rintro rfl
  cases h with
  | empty h => exact ht.ne_nil h
  | word _ _ h => exact hclass ht htidy h
  | split ho h =>
    rcases ht with hword | hgroup
    · rw [opens_of_isWord hword] at ho
      contradiction
    · obtain ⟨parts, hs⟩ := exists_splitForm_of_isGroup hgroup
      rw [hs] at h
      contradiction
  | head _ h _ hhead =>
    obtain ⟨hpart, hsub⟩ := isPart_of_splitForm h List.mem_cons_self
    exact hclass hpart (fun c hc => htidy c (hsub.subset hc)) hhead

/-- Inside a part in which all blanks separate, reading comes to nothing that is empty. -/
theorem Expr.parse_ne_empty {text : Text} (ht : IsPart text) (htidy : Tidy text) :
    parse text ≠ .error .empty := by
  intro h
  obtain ⟨t, hreach, hread⟩ := exists_reaches_of_parse h
  have htidy' : Tidy t := fun c hc => htidy c (hreach.isInfix.subset hc)
  have hrefused := Layer.refused_of_read hread
  rw [htidy'.trim_eq (hreach.isPart ht)] at hrefused
  exact hrefused.ne_empty (hreach.isPart ht) htidy' rfl

end UnaryLisp
