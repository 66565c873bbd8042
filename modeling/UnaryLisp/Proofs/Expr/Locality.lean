import UnaryLisp.Proofs.Expr.Refusal
import UnaryLisp.Proofs.Form.Verdict

/-!
# Errors of reading are local

An error of reading quotes fragments of the text, and where it blames a fragment, the fragment is
enough: read by itself it gives the same error. A binding or a parameter list is no expression and
stands for this in the smallest form that has one.

An error is that of a text that reading comes to, so all is said by what can be wrong with one text.

## Main definitions

* `SyntaxError.fragments`: the texts that an error quotes.
* `SyntaxError.culprit?`: a text with nothing but the fragment to blame.

## Main results

* `Layer.Refused.isInfix`: the fragments stand in the text that is refused.
* `Layer.Refused.read_culprit`: the fragment to blame is refused for the same reason.
* `Expr.parse_error_local`: an error of reading quotes the text, and its fragment gives it again.
-/

namespace UnaryLisp

open Text

namespace SyntaxError

/-- The texts that an error quotes. -/
def fragments : SyntaxError → List Text
  | empty => []
  | unbalanced text | emptyForm text | malformedBinding text | malformedParameter text
  | callArity text | unrecognizedToken text | integerOutOfRange text => [text]
  | trailingInput form trailing => [form, trailing]
  | arity word _ form => [word.symbol, form]
  | reservedWord word => [word.symbol]

/-- The text that has nothing in it but what an error blames: the fragment that it quotes, or the
smallest form with it as a binding or as a parameter list. -/
def culprit? : SyntaxError → Option Text
  | empty | trailingInput _ _ => none
  | unbalanced text | emptyForm text | arity _ _ text | callArity text | unrecognizedToken text
  | integerOutOfRange text => some text
  | reservedWord word => some word.symbol
  | malformedBinding text => some ("(let ".toList ++ text ++ " x)".toList)
  | malformedParameter text => some ("(lambda ".toList ++ text ++ " x)".toList)

end SyntaxError

/-! ### Fragments stand in the text -/

theorem Text.NoForm.isInfix {t fragment : Text} {cause : SyntaxError} (h : NoForm t cause)
    (hf : fragment ∈ cause.fragments) : fragment <:+: t := by
  cases h with
  | empty => contradiction
  | @overrun form rest ht _ =>
    subst ht
    simp only [SyntaxError.fragments, List.mem_cons, List.not_mem_nil, or_false] at hf
    rcases hf with rfl | rfl
    · exact (List.prefix_append _ rest).isInfix
    · exact ((List.dropWhile_suffix isBlank).trans (List.suffix_append form rest)).isInfix
  | unmatched =>
    obtain rfl := List.mem_singleton.mp hf
    exact List.infix_refl _

theorem Atom.isInfix_of_classify {t fragment : Text} {cause : SyntaxError}
    (h : classify t = .error cause) (hf : fragment ∈ cause.fragments) : fragment <:+: t := by
  rcases of_classify_error h with ⟨-, rfl⟩ | ⟨-, rfl⟩ | rfl
  · contradiction
  · obtain rfl := List.mem_singleton.mp hf
    exact trim_isInfix t
  · obtain rfl := List.mem_singleton.mp hf
    exact trim_isInfix t

/-- A reserved word is spelled as it is, blanks around it aside. -/
theorem Atom.trim_of_reserved {t : Text} {word : Reserved}
    (h : classify t = .ok (.reserved word)) : trim t = word.symbol := by
  have hspell := classify_eq_ok_iff.mp h
  generalize trim t = s at hspell
  cases hspell with
  | reserved => rfl

namespace Layer

/-- The fragments that an error quotes stand in the text that is refused. -/
theorem Refused.isInfix {t fragment : Text} {cause : SyntaxError} (h : Refused t cause)
    (hf : fragment ∈ cause.fragments) : fragment <:+: t := by
  have hself {text : Text} (h : text ∈ [t]) : text <:+: t := by
    obtain rfl := List.mem_singleton.mp h
    exact List.infix_refl _
  have hpart {p : Text} {parts : List Text} (hs : splitForm t = .ok parts) (hp : p ∈ parts) :
      p <:+: t := (isPart_of_splitForm hs hp).2
  have hsymbol {p : Text} {word : Reserved} (hp : p <:+: t)
      (hc : Atom.classify p = .ok (.reserved word)) : word.symbol <:+: t := by
    rw [← Atom.trim_of_reserved hc]
    exact (trim_isInfix p).trans hp
  cases h with
  | empty => contradiction
  | word _ _ hc => exact Atom.isInfix_of_classify hc hf
  | reservedWord _ hc =>
    obtain rfl := List.mem_singleton.mp hf
    exact hsymbol (List.infix_refl t) hc
  | split _ hs => exact ((splitForm_eq_error_iff.mp hs).isInfix hf).trans (trim_isInfix t)
  | emptyForm => exact hself hf
  | head _ hs _ hc => exact (Atom.isInfix_of_classify hc hf).trans (hpart hs List.mem_cons_self)
  | arity _ hs hc =>
    rcases List.mem_cons.mp hf with rfl | hf
    · exact hsymbol (hpart hs List.mem_cons_self) hc
    · exact hself hf
  | binding _ hs =>
    obtain rfl := List.mem_singleton.mp hf
    exact hpart hs (by simp)
  | parameter _ hs =>
    obtain rfl := List.mem_singleton.mp hf
    exact hpart hs (by simp)
  | callArity => exact hself hf

/-! ### The fragment to blame -/

/-- What is blamed for an error of a word is the word without the blanks at its ends. -/
theorem eq_trim_of_classify {w culprit : Text} {cause : SyntaxError}
    (h : Atom.classify w = .error cause) (hc : culprit ∈ cause.culprit?) :
    culprit = trim w ∧ trim w ≠ [] := by
  have hne (hcause : cause ≠ .empty) : trim w ≠ [] := by
    intro hnil
    simp only [Atom.classify, hnil, List.isEmpty_nil, if_true] at h
    exact hcause (Except.error.inj h).symm
  rcases Atom.of_classify_error h with ⟨-, rfl⟩ | ⟨-, rfl⟩ | rfl
  · contradiction
  · exact ⟨(Option.some.inj hc).symm, hne (by simp)⟩
  · exact ⟨(Option.some.inj hc).symm, hne (by simp)⟩

/-- A word that spells nothing is refused by itself. -/
theorem read_of_classify {w : Text} {cause : SyntaxError} (hw : ∀ a ∈ w, isPlain a)
    (hne : trim w ≠ []) (hc : Atom.classify w = .error cause) : read (trim w) = .error cause := by
  have hopens : opens (trim w) = false :=
    opens_of_isWord ⟨hne, fun a ha => hw a (mem_of_mem_trim ha)⟩
  have hclass : Atom.classify (trim w) = .error cause := by
    rw [← hc, Atom.classify, Atom.classify, trim_trim]
  rw [read]
  simp only [trim_trim, List.isEmpty_eq_false_iff.mpr hne, hopens, Bool.false_eq_true, if_false,
    readWord, hclass]

end Layer

/-- A word, another part and a name between round brackets. -/
theorem Text.enclosed_three (w p : Text) :
    Enclosed '(' [w, p, ['x']] ('(' :: (w ++ " ".toList ++ p ++ " x)".toList)) := by
  have hgap : IsGap [' '] := by simp [IsGap, isSeparator]
  have hx : Spread [['x']] " x".toList := .cons hgap (.inr not_startsPlain_nil) (.nil isGap_nil)
  have hp : Spread [p, ['x']] ([' '] ++ p ++ " x".toList) := .cons hgap (.inr (by decide)) hx
  have hw : Spread [w, p, ['x']] (w ++ ([' '] ++ p ++ " x".toList)) :=
    .cons_part (.inr (by simp; decide)) hp
  have henc := Enclosed.mk (o := '(') hw (c := ')') (by decide)
  simpa using henc

namespace Layer

/-- A form that a reserved word heads is read as the construct of that word. -/
theorem read_reserved_form (word : Reserved) {p : Text} (hp : IsPart p) :
    read ('(' :: (word.symbol ++ " ".toList ++ p ++ " x)".toList)) =
      readReserved ('(' :: (word.symbol ++ " ".toList ++ p ++ " x)".toList)) word [p, ['x']] := by
  have hx : IsPart ['x'] := .inl ⟨by simp, by simpa using (by decide : isPlain 'x')⟩
  exact read_of_reserved word rfl (Atom.Spelled.reserved word).padded
    (enclosed_three word.symbol p) (isPart_pair hp hx)

/-- What is blamed for an error is refused for the same reason. -/
theorem Refused.read_culprit {t culprit : Text} {cause : SyntaxError} (ht : trim t = t)
    (h : Refused t cause) (hread : read t = .error cause) (hc : culprit ∈ cause.culprit?) :
    read culprit = .error cause := by
  have hself (heq : culprit = t) : read culprit = .error cause := heq ▸ hread
  cases h with
  | empty => contradiction
  | word _ _ hclass => exact hself ((eq_trim_of_classify hclass hc).1.trans ht)
  | reservedWord _ hclass =>
    exact hself ((Option.some.inj hc).symm.trans ((Atom.trim_of_reserved hclass).symm.trans ht))
  | split _ hs =>
    cases splitForm_eq_error_iff.mp hs with
    | empty | overrun => contradiction
    | unmatched => exact hself ((Option.some.inj hc).symm.trans ht)
  | emptyForm | arity | callArity => exact hself (Option.some.inj hc).symm
  | @head head operands _ _ hs hw hclass =>
    obtain ⟨rfl, hne⟩ := eq_trim_of_classify hclass hc
    have hword : IsWord head := (isPart_of_splitForm hs List.mem_cons_self).1.resolve_right
      fun hgroup => by simp [opens_of_isGroup hgroup] at hw
    exact read_of_classify hword.2 hne hclass
  | @binding head binding body _ hs _ hb =>
    obtain rfl := Option.some.inj hc
    have hpart : IsPart binding := (isPart_of_splitForm hs (by simp)).1
    have hform := read_reserved_form (.keyword .letIn) hpart
    rw [readReserved, hb] at hform
    exact hform
  | @parameter head parameter body _ hs _ hp =>
    obtain rfl := Option.some.inj hc
    have hpart : IsPart parameter := (isPart_of_splitForm hs (by simp)).1
    have hform := read_reserved_form (.keyword .lambda) hpart
    rw [readReserved, hp] at hform
    exact hform

end Layer

namespace Expr

/-- Every fragment that an error of reading quotes stands in the text. What the error blames gives
the same error when it is read by itself, a binding and a parameter list in the smallest form that
has one. -/
theorem parse_error_local {text : Text} {cause : SyntaxError} (h : parse text = .error cause) :
    (∀ fragment ∈ cause.fragments, fragment <:+: text) ∧
      ∀ culprit ∈ cause.culprit?, parse culprit = .error cause := by
  obtain ⟨t, hreach, hread⟩ := exists_reaches_of_parse h
  have hrefused := Layer.refused_of_read hread
  refine ⟨fun fragment hf => ?_, fun culprit hc => ?_⟩
  · exact ((hrefused.isInfix hf).trans (trim_isInfix t)).trans hreach.isInfix
  · have htrim : Layer.read (trim t) = .error cause := by
      rw [← hread, Layer.read, Layer.read, trim_trim]
    rw [parse_eq, hrefused.read_culprit (trim_trim t) htrim hc]
    rfl

/-- A binding inside an operand is no binding, and neither is it alone. -/
theorem parse_error_local_binding :
    parse "(+ 1 (let [(a)\u00a0b] (f 2 3)))".toList =
        .error (.malformedBinding "[(a)\u00a0b]".toList) ∧
      "[(a)\u00a0b]".toList <:+: "(+ 1 (let [(a)\u00a0b] (f 2 3)))".toList ∧
      parse "(let [(a)\u00a0b] x)".toList = .error (.malformedBinding "[(a)\u00a0b]".toList) := by
  have h : parse "(+ 1 (let [(a)\u00a0b] (f 2 3)))".toList =
      .error (.malformedBinding "[(a)\u00a0b]".toList) := by decide +kernel
  obtain ⟨hfragments, hculprit⟩ := parse_error_local h
  exact ⟨h, hfragments _ List.mem_cons_self, hculprit _ rfl⟩

end Expr

end UnaryLisp
