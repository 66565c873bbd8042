import UnaryLisp.Expr.Basic
import UnaryLisp.Form.Split

/-!
# Reading one layer of an expression

The outermost construct of a text, with the texts of its subexpressions left as they stand.
Everything that can be wrong with the construct itself is found here, before any of its
subexpressions is read.

## Main definitions

* `Layer.read`: the outermost construct of a text.
* `Layer.readBinding`, `Layer.readParameter`: the first operand of a local binding and that of a
  procedure.

## Main statements

* `Layer.length_lt_of_mem_children_read`: the text of a subexpression is shorter than the text.
-/

namespace UnaryLisp

namespace Layer

open Text

/-- The name that a text spells, if it spells one. -/
def name? (t : Text) : Option Name :=
  match Atom.classify t with
  | .ok (.name x) => some x
  | _ => none

/-- The parts of a text that opens with the given bracket and holds one form. -/
def partsWithin? (opener : Char) (t : Text) : Option (List Text) :=
  if t.head? = some opener then (splitForm t).toOption else none

/-- The name and the text of a binding `[name expr]`. -/
def readPair? (t : Text) : Option (Name × Text) :=
  match partsWithin? '[' t with
  | some [x, init] => (name? x).map fun name => (name, init)
  | _ => none

/-- The text between the brackets of `(text)`; a text without round brackets stands for itself. -/
def unwrap? (t : Text) : Option Text :=
  if t.head? = some '(' then
    match partsWithin? '(' t with
    | some [inner] => some inner
    | _ => none
  else some t

/-- The name and the text of a binding `([name expr])` or `[name expr]`. -/
def readBinding (t : Text) : Except SyntaxError (Name × Text) :=
  match (unwrap? t).bind readPair? with
  | some binding => .ok binding
  | none => .error (.malformedBinding t)

/-- The name of a parameter list `(name)`. -/
def readParameter (t : Text) : Except SyntaxError Name :=
  match partsWithin? '(' t with
  | some [x] =>
    match name? x with
    | some name => .ok name
    | none => .error (.malformedParameter t)
  | _ => .error (.malformedParameter t)

/-- The construct that a reserved word heads, given its operands and the whole form. -/
def readReserved (form : Text) (word : Reserved) (operands : List Text) :
    Except SyntaxError (Layer Text) :=
  match word, operands with
  | .keyword .letIn, [binding, body] =>
    (readBinding binding).map fun (name, init) => .letIn name init body
  | .keyword .lambda, [parameter, body] =>
    (readParameter parameter).map fun param => .lambda param body
  | .keyword .cond, [test, yes, no] => .ok (.cond test yes no)
  | .operator op, [left, right] => .ok (.binary op left right)
  | _, _ => .error (.arity word operands.length form)

/-- The call whose callee is the first part of a form. -/
def readCall (form callee : Text) : List Text → Except SyntaxError (Layer Text)
  | [arg] => .ok (.call callee arg)
  | _ => .error (.callArity form)

/-- The construct of a bracketed form. Only a head that is not itself bracketed can be a reserved
word. -/
def readForm (form : Text) : Except SyntaxError (Layer Text) :=
  match splitForm form with
  | .error e => .error e
  | .ok [] => .error (.emptyForm form)
  | .ok (head :: operands) =>
    if opens head then readCall form head operands
    else match Atom.classify head with
      | .error e => .error e
      | .ok (.reserved word) => readReserved form word operands
      | .ok _ => readCall form head operands

/-- The construct that a word is by itself. -/
def readWord (t : Text) : Except SyntaxError (Layer Text) :=
  match Atom.classify t with
  | .error e => .error e
  | .ok (.number n) => .ok (.number n)
  | .ok (.bool b) => .ok (.bool b)
  | .ok (.name x) => .ok (.var x)
  | .ok (.reserved word) => .error (.reservedWord word)

/-- The outermost construct of a text, blanks around it aside. -/
def read (text : Text) : Except SyntaxError (Layer Text) :=
  let t := trim text
  if t.isEmpty then .error .empty
  else if opens t then readForm t
  else readWord t

/-! ### Subexpressions are shorter -/

private theorem length_le_of_mem_partsWithin {opener : Char} {t part : Text} {parts : List Text}
    (h : partsWithin? opener t = some parts) (hp : part ∈ parts) : part.length ≤ t.length := by
  simp only [partsWithin?] at h
  split at h
  · cases hs : splitForm t with
    | error e => simp [hs, Except.toOption] at h
    | ok found =>
      rw [hs] at h
      obtain rfl := Option.some.inj h
      exact length_le_of_mem_splitForm hs hp
  · contradiction

private theorem length_le_of_readPair {t init : Text} {name : Name}
    (h : readPair? t = some (name, init)) : init.length ≤ t.length := by
  simp only [readPair?] at h
  split at h
  · next x found hp =>
    obtain ⟨_, _, he⟩ := Option.map_eq_some_iff.mp h
    obtain ⟨_, rfl⟩ := Prod.mk.inj he
    exact length_le_of_mem_partsWithin hp (by simp)
  · contradiction

private theorem length_le_of_unwrap {t inner : Text} (h : unwrap? t = some inner) :
    inner.length ≤ t.length := by
  simp only [unwrap?] at h
  split at h
  · split at h
    · next found hp =>
      obtain rfl := Option.some.inj h
      exact length_le_of_mem_partsWithin hp (by simp)
    · contradiction
  · obtain rfl := Option.some.inj h
    exact Nat.le_refl _

/-- The text that a binding gives a name is no longer than the binding. -/
theorem length_le_of_readBinding {t init : Text} {name : Name}
    (h : readBinding t = .ok (name, init)) : init.length ≤ t.length := by
  simp only [readBinding] at h
  split at h
  · next binding hb =>
    obtain rfl := Except.ok.inj h
    obtain ⟨inner, hi, hp⟩ := Option.bind_eq_some_iff.mp hb
    exact Nat.le_trans (length_le_of_readPair hp) (length_le_of_unwrap hi)
  · contradiction

private theorem exists_le_of_mem_readReserved {form child : Text} {word : Reserved}
    {operands : List Text} {layer : Layer Text} (h : readReserved form word operands = .ok layer)
    (hc : child ∈ layer.children) : ∃ operand ∈ operands, child.length ≤ operand.length := by
  simp only [readReserved] at h
  split at h
  · next binding body =>
    cases hb : readBinding binding with
    | error e => simp [hb, Except.map] at h
    | ok pair =>
      rw [hb] at h
      obtain rfl := Except.ok.inj h
      simp only [children, List.mem_cons, List.not_mem_nil, or_false] at hc
      rcases hc with rfl | rfl
      · exact ⟨binding, by simp, length_le_of_readBinding hb⟩
      · exact ⟨child, by simp, Nat.le_refl _⟩
  · next parameter body =>
    cases hb : readParameter parameter with
    | error e => simp [hb, Except.map] at h
    | ok param =>
      rw [hb] at h
      obtain rfl := Except.ok.inj h
      obtain rfl := List.mem_singleton.mp hc
      exact ⟨child, by simp, Nat.le_refl _⟩
  · obtain rfl := Except.ok.inj h
    exact ⟨child, hc, Nat.le_refl _⟩
  · obtain rfl := Except.ok.inj h
    exact ⟨child, hc, Nat.le_refl _⟩
  · contradiction

private theorem mem_of_mem_readCall {form callee child : Text} {operands : List Text}
    {layer : Layer Text} (h : readCall form callee operands = .ok layer)
    (hc : child ∈ layer.children) : child ∈ callee :: operands := by
  simp only [readCall] at h
  split at h
  · obtain rfl := Except.ok.inj h
    exact hc
  · contradiction

/-- The text of a subexpression is shorter than the form. -/
theorem length_lt_of_mem_children_readForm {form child : Text} {layer : Layer Text}
    (h : readForm form = .ok layer) (ho : opens form) (hc : child ∈ layer.children) :
    child.length < form.length := by
  simp only [readForm] at h
  split at h
  · contradiction
  · contradiction
  · next head operands hs =>
    have call : readCall form head operands = .ok layer → child.length < form.length :=
      fun hr => length_lt_of_mem_splitForm hs ho (mem_of_mem_readCall hr hc)
    split at h
    · exact call h
    · split at h
      · contradiction
      · obtain ⟨operand, hm, hle⟩ := exists_le_of_mem_readReserved h hc
        exact Nat.lt_of_le_of_lt hle
          (length_lt_of_mem_splitForm hs ho (List.mem_cons_of_mem head hm))
      · exact call h

private theorem children_of_readWord {t : Text} {layer : Layer Text}
    (h : readWord t = .ok layer) : layer.children = [] := by
  simp only [readWord] at h
  split at h
  · contradiction
  · obtain rfl := Except.ok.inj h
    rfl
  · obtain rfl := Except.ok.inj h
    rfl
  · obtain rfl := Except.ok.inj h
    rfl
  · contradiction

/-- The text of a subexpression is shorter than the text without the blanks at its ends. -/
theorem length_lt_of_mem_children_read {text child : Text} {layer : Layer Text}
    (h : read text = .ok layer) (hc : child ∈ layer.children) :
    child.length < (trim text).length := by
  simp only [read] at h
  split at h
  · contradiction
  · split at h
    · next ho => exact length_lt_of_mem_children_readForm h ho hc
    · rw [children_of_readWord h] at hc
      contradiction

end Layer

end UnaryLisp
