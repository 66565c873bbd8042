import UnaryLisp.Number
import UnaryLisp.SyntaxError

/-!
# Atoms

An atom is a word without brackets: a reserved word, a truth value, a number or a name. Names
consist of lower case ASCII letters, underscores and hyphens, and reserved words come first, so the
lone hyphen is an operator.

## Main definitions

* `Atom`: the kinds of words.
* `Atom.isName`: the spelling of names.
* `Atom.classify`: the atom that a text spells, blanks around it aside.
-/

namespace UnaryLisp

/-- A name is the text that spells it. -/
abbrev Name := Text

/-- A word without brackets. -/
inductive Atom where
  | reserved (word : Reserved)
  | bool (value : Bool)
  | number (value : Number)
  | name (name : Name)
deriving DecidableEq

namespace Atom

/-- A character that may stand in a name. -/
def isNameChar (c : Char) : Bool :=
  ('a' ≤ c && c ≤ 'z') || c == '_' || c == '-'

/-- The spelling of a name. -/
def isName (t : Text) : Bool :=
  !t.isEmpty && t.all isNameChar

/-- The spelling of a truth value. -/
def boolSymbol (b : Bool) : Text :=
  if b then ['#', 't'] else ['#', 'f']

/-- The atom that a text without surrounding blanks spells. -/
def ofWord (t : Text) : Except SyntaxError Atom :=
  match Reserved.ofText? t with
  | some word => .ok (.reserved word)
  | none =>
    if t = boolSymbol true then .ok (.bool true)
    else if t = boolSymbol false then .ok (.bool false)
    else match Decimal.toInt? t with
      | some i =>
        match Number.ofInt? i with
        | some n => .ok (.number n)
        | none => .error (.integerOutOfRange t)
      | none => if isName t then .ok (.name t) else .error (.unrecognizedToken t)

/-- The atom that a text spells, blanks around it aside. -/
def classify (text : Text) : Except SyntaxError Atom :=
  let t := text.trim
  if t.isEmpty then .error .empty else ofWord t

end Atom

end UnaryLisp
