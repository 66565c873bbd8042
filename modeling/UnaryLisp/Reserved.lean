import UnaryLisp.Text.Blank

/-!
# Reserved words

The words that head a construct of the language: three keywords and five operators. Each of them has
a fixed spelling and a fixed number of operands, and none of them is a value.

## Main definitions

* `Keyword`, `Operator`, `Reserved`: the reserved words.
* `Reserved.symbol`, `Reserved.ofText?`: the spelling of a word, and the word with a spelling.
* `Reserved.operands`: how many operands a word takes.

## Main statements

* `Reserved.ofText?_eq_some_iff`: exactly the spelling of a reserved word is read as that word.
-/

namespace UnaryLisp

/-- The keywords: a local binding, a procedure and a choice between two branches. -/
inductive Keyword where
  | letIn
  | lambda
  | cond
deriving DecidableEq

/-- The operators on two operands. -/
inductive Operator where
  | add
  | sub
  | mul
  | div
  | eq
deriving DecidableEq

/-- A reserved word is a keyword or an operator. -/
inductive Reserved where
  | keyword (word : Keyword)
  | operator (op : Operator)
deriving DecidableEq

namespace Keyword

/-- The spelling of a keyword. -/
def symbol : Keyword → Text
  | letIn => ['l', 'e', 't']
  | lambda => ['l', 'a', 'm', 'b', 'd', 'a']
  | cond => ['i', 'f']

/-- How many operands a keyword takes. -/
def operands : Keyword → Nat
  | letIn => 2
  | lambda => 2
  | cond => 3

end Keyword

namespace Operator

/-- The spelling of an operator. -/
def symbol : Operator → Text
  | add => ['+']
  | sub => ['-']
  | mul => ['*']
  | div => ['/']
  | eq => ['=']

/-- All operators. -/
def all : List Operator :=
  [add, sub, mul, div, eq]

/-- The operator with a given spelling. -/
def ofText? (t : Text) : Option Operator :=
  all.find? fun op => op.symbol == t

end Operator

namespace Reserved

/-- The spelling of a reserved word. -/
def symbol : Reserved → Text
  | keyword word => word.symbol
  | operator op => op.symbol

/-- How many operands a reserved word takes. -/
def operands : Reserved → Nat
  | keyword word => word.operands
  | operator _ => 2

/-- All reserved words. -/
def all : List Reserved :=
  [Keyword.letIn, Keyword.lambda, Keyword.cond].map keyword ++ Operator.all.map operator

/-- The reserved word with a given spelling. -/
def ofText? (t : Text) : Option Reserved :=
  all.find? fun word => word.symbol == t

theorem mem_all (word : Reserved) : word ∈ all := by
  rcases word with (_ | _ | _) | (_ | _ | _ | _ | _) <;> decide

/-- Two reserved words have different spellings. -/
theorem symbol_injective {a b : Reserved} (h : a.symbol = b.symbol) : a = b := by
  have hall : ∀ a ∈ all, ∀ b ∈ all, a.symbol = b.symbol → a = b := by decide
  exact hall a (mem_all a) b (mem_all b) h

/-- Exactly the spelling of a reserved word is read as that word. -/
theorem ofText?_eq_some_iff {t : Text} {word : Reserved} :
    ofText? t = some word ↔ word.symbol = t := by
  refine ⟨fun h => by simpa using List.find?_some h, fun h => ?_⟩
  obtain ⟨found, hf⟩ : ∃ found, ofText? t = some found := by
    refine Option.isSome_iff_exists.mp (List.find?_isSome.mpr ⟨word, mem_all word, ?_⟩)
    simpa using h
  have hs : found.symbol = t := by simpa using List.find?_some hf
  rw [hf, symbol_injective (hs.trans h.symm)]

end Reserved

end UnaryLisp
