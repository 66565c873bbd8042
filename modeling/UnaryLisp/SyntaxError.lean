import UnaryLisp.Reserved

/-!
# Errors of reading

Why a text is not an expression. Each cause quotes the fragment at fault, has a message for people,
and has a code for programs.

## Main definitions

* `SyntaxError`: the causes.
* `SyntaxError.message`, `SyntaxError.code`: their wording and their codes.
-/

namespace UnaryLisp

/-- The text between two backquotes, as messages quote it. -/
def Text.ticked (t : Text) : String :=
  "`" ++ String.ofList t ++ "`"

/-- Why a text is not an expression. -/
inductive SyntaxError where
  /-- There is nothing but blanks. -/
  | empty
  /-- A bracket is not closed, or closes nothing. -/
  | unbalanced (text : Text)
  /-- Something follows the end of an expression. -/
  | trailingInput (form trailing : Text)
  /-- A pair of brackets holds nothing. -/
  | emptyForm (form : Text)
  /-- The first operand of a local binding does not bind one name to one expression. -/
  | malformedBinding (text : Text)
  /-- The first operand of a procedure is not one name in round brackets. -/
  | malformedParameter (text : Text)
  /-- A reserved word has the wrong number of operands. -/
  | arity (word : Reserved) (found : Nat) (form : Text)
  /-- A call has not exactly one argument. -/
  | callArity (form : Text)
  /-- A word of no known shape. -/
  | unrecognizedToken (text : Text)
  /-- A numeral whose value 64 bits do not hold. -/
  | integerOutOfRange (text : Text)
  /-- A reserved word where a value should stand. -/
  | reservedWord (word : Reserved)
deriving DecidableEq

namespace SyntaxError

/-- The message of an error. -/
def message : SyntaxError → String
  | empty => "expected an expression, found nothing"
  | unbalanced text => "unbalanced brackets in " ++ text.ticked
  | trailingInput form trailing =>
    "unexpected " ++ trailing.ticked ++ " after the end of " ++ form.ticked
  | emptyForm form => "empty form " ++ form.ticked
  | malformedBinding text => text.ticked ++ " is not a binding, expected `([name expr])`"
  | malformedParameter text => text.ticked ++ " is not a parameter list, expected `(name)`"
  | arity word found form =>
    word.symbol.ticked ++ " takes " ++ toString word.operands ++ " operands, found " ++
      toString found ++ " in " ++ form.ticked
  | callArity form => "a call takes exactly one argument: " ++ form.ticked
  | unrecognizedToken text => "unrecognized token " ++ text.ticked
  | integerOutOfRange text => "integer literal " ++ text.ticked ++ " does not fit in 64 bits"
  | reservedWord word => word.symbol.ticked ++ " is reserved and cannot be used as a value"

/-- The code of an error. -/
def code : SyntaxError → String
  | unrecognizedToken _ => "E0002"
  | integerOutOfRange _ => "E0003"
  | empty => "E1002"
  | unbalanced _ => "E1003"
  | trailingInput _ _ => "E1004"
  | emptyForm _ => "E1005"
  | malformedBinding _ => "E1006"
  | malformedParameter _ => "E1007"
  | arity _ _ _ => "E1008"
  | callArity _ => "E1009"
  | reservedWord _ => "E1010"

end SyntaxError

end UnaryLisp
