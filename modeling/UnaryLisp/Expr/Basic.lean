import UnaryLisp.Atom

/-!
# Expressions

The expressions of the language, and one layer of an expression: a construct whose places for
subexpressions hold something else, such as text that is still to be read.

## Main definitions

* `Expr`: the expressions.
* `Layer`: a construct over arbitrary contents.
* `Layer.children`: the contents of a construct, from left to right.
-/

namespace UnaryLisp

/-- An expression. -/
inductive Expr where
  /-- A number. -/
  | number (value : Number)
  /-- A truth value. -/
  | bool (value : Bool)
  /-- The value that a name is bound to. -/
  | var (name : Name)
  /-- An operator on two operands. -/
  | binary (op : Operator) (left right : Expr)
  /-- One of two branches, as a test decides. -/
  | cond (test yes no : Expr)
  /-- An expression in which a name is bound to the value of another. -/
  | letIn (name : Name) (init body : Expr)
  /-- A procedure of one parameter. -/
  | lambda (param : Name) (body : Expr)
  /-- A procedure applied to an argument. -/
  | call (callee arg : Expr)
deriving DecidableEq

/-- A construct of the language whose places for subexpressions hold an `α`. -/
inductive Layer (α : Type) where
  | number (value : Number)
  | bool (value : Bool)
  | var (name : Name)
  | binary (op : Operator) (left right : α)
  | cond (test yes no : α)
  | letIn (name : Name) (init body : α)
  | lambda (param : Name) (body : α)
  | call (callee arg : α)
deriving DecidableEq

namespace Layer

/-- The contents of a construct, from left to right. -/
def children {α : Type} : Layer α → List α
  | number _ | bool _ | var _ => []
  | binary _ left right => [left, right]
  | cond test yes no => [test, yes, no]
  | letIn _ init body => [init, body]
  | lambda _ body => [body]
  | call callee arg => [callee, arg]

end Layer

end UnaryLisp
