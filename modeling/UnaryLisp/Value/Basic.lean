import UnaryLisp.Expr.Basic

/-!
# Values and environments

A value is a number, a truth value or a closure. A closure is a procedure together with the
environment in which it was made, and an identity that tells it from every other closure: the
equality of the language compares closures by identity alone. An environment is a sequence of
bindings, the innermost first, in which an inner binding hides an outer one of the same name.

## Main definitions

* `Value`, `Environment`: the values and the environments, by mutual recursion.
* `Value.same`: the equality of the language.
* `Value.kind`, `Value.text`: what a value is, and how it is printed.
* `Environment.lookup`: the innermost value of a name.
-/

namespace UnaryLisp

mutual

/-- A value. -/
inductive Value where
  /-- A number. -/
  | number (value : Number)
  /-- A truth value. -/
  | bool (value : Bool)
  /-- A procedure, with the environment in which it was made. -/
  | closure (identity : Nat) (env : Environment) (param : Name) (body : Expr)

/-- A sequence of bindings, the innermost first. -/
inductive Environment where
  /-- No binding. -/
  | empty
  /-- A binding inside the outer ones. -/
  | bind (name : Name) (value : Value) (outer : Environment)

end

deriving instance DecidableEq for Value, Environment

/-- The kinds of values. -/
inductive Kind where
  | number
  | boolean
  | procedure
deriving DecidableEq

/-- The word for a kind. -/
def Kind.word : Kind → String
  | number => "number"
  | boolean => "boolean"
  | procedure => "procedure"

namespace Value

/-- The kind of a value. -/
def kind : Value → Kind
  | number _ => .number
  | bool _ => .boolean
  | closure _ _ _ _ => .procedure

/-- The equality of the language: closures are the same when they have the same identity, and values
of different kinds are not the same. -/
def same : Value → Value → Bool
  | number a, number b => a == b
  | bool a, bool b => a == b
  | closure i _ _ _, closure j _ _ _ => i == j
  | _, _ => false

/-- A value in print. A closure shows its parameter only. -/
def text : Value → Text
  | number n => Number.text n
  | bool b => Atom.boolSymbol b
  | closure _ _ param _ => "#<procedure (".toList ++ param ++ ")>".toList

end Value

/-- The innermost value of a name. -/
def Environment.lookup (name : Name) : Environment → Option Value
  | empty => none
  | bind bound value outer => if bound = name then some value else outer.lookup name

end UnaryLisp
