import UnaryLisp.Expr.Layer

/-!
# Reading expressions

An expression is read from the outside in: first its outermost construct, then its subexpressions
from left to right. The first error ends the reading.

## Main definitions

* `Expr.parse`: the expression that a text spells.
* `Expr.formsBegun`: the bracketed texts that reading an expression starts on, in order.
-/

namespace UnaryLisp

namespace Expr

/-- The expression that a text spells. -/
def parse (text : Text) : Except SyntaxError Expr :=
  match _ : Layer.read text with
  | .error e => .error e
  | .ok (.number n) => .ok (.number n)
  | .ok (.bool b) => .ok (.bool b)
  | .ok (.var x) => .ok (.var x)
  | .ok (.binary op left right) => do
    let l ← parse left
    let r ← parse right
    return .binary op l r
  | .ok (.cond test yes no) => do
    let t ← parse test
    let y ← parse yes
    let n ← parse no
    return .cond t y n
  | .ok (.letIn name init body) => do
    let i ← parse init
    let b ← parse body
    return .letIn name i b
  | .ok (.lambda param body) => do
    let b ← parse body
    return .lambda param b
  | .ok (.call callee arg) => do
    let f ← parse callee
    let a ← parse arg
    return .call f a
termination_by text.length
decreasing_by
  all_goals
    refine Nat.lt_of_lt_of_le (Layer.length_lt_of_mem_children_read ‹_› ?_)
      (Text.length_trim_le text)
    simp [Layer.children]

/-- A text by itself if it is bracketed, blanks around it aside. -/
private def bracketed (text : Text) : List Text :=
  let t := text.trim
  if t.opens then [t] else []

/-- The bracketed texts that reading a text starts on, in order, and whether there was no error. -/
def begun (text : Text) : List Text × Bool :=
  match _ : Layer.read text with
  | .error _ => (bracketed text, false)
  | .ok layer =>
    layer.children.attach.foldl
      (fun (forms, fine) child =>
        if fine then
          let (more, still) := begun child.1
          (forms ++ more, still)
        else (forms, fine))
      (bracketed text, true)
termination_by text.length
decreasing_by
  exact Nat.lt_of_lt_of_le (Layer.length_lt_of_mem_children_read ‹_› child.2)
    (Text.length_trim_le text)

/-- The bracketed texts that reading a text starts on, in order, up to the first error. -/
def formsBegun (text : Text) : List Text :=
  (begun text).1

end Expr

end UnaryLisp
