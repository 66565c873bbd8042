/-!
# Depth limits

A counter of the evaluations that are under way inside each other, with an optional ceiling.
Entering a level at the ceiling is refused and changes nothing; leaving at depth zero stays there.

## Main definitions

* `DepthLimit`: the counter and its ceiling.
* `DepthLimit.enter`, `DepthLimit.leave`: one level in, one level out.

## Main statements

* `DepthLimit.leave_of_enter`: leaving undoes entering.
-/

namespace UnaryLisp

/-- A counter of nested levels with an optional ceiling. -/
structure DepthLimit where
  depth : Nat
  max : Option Nat
deriving DecidableEq

namespace DepthLimit

/-- The counter at depth zero. -/
def new (max : Option Nat) : DepthLimit :=
  ⟨0, max⟩

/-- One level further in. At the ceiling the error is the ceiling. -/
def enter (limit : DepthLimit) : Except Nat DepthLimit :=
  match limit.max with
  | some max =>
    if max ≤ limit.depth then .error max else .ok { limit with depth := limit.depth + 1 }
  | none => .ok { limit with depth := limit.depth + 1 }

/-- One level further out; depth zero is left as it is. -/
def leave (limit : DepthLimit) : DepthLimit :=
  { limit with depth := limit.depth - 1 }

/-- The message of a refused entry. -/
def exceededMessage (max : Nat) : String :=
  "recursion depth exceeded " ++ toString max

/-- Leaving undoes entering. -/
theorem leave_of_enter {limit inner : DepthLimit} (h : limit.enter = .ok inner) :
    inner.leave = limit := by
  simp only [enter] at h
  split at h
  · split at h
    · contradiction
    · obtain rfl := Except.ok.inj h
      rfl
  · obtain rfl := Except.ok.inj h
    rfl

/-- Without a ceiling no entry is refused. -/
theorem enter_of_max_eq_none {limit : DepthLimit} (h : limit.max = none) :
    limit.enter = .ok { limit with depth := limit.depth + 1 } := by
  simp only [enter, h]

end DepthLimit

end UnaryLisp
