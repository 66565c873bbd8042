import UnaryLisp.Eval.Error

/-!
# The state of an evaluation

An evaluation counts the levels it is nested in, numbers the closures it makes, and keeps a journal
of the procedures it applies. It ends with a value or an error, and either way in a new state; or
it has no room left for another nested evaluation and does not end at all.

## Main definitions

* `Machine`: the state.
* `EvalM`: evaluations that change the state and may fail or run out of room.
* `EvalM.nested`: an evaluation one level further in.
* `EvalM.closure`: a closure with an identity of its own.
-/

namespace UnaryLisp

/-- A procedure applied to an argument, at a depth of nesting. -/
structure Application where
  param : Name
  arg : Value
  depth : Nat
deriving DecidableEq

/-- The state of an evaluation. -/
structure Machine where
  /-- The levels that are under way. -/
  limit : DepthLimit
  /-- The identity of the next closure; all identities in use are below it. -/
  fresh : Nat
  /-- The procedures applied so far, the latest first. -/
  journal : List Application
deriving DecidableEq

/-- An evaluation. It has no result where it runs out of room. -/
abbrev EvalM := ExceptT EvalError (StateT Machine Option)

namespace EvalM

/-- There is no room for another nested evaluation. -/
def outOfRoom {α : Type} : EvalM α :=
  fun _ => none

/-- Runs an evaluation one level further in. The level is left on success and on failure alike. -/
@[inline] def nested {α : Type} (act : EvalM α) : EvalM α := fun machine =>
  match machine.limit.enter with
  | .error max => some (.error (.recursionLimit max), machine)
  | .ok limit =>
    match act { machine with limit } with
    | none => none
    | some (result, after) => some (result, { after with limit := after.limit.leave })

/-- Makes a closure with an identity of its own. -/
@[inline] def closure (env : Environment) (param : Name) (body : Expr) : EvalM Value :=
  fun machine =>
    some (.ok (.closure machine.fresh env param body), { machine with fresh := machine.fresh + 1 })

/-- A value or an error that leaves the state as it is. -/
@[inline] def ofExcept {α : Type} (result : Except EvalError α) : EvalM α := fun machine =>
  some (result, machine)

/-- Notes the application of a procedure. -/
@[inline] def note (param : Name) (arg : Value) : EvalM Unit := fun machine =>
  some (.ok (), { machine with journal := ⟨param, arg, machine.limit.depth⟩ :: machine.journal })

theorem bind_apply {α β : Type} (act : EvalM α) (next : α → EvalM β) (machine : Machine) :
    (act >>= next) machine =
      match act machine with
      | none => none
      | some (.error e, after) => some (.error e, after)
      | some (.ok a, after) => next a after := by
  change (act machine).bind _ = _
  cases act machine with
  | none => rfl
  | some r =>
    obtain ⟨_ | _, _⟩ := r <;> rfl

end EvalM

end UnaryLisp
