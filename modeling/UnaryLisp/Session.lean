import UnaryLisp.Program.Basic
import UnaryLisp.Value.Dump

/-!
# Sessions

A session keeps one state of evaluation and named registers of values and environments. Its steps
evaluate expressions, build environments and closures, and look at what there is. A step that fails
stores nothing, and the session goes on.

## Main definitions

* `Session`: the state of evaluation and the registers.
* `Session.Step`, `Session.Answer`: what a session is asked, and what it says.
* `Session.step`, `Session.run`: one step, and a sequence of steps.
-/

namespace UnaryLisp

/-- The dump of a depth limit. -/
def DepthLimit.dump (limit : DepthLimit) : String :=
  let max := match limit.max with
    | some max => "Some(" ++ toString max ++ ")"
    | none => "None"
  record "DepthLimit" [("depth", toString limit.depth), ("max", max)]

/-- The dump of a state of evaluation, of which only the depth is shown. -/
def Machine.dump (machine : Machine) : String :=
  record "Evaluator" [("depth", machine.limit.dump)]

/-- A state of evaluation with named environments and values. -/
structure Session where
  machine : Machine
  environments : List (Text × Environment)
  values : List (Text × Value)

namespace Session

/-- The register of the empty environment, which every session starts with. -/
def emptyRegister : Text := "empty".toList

/-- A step of a session. `store` names the register for the resulting value. -/
inductive Step where
  /-- Reads and evaluates an expression in an environment. -/
  | eval (text env : Text) (store : Option Text)
  /-- Binds a name to a value inside an environment. -/
  | extend (env : Text) (name : Name) (value store : Text)
  /-- Looks a name up in an environment. -/
  | lookup (env : Text) (name : Name) (store : Option Text)
  /-- Shows an environment. -/
  | environment (env : Text)
  /-- Makes a closure with the body that a text spells. -/
  | closure (param : Name) (body env : Text) (store : Option Text)
  /-- Compares two values. -/
  | equal (left right : Text)
  /-- Applies an operator to two values. -/
  | binary (op : Operator) (left right : Text) (store : Option Text)
  /-- Shows the state of evaluation. -/
  | machine
  /-- Starts the depth counter anew. -/
  | reset (maxDepth : Option Nat)

/-- What a session says to a step. -/
inductive Answer where
  | value (value : Value)
  | unbound
  | extended (new old : Environment)
  | environment (env : Environment)
  | equal (same : Bool)
  | machine (machine : Machine)
  | failed (cause : Failure)
  | noRegister (name : Text)

/-- A session at its start. -/
def new (maxDepth : Option Nat) : Session :=
  ⟨⟨.new maxDepth, 0, []⟩, [(emptyRegister, .empty)], []⟩

/-- Keeps a value in a register. -/
def keep (session : Session) (store : Option Text) (value : Value) : Session :=
  match store with
  | some name => { session with values := (name, value) :: session.values }
  | none => session

/-- Goes on with the environment in a register. -/
def withEnvironment (session : Session) (name : Text)
    (next : Environment → Option (Answer × Session)) : Option (Answer × Session) :=
  match session.environments.lookup name with
  | some env => next env
  | none => some (.noRegister name, session)

/-- Goes on with the value in a register. -/
def withValue (session : Session) (name : Text)
    (next : Value → Option (Answer × Session)) : Option (Answer × Session) :=
  match session.values.lookup name with
  | some value => next value
  | none => some (.noRegister name, session)

/-- Goes on with the expression that a text spells. -/
def withExpr (session : Session) (text : Text)
    (next : Expr → Option (Answer × Session)) : Option (Answer × Session) :=
  match Expr.parse text with
  | .ok expr => next expr
  | .error cause => some (.failed (.malformed cause), session)

/-- The answer and the session after an evaluation. -/
def finish (session : Session) (store : Option Text) (outcome : Except EvalError Value)
    (machine : Machine) : Answer × Session :=
  let after := { session with machine }
  match outcome with
  | .ok value => (.value value, after.keep store value)
  | .error cause => (.failed (.undefined cause), after)

/-- One step of a session. -/
def step (room : Nat) (session : Session) : Step → Option (Answer × Session)
  | .eval text env store =>
    session.withEnvironment env fun env =>
      session.withExpr text fun expr =>
        (expr.eval room env session.machine).map fun (outcome, machine) =>
          session.finish store outcome machine
  | .extend env name value store =>
    session.withEnvironment env fun old =>
      session.withValue value fun value =>
        let new := old.bind name value
        some (.extended new old,
          { session with environments := (store, new) :: session.environments })
  | .lookup env name store =>
    session.withEnvironment env fun env =>
      match env.lookup name with
      | some value => some (.value value, session.keep store value)
      | none => some (.unbound, session)
  | .environment env => session.withEnvironment env fun env => some (.environment env, session)
  | .closure param body env store =>
    session.withEnvironment env fun env =>
      session.withExpr body fun body =>
        (EvalM.closure env param body session.machine).map fun (outcome, machine) =>
          session.finish store outcome machine
  | .equal left right =>
    session.withValue left fun left =>
      session.withValue right fun right => some (.equal (left.same right), session)
  | .binary op left right store =>
    session.withValue left fun left =>
      session.withValue right fun right =>
        some (session.finish store (op.apply left right) session.machine)
  | .machine => some (.machine session.machine, session)
  | .reset maxDepth =>
    let machine := { session.machine with limit := .new maxDepth }
    some (.machine machine, { session with machine })

/-- The answers to a sequence of steps. -/
def run (room : Nat) : Session → List Step → Option (List Answer)
  | _, [] => some []
  | session, step :: steps =>
    match session.step room step with
    | none => none
    | some (answer, after) => (run room after steps).map (answer :: ·)

end Session

end UnaryLisp
