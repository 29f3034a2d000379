import TypedTrees.Eval.Machine
/-!
Evaluation of trees. The levels left below the limit bound how often natives can have evaluations
started inside one another, since a native runs with the level of its call still entered; so every
evaluation ends.
-/
namespace TypedTrees

/-- Evaluates a tree one level below `depth`, with at most `room` levels to go. After an error the
depth is back where the evaluation started. -/
def evaluateWithin (host : Host) (limit : Nat) : Nat → Nested
  | 0, depth, _, _, store => ⟨.error (.recursionLimit limit), depth, store⟩
  | room + 1, depth, node, env, store =>
    let evaluated := Machine.run (evaluateWithin host limit room) host limit env node
      ⟨[.eval node], [], depth, store⟩
    match evaluated.outcome with
    | .ok _ => evaluated
    | .error _ => { evaluated with depth := min evaluated.depth depth }

/-- Evaluates a tree one level below `depth` under `limit`. -/
def evaluateFrom (host : Host) (limit depth : Nat) (node : Node) (env : Env) (store : Store) :
    Evaluated :=
  evaluateWithin host limit (limit - depth) depth node env store

/-- An evaluator: what it keeps from one evaluation to the next is its guard. -/
structure Evaluator where
  guard : DepthGuard := {}

namespace Evaluator

/-- A new evaluator with a limit of its own. -/
def withMaxDepth (limit : Nat) : Evaluator := ⟨{ limit := some limit }⟩

def evaluate (evaluator : Evaluator) (host : Host) (sessionLimit : Nat) (node : Node) (env : Env)
    (store : Store) : Except Error Value × Evaluator × Store :=
  let guard := evaluator.guard
  let evaluated :=
    evaluateFrom host (guard.bound sessionLimit) guard.current node env store
  (evaluated.outcome, ⟨{ guard with current := evaluated.depth }⟩, evaluated.store)

def applyLambda (evaluator : Evaluator) (host : Host) (sessionLimit : Nat) (l : Lambda) (env : Env)
    (args : List Value) (store : Store) : Except Error Value × Evaluator × Store :=
  match l.bindArgs env args with
  | .error e => (.error e, evaluator, store)
  | .ok scope => evaluator.evaluate host sessionLimit l.body scope store

/-- Applies a callable value: a closure where it was made, a lambda tree without any bindings. -/
def apply (evaluator : Evaluator) (host : Host) (sessionLimit : Nat) (callee : Value)
    (args : List Value) (store : Store) : Except Error Value × Evaluator × Store :=
  match callee.callTarget args with
  | .error e => (.error e, evaluator, store)
  | .ok (body, scope) => evaluator.evaluate host sessionLimit body scope store

end Evaluator

def Node.evaluate (host : Host) (limit : Nat) (node : Node) (store : Store) :
    Except Error Value × Store :=
  let evaluated := evaluateFrom host limit 0 node [] store
  (evaluated.outcome, evaluated.store)

def Lambda.invoke (host : Host) (limit : Nat) (l : Lambda) (args : List Value) (store : Store) :
    Except Error Value × Store :=
  match l.bindArgs [] args with
  | .error e => (.error e, store)
  | .ok scope =>
    let evaluated := evaluateFrom host limit 0 l.body scope store
    (evaluated.outcome, evaluated.store)

end TypedTrees
