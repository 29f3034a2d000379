import TypedTrees.Eval.Evaluator
/-!
The evaluator step by step, the callbacks of natives included. `Machine.step` takes the whole call
of a native for one step, with every evaluation that the native starts. Here such an evaluation is a
run of its own, and the natives that wait for one are kept on a stack with the runs that have called
them. Nothing but the limit on depth bounds how many runs there are or how long they go on.
-/
namespace TypedTrees

namespace Callbacks

/-- A run of the machine: the tree and the bindings that it evaluates, the depth that it started
from, its pending work and its values. -/
structure Run where
  root : Node
  env : Env
  base : Nat
  tasks : List Machine.Task
  values : List Value

/-- A native that waits for an evaluation, and the run that has called it. -/
structure Caller where
  next : Except Error Value → Procedure
  run : Run

inductive State where
  /-- A run goes on with its next task. -/
  | working (run : Run) (callers : List Caller) (depth : Nat) (store : Store)
  /-- A native that the run has called goes on. -/
  | native (procedure : Procedure) (run : Run) (callers : List Caller) (depth : Nat) (store : Store)
  | ended (evaluated : Evaluated)

/-- The state in which the evaluation of a tree starts. -/
def start (node : Node) (env : Env) (callers : List Caller) (depth : Nat) (store : Store) : State :=
  .working ⟨node, env, depth, [.eval node], []⟩ callers depth store

/-- What a run has ended with goes to the native that waits for it. -/
def resume : List Caller → Evaluated → State
  | [], evaluated => .ended evaluated
  | caller :: callers, evaluated =>
    .native (caller.next evaluated.outcome) caller.run callers evaluated.depth evaluated.store

/-- A run ends. After an error the depth is back where the run started. -/
def finish (run : Run) (callers : List Caller) (evaluated : Evaluated) : State :=
  match evaluated.outcome with
  | .ok _ => resume callers evaluated
  | .error _ => resume callers { evaluated with depth := min evaluated.depth run.base }

/-- If the next task calls a native: what the native does, and the run without the task and the
operands. -/
def called? (host : Host) (run : Run) : Option (Procedure × Run) :=
  match run.tasks with
  | .finish node :: rest =>
    match node.expr with
    | .call receiver callee args _ =>
      callee.native?.map fun native =>
        let (operands, values) :=
          Machine.popMany (receiver.toList.length + args.length) run.values
        (native.procedure host operands, { run with tasks := rest, values })
    | _ => none
  | _ => none

/-- One step of a run, or of a native. There is none after the end. -/
def step (host : Host) (limit : Nat) : State → Option State
  | .working run callers depth store =>
    match called? host run with
    | some (procedure, run) => some (.native procedure run callers depth store)
    | none =>
      -- the machine starts no evaluation of its own but for a native, so it is given an idle one
      match Machine.step (evaluateWithin host limit 0) host limit run.env run.root
          ⟨run.tasks, run.values, depth, store⟩ with
      | .running c =>
        some (.working { run with tasks := c.tasks, values := c.values } callers c.depth c.store)
      | .finished evaluated => some (finish run callers evaluated)
  | .native (.answer (.ok v)) run callers depth store =>
    some (.working { run with values := v :: run.values } callers (depth - 1) store)
  | .native (.answer (.error e)) run callers depth store =>
    some (finish run callers ⟨.error e, depth, store⟩)
  | .native (.apply callee args next) run callers depth store =>
    match callee.callTarget args with
    | .error e => some (.native (next (.error e)) run callers depth store)
    | .ok (body, scope) => some (start body scope (⟨next, run⟩ :: callers) depth store)
  | .native (.evaluate node env next) run callers depth store =>
    some (start node env (⟨next, run⟩ :: callers) depth store)
  | .native (.draw rest next) run callers depth store =>
    some (.native (next store.supply) run callers depth { store with supply := rest store.supply })
  | .native (.change slots next) run callers depth store =>
    some (.native (next store.slots) run callers depth { store with slots := slots store.slots })
  | .ended _ => none

end Callbacks

end TypedTrees
