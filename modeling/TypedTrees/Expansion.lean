import TypedTrees.Constant
import TypedTrees.Registry
import TypedTrees.Substitution
/-!
Expansion of the calls that refer to other trees. A reference call is replaced by the body of the
lambda tree that its holder denotes, a call of a substitute by the body of the lambda that the
function stands for, in both cases with the arguments in place of the parameters. What is put in is
expanded in turn, under the same guard, so that no such call is left in the end. Each replacement
is recorded once its expansion is complete.
-/
namespace TypedTrees

/-- What an expansion step put in place of a call. -/
inductive ExpansionKind where
  | reference (shape : InvokeShape)
  | substitute (name : String)
  deriving DecidableEq

namespace ExpansionKind

def text : ExpansionKind → String
  | reference shape => "invoke/" ++ toString shape.arity
  | substitute name => name

/-- The kind of step that replaces a call of this callee. -/
def of : Callee → ExpansionKind
  | .invoke shape => reference shape
  | .function f => substitute f.name

end ExpansionKind

/-- One replacement: the call, and the fully expanded tree put in its place. -/
structure ExpansionStep where
  kind : ExpansionKind
  input : Node
  output : Node

/-- The state of an expansion: the session, and the steps so far, latest first. -/
structure ExpansionState where
  session : Session
  steps : List ExpansionStep := []

/-- The body of a lambda with the arguments of `call` put in, going on from the call's depth. -/
def Lambda.inline (limit depth : Nat) (call : Node) (l : Lambda) (args : List Node) : Making Node :=
  fun supply =>
    if l.arity = args.length then
      l.body.substituteFrom limit depth (.zip l.params args) supply
    else
      (.error (.arityMismatch l.arity args.length (l.text ++ " (called as " ++ call.text ++ ")")),
        supply)

/-- The lambda that a call node stands for, if the call is one to expand. -/
def Session.referenced (host : Host) (registry : Nat) (call : Node) (callee : Callee)
    (args : List Node) (session : Session) : Except Error (Option Lambda) × Session :=
  match callee, args with
  | .invoke _, [] => (.error (.invalidArgument .missingHolder), session)
  | .invoke _, holder :: _ =>
    let (found, store) := holder.denoted? host session.store
    let session := { session with store }
    match found with
    | some (.tree l) => (.ok (some l), session)
    | _ => (.error (.unresolvableReference call.text), session)
  | .function f, _ => session.quotedBody registry f

/-- The arguments that take the place of the lambda's parameters: for a reference call, those after
the holder. -/
def Callee.passed : Callee → List Node → List Node
  | .invoke _, args => args.tail
  | .function _, args => args

def expansionPass (host : Host) (registry limit : Nat) : Pass ExpansionState where
  visit := fun depth node state =>
    match node.expr with
    | .call _ callee args _ =>
      match state.session.referenced host registry node callee args with
      | (.error e, session) => (.error e, { state with session })
      | (.ok none, session) => (.ok .descend, { state with session })
      | (.ok (some l), session) =>
        let (inlined, session) := session.drawing (l.inline limit depth node (callee.passed args))
        (inlined.map .replace, { state with session })
    | _ => (.ok .descend, state)
  replaced := fun _ call output state =>
    match call.expr with
    | .call _ callee _ _ =>
      { state with steps := ⟨.of callee, call, output⟩ :: state.steps }
    | _ => state
  draw := fun state =>
    let (mark, session) := state.session.drawing Supply.draw
    (mark, { state with session })

/-- An expander: the registry it goes by, its guard, and the steps it has made, in the order of
their completion. -/
structure Expander where
  registry : Nat := Session.globalRegistry
  guard : DepthGuard := {}
  trace : List ExpansionStep := []

namespace Expander

/-- Expands a tree. The steps made before a failure stay in the trace. -/
def expand (expander : Expander) (host : Host) (node : Node) (session : Session) :
    Except Error Node × Expander × Session :=
  let guard := expander.guard
  let limit := guard.bound session.limit
  let result :=
    (expansionPass host expander.registry limit).run limit guard.current node { session }
  (result.outcome,
    { expander with
      guard := { guard with current := result.depth }
      trace := expander.trace ++ result.state.steps.reverse },
    result.state.session)

/-- Expands the body of a lambda. Its parameters and its result type are kept. -/
def expandLambda (expander : Expander) (host : Host) (l : Lambda) (session : Session) :
    Except Error Lambda × Expander × Session :=
  let (outcome, expander, session) := expander.expand host l.body session
  (outcome.map fun body => ⟨l.params, body, l.ret⟩, expander, session)

def clearTrace (expander : Expander) : Expander := { expander with trace := [] }

/-- The expander with a limit of its own in place of the session's, and with no level entered. -/
def withMaxDepth (expander : Expander) (limit : Nat) : Expander :=
  { expander with guard := { limit := some limit } }

end Expander

/-- Expands a tree, going by the registry that is used by default. -/
def Node.expand (host : Host) (node : Node) (session : Session) :
    Except Error Node × Session :=
  let (outcome, _, session) := ({} : Expander).expand host node session
  (outcome, session)

/-- Expands the body of a lambda, going by the registry that is used by default. -/
def Lambda.expand (host : Host) (l : Lambda) (session : Session) :
    Except Error Lambda × Session :=
  let (outcome, _, session) := ({} : Expander).expandLambda host l session
  (outcome, session)

end TypedTrees
