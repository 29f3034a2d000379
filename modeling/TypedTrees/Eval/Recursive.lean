import TypedTrees.Eval.Machine
/-!
Evaluation by plain recursion on the levels left. This says what each kind of node comes to, without
the machine's pending work and operand stack: operands are evaluated from left to right and the
first failure ends it, a short-circuiting operator and a conditional evaluate only what they need,
and a native runs with the level of its call still entered.
-/
namespace TypedTrees

/-- The evaluation of a tree under bindings, as natives and operands use it. -/
abbrev Evaluation : Type := Node → Env → Store → Except Error Value × Store

/-- Carries out what a native does, given how trees are evaluated. -/
def Procedure.carryOut (evaluation : Evaluation) : Procedure → Store → Except Error Value × Store
  | .answer outcome, store => (outcome, store)
  | .apply callee args next, store =>
    match callee.callTarget args with
    | .error e => (next (.error e)).carryOut evaluation store
    | .ok (body, scope) =>
      let (outcome, store) := evaluation body scope store
      (next outcome).carryOut evaluation store
  | .evaluate node env next, store =>
    let (outcome, store) := evaluation node env store
    (next outcome).carryOut evaluation store
  | .draw rest next, store =>
    (next store.supply).carryOut evaluation { store with supply := rest store.supply }
  | .change slots next, store =>
    (next store.slots).carryOut evaluation { store with slots := slots store.slots }

namespace Evaluation

/-- The values of several trees, from left to right. The first failure ends it. -/
def all (evaluation : Evaluation) (env : Env) :
    List Node → Store → Except Error (List Value) × Store
  | [], store => (.ok [], store)
  | node :: rest, store =>
    match evaluation node env store with
    | (.error e, store) => (.error e, store)
    | (.ok v, store) =>
      match all evaluation env rest store with
      | (.error e, store) => (.error e, store)
      | (.ok vs, store) => (.ok (v :: vs), store)

/-- The value of a tree that has to be a boolean. -/
def truth (evaluation : Evaluation) (env : Env) (node : Node) (store : Store) :
    Except Error Bool × Store :=
  match evaluation node env store with
  | (.error e, store) => (.error e, store)
  | (.ok v, store) =>
    match v.asBool? with
    | some b => (.ok b, store)
    | none => (.error (.eval (.notBool node.text v.text)), store)

/-- The value of a node of any kind, given how the trees one level below it are evaluated. -/
def ofNode (below : Evaluation) (host : Host) : Evaluation := fun node env store =>
  match node.expr with
  | .parameter param =>
    match env.lookup param.id with
    | some v => (.ok v, store)
    | none => (.error (.eval (.unbound param.name)), store)
  | .constant v _ => (.ok v, store)
  | .lambda l => (.ok (.closure l env), store)
  | .member none m => store.readMember host m none
  | .member (some target) m =>
    match below target env store with
    | (.error e, store) => (.error e, store)
    | (.ok v, store) => store.readMember host m (some v)
  | .call receiver callee args _ =>
    match callee.native? with
    | none => (.error (.directInvocation node.text), store)
    | some native =>
      match below.all env (receiver.toList ++ args) store with
      | (.error e, store) => (.error e, store)
      | (.ok operands, store) => (native.procedure host operands).carryOut below store
  | .unary op operand _ =>
    match below operand env store with
    | (.error e, store) => (.error e, store)
    | (.ok v, store) => (op.apply v, store)
  | .binary op left right _ =>
    if op = .andAlso ∨ op = .orElse then
      match below.truth env left store with
      | (.error e, store) => (.error e, store)
      | (.ok first, store) =>
        if first = (op == .orElse) then (.ok (.bool first), store)
        else
          let (outcome, store) := below.truth env right store
          (outcome.map .bool, store)
    else
      match below left env store with
      | (.error e, store) => (.error e, store)
      | (.ok l, store) =>
        match below right env store with
        | (.error e, store) => (.error e, store)
        | (.ok r, store) => (op.apply l r, store)
  | .condition test ifTrue ifFalse _ =>
    match below.truth env test store with
    | (.error e, store) => (.error e, store)
    | (.ok b, store) => below (if b then ifTrue else ifFalse) env store
  | .record typeName fields =>
    match below.all env (fields.map Prod.snd) store with
    | (.error e, store) => (.error e, store)
    | (.ok operands, store) =>
      let (record, store) :=
        store.newRecord typeName ((fields.map Prod.fst).zip operands)
      (.ok record, store)
  | .setMember target m value =>
    match below target env store with
    | (.error e, store) => (.error e, store)
    | (.ok t, store) =>
      match below value env store with
      | (.error e, store) => (.error e, store)
      | (.ok v, store) => store.writeMember m t v

/-- Evaluation with a number of levels left under `limit`. -/
def within (host : Host) (limit : Nat) : Nat → Evaluation
  | 0 => fun _ _ store => (.error (.recursionLimit limit), store)
  | room + 1 => ofNode (within host limit room) host

end Evaluation

end TypedTrees
