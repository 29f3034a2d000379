import TypedTrees.Eval.Operators
import TypedTrees.Guard
import TypedTrees.Store
/-!
The evaluator's machine. Pending work is a list of tasks and operands are kept on a list of values,
so the depth it reaches is bounded by the limit alone. Every step makes the pending work smaller,
measured by the size of the trees that are still to be evaluated (`Machine.cost_step`). A native
that has a tree evaluated does so through `Nested`, which starts a run of its own.
-/
namespace TypedTrees

/-- What an evaluation ends with: a value or an error, the depth it ended at, and the store. -/
structure Evaluated where
  outcome : Except Error Value
  depth : Nat
  store : Store

/-- The evaluation of a tree from a given depth, as natives use it. -/
abbrev Nested : Type := Nat → Node → Env → Store → Evaluated

namespace Lambda

/-- The bindings for a call, if there are as many arguments as parameters. -/
def bindArgs (l : Lambda) (env : Env) (args : List Value) : Except Error Env :=
  if l.arity = args.length then .ok (l.scope env args)
  else .error (.arityMismatch l.arity args.length l.text)

end Lambda

namespace Value

/-- What applying a callable value to arguments comes down to: a body and its bindings. -/
def callTarget (callee : Value) (args : List Value) : Except Error (Node × Env) :=
  match callee with
  | closure l env => (l.bindArgs env args).map fun scope => (l.body, scope)
  | tree l => (l.bindArgs [] args).map fun scope => (l.body, scope)
  | other => .error (.eval (.notCallable other.kindName))

end Value

/-- Carries out what a native does, at the depth of its call. -/
def Procedure.run (nested : Nested) : Procedure → Nat → Store → Evaluated
  | .answer outcome, depth, store => ⟨outcome, depth, store⟩
  | .apply callee args next, depth, store =>
    match callee.callTarget args with
    | .error e => (next (.error e)).run nested depth store
    | .ok (body, scope) =>
      let result := nested depth body scope store
      (next result.outcome).run nested result.depth result.store
  | .evaluate node env next, depth, store =>
    let result := nested depth node env store
    (next result.outcome).run nested result.depth result.store
  | .draw rest next, depth, store =>
    (next store.supply).run nested depth { store with supply := rest store.supply }
  | .change slots next, depth, store =>
    (next store.slots).run nested depth { store with slots := slots store.slots }

/-- The native of a call node, if its callee has one. -/
def Callee.native? : Callee → Option Native
  | .function f => f.native
  | .invoke _ => none

/-- The value of a member read. A null target is refused before the member's reader is looked
for. -/
def Store.readMember (host : Host) (member : Member) (target : Option Value) (store : Store) :
    Except Error Value × Store :=
  match target with
  | some .null => (.error (.eval (.nullRead member.name)), store)
  | target =>
    let (found, store) := store.read host member target
    match found with
    | some v => (.ok v, store)
    | none =>
      let kind := (target.map Value.kindName).getD "nothing"
      (.error (.eval (.unavailable member.path kind)), store)

/-- The value of a field write: the record with the field changed. -/
def Store.writeMember (member : Member) (target value : Value) (store : Store) :
    Except Error Value × Store :=
  match target with
  | .record typeName table =>
    let (table, store) := store.drawing (table.write member.name value)
    (.ok (.record typeName table), store)
  | .null => (.error (.eval (.nullWrite member.name)), store)
  | other => (.error (.eval (.notWritten member.path other.kindName)), store)

namespace Machine

inductive Task where
  | eval (node : Node)
  /-- Combine the operands of this node, which are on top of the values. -/
  | finish (node : Node)
  /-- The left operand of a short-circuiting operator is on top of the values. -/
  | decide (op : BinaryOp) (left right : Node)
  /-- The right operand of a short-circuiting operator is on top and must be a boolean. -/
  | expectBool (node : Node)
  /-- The test of a conditional is on top of the values. -/
  | branch (test ifTrue ifFalse : Node)
  /-- The chosen branch of a conditional is done. -/
  | leave

/-- The pending work, next task first; the values, latest first; the depth; the store. -/
structure Config where
  tasks : List Task
  values : List Value
  depth : Nat
  store : Store

inductive Progress where
  | running (config : Config)
  | finished (evaluated : Evaluated)

/-- What a node needs before it has a value. -/
inductive Plan where
  | value (v : Value)
  | tasks (tasks : List Task)
  | failure (e : Error)

/-- A leaf has its value at once; any other node schedules its operands, in order of evaluation,
and what is to be done with them. A call without a native fails before its operands are looked
at. -/
def plan (env : Env) (node : Node) : Plan :=
  match node.expr with
  | .parameter param =>
    match env.lookup param.id with
    | some v => .value v
    | none => .failure (.eval (.unbound param.name))
  | .constant v _ => .value v
  | .lambda l => .value (.closure l env)
  | .member target _ => .tasks (target.toList.map .eval ++ [.finish node])
  | .call receiver callee args _ =>
    match callee.native? with
    | some _ => .tasks (receiver.toList.map .eval ++ args.map .eval ++ [.finish node])
    | none => .failure (.directInvocation node.text)
  | .unary _ operand _ => .tasks [.eval operand, .finish node]
  | .binary op left right _ =>
    if op = .andAlso ∨ op = .orElse then .tasks [.eval left, .decide op left right]
    else .tasks [.eval left, .eval right, .finish node]
  | .condition test ifTrue ifFalse _ => .tasks [.eval test, .branch test ifTrue ifFalse]
  | .record _ fields => .tasks (fields.map (fun field => .eval field.2) ++ [.finish node])
  | .setMember target _ value => .tasks [.eval target, .eval value, .finish node]

def pop : List Value → Value × List Value
  | [] => (.null, [])
  | v :: values => (v, values)

/-- The top `count` values, in the order they were pushed, and the values below them. -/
def popMany (count : Nat) (values : List Value) : List Value × List Value :=
  ((values.take count).reverse, values.drop count)

def finish (nested : Nested) (host : Host) (node : Node) (values : List Value) (depth : Nat)
    (store : Store) : Evaluated × List Value :=
  match node.expr with
  | .member target member =>
    let (target, values) := match target with
      | none => (none, values)
      | some _ => let (v, values) := pop values; (some v, values)
    let (outcome, store) := store.readMember host member target
    (⟨outcome, depth, store⟩, values)
  | .call receiver callee args _ =>
    match callee.native? with
    | none => (⟨.error (.directInvocation node.text), depth, store⟩, values)
    | some native =>
      let (operands, values) := popMany (receiver.toList.length + args.length) values
      ((native.procedure host operands).run nested depth store, values)
  | .unary op _ _ =>
    let (v, values) := pop values
    (⟨op.apply v, depth, store⟩, values)
  | .binary op _ _ _ =>
    let (r, values) := pop values
    let (l, values) := pop values
    (⟨op.apply l r, depth, store⟩, values)
  | .record typeName fields =>
    let (operands, values) := popMany fields.length values
    let (record, store) :=
      store.newRecord typeName ((fields.map Prod.fst).zip operands)
    (⟨.ok record, depth, store⟩, values)
  | .setMember _ member _ =>
    let (value, values) := pop values
    let (target, values) := pop values
    let (outcome, store) := store.writeMember member target value
    (⟨outcome, depth, store⟩, values)
  | _ => (⟨.error (.eval (.nothingToCombine node.text)), depth, store⟩, values)

/-- The boolean on top of the values, which is the value of `node`. -/
def popBool (node : Node) (values : List Value) : Except Error Bool × List Value :=
  let (v, values) := pop values
  match v.asBool? with
  | some b => (.ok b, values)
  | none => (.error (.eval (.notBool node.text v.text)), values)

/-- One step: the next task is done. `root` is the tree that the run started from. -/
def step (nested : Nested) (host : Host) (limit : Nat) (env : Env) (root : Node) (c : Config) :
    Progress :=
  match c.tasks with
  | [] =>
    match c.values with
    | v :: _ => .finished ⟨.ok v, c.depth, c.store⟩
    | [] => .finished ⟨.error (.eval (.noValue root.text)), c.depth, c.store⟩
  | .eval node :: rest =>
    if limit ≤ c.depth then .finished ⟨.error (.recursionLimit limit), c.depth, c.store⟩
    else
      match plan env node with
      | .value v => .running ⟨rest, v :: c.values, c.depth, c.store⟩
      | .tasks tasks => .running ⟨tasks ++ rest, c.values, c.depth + 1, c.store⟩
      | .failure e => .finished ⟨.error e, c.depth + 1, c.store⟩
  | .finish node :: rest =>
    let (result, values) := finish nested host node c.values c.depth c.store
    match result.outcome with
    | .ok v => .running ⟨rest, v :: values, result.depth - 1, result.store⟩
    | .error _ => .finished result
  | .decide op left right :: rest =>
    match popBool left c.values with
    | (.error e, _) => .finished ⟨.error e, c.depth, c.store⟩
    | (.ok first, values) =>
      if first = (op == .orElse) then
        .running ⟨rest, .bool first :: values, c.depth - 1, c.store⟩
      else .running ⟨.eval right :: .expectBool right :: rest, values, c.depth, c.store⟩
  | .expectBool node :: rest =>
    match popBool node c.values with
    | (.error e, _) => .finished ⟨.error e, c.depth, c.store⟩
    | (.ok b, values) => .running ⟨rest, .bool b :: values, c.depth - 1, c.store⟩
  | .branch test ifTrue ifFalse :: rest =>
    match popBool test c.values with
    | (.error e, _) => .finished ⟨.error e, c.depth, c.store⟩
    | (.ok b, values) =>
      let chosen := if b then ifTrue else ifFalse
      .running ⟨.eval chosen :: .leave :: rest, values, c.depth, c.store⟩
  | .leave :: rest => .running ⟨rest, c.values, c.depth - 1, c.store⟩

noncomputable def Task.cost : Task → Nat
  | .eval node => 2 * sizeOf node
  | .decide _ _ right => 2 * sizeOf right + 2
  | .branch _ ifTrue ifFalse => 2 * (sizeOf ifTrue + sizeOf ifFalse) + 2
  | _ => 1

/-- How much evaluation the pending work may still lead to. -/
noncomputable def cost : List Task → Nat
  | [] => 0
  | task :: tasks => task.cost + cost tasks

@[simp] theorem cost_nil : cost [] = 0 := rfl

@[simp] theorem cost_cons (task : Task) (tasks : List Task) :
    cost (task :: tasks) = task.cost + cost tasks := rfl

@[simp] theorem cost_append (tasks more : List Task) :
    cost (tasks ++ more) = cost tasks + cost more := by
  induction tasks with
  | nil => simp
  | cons task tasks ih => simp [ih, Nat.add_assoc]

theorem cost_map_eval (nodes : List Node) : cost (nodes.map .eval) ≤ 2 * sizeOf nodes := by
  induction nodes with
  | nil => simp
  | cons node nodes ih =>
    simp only [List.map_cons, cost_cons, Task.cost, List.cons.sizeOf_spec]
    omega

theorem cost_map_eval_fields (fields : List (String × Node)) :
    cost (fields.map fun field => .eval field.2) ≤ 2 * sizeOf fields := by
  induction fields with
  | nil => simp
  | cons field fields ih =>
    obtain ⟨name, node⟩ := field
    simp only [List.map_cons, cost_cons, Task.cost, List.cons.sizeOf_spec, Prod.mk.sizeOf_spec]
    omega

theorem cost_option (target : Option Node) :
    cost (target.toList.map .eval) ≤ 2 * sizeOf target := by
  cases target with
  | none => simp
  | some target =>
    simp only [Option.toList_some, List.map_cons, List.map_nil, cost_cons, cost_nil, Task.cost,
      Option.some.sizeOf_spec]
    omega

/-- What a node schedules costs less than the node. -/
theorem cost_plan {env : Env} {node : Node} {tasks : List Task} (h : plan env node = .tasks tasks) :
    cost tasks < (Task.eval node).cost := by
  obtain ⟨mark, expr⟩ := node
  simp only [plan, Node.expr] at h
  cases expr with
  | parameter param => simp only at h; split at h <;> cases h
  | constant v ty => cases h
  | lambda l => cases h
  | member target member =>
    cases h
    have := cost_option target
    simp [Task.cost]
    omega
  | call receiver callee args ty =>
    simp only at h
    split at h
    · cases h
      have := cost_option receiver
      have := cost_map_eval args
      simp [Task.cost]
      omega
    · cases h
  | unary op operand ty =>
    cases h
    simp [Task.cost]
    omega
  | binary op left right ty =>
    simp only at h
    split at h <;> cases h <;> simp [Task.cost] <;> omega
  | condition test ifTrue ifFalse ty =>
    cases h
    simp [Task.cost]
    omega
  | record typeName fields =>
    cases h
    have := cost_map_eval_fields fields
    simp [Task.cost]
    omega
  | setMember target member value =>
    cases h
    simp [Task.cost]
    omega

/-- Every step leaves less to be done. -/
theorem cost_step {nested : Nested} {host : Host} {limit : Nat} {env : Env} {root : Node}
    {c c' : Config} (h : step nested host limit env root c = .running c') :
    cost c'.tasks < cost c.tasks := by
  obtain ⟨tasks, values, depth, store⟩ := c
  match tasks with
  | [] => simp only [step] at h; split at h <;> cases h
  | .eval node :: rest =>
    simp only [step] at h
    split at h
    · cases h
    · split at h
      · cases h
        have : 0 < sizeOf node := by
          cases node
          simp only [Node.mk.sizeOf_spec]
          omega
        simp [Task.cost]
        omega
      · rename_i planned
        cases h
        have := cost_plan planned
        simp
        omega
      · cases h
  | .finish node :: rest =>
    simp only [step] at h
    split at h
    · cases h
      simp [Task.cost]
    · cases h
  | .decide op left right :: rest =>
    simp only [step] at h
    split at h
    · cases h
    · split at h <;> cases h <;> simp [Task.cost]
      omega
  | .expectBool node :: rest =>
    simp only [step] at h
    split at h
    · cases h
    · cases h
      simp [Task.cost]
  | .branch test ifTrue ifFalse :: rest =>
    simp only [step] at h
    split at h
    · cases h
    · cases h
      simp only [cost_cons, Task.cost]
      split <;> omega
  | .leave :: rest =>
    cases h
    simp [Task.cost]

/-- Steps until the work is done. -/
def run (nested : Nested) (host : Host) (limit : Nat) (env : Env) (root : Node) (c : Config) :
    Evaluated :=
  match _follows : step nested host limit env root c with
  | .finished evaluated => evaluated
  | .running c' => run nested host limit env root c'
termination_by cost c.tasks
decreasing_by exact cost_step _follows

end Machine

end TypedTrees
