import TypedTrees.Proofs.Eval.Levels
import TypedTrees.Proofs.Termination
/-!
Evaluations that call no native but the builtin ones. Where a tree, the values that it can get at
and the lambdas in these hold no other calls (`Node.OfBuiltins`), each step of its evaluation leaves
nothing else to be done, what builtin natives apply included (`Callbacks.State.OfBuiltins.step`),
and so no other native is ever called (`Callbacks.CallsBuiltins.of_ofBuiltins`).
-/
namespace TypedTrees

mutual

/-- Every call in the lambdas that the value holds is of a builtin native, or has none. -/
inductive Value.OfBuiltins : Value → Prop
  | scalar {v : Value} (isScalar : v.isScalar = true) : Value.OfBuiltins v
  | seq {items : List Value} (each : ∀ v ∈ items, Value.OfBuiltins v) :
      Value.OfBuiltins (.seq items)
  | record {typeName : String} {table : FieldTable Value}
      (each : ∀ field ∈ table.fields, Value.OfBuiltins field.2) :
      Value.OfBuiltins (.record typeName table)
  | tree {l : Lambda} (body : Node.OfBuiltins l.body) : Value.OfBuiltins (.tree l)
  | closure {l : Lambda} {env : Env} (body : Node.OfBuiltins l.body)
      (each : ∀ binding ∈ env, Value.OfBuiltins binding.2) : Value.OfBuiltins (.closure l env)

/-- Every call in the tree and in what its constants hold is of a builtin native, or has none. -/
inductive Node.OfBuiltins : Node → Prop
  | mk {node : Node}
      (native : ∀ receiver callee args ty native, node.expr = .call receiver callee args ty →
        callee.native? = some native → ∃ which, native = .builtin which)
      (constant : ∀ v ty, node.expr = .constant v ty → Value.OfBuiltins v)
      (children : ∀ child ∈ node.expr.children, Node.OfBuiltins child) : Node.OfBuiltins node

end

namespace Node.OfBuiltins

variable {node : Node}

theorem native (only : node.OfBuiltins) {receiver : Option Node} {callee : Callee}
    {args : List Node} {ty : Ty} {native : Native}
    (isCall : node.expr = .call receiver callee args ty) (has : callee.native? = some native) :
    ∃ which, native = .builtin which := by
  cases only with
  | mk calls _ _ => exact calls receiver callee args ty native isCall has

theorem constant (only : node.OfBuiltins) {v : Value} {ty : Ty}
    (isConstant : node.expr = .constant v ty) : v.OfBuiltins := by
  cases only with
  | mk _ constant _ => exact constant v ty isConstant

theorem child (only : node.OfBuiltins) {child : Node} (member : child ∈ node.expr.children) :
    child.OfBuiltins := by
  cases only with
  | mk _ _ children => exact children child member

end Node.OfBuiltins

/-! ### Values -/

abbrev Env.OfBuiltins (env : Env) : Prop := ∀ binding ∈ env, binding.2.OfBuiltins

/-- What a computed property reads off a value without other calls has no other calls in it. -/
def Host.ReadsBuiltins (host : Host) : Prop :=
  ∀ name v w, host.property name v = some w → v.OfBuiltins → w.OfBuiltins

theorem Host.basic_readsBuiltins : Host.basic.ReadsBuiltins := by
  intro name v w has only
  simp only [basic, basicProperty] at has
  split at has
  · cases has
    exact only
  · cases has
    exact .scalar rfl
  · cases has

/-- A value that an evaluation comes to is one without other calls. -/
abbrev EndsOfBuiltins : Except Error Value → Prop := EndsWith (fun _ => True) Value.OfBuiltins

theorem EndsWith.ofBuiltins {admits : Error → Prop} {good : Value → Prop}
    {outcome : Except Error Value} (ends : EndsWith admits good outcome)
    (only : ∀ v, good v → v.OfBuiltins) : EndsOfBuiltins outcome := by
  cases outcome with
  | ok v => exact only v ends
  | error e => trivial

namespace Value.OfBuiltins

theorem field {typeName : String} {table : FieldTable Value}
    (only : (Value.record typeName table).OfBuiltins) :
    ∀ field ∈ table.fields, field.2.OfBuiltins := by
  cases only with
  | scalar isScalar => cases isScalar
  | record each => exact each

theorem item {items : List Value} (only : (Value.seq items).OfBuiltins) :
    ∀ v ∈ items, v.OfBuiltins := by
  cases only with
  | scalar isScalar => cases isScalar
  | seq each => exact each

theorem scope {l : Lambda} {env : Env} (each : env.OfBuiltins) {args : List Value}
    (only : ∀ v ∈ args, v.OfBuiltins) : Env.OfBuiltins (l.scope env args) := by
  intro binding member
  rcases Keyed.mem_of_mem_insertAll member with new | old
  · exact only _ (List.of_mem_zip new).2
  · exact each binding old

/-- What a call of the value comes down to has no other calls in it. -/
theorem callTarget {callee : Value} (only : callee.OfBuiltins) {args : List Value}
    (each : ∀ v ∈ args, v.OfBuiltins) {body : Node} {env : Env}
    (target : callee.callTarget args = .ok (body, env)) : body.OfBuiltins ∧ env.OfBuiltins := by
  cases only with
  | tree body =>
    simp only [Value.callTarget, Lambda.bindArgs] at target
    split at target
    · cases target
      exact ⟨body, scope (List.forall_mem_nil _) each⟩
    · cases target
  | closure body bindings =>
    simp only [Value.callTarget, Lambda.bindArgs] at target
    split at target
    · cases target
      exact ⟨body, scope bindings each⟩
    · cases target
  | scalar isScalar => cases callee <;> first | cases target | cases isScalar
  | seq _ => cases target
  | record _ => cases target

end Value.OfBuiltins

/-- All slots of the store hold values without other calls. -/
def Store.OfBuiltins (store : Store) : Prop := ∀ slot ∈ store.slots, slot.2.OfBuiltins

section

variable {host : Host} (reads : host.ReadsBuiltins)

include reads

theorem Reader.read_ofBuiltins {slots : List (Nat × Value)}
    (inSlots : ∀ slot ∈ slots, slot.2.OfBuiltins) {target : Option Value}
    (ofTarget : ∀ t ∈ target, t.OfBuiltins) {reader : Reader} {v : Value}
    (found : reader.read host slots target = some v) : v.OfBuiltins := by
  cases reader with
  | field name =>
    rcases target with _ | t
    · cases found
    · cases t with
      | record typeName table => exact (ofTarget _ rfl).field _ (Keyed.mem_of_lookup found)
      | _ => cases found
  | property getter =>
    obtain ⟨t, isTarget, has⟩ := Option.bind_eq_some_iff.mp found
    cases getter with
    | length =>
      cases t with
      | str s =>
        cases has
        exact .scalar rfl
      | _ => cases has
    | host name => exact reads name t v has (ofTarget t isTarget)
  | slot m => exact inSlots _ (Keyed.mem_of_lookup found)

theorem Store.OfBuiltins.readMember {store : Store} (only : store.OfBuiltins) (m : Member)
    {target : Option Value} (ofTarget : ∀ t ∈ target, t.OfBuiltins) :
    Ends Store.OfBuiltins (fun _ => True) Value.OfBuiltins (store.readMember host m target) := by
  have kept : (store.read host m target).2.OfBuiltins := by
    rw [Store.OfBuiltins, Store.read_slots]
    exact only
  rw [Store.readMember.eq_def]
  split
  · exact ⟨trivial, only⟩
  · have found : ∀ v, (store.read host m target).1 = some v → v.OfBuiltins := by
      intro v found
      simp only [Store.read, Store.readerOf_slots] at found
      exact Reader.read_ofBuiltins reads only ofTarget found
    generalize store.read host m target = result at kept found
    obtain ⟨_ | v, after⟩ := result
    · exact ⟨trivial, kept⟩
    · exact ⟨found v rfl, kept⟩

end

theorem Store.OfBuiltins.writeMember {store : Store} (only : store.OfBuiltins) (m : Member)
    {target value : Value} (ofTarget : target.OfBuiltins) (ofValue : value.OfBuiltins) :
    Ends Store.OfBuiltins (fun _ => True) Value.OfBuiltins (store.writeMember m target value) := by
  cases target with
  | record typeName table =>
    refine ⟨.record fun field member => ?_, only⟩
    rcases Keyed.mem_of_mem_insert member with rfl | old
    · exact ofValue
    · exact ofTarget.field field old
  | _ => exact ⟨trivial, only⟩

theorem Store.OfBuiltins.newRecord {store : Store} (only : store.OfBuiltins) (typeName : String)
    (names : List String) {values : List Value} (each : ∀ v ∈ values, v.OfBuiltins) :
    (store.newRecord typeName (names.zip values)).1.OfBuiltins ∧
      (store.newRecord typeName (names.zip values)).2.OfBuiltins := by
  refine ⟨.record fun field member => ?_, only⟩
  rw [FieldTable.fields_writeAll] at member
  rcases Keyed.mem_of_mem_insertAll member with new | old
  · exact each _ (List.of_mem_zip new).2
  · cases old

/-! ### Procedures -/

/-- Whatever the native is told, it applies and answers values without other calls. -/
inductive Procedure.OfBuiltins : Procedure → Prop
  | answer {outcome : Except Error Value} (ends : EndsOfBuiltins outcome) :
      Procedure.OfBuiltins (.answer outcome)
  | apply {callee : Value} {args : List Value} {next : Except Error Value → Procedure}
      (ofCallee : callee.OfBuiltins) (ofArgs : ∀ v ∈ args, v.OfBuiltins)
      (onward : ∀ {outcome}, EndsOfBuiltins outcome → Procedure.OfBuiltins (next outcome)) :
      Procedure.OfBuiltins (.apply callee args next)

theorem Builtin.anyOf_ofBuiltins {predicate : Value} (ofPredicate : predicate.OfBuiltins)
    {items : List Value} (each : ∀ v ∈ items, v.OfBuiltins) :
    (anyOf predicate items).OfBuiltins := by
  induction items with
  | nil => exact .answer (Value.OfBuiltins.scalar rfl)
  | cons item rest ih =>
    rw [List.forall_mem_cons] at each
    refine .apply ofPredicate (List.forall_mem_singleton.mpr each.1) fun {outcome} _ => ?_
    split
    · exact .answer trivial
    · exact .answer (Value.OfBuiltins.scalar rfl)
    · exact ih each.2
    · exact .answer trivial

theorem Builtin.procedure_ofBuiltins (which : Builtin) {operands : List Value}
    (each : ∀ v ∈ operands, v.OfBuiltins) : (which.procedure operands).OfBuiltins := by
  cases answers : which.answers with
  | true =>
    rw [procedure_eq_answer answers]
    exact .answer ((answered_inLimit answers operands).ofBuiltins fun _ => .scalar)
  | false =>
    obtain rfl : which = .any := by cases which <;> first | rfl | cases answers
    rcases procedure_any operands with ⟨items, predicate, rfl⟩ | refuses
    · rw [List.forall_mem_cons, List.forall_mem_singleton] at each
      exact anyOf_ofBuiltins each.2 each.1.item
    · rw [refuses]
      exact .answer trivial

/-! ### The machine -/

namespace Machine

/-- The trees that the task evaluates or combines. -/
def Task.trees : Task → List Node
  | .eval node => [node]
  | .finish node => [node]
  | .decide _ _ right => [right]
  | .expectBool _ => []
  | .branch _ ifTrue ifFalse => [ifTrue, ifFalse]
  | .leave => []

def Task.OfBuiltins (task : Task) : Prop := ∀ tree ∈ task.trees, tree.OfBuiltins

/-- What is left to be done, the values and the slots have no other calls in them. -/
structure Config.OfBuiltins (c : Config) : Prop where
  tasks : ∀ task ∈ c.tasks, task.OfBuiltins
  values : ∀ v ∈ c.values, v.OfBuiltins
  store : c.store.OfBuiltins

def Progress.OfBuiltins : Progress → Prop
  | .running c => c.OfBuiltins
  | .finished evaluated => EndsOfBuiltins evaluated.outcome ∧ evaluated.store.OfBuiltins

theorem plan_value_ofBuiltins {env : Env} (inEnv : env.OfBuiltins) {node : Node}
    (only : node.OfBuiltins) {v : Value} (plans : plan env node = .value v) : v.OfBuiltins := by
  simp only [plan] at plans
  cases isExpr : node.expr with
  | parameter param =>
    simp only [isExpr] at plans
    split at plans
    · rename_i w found
      cases plans
      exact inEnv _ (Keyed.mem_of_lookup found)
    · cases plans
  | constant w ty =>
    simp only [isExpr] at plans
    cases plans
    exact only.constant isExpr
  | lambda l =>
    simp only [isExpr] at plans
    cases plans
    exact .closure (only.child (by simp [isExpr, Expr.children])) inEnv
  | call receiver callee args ty =>
    simp only [isExpr] at plans
    split at plans <;> cases plans
  | binary op left right ty =>
    simp only [isExpr] at plans
    split at plans <;> cases plans
  | _ =>
    simp only [isExpr] at plans
    cases plans

theorem plan_tasks_ofBuiltins {env : Env} {node : Node} (only : node.OfBuiltins)
    {tasks : List Task} (plans : plan env node = .tasks tasks) :
    ∀ task ∈ tasks, task.OfBuiltins := by
  -- all that is scheduled is about the node itself and its children
  have part : ∀ {tree}, tree = node ∨ tree ∈ node.expr.children → tree.OfBuiltins := by
    rintro tree (rfl | member)
    · exact only
    · exact only.child member
  suffices ∀ task ∈ tasks, ∀ tree ∈ task.trees, tree = node ∨ tree ∈ node.expr.children from
    fun task member tree inTask => part (this task member tree inTask)
  clear part only
  simp only [plan] at plans
  cases isExpr : node.expr with
  | parameter param =>
    simp only [isExpr] at plans
    split at plans <;> cases plans
  | constant v ty =>
    simp only [isExpr] at plans
    cases plans
  | lambda l =>
    simp only [isExpr] at plans
    cases plans
  | call receiver callee args ty =>
    simp only [isExpr] at plans
    split at plans
    · cases plans
      simp only [List.append_assoc, List.forall_mem_append, List.forall_mem_map, Task.trees,
        List.forall_mem_singleton, Expr.children, true_or, and_true]
      exact ⟨fun tree member => .inr (List.mem_append_left _ member),
        fun tree member => .inr (List.mem_append_right _ member)⟩
    · cases plans
  | member target m =>
    simp only [isExpr] at plans
    cases plans
    simp only [List.forall_mem_append, List.forall_mem_map, Task.trees, List.forall_mem_singleton,
      Expr.children, true_or, and_true]
    exact fun tree member => .inr member
  | record typeName fields =>
    simp only [isExpr] at plans
    cases plans
    simp only [List.forall_mem_append, List.forall_mem_map, Task.trees, List.forall_mem_singleton,
      Expr.children, true_or, and_true]
    exact fun field member => .inr (List.mem_map_of_mem member)
  | binary op left right ty =>
    simp only [isExpr] at plans
    split at plans <;> cases plans <;> simp [Task.trees, Expr.children]
  | _ =>
    simp only [isExpr] at plans
    cases plans
    simp [Task.trees, Expr.children]

theorem pop_ofBuiltins {values : List Value} (each : ∀ v ∈ values, v.OfBuiltins) :
    (pop values).1.OfBuiltins ∧ ∀ v ∈ (pop values).2, v.OfBuiltins := by
  cases values with
  | nil => exact ⟨.scalar rfl, each⟩
  | cons v values => exact List.forall_mem_cons.mp each

theorem popMany_ofBuiltins (count : Nat) {values : List Value} (each : ∀ v ∈ values, v.OfBuiltins) :
    (∀ v ∈ (popMany count values).1, v.OfBuiltins) ∧
      ∀ v ∈ (popMany count values).2, v.OfBuiltins :=
  ⟨fun v member => each v (List.mem_of_mem_take (List.mem_reverse.mp member)),
    fun v member => each v (List.mem_of_mem_drop member)⟩

theorem popBool_ofBuiltins (node : Node) {values : List Value}
    (each : ∀ v ∈ values, v.OfBuiltins) : ∀ v ∈ (popBool node values).2, v.OfBuiltins := by
  simp only [popBool]
  split <;> exact (pop_ofBuiltins each).2

variable {host : Host} (reads : host.ReadsBuiltins) {store : Store}

include reads

/-- A node without a native of its own is finished without other calls. -/
theorem finish_ofBuiltins (nested : Nested) {node : Node}
    (noNative : ∀ receiver callee args ty, node.expr = .call receiver callee args ty →
      callee.native? = none)
    {values : List Value} (each : ∀ v ∈ values, v.OfBuiltins) (depth : Nat)
    (inSlots : store.OfBuiltins) :
    let finished := finish nested host node values depth store
    EndsOfBuiltins finished.1.outcome ∧ finished.1.store.OfBuiltins ∧
      ∀ v ∈ finished.2, v.OfBuiltins := by
  obtain ⟨top, below⟩ := pop_ofBuiltins each
  obtain ⟨second, rest⟩ := pop_ofBuiltins below
  simp only [finish]
  split
  · rename_i target m _
    cases target with
    | none =>
      have read := inSlots.readMember reads m (by simp : ∀ t ∈ none, Value.OfBuiltins t)
      exact ⟨read.outcome, read.store, each⟩
    | some _ =>
      have read := inSlots.readMember reads m
        (by simpa using top : ∀ t ∈ some (pop values).1, t.OfBuiltins)
      exact ⟨read.outcome, read.store, below⟩
  · rename_i receiver callee args ty isCall
    simp only [noNative _ _ _ _ isCall]
    exact ⟨trivial, inSlots, each⟩
  · rename_i op _ _ _
    refine ⟨(op.apply_inLimit _).ofBuiltins ?_, inSlots, below⟩
    rintro w (rfl | isScalar)
    · exact top
    · exact .scalar isScalar
  · rename_i op _ _ _ _
    exact ⟨(op.apply_inLimit _ _).ofBuiltins fun _ => .scalar, inSlots, rest⟩
  · rename_i typeName fields _
    obtain ⟨operands, below⟩ := popMany_ofBuiltins fields.length each
    obtain ⟨made, after⟩ := inSlots.newRecord typeName (fields.map Prod.fst) operands
    exact ⟨made, after, below⟩
  · rename_i target m value _
    have written := inSlots.writeMember m second top
    exact ⟨written.outcome, written.store, rest⟩
  · exact ⟨trivial, inSlots, each⟩

theorem step_ofBuiltins (nested : Nested) (limit : Nat) {env : Env} (inEnv : env.OfBuiltins)
    (root : Node) {c : Config} (only : c.OfBuiltins)
    (noNative : ∀ node rest, c.tasks = .finish node :: rest → ∀ receiver callee args ty,
      node.expr = .call receiver callee args ty → callee.native? = none) :
    (step nested host limit env root c).OfBuiltins := by
  obtain ⟨tasks, values, depth, store⟩ := c
  obtain ⟨ofTasks, ofValues, inSlots⟩ := only
  match tasks with
  | [] =>
    cases values with
    | nil => exact ⟨trivial, inSlots⟩
    | cons v values => exact ⟨ofValues v (.head _), inSlots⟩
  | .eval node :: rest =>
    rw [List.forall_mem_cons] at ofTasks
    obtain ⟨ofTask, ofRest⟩ := ofTasks
    have ofNode : node.OfBuiltins := ofTask node (.head _)
    simp only [step]
    split
    · exact ⟨trivial, inSlots⟩
    · split
      · rename_i v plans
        have ofValue := plan_value_ofBuiltins inEnv ofNode plans
        exact ⟨ofRest, List.forall_mem_cons.mpr ⟨ofValue, ofValues⟩, inSlots⟩
      · rename_i tasks plans
        have ofPlan := plan_tasks_ofBuiltins ofNode plans
        exact ⟨List.forall_mem_append.mpr ⟨ofPlan, ofRest⟩, ofValues, inSlots⟩
      · exact ⟨trivial, inSlots⟩
  | .finish node :: rest =>
    rw [List.forall_mem_cons] at ofTasks
    obtain ⟨outcome, after, below⟩ :=
      finish_ofBuiltins reads nested (noNative node rest rfl) ofValues depth inSlots
    simp only [step]
    generalize finish nested host node values depth store = finished at outcome after below
    obtain ⟨⟨_ | v, depth, store⟩, values⟩ := finished
    · exact ⟨trivial, after⟩
    · exact ⟨ofTasks.2, List.forall_mem_cons.mpr ⟨outcome, below⟩, after⟩
  | .decide op left right :: rest =>
    rw [List.forall_mem_cons] at ofTasks
    have below := popBool_ofBuiltins left ofValues
    simp only [step]
    generalize popBool left values = popped at below
    obtain ⟨_ | first, values⟩ := popped
    · exact ⟨trivial, inSlots⟩
    · simp only
      split
      · exact ⟨ofTasks.2, List.forall_mem_cons.mpr ⟨.scalar rfl, below⟩, inSlots⟩
      · refine ⟨?_, below, inSlots⟩
        exact List.forall_mem_cons.mpr
          ⟨ofTasks.1, List.forall_mem_cons.mpr ⟨List.forall_mem_nil _, ofTasks.2⟩⟩
  | .expectBool node :: rest =>
    rw [List.forall_mem_cons] at ofTasks
    have below := popBool_ofBuiltins node ofValues
    simp only [step]
    generalize popBool node values = popped at below
    obtain ⟨_ | b, values⟩ := popped
    · exact ⟨trivial, inSlots⟩
    · exact ⟨ofTasks.2, List.forall_mem_cons.mpr ⟨.scalar rfl, below⟩, inSlots⟩
  | .branch test ifTrue ifFalse :: rest =>
    rw [List.forall_mem_cons] at ofTasks
    have below := popBool_ofBuiltins test ofValues
    simp only [step]
    generalize popBool test values = popped at below
    obtain ⟨_ | b, values⟩ := popped
    · exact ⟨trivial, inSlots⟩
    · have chosen : Task.OfBuiltins (.eval (if b then ifTrue else ifFalse)) := by
        refine List.forall_mem_singleton.mpr (ofTasks.1 _ ?_)
        cases b <;> simp [Task.trees]
      refine ⟨?_, below, inSlots⟩
      exact List.forall_mem_cons.mpr
        ⟨chosen, List.forall_mem_cons.mpr ⟨List.forall_mem_nil _, ofTasks.2⟩⟩
  | .leave :: rest =>
    rw [List.forall_mem_cons] at ofTasks
    exact ⟨ofTasks.2, ofValues, inSlots⟩

end Machine

/-! ### Callbacks -/

namespace Callbacks

/-- The native that the next step calls, if it calls one. -/
def State.native? : State → Option Native
  | .working run _ _ _ =>
    match run.tasks with
    | .finish node :: _ =>
      match node.expr with
      | .call _ callee _ _ => callee.native?
      | _ => none
    | _ => none
  | _ => none

/-- From this state on every call is one of a builtin native, the calls in what natives apply
included. -/
def CallsBuiltins (host : Host) (limit : Nat) (state : State) : Prop :=
  ∀ later native, Reaches host limit state later → later.native? = some native →
    ∃ which, native = .builtin which

structure Run.OfBuiltins (run : Run) : Prop where
  env : run.env.OfBuiltins
  tasks : ∀ task ∈ run.tasks, task.OfBuiltins
  values : ∀ v ∈ run.values, v.OfBuiltins

structure Caller.OfBuiltins (caller : Caller) : Prop where
  next : ∀ {outcome}, EndsOfBuiltins outcome → (caller.next outcome).OfBuiltins
  run : caller.run.OfBuiltins

/-- Nothing that is left to be done has other calls in it. -/
inductive State.OfBuiltins : State → Prop
  | working {run : Run} {callers : List Caller} {depth : Nat} {store : Store}
      (ofRun : run.OfBuiltins) (ofCallers : ∀ caller ∈ callers, caller.OfBuiltins)
      (inSlots : store.OfBuiltins) : OfBuiltins (.working run callers depth store)
  | native {procedure : Procedure} {run : Run} {callers : List Caller} {depth : Nat} {store : Store}
      (ofProcedure : procedure.OfBuiltins) (ofRun : run.OfBuiltins)
      (ofCallers : ∀ caller ∈ callers, caller.OfBuiltins) (inSlots : store.OfBuiltins) :
      OfBuiltins (.native procedure run callers depth store)
  | ended (evaluated : Evaluated) : OfBuiltins (.ended evaluated)

namespace State.OfBuiltins

theorem start {node : Node} {env : Env} {callers : List Caller} {store : Store}
    (only : node.OfBuiltins) (inEnv : env.OfBuiltins)
    (ofCallers : ∀ caller ∈ callers, caller.OfBuiltins) (inSlots : store.OfBuiltins) (depth : Nat) :
    (start node env callers depth store).OfBuiltins := by
  refine .working ⟨inEnv, ?_, List.forall_mem_nil _⟩ ofCallers inSlots
  exact List.forall_mem_singleton.mpr (List.forall_mem_singleton.mpr only)

theorem resume {callers : List Caller} (ofCallers : ∀ caller ∈ callers, caller.OfBuiltins)
    {evaluated : Evaluated} (ends : EndsOfBuiltins evaluated.outcome)
    (inSlots : evaluated.store.OfBuiltins) : (resume callers evaluated).OfBuiltins := by
  cases callers with
  | nil => exact .ended evaluated
  | cons caller callers =>
    rw [List.forall_mem_cons] at ofCallers
    exact .native (ofCallers.1.next ends) ofCallers.1.run ofCallers.2 inSlots

theorem finish (run : Run) {callers : List Caller}
    (ofCallers : ∀ caller ∈ callers, caller.OfBuiltins) {evaluated : Evaluated}
    (ends : EndsOfBuiltins evaluated.outcome) (inSlots : evaluated.store.OfBuiltins) :
    (finish run callers evaluated).OfBuiltins := by
  rw [Callbacks.finish]
  split
  · exact resume ofCallers ends inSlots
  · exact resume ofCallers (by rename_i is; rw [is]; trivial) inSlots

theorem native? {state : State} (only : state.OfBuiltins) {native : Native}
    (calls : state.native? = some native) : ∃ which, native = .builtin which := by
  cases only with
  | @working run callers depth store ofRun _ _ =>
    simp only [State.native?] at calls
    split at calls
    · rename_i node rest tasks
      split at calls
      · rename_i receiver callee args ty isCall
        have ofNode : node.OfBuiltins := ofRun.tasks (.finish node) (tasks ▸ .head _) node (.head _)
        exact ofNode.native isCall calls
      · cases calls
    · cases calls
  | native _ _ _ _ => cases calls
  | ended _ => cases calls

/-- A step leaves no other calls behind. -/
theorem step {host : Host} (reads : host.ReadsBuiltins) {limit : Nat} {state later : State}
    (only : state.OfBuiltins) (moves : step host limit state = some later) : later.OfBuiltins := by
  cases only with
  | @working run callers depth store ofRun ofCallers inSlots =>
    simp only [Callbacks.step] at moves
    cases calls : called? host run with
    | none =>
      have noNative : ∀ node rest, run.tasks = .finish node :: rest → ∀ receiver callee args ty,
          node.expr = .call receiver callee args ty → callee.native? = none := by
        intro node rest tasks receiver callee args ty isCall
        simpa only [called?, tasks, isCall, Option.map_eq_none_iff] using calls
      have config : Machine.Config.OfBuiltins ⟨run.tasks, run.values, depth, store⟩ :=
        ⟨ofRun.tasks, ofRun.values, inSlots⟩
      have progress := Machine.step_ofBuiltins reads (evaluateWithin host limit 0) limit ofRun.env
        run.root config noNative
      rw [calls] at moves
      simp only at moves
      generalize Machine.step _ host limit run.env run.root _ = made at moves progress
      cases made with
      | running c =>
        cases moves
        exact .working ⟨ofRun.env, progress.tasks, progress.values⟩ ofCallers progress.store
      | finished evaluated =>
        cases moves
        exact finish run ofCallers progress.1 progress.2
    | some called =>
      rw [calls] at moves
      cases moves
      simp only [called?] at calls
      split at calls
      · rename_i node rest tasks
        split at calls
        · rename_i receiver callee args ty isCall
          obtain ⟨native, has, rfl⟩ := Option.map_eq_some_iff.mp calls
          have ofTasks := ofRun.tasks
          rw [tasks, List.forall_mem_cons] at ofTasks
          obtain ⟨which, rfl⟩ := Node.OfBuiltins.native (ofTasks.1 node (.head _)) isCall has
          obtain ⟨operands, below⟩ :=
            Machine.popMany_ofBuiltins (receiver.toList.length + args.length) ofRun.values
          exact .native (which.procedure_ofBuiltins operands) ⟨ofRun.env, ofTasks.2, below⟩
            ofCallers inSlots
        · cases calls
      · cases calls
  | @native procedure run callers depth store ofProcedure ofRun ofCallers inSlots =>
    cases ofProcedure with
    | @answer outcome ends =>
      cases outcome with
      | ok v =>
        cases moves
        exact .working ⟨ofRun.env, ofRun.tasks, List.forall_mem_cons.mpr ⟨ends, ofRun.values⟩⟩
          ofCallers inSlots
      | error e =>
        cases moves
        exact finish run ofCallers trivial inSlots
    | @apply callee args next ofCallee ofArgs onward =>
      simp only [Callbacks.step] at moves
      split at moves
      · cases moves
        exact .native (onward trivial) ofRun ofCallers inSlots
      · rename_i body scope target
        cases moves
        obtain ⟨ofBody, inScope⟩ := ofCallee.callTarget ofArgs target
        exact start ofBody inScope (List.forall_mem_cons.mpr ⟨⟨onward, ofRun⟩, ofCallers⟩) inSlots _
  | ended evaluated => cases moves

end State.OfBuiltins

/-- Where tree, bindings and slots hold no calls but those of builtin natives, no other native is
called in an evaluation. -/
theorem CallsBuiltins.of_ofBuiltins {host : Host} (reads : host.ReadsBuiltins) {node : Node}
    (only : node.OfBuiltins) {env : Env} (inEnv : env.OfBuiltins) {store : Store}
    (inSlots : store.OfBuiltins) (limit depth : Nat) :
    CallsBuiltins host limit (start node env [] depth store) := by
  intro later native reaches
  have kept : later.OfBuiltins := by
    induction reaches with
    | refl => exact .start only inEnv (List.forall_mem_nil _) inSlots depth
    | tail _ moves before => exact before.step reads moves
  exact kept.native?

end Callbacks

end TypedTrees
