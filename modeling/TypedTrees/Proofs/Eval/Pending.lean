import TypedTrees.Proofs.Pass.Pending
import TypedTrees.Proofs.Termination
/-!
What the evaluator's tasks and values hold between two steps, the callbacks of natives included.
Every task that is pending waits for a node that has been taken up, and so does a native that has
an evaluation started; what has been evaluated for it lies on top of the values (`Machine.Awaits`).
So a task finds the operands that it takes off, and neither this machine nor the driver of passes
ever makes up for something that is missing (`runs_never_fall_back`).
-/
namespace TypedTrees

/-- The evaluation of what is taken up at this depth. -/
abbrev Evaluation.atDepth (host : Host) (limit depth : Nat) : Evaluation :=
  within host limit (limit - depth)

namespace Evaluation

/-- A node takes one of the levels that are left. -/
theorem within_entered {host : Host} {limit top depth : Nat} (entered : depth < top) :
    within host limit (top - depth) = ofNode (within host limit (top - (depth + 1))) host := by
  obtain ⟨room, levels⟩ : ∃ room, top - depth = room + 1 :=
    Nat.exists_eq_add_one_of_ne_zero (by omega)
  have deeper : top - (depth + 1) = room := by omega
  rw [levels, deeper, within]

theorem atDepth_entered {host : Host} {limit depth : Nat} (entered : depth < limit) :
    atDepth host limit depth = ofNode (atDepth host limit (depth + 1)) host :=
  within_entered entered

theorem atDepth_full {host : Host} {limit depth : Nat} (full : limit ≤ depth) (node : Node)
    (env : Env) (store : Store) :
    atDepth host limit depth node env store = (.error (.recursionLimit limit), store) := by
  rw [atDepth, Nat.sub_eq_zero_of_le full, within]

theorem all_append {below : Evaluation} {env : Env} {before : List Node} {store after : Store}
    {vs : List Value} (earlier : below.all env before store = (.ok vs, after)) (rest : List Node) :
    below.all env (before ++ rest) store =
      match below.all env rest after with
      | (.error e, last) => (.error e, last)
      | (.ok ws, last) => (.ok (vs ++ ws), last) := by
  induction before generalizing store vs with
  | nil =>
    cases earlier
    rw [List.nil_append]
    rcases below.all env rest after with ⟨e | ws, last⟩ <;> rfl
  | cons node before ih =>
    rw [all] at earlier
    rw [List.cons_append, all]
    rcases here : below node env store with ⟨e | v, middle⟩
    · rw [here] at earlier
      cases earlier
    rw [here] at earlier
    rcases others : below.all env before middle with ⟨e | us, last⟩
    · simp only [others] at earlier
      cases earlier
    · simp only [others] at earlier
      cases earlier
      simp only [ih others]
      rcases below.all env rest after with ⟨e | ws, last⟩ <;> rfl

theorem all_singleton {below : Evaluation} {env : Env} {node : Node} {store after : Store}
    {vs : List Value} (values : below.all env [node] store = (.ok vs, after)) :
    ∃ v, vs = [v] ∧ below node env store = (.ok v, after) := by
  rw [all] at values
  rcases here : below node env store with ⟨e | v, middle⟩
  · rw [here] at values
    cases values
  · rw [here] at values
    cases values
    exact ⟨v, rfl, rfl⟩

/-- A test is judged by its value. -/
theorem truth_of_value {below : Evaluation} {env : Env} {test : Node} {store after : Store}
    {v : Value} (value : below test env store = (.ok v, after)) :
    below.truth env test store =
      match v.asBool? with
      | some b => (.ok b, after)
      | none => (.error (.eval (.notBool test.text v.text)), after) := by
  rcases isBool : v.asBool? with _ | b
  · simp only [truth, value, isBool]
  · simp only [truth, value, isBool]

end Evaluation

namespace Machine

/-- A node that is not evaluated at once: the operands that it leaves to be evaluated, and the task
that takes up their values. -/
inductive Planned (node : Node) : List Node → Task → Prop
  | strict (strict : node.expr.isStrict = true) (noConstant : ∀ v ty, node.expr ≠ .constant v ty)
      (noCall : ∀ receiver callee args ty, node.expr ≠ .call receiver callee args ty) :
      Planned node node.expr.children (.finish node)
  | call {receiver : Option Node} {callee : Callee} {args : List Node} {ty : Ty} {native : Native}
      (isExpr : node.expr = .call receiver callee args ty)
      (hasNative : callee.native? = some native) : Planned node node.expr.children (.finish node)
  | shortCircuit {op : BinaryOp} {left right : Node} {ty : Ty}
      (isExpr : node.expr = .binary op left right ty) (short : op = .andAlso ∨ op = .orElse) :
      Planned node [left] (.decide op left right)
  | condition {test ifTrue ifFalse : Node} {ty : Ty}
      (isExpr : node.expr = .condition test ifTrue ifFalse ty) :
      Planned node [test] (.branch test ifTrue ifFalse)

theorem Planned.of_plan {env : Env} {node : Node} {tasks : List Task}
    (plans : plan env node = .tasks tasks) :
    ∃ nodes task, Planned node nodes task ∧ tasks = nodes.map .eval ++ [task] := by
  have strict (strict : node.expr.isStrict = true)
      (noConstant : ∀ v ty, node.expr ≠ .constant v ty)
      (noCall : ∀ receiver callee args ty, node.expr ≠ .call receiver callee args ty) :
      ∃ nodes task, Planned node nodes task ∧ tasks = nodes.map .eval ++ [task] := by
    cases plans.symm.trans (plan_strict strict noConstant noCall)
    exact ⟨_, _, .strict strict noConstant noCall, rfl⟩
  cases isExpr : node.expr with
  | parameter param =>
    simp only [plan, isExpr] at plans
    split at plans <;> cases plans
  | constant v ty =>
    simp only [plan, isExpr] at plans
    cases plans
  | lambda l =>
    simp only [plan, isExpr] at plans
    cases plans
  | call receiver callee args ty =>
    simp only [plan, isExpr] at plans
    rcases native : callee.native? with _ | which
    · rw [native] at plans
      cases plans
    · rw [native] at plans
      cases plans
      refine ⟨_, _, .call isExpr native, ?_⟩
      rw [isExpr, Expr.children, List.map_append]
  | binary op left right ty =>
    by_cases short : op = .andAlso ∨ op = .orElse
    · simp only [plan, isExpr, if_pos short] at plans
      cases plans
      exact ⟨_, _, .shortCircuit isExpr short, rfl⟩
    · refine strict ?_ (by simp [isExpr]) (by simp [isExpr])
      rw [isExpr]
      simpa [Expr.isStrict] using short
  | condition test ifTrue ifFalse ty =>
    simp only [plan, isExpr] at plans
    cases plans
    exact ⟨_, _, .condition isExpr, rfl⟩
  | _ => exact strict (by simp [isExpr, Expr.isStrict]) (by simp [isExpr]) (by simp [isExpr])

/-- What a node comes to at once, whatever is below it. -/
def Plan.atOnce : Plan → Store → Option (Except Error Value × Store)
  | .value v, store => some (.ok v, store)
  | .failure e, store => some (.error e, store)
  | .tasks _, _ => none

theorem ofNode_of_atOnce {env : Env} {node : Node} {store : Store}
    {result : Except Error Value × Store} (comes : (plan env node).atOnce store = some result)
    (below : Evaluation) (host : Host) : Evaluation.ofNode below host node env store = result := by
  cases isExpr : node.expr with
  | parameter param =>
    simp only [plan, isExpr] at comes
    simp only [Evaluation.ofNode, isExpr]
    rcases found : env.lookup param.id with _ | v
    · simp only [found] at comes
      exact Option.some.inj comes
    · simp only [found] at comes
      exact Option.some.inj comes
  | constant v ty | lambda l =>
    simp only [plan, isExpr] at comes
    simp only [Evaluation.ofNode, isExpr]
    exact Option.some.inj comes
  | call receiver callee args ty =>
    simp only [plan, isExpr] at comes
    rcases native : callee.native? with _ | which
    · rw [native] at comes
      simp only [Evaluation.ofNode, isExpr, native]
      exact Option.some.inj comes
    · rw [native] at comes
      cases comes
  | binary op left right ty =>
    simp only [plan, isExpr] at comes
    split at comes <;> cases comes
  | _ =>
    simp only [plan, isExpr] at comes
    cases comes

/-- What becomes of a node if one of its operands fails. -/
theorem Planned.fails {node : Node} {nodes : List Node} {task : Task}
    (planned : Planned node nodes task) {below : Evaluation} {host : Host} {env : Env}
    {store after : Store} {e : Error}
    (failure : below.all env nodes store = (.error e, after)) :
    Evaluation.ofNode below host node env store = (.error e, after) := by
  have single {test : Node} (isSingle : nodes = [test]) :
      below.truth env test store = (.error e, after) := by
    rw [isSingle, Evaluation.all] at failure
    rw [Evaluation.truth]
    rcases here : below test env store with ⟨e' | v, middle⟩
    · rw [here] at failure
      cases failure
      rfl
    · rw [here] at failure
      simp only [Evaluation.all] at failure
      cases failure
  cases planned with
  | strict strict =>
    rw [Evaluation.ofNode_strict strict, Evaluation.allThen, failure]
  | call isExpr hasNative =>
    rw [isExpr] at failure
    rw [Evaluation.ofNode_native isExpr hasNative, Evaluation.allThen]
    change below.all env (_ ++ _) store = _ at failure
    rw [failure]
  | shortCircuit isExpr short =>
    rw [Evaluation.ofNode_shortCircuit isExpr short, Evaluation.truthThen, single rfl]
  | condition isExpr =>
    rw [Evaluation.ofNode_condition isExpr, Evaluation.truthThen, single rfl]

/-- The node whose value, on top of the values, this task judges. -/
def Task.judged? : Task → Option Node
  | .decide _ left _ => some left
  | .expectBool node => some node
  | .branch test _ _ => some test
  | _ => none

/-- A value that is judged and is no boolean ends the run. -/
theorem step_refused {nested : Nested} {host : Host} {limit : Nat} {env : Env} {root node : Node}
    {task : Task} {v : Value} (judged : task.judged? = some node) (noBool : v.asBool? = none)
    (rest : List Task) (values : List Value) (depth : Nat) (store : Store) :
    step nested host limit env root ⟨task :: rest, v :: values, depth, store⟩ =
      .finished ⟨.error (.eval (.notBool node.text v.text)), depth, store⟩ := by
  cases task with
  | decide _ _ _ | expectBool _ | branch _ _ _ =>
    cases judged
    simp only [step, popBool_cons, noBool]
  | eval _ | finish _ | leave => cases judged

/-- `Awaits host limit env base root first node store rest values depth` when the run from `root`
takes up a node at this depth in this store, with this rest of its tasks and these values below.
What has been evaluated before is told by the recursion. -/
inductive Awaits (host : Host) (limit : Nat) (env : Env) (base : Nat) (root : Node)
    (first : Store) : Node → Store → List Task → List Value → Nat → Prop
  | root : Awaits host limit env base root first root first [] [] base
  | operand {node operand : Node} {nodes before others : List Node} {task : Task} {vs : List Value}
      {store after : Store} {rest : List Task} {values : List Value} {depth : Nat}
      (parent : Awaits host limit env base root first node store rest values depth)
      (entered : depth < limit) (planned : Planned node nodes task)
      (operands : nodes = before ++ operand :: others)
      (earlier : (Evaluation.atDepth host limit (depth + 1)).all env before store =
        (.ok vs, after)) :
      Awaits host limit env base root first operand after (others.map .eval ++ task :: rest)
        (vs.reverse ++ values) (depth + 1)
  /-- The left operand of a short-circuiting operator has not settled it. -/
  | right {node right : Node} {store after : Store} {rest : List Task} {values : List Value}
      {depth : Nat} (parent : Awaits host limit env base root first node store rest values depth)
      (comes : Evaluation.atDepth host limit depth node env store =
        (Evaluation.atDepth host limit (depth + 1)).truthThen env right after
          fun b store => (.ok (.bool b), store)) :
      Awaits host limit env base root first right after (.expectBool right :: rest) values
        (depth + 1)
  /-- The test of a conditional has chosen this branch. -/
  | chosen {node branch : Node} {store after : Store} {rest : List Task} {values : List Value}
      {depth : Nat} (parent : Awaits host limit env base root first node store rest values depth)
      (comes : Evaluation.atDepth host limit depth node env store =
        Evaluation.atDepth host limit (depth + 1) branch env after) :
      Awaits host limit env base root first branch after (.leave :: rest) values (depth + 1)

/-- Where a run stands: it is about to evaluate a node, or to go on with the values of a node's
operands, or with the right operand of a short-circuiting operator or the branch of a conditional,
or it is over. -/
inductive Stage (host : Host) (limit : Nat) (env : Env) (base : Nat) (root : Node)
    (first : Store) : Config → Prop
  | eval {node : Node} {store : Store} {rest : List Task} {values : List Value} {depth : Nat}
      (awaits : Awaits host limit env base root first node store rest values depth) :
      Stage host limit env base root first ⟨.eval node :: rest, values, depth, store⟩
  | operands {node : Node} {nodes : List Node} {task : Task} {vs : List Value}
      {store after : Store} {rest : List Task} {values : List Value} {depth : Nat}
      (awaits : Awaits host limit env base root first node store rest values depth)
      (entered : depth < limit) (planned : Planned node nodes task)
      (all : (Evaluation.atDepth host limit (depth + 1)).all env nodes store = (.ok vs, after)) :
      Stage host limit env base root first
        ⟨task :: rest, vs.reverse ++ values, depth + 1, after⟩
  | right {node right : Node} {v : Value} {store middle after : Store} {rest : List Task}
      {values : List Value} {depth : Nat}
      (awaits : Awaits host limit env base root first node store rest values depth)
      (comes : Evaluation.atDepth host limit depth node env store =
        (Evaluation.atDepth host limit (depth + 1)).truthThen env right middle
          fun b store => (.ok (.bool b), store))
      (value : Evaluation.atDepth host limit (depth + 1) right env middle = (.ok v, after)) :
      Stage host limit env base root first
        ⟨.expectBool right :: rest, v :: values, depth + 1, after⟩
  | chosen {node : Node} {v : Value} {store after : Store} {rest : List Task}
      {values : List Value} {depth : Nat}
      (awaits : Awaits host limit env base root first node store rest values depth)
      (value : Evaluation.atDepth host limit depth node env store = (.ok v, after)) :
      Stage host limit env base root first ⟨.leave :: rest, v :: values, depth + 1, after⟩
  | ended {v : Value} {after : Store}
      (value : Evaluation.atDepth host limit base root env first = (.ok v, after)) :
      Stage host limit env base root first ⟨[], [v], base, after⟩

section

variable {host : Host} {limit : Nat} {env : Env} {base : Nat} {root : Node} {first : Store}
  {node : Node} {store after : Store} {rest : List Task} {values : List Value} {depth : Nat}

/-- Once the node that the run has taken up has its value, the next operand is taken up, or the task
that has waited for the node is next. -/
theorem Awaits.done {v : Value}
    (awaits : Awaits host limit env base root first node store rest values depth)
    (value : Evaluation.atDepth host limit depth node env store = (.ok v, after)) :
    Stage host limit env base root first ⟨rest, v :: values, depth, after⟩ := by
  cases awaits with
  | root => exact .ended value
  | right parent comes => exact .right parent comes value
  | chosen parent comes => exact .chosen parent (comes.trans value)
  | @operand parentNode _ nodes before others task vs _ _ rest values depth parent entered planned
      operands earlier =>
    have onward := Evaluation.all_append earlier [node]
    simp only [Evaluation.all, value] at onward
    have stacked : v :: (vs.reverse ++ values) = (vs ++ [v]).reverse ++ values := by
      rw [List.reverse_append, List.reverse_singleton, List.singleton_append, List.cons_append]
    rw [stacked]
    cases others with
    | nil => exact .operands parent entered planned (operands ▸ onward)
    | cons next others =>
      refine .eval (.operand parent entered planned ?_ onward)
      rw [operands, List.append_assoc, List.singleton_append]

/-- If the node that the run has taken up fails, the run fails with the same error. -/
theorem Awaits.fails {e : Error}
    (awaits : Awaits host limit env base root first node store rest values depth)
    (failure : Evaluation.atDepth host limit depth node env store = (.error e, after)) :
    Evaluation.atDepth host limit base root env first = (.error e, after) := by
  induction awaits with
  | root => exact failure
  | operand parent entered planned operands earlier ih =>
    refine ih ?_
    rw [Evaluation.atDepth_entered entered]
    refine planned.fails ?_
    rw [operands, Evaluation.all_append earlier, Evaluation.all, failure]
  | right parent comes ih =>
    refine ih (comes.trans ?_)
    rw [Evaluation.truthThen, Evaluation.truth, failure]
  | chosen parent comes ih => exact ih (comes.trans failure)

theorem Planned.closes {nodes : List Node} {task : Task} (planned : Planned node nodes task) :
    task.closes = true := by
  cases planned <;> rfl

theorem Awaits.level
    (awaits : Awaits host limit env base root first node store rest values depth) :
    depth = base + Callbacks.openLevels rest := by
  induction awaits with
  | root => rfl
  | operand _ _ planned _ _ ih =>
    rw [Callbacks.openLevels_evals, Callbacks.openLevels_closing planned.closes, ih]
    rfl
  | right _ _ ih | chosen _ _ ih =>
    rw [Callbacks.openLevels_closing rfl, ih]
    rfl

end

end Machine

namespace Callbacks

open Machine (Awaits Stage Planned)

variable {host : Host} {limit : Nat} {run : Run} {first : Store} {depth : Nat} {store : Store}

/-- A node that is no call is finished by the machine alone. -/
theorem called?_of_noCall {node : Node}
    (noCall : ∀ receiver callee args ty, node.expr ≠ .call receiver callee args ty)
    (rest : List Machine.Task) (values : List Value) :
    called? host { run with tasks := .finish node :: rest, values } = none := by
  simp only [called?]

/-- A native is called on the values of all the operands of the call. -/
theorem called?_of_operands {node : Node} {receiver : Option Node} {callee : Callee}
    {args : List Node} {ty : Ty} {native : Native}
    (isExpr : node.expr = .call receiver callee args ty) (hasNative : callee.native? = some native)
    {vs : List Value} (lengths : vs.length = node.expr.children.length) (rest : List Machine.Task)
    (values : List Value) :
    called? host { run with tasks := .finish node :: rest, values := vs.reverse ++ values } =
      some (native.procedure host vs, { run with tasks := rest, values }) := by
  have count : receiver.toList.length + args.length = vs.reverse.length := by
    rw [List.length_reverse, lengths, isExpr, Expr.children, List.length_append]
  simp only [called?, isExpr, hasNative, Option.map_some, Machine.popMany, count,
    List.take_left, List.drop_left, List.reverse_reverse]

/-- What a run of the machine has come to when it ends: that of its root, and it is back at the
depth that it started from, or after an error no higher. -/
def Concluded (host : Host) (limit : Nat) (run : Run) (first : Store) (evaluated : Evaluated) :
    Prop :=
  Evaluation.atDepth host limit run.base run.root run.env first =
    (evaluated.outcome, evaluated.store) ∧ run.base ≤ evaluated.depth ∧
  ∀ v, evaluated.outcome = .ok v → evaluated.depth = run.base

/-- The run stands where it does after a step, or it has ended. -/
def Proceeds (host : Host) (limit : Nat) (run : Run) (first : Store) : Machine.Progress → Prop
  | .running c => Stage host limit run.env run.base run.root first c
  | .finished evaluated => Concluded host limit run first evaluated

section

variable {node : Node} {before : Store} {rest : List Machine.Task} {values : List Value}
  (awaits : Awaits host limit run.env run.base run.root first node before rest values depth)

include awaits

/-- A node that fails ends the run. -/
theorem Concluded.of_awaits {e : Error} {deep : Nat} (below : depth ≤ deep)
    (failure : Evaluation.atDepth host limit depth node run.env before = (.error e, store)) :
    Concluded host limit run first ⟨.error e, deep, store⟩ := by
  refine ⟨awaits.fails failure, ?_, nofun⟩
  have level := awaits.level
  change run.base ≤ deep
  omega

/-- The machine takes up a node: it has its value at once, or its first operand is taken up. -/
theorem Proceeds.eval (nested : Nested) (root : Node) :
    Proceeds host limit run first (Machine.step nested host limit run.env root
      ⟨.eval node :: rest, values, depth, before⟩) := by
  simp only [Machine.step]
  by_cases full : limit ≤ depth
  · rw [if_pos full]
    exact .of_awaits awaits (Nat.le_refl depth) (Evaluation.atDepth_full full node run.env before)
  rw [if_neg full]
  have entered : depth < limit := by omega
  have atOnce {result} (comes : (Machine.plan run.env node).atOnce before = some result) :
      Evaluation.atDepth host limit depth node run.env before = result := by
    rw [Evaluation.atDepth_entered entered]
    exact Machine.ofNode_of_atOnce comes _ host
  rcases plans : Machine.plan run.env node with v | tasks | e
  · exact awaits.done (atOnce (congrArg (Machine.Plan.atOnce · before) plans))
  · obtain ⟨nodes, task, planned, rfl⟩ := Planned.of_plan plans
    simp only [List.append_assoc, List.singleton_append]
    cases nodes with
    | nil => exact Stage.operands awaits entered planned rfl
    | cons operand others =>
      have none : (Evaluation.atDepth host limit (depth + 1)).all run.env [] before =
          (.ok [], before) := rfl
      have split : operand :: others = [] ++ operand :: others := rfl
      have taken := Awaits.operand awaits entered planned split none
      exact Stage.eval taken
  · exact .of_awaits awaits (by omega) (atOnce (congrArg (Machine.Plan.atOnce · before) plans))

/-- The machine finishes a strict node on the values of its operands. -/
theorem Proceeds.strict {vs : List Value} (nested : Nested) (root : Node) (entered : depth < limit)
    (strict : node.expr.isStrict = true) (noConstant : ∀ v ty, node.expr ≠ .constant v ty)
    (noCall : ∀ receiver callee args ty, node.expr ≠ .call receiver callee args ty)
    (all : (Evaluation.atDepth host limit (depth + 1)).all run.env node.expr.children before =
      (.ok vs, store)) :
    Proceeds host limit run first (Machine.step nested host limit run.env root
      ⟨.finish node :: rest, vs.reverse ++ values, depth + 1, store⟩) := by
  have comes : Evaluation.atDepth host limit depth node run.env before =
      node.expr.finish host vs store := by
    rw [Evaluation.atDepth_entered entered, Evaluation.ofNode_strict strict, Evaluation.allThen,
      all]
  have finishes : Machine.finish nested host node (vs.reverse ++ values) (depth + 1) store =
      (⟨(node.expr.finish host vs store).1, depth + 1, (node.expr.finish host vs store).2⟩,
        values) :=
    Machine.finish_strict strict noConstant noCall (Evaluation.all_length all) values _ store
  simp only [Machine.step, finishes]
  rcases result : node.expr.finish host vs store with ⟨e | v, after⟩
  · exact .of_awaits awaits (Nat.le_succ depth) (comes.trans result)
  · exact awaits.done (comes.trans result)

/-- The machine judges the left operand of a short-circuiting operator. -/
theorem Proceeds.left {op : BinaryOp} {left right : Node} {ty : Ty} {v : Value} (nested : Nested)
    (root : Node) (entered : depth < limit) (isExpr : node.expr = .binary op left right ty)
    (short : op = .andAlso ∨ op = .orElse)
    (value : Evaluation.atDepth host limit (depth + 1) left run.env before = (.ok v, store)) :
    Proceeds host limit run first (Machine.step nested host limit run.env root
      ⟨.decide op left right :: rest, v :: values, depth + 1, store⟩) := by
  have comes := congrFun (congrFun (congrFun
    (@Evaluation.atDepth_entered host limit depth entered) node) run.env) before
  rw [Evaluation.ofNode_shortCircuit isExpr short, Evaluation.truthThen,
    Evaluation.truth_of_value value] at comes
  rcases isBool : v.asBool? with _ | b
  · rw [isBool] at comes
    rw [Machine.step_refused rfl isBool]
    exact .of_awaits awaits (Nat.le_succ depth) comes
  rw [isBool] at comes
  simp only [Machine.step, Machine.popBool_cons, isBool]
  by_cases settles : b = (op == .orElse)
  · simp only [if_pos settles] at comes ⊢
    exact awaits.done comes
  · simp only [if_neg settles] at comes ⊢
    exact Stage.eval (.right awaits comes)

/-- The machine judges the right operand of a short-circuiting operator. -/
theorem Proceeds.right {right : Node} {v : Value} {middle : Store} (nested : Nested) (root : Node)
    (comes : Evaluation.atDepth host limit depth node run.env before =
      (Evaluation.atDepth host limit (depth + 1)).truthThen run.env right middle
        fun b store => (.ok (.bool b), store))
    (value : Evaluation.atDepth host limit (depth + 1) right run.env middle = (.ok v, store)) :
    Proceeds host limit run first (Machine.step nested host limit run.env root
      ⟨.expectBool right :: rest, v :: values, depth + 1, store⟩) := by
  rw [Evaluation.truthThen, Evaluation.truth_of_value value] at comes
  rcases isBool : v.asBool? with _ | b
  · rw [isBool] at comes
    rw [Machine.step_refused rfl isBool]
    exact .of_awaits awaits (Nat.le_succ depth) comes
  · rw [isBool] at comes
    simp only [Machine.step, Machine.popBool_cons, isBool]
    exact awaits.done comes

/-- The machine judges the test of a conditional. -/
theorem Proceeds.branch {test ifTrue ifFalse : Node} {ty : Ty} {v : Value} (nested : Nested)
    (root : Node) (entered : depth < limit)
    (isExpr : node.expr = .condition test ifTrue ifFalse ty)
    (value : Evaluation.atDepth host limit (depth + 1) test run.env before = (.ok v, store)) :
    Proceeds host limit run first (Machine.step nested host limit run.env root
      ⟨.branch test ifTrue ifFalse :: rest, v :: values, depth + 1, store⟩) := by
  have comes := congrFun (congrFun (congrFun
    (@Evaluation.atDepth_entered host limit depth entered) node) run.env) before
  rw [Evaluation.ofNode_condition isExpr, Evaluation.truthThen, Evaluation.truth_of_value value]
    at comes
  rcases isBool : v.asBool? with _ | b
  · rw [isBool] at comes
    rw [Machine.step_refused rfl isBool]
    exact .of_awaits awaits (Nat.le_succ depth) comes
  · rw [isBool] at comes
    simp only [Machine.step, Machine.popBool_cons, isBool]
    exact Stage.eval (.chosen awaits comes)

end

/-- A step of the machine that calls no native leads from one stage to another, or to the end. -/
theorem Proceeds.step {nested : Nested} {c : Machine.Config}
    (stage : Stage host limit run.env run.base run.root first c)
    (calls : called? host { run with tasks := c.tasks, values := c.values } = none) :
    Proceeds host limit run first (Machine.step nested host limit run.env run.root c) := by
  cases stage with
  | eval awaits => exact .eval awaits nested run.root
  | ended value => exact ⟨value, Nat.le_refl _, fun _ _ => rfl⟩
  | chosen awaits value => exact awaits.done value
  | right awaits comes value => exact .right awaits nested run.root comes value
  | @operands node nodes task vs store after rest values depth awaits entered planned all =>
    cases planned with
    | strict strict noConstant noCall =>
      exact .strict awaits nested run.root entered strict noConstant noCall all
    | call isExpr hasNative =>
      have some := @called?_of_operands host run node _ _ _ _ _ isExpr hasNative vs
        (Evaluation.all_length all) rest values
      cases calls.symm.trans some
    | shortCircuit isExpr short =>
      obtain ⟨v, rfl, value⟩ := Evaluation.all_singleton all
      exact .left awaits nested run.root entered isExpr short value
    | condition isExpr =>
      obtain ⟨v, rfl, value⟩ := Evaluation.all_singleton all
      exact .branch awaits nested run.root entered isExpr value

mutual

/-- A native that a run has called is at work, at this depth in this store: the node of its call
comes to what the native still comes to, and what the run comes to is awaited. -/
inductive Calling (host : Host) (limit start : Nat) :
    Procedure → Run → List Caller → Nat → Store → Prop
  | mk {procedure : Procedure} {run : Run} {callers : List Caller} {node : Node}
      {first before store : Store} {depth : Nat}
      (awaits : Awaits host limit run.env run.base run.root first node before run.tasks run.values
        depth)
      (comes : Evaluation.atDepth host limit depth node run.env before =
        procedure.carryOut (Evaluation.atDepth host limit (depth + 1)) store)
      (awaited : Awaited host limit start callers run.base
        (Evaluation.atDepth host limit run.base run.root run.env first)) :
      Calling host limit start procedure run callers (depth + 1) store

/-- The result of a run that has been started at this depth is awaited: by the native that has
started it, or by nothing else if it is the run that all began with. -/
inductive Awaited (host : Host) (limit start : Nat) :
    List Caller → Nat → Except Error Value × Store → Prop
  | none (result : Except Error Value × Store) : Awaited host limit start [] start result
  | caller {caller : Caller} {callers : List Caller} {depth : Nat}
      {result : Except Error Value × Store}
      (calling : Calling host limit start (caller.next result.1) caller.run callers depth
        result.2) :
      Awaited host limit start (caller :: callers) depth result

end

/-- The states that an evaluation from depth `start` can be in. -/
inductive Placed (host : Host) (limit start : Nat) : State → Prop
  | working {run : Run} {callers : List Caller} {first store : Store} {depth : Nat}
      (stage : Stage host limit run.env run.base run.root first
        ⟨run.tasks, run.values, depth, store⟩)
      (awaited : Awaited host limit start callers run.base
        (Evaluation.atDepth host limit run.base run.root run.env first)) :
      Placed host limit start (.working run callers depth store)
  | native {procedure : Procedure} {run : Run} {callers : List Caller} {depth : Nat}
      {store : Store} (calling : Calling host limit start procedure run callers depth store) :
      Placed host limit start (.native procedure run callers depth store)
  | ended {evaluated : Evaluated} (back : evaluated.depth = start) :
      Placed host limit start (.ended evaluated)

section

variable {start : Nat} {callers : List Caller}

theorem Placed.of_awaited {node : Node} {env : Env}
    (awaited : Awaited host limit start callers depth
      (Evaluation.atDepth host limit depth node env store)) :
    Placed host limit start (Callbacks.start node env callers depth store) :=
  @Placed.working host limit start ⟨node, env, depth, [.eval node], []⟩ callers store store depth
    (.eval .root) awaited

/-- The end of a run is taken up by what awaits it. -/
theorem Placed.finish {evaluated : Evaluated}
    (concluded : Concluded host limit run first evaluated)
    (awaited : Awaited host limit start callers run.base
      (Evaluation.atDepth host limit run.base run.root run.env first)) :
    Placed host limit start (Callbacks.finish run callers evaluated) := by
  obtain ⟨comes, above, back⟩ := concluded
  have resumes : Placed host limit start
      (resume callers ⟨evaluated.outcome, run.base, evaluated.store⟩) := by
    rw [comes] at awaited
    cases awaited with
    | none => exact .ended rfl
    | caller calling => exact .native calling
  obtain ⟨e | v, depth, store⟩ := evaluated
  · simp only [Callbacks.finish, Nat.min_eq_right above]
    exact resumes
  · obtain rfl : depth = run.base := back v rfl
    exact resumes

/-- When a native is called, the node of its call comes to what the native comes to. -/
theorem Calling.of_called {procedure : Procedure} {back : Run}
    (stage : Stage host limit run.env run.base run.root first ⟨run.tasks, run.values, depth, store⟩)
    (awaited : Awaited host limit start callers run.base
      (Evaluation.atDepth host limit run.base run.root run.env first))
    (calls : called? host run = some (procedure, back)) :
    Calling host limit start procedure back callers depth store := by
  obtain ⟨root, env, base, tasks, stacked⟩ := run
  cases stage with
  | eval _ | right _ _ _ | chosen _ _ | ended _ => cases calls
  | @operands node nodes task vs before _ rest values depth awaits entered planned all =>
    cases planned with
    | shortCircuit _ _ | condition _ => cases calls
    | strict _ _ noCall =>
      have none := @called?_of_noCall host ⟨root, env, base, [], []⟩ node noCall rest
        (vs.reverse ++ values)
      cases none.symm.trans calls
    | @call receiver callee args ty native isExpr hasNative =>
      have some := @called?_of_operands host ⟨root, env, base, [], []⟩ node receiver callee args ty
        native isExpr hasNative vs (Evaluation.all_length all) rest values
      cases some.symm.trans calls
      refine @Calling.mk host limit start _ ⟨root, env, base, rest, values⟩ callers node first
        before store depth awaits ?_ awaited
      rw [isExpr] at all
      rw [Evaluation.atDepth_entered entered, Evaluation.ofNode_native isExpr hasNative,
        Evaluation.allThen]
      change Evaluation.all _ env (_ ++ _) before = _ at all
      rw [all]

/-- A native that is at work takes a step. -/
theorem Calling.step {procedure : Procedure} {state : State}
    (calling : Calling host limit start procedure run callers depth store)
    (moves : Callbacks.step host limit (.native procedure run callers depth store) = some state) :
    Placed host limit start state := by
  obtain ⟨awaits, comes, awaited⟩ := calling
  cases procedure with
  | answer outcome =>
    cases outcome with
    | ok v =>
      cases moves
      exact .working (awaits.done comes) awaited
    | error e =>
      cases moves
      exact .finish (.of_awaits awaits (Nat.le_succ _) comes) awaited
  | apply callee args next =>
    rw [Procedure.carryOut] at comes
    simp only [Callbacks.step] at moves
    rcases target : callee.callTarget args with e | ⟨body, scope⟩
    · simp only [target] at comes moves
      cases moves
      exact .native (.mk awaits comes awaited)
    · simp only [target] at comes moves
      cases moves
      exact .of_awaited (.caller (.mk awaits comes awaited))
  | evaluate node env next =>
    rw [Procedure.carryOut] at comes
    cases moves
    exact .of_awaited (.caller (.mk awaits comes awaited))
  | draw rest next =>
    cases moves
    exact .native (.mk awaits comes awaited)
  | change slots next =>
    cases moves
    exact .native (.mk awaits comes awaited)

/-- Every step leads from such a state to another. -/
theorem Placed.step {state later : State} (placed : Placed host limit start state)
    (moves : Callbacks.step host limit state = some later) : Placed host limit start later := by
  cases placed with
  | ended _ => cases moves
  | native calling => exact calling.step moves
  | @working run callers first store depth stage awaited =>
    simp only [Callbacks.step] at moves
    rcases calls : called? host run with _ | ⟨procedure, back⟩
    · rw [calls] at moves
      have proceeds : Proceeds host limit run first (Machine.step (evaluateWithin host limit 0) host
          limit run.env run.root ⟨run.tasks, run.values, depth, store⟩) := .step stage calls
      rcases result : Machine.step (evaluateWithin host limit 0) host limit run.env run.root
        ⟨run.tasks, run.values, depth, store⟩ with c | evaluated
      · simp only [result] at moves proceeds
        cases moves
        exact @Placed.working host limit start { run with tasks := c.tasks, values := c.values }
          callers first c.store c.depth proceeds awaited
      · simp only [result] at moves proceeds
        cases moves
        exact .finish proceeds awaited
    · rw [calls] at moves
      cases moves
      exact .native (.of_called stage awaited calls)

theorem placed_of_reached {node : Node} {env : Env} {state : State}
    (reaches : Reaches host limit (Callbacks.start node env [] start store) state) :
    Placed host limit start state := by
  induction reaches with
  | refl => exact .of_awaited (.none _)
  | tail _ moves ih => exact ih.step moves

end

end Callbacks

/-- The kinds of node that are finished by combining the values of their children. -/
def Expr.combines : Expr → Bool
  | .member .. | .call .. | .unary .. | .binary .. | .record .. | .setMember .. => true
  | .parameter _ | .constant .. | .lambda _ | .condition .. => false

theorem Machine.Planned.judged {node test : Node} {nodes : List Node} {task : Task}
    (planned : Planned node nodes task) (judged : task.judged? = some test) : nodes = [test] := by
  cases planned with
  | strict _ _ _ | call _ _ => cases judged
  | shortCircuit _ _ | condition _ =>
    cases judged
    rfl

theorem Machine.Planned.combines {node other : Node} {nodes : List Node}
    (planned : Planned node nodes (.finish other)) :
    other = node ∧ nodes = node.expr.children ∧ node.expr.combines = true := by
  cases planned with
  | call isExpr _ => exact ⟨rfl, rfl, by rw [isExpr]; rfl⟩
  | strict strict noConstant _ =>
    refine ⟨rfl, rfl, ?_⟩
    cases isExpr : node.expr with
    | constant v ty => exact absurd isExpr (noConstant v ty)
    | parameter _ | lambda _ | condition _ _ _ _ => cases isExpr ▸ strict
    | _ => rfl

namespace Callbacks

open Machine (Awaits Stage Planned)

/-- The next step would have to make up for something that is missing: values to finish a node with,
a way to combine them, a value to judge, a level to leave, or the value of a run. -/
inductive FallsBack : State → Prop
  | operands {run : Run} {node : Node} {rest : List Machine.Task} {callers : List Caller}
      {depth : Nat} {store : Store} (tasks : run.tasks = .finish node :: rest)
      (few : run.values.length < node.expr.children.length) :
      FallsBack (.working run callers depth store)
  | combination {run : Run} {node : Node} {rest : List Machine.Task} {callers : List Caller}
      {depth : Nat} {store : Store} (tasks : run.tasks = .finish node :: rest)
      (without : node.expr.combines = false) : FallsBack (.working run callers depth store)
  | verdict {run : Run} {task : Machine.Task} {node : Node} {rest : List Machine.Task}
      {callers : List Caller} {depth : Nat} {store : Store} (tasks : run.tasks = task :: rest)
      (judged : task.judged? = some node) (without : run.values = []) :
      FallsBack (.working run callers depth store)
  | level {run : Run} {task : Machine.Task} {rest : List Machine.Task} {callers : List Caller}
      {store : Store} (tasks : run.tasks = task :: rest) (closes : task.closes = true) :
      FallsBack (.working run callers 0 store)
  | levelOfCall {procedure : Procedure} {run : Run} {callers : List Caller} {store : Store} :
      FallsBack (.native procedure run callers 0 store)
  | value {run : Run} {callers : List Caller} {depth : Nat} {store : Store}
      (tasks : run.tasks = []) (without : run.values = []) :
      FallsBack (.working run callers depth store)

/-- The value on top is the one that the node has just been evaluated to. -/
def Valued (host : Host) (limit : Nat) (run : Run) (depth : Nat) (store : Store) (node : Node) :
    Prop :=
  ∃ v below before, run.values = v :: below ∧
    Evaluation.atDepth host limit depth node run.env before = (.ok v, store)

/-- What a run may count on at each step. The depth is above where it has started by one for each
task that closes a level. What is taken off the values to finish a node are the values of its
children, one for each, in order; what is judged is the value of the node that is asked for; and at
the end there is the one value. -/
structure OrderlyRun (host : Host) (limit : Nat) (run : Run) (depth : Nat) (store : Store) :
    Prop where
  level : depth = run.base + openLevels run.tasks
  finish : ∀ node rest, run.tasks = .finish node :: rest → node.expr.combines = true ∧
    ∃ vs below before, run.values = vs.reverse ++ below ∧
      vs.length = node.expr.children.length ∧
      (Evaluation.atDepth host limit depth).all run.env node.expr.children before = (.ok vs, store)
  judged : ∀ task node rest, run.tasks = task :: rest → task.judged? = some node →
    Valued host limit run depth store node
  ended : run.tasks = [] → ∃ v before, run.values = [v] ∧
    Evaluation.atDepth host limit run.base run.root run.env before = (.ok v, store)

/-- How many levels natives that wait for an evaluation hold open: those of their calls and those of
the runs that have called them. -/
def waitingLevels : List Caller → Nat
  | [] => 0
  | caller :: callers => openLevels caller.run.tasks + 1 + waitingLevels callers

/-- What an evaluation from depth `start` may count on at each step, in the runs that natives have
started too. The level of a call stays open until its native has answered. -/
def State.Orderly (host : Host) (limit start : Nat) : State → Prop
  | .working run callers depth store =>
    OrderlyRun host limit run depth store ∧ run.base = start + waitingLevels callers
  | .native _ run callers depth _ =>
    depth = run.base + openLevels run.tasks + 1 ∧ run.base = start + waitingLevels callers
  | .ended evaluated => evaluated.depth = start

section

variable {host : Host} {limit start depth : Nat} {run : Run} {first store : Store}

theorem OrderlyRun.of_stage
    (stage : Stage host limit run.env run.base run.root first
      ⟨run.tasks, run.values, depth, store⟩) :
    OrderlyRun host limit run depth store := by
  obtain ⟨root, env, base, tasks, stacked⟩ := run
  cases stage with
  | eval awaits =>
    refine ⟨awaits.level, nofun, ?_, nofun⟩
    rintro _ _ _ ⟨⟩ ⟨⟩
  | ended value => exact ⟨rfl, nofun, nofun, fun _ => ⟨_, first, rfl, value⟩⟩
  | @chosen _ v before _ rest values depth awaits value =>
    refine ⟨?_, nofun, ?_, nofun⟩
    · rw [openLevels_closing rfl, ← Nat.add_assoc, ← awaits.level]
    · rintro _ _ _ ⟨⟩ ⟨⟩
  | @right _ right v before middle _ rest values depth awaits comes value =>
    refine ⟨?_, nofun, ?_, nofun⟩
    · rw [openLevels_closing rfl, ← Nat.add_assoc, ← awaits.level]
    · rintro _ _ _ ⟨⟩ ⟨⟩
      exact ⟨v, values, middle, rfl, value⟩
  | @operands node nodes task vs before _ rest values depth awaits entered planned all =>
    refine ⟨?_, ?_, ?_, nofun⟩
    · rw [openLevels_closing planned.closes, ← Nat.add_assoc, ← awaits.level]
    · rintro other _ ⟨⟩
      obtain ⟨rfl, rfl, combines⟩ := planned.combines
      exact ⟨combines, vs, values, before, rfl, Evaluation.all_length all, all⟩
    · rintro _ test _ ⟨⟩ judged
      obtain rfl : nodes = [test] := planned.judged judged
      obtain ⟨v, rfl, value⟩ := Evaluation.all_singleton all
      exact ⟨v, values, before, rfl, value⟩

/-- The base of a run is above the depth that all began from by the levels that the natives which
wait for it hold open. -/
theorem Awaited.level {callers : List Caller} {base : Nat} {result : Except Error Value × Store}
    (awaited : Awaited host limit start callers base result) :
    base = start + waitingLevels callers := by
  induction callers generalizing base result with
  | nil => cases awaited; rfl
  | cons caller callers ih =>
    obtain _ | calling := awaited
    obtain ⟨awaits, -, awaited⟩ := calling
    have level := awaits.level
    have base := ih awaited
    rw [waitingLevels]
    omega

theorem Placed.orderly {state : State} (placed : Placed host limit start state) :
    state.Orderly host limit start := by
  cases placed with
  | working stage awaited => exact ⟨.of_stage stage, awaited.level⟩
  | native calling =>
    obtain ⟨awaits, -, awaited⟩ := calling
    exact ⟨congrArg (· + 1) awaits.level, awaited.level⟩
  | ended back => exact back

theorem State.Orderly.not_fallsBack {state : State} (orderly : state.Orderly host limit start) :
    ¬FallsBack state := by
  intro falls
  cases falls with
  | operands tasks few =>
    obtain ⟨-, vs, below, _, stacked, count, -⟩ := orderly.1.finish _ _ tasks
    rw [stacked, List.length_append, List.length_reverse, count] at few
    omega
  | combination tasks without =>
    obtain ⟨combines, -⟩ := orderly.1.finish _ _ tasks
    rw [combines] at without
    cases without
  | verdict tasks judged without =>
    obtain ⟨v, below, _, stacked, -⟩ := orderly.1.judged _ _ _ tasks judged
    cases without.symm.trans stacked
  | level tasks closes =>
    have level := orderly.1.level
    rw [tasks, openLevels_closing closes] at level
    cases level
  | levelOfCall =>
    obtain ⟨level, -⟩ := orderly
    cases level
  | value tasks without =>
    obtain ⟨v, _, stacked, -⟩ := orderly.1.ended tasks
    cases without.symm.trans stacked

end

end Callbacks

/-- Neither machine ever makes up for something that is missing. In every configuration that a run
of the driver comes through, whatever the pass decides and even if the limit changes on the way, and
in every state that an evaluation comes through, those of natives and of what they start included,
the depth is above where it all began by one for each level that is still to be closed, and each
task finds on top what the nodes that it waits for have come to, in order. This goes for passes that
leave the levels to the driver, as a `Pass` does. -/
theorem runs_never_fall_back :
    (∀ {σ : Type} (pass : Pass σ) (bound start : Nat) (root : Node) (first : σ)
      (c : WorkList.Config σ),
      Relation.ReflTransGen (fun c c' => WorkList.Follows pass bound root c' c)
        ⟨[.visit root], [], start, first⟩ c →
      WorkList.Orderly pass bound start root first c ∧ ¬WorkList.FallsBack c) ∧
    ∀ (host : Host) (limit start : Nat) (node : Node) (env : Env) (store : Store)
      (state : Callbacks.State),
      Callbacks.Reaches host limit (Callbacks.start node env [] start store) state →
      state.Orderly host limit start ∧ ¬Callbacks.FallsBack state := by
  constructor
  · intro σ pass bound start root first c reaches
    have orderly := WorkList.orderly_of_reached reaches
    exact ⟨orderly, orderly.not_fallsBack⟩
  · intro host limit start node env store state reaches
    have orderly := (Callbacks.placed_of_reached reaches).orderly
    exact ⟨orderly, orderly.not_fallsBack⟩

namespace Filled

def x : Parameter := ⟨16, "x", .int⟩

def one : Node := ⟨17, .constant (.int 1) .int⟩

def read : Node := ⟨18, .parameter x⟩

/-- The tree `x + 1`. -/
def sum : Node := ⟨19, .binary .add read one .int⟩

def fill : Expr → Visit
  | .parameter _ => .replace one
  | _ => .descend

/-- The pass that puts `1` in place of parameters. -/
def filling : Pass Supply :=
  { Pass.identity with visit := fun _ node supply => (.ok (fill node.expr), supply) }

/-- The sum is about to be put together. -/
def rebuilding : WorkList.Config Supply := ⟨[.rebuild sum 2], [one, one], 1, ⟨25⟩⟩

/-- The call `apply(x => x + 1, 2)`. -/
def call : Node :=
  ⟨24, .call none
    (.function ⟨20, "apply", none, [⟨"f", .any, .value⟩, ⟨"x", .int, .value⟩], .any,
      some (.host "apply")⟩)
    [⟨22, .lambda ⟨[x], sum, .int⟩⟩, ⟨23, .constant (.int 2) .int⟩] .any⟩

/-- The native has the lambda's body evaluated, and the sum is about to be taken. -/
def adding : Callbacks.State :=
  .working ⟨sum, [(16, .int 2)], 1, [.finish sum], [.int 1, .int 2]⟩
    [⟨.answer, ⟨call, [], 0, [], []⟩⟩] 2 {}

theorem rebuilding_reached :
    Relation.ReflTransGen (fun c c' => WorkList.Follows filling 5 sum c' c)
      ⟨[.visit sum], [], 0, ⟨25⟩⟩ rebuilding := by
  have under : 5 ≤ 5 := Nat.le_refl 5
  exact .head ⟨5, under, rfl⟩ <| .head ⟨5, under, rfl⟩ <| .head ⟨5, under, rfl⟩ <|
    .head ⟨5, under, rfl⟩ <| .single ⟨5, under, rfl⟩

theorem adding_reached :
    Callbacks.Reaches .basic 5 (Callbacks.start call [] [] 0 {}) adding :=
  .head rfl <| .head rfl <| .head rfl <| .head rfl <| .head rfl <| .head rfl <| .head rfl <|
    .single rfl

end Filled

open Filled in
/-- The driver on its way through `x + 1` with `1` put in place of `x`, and the evaluator in the
body of the lambda that `apply` applies. -/
theorem runs_never_fall_back_filled :
    Relation.ReflTransGen (fun c c' => WorkList.Follows filling 5 sum c' c)
      ⟨[.visit sum], [], 0, ⟨25⟩⟩ rebuilding ∧
    WorkList.Orderly filling 5 0 sum ⟨25⟩ rebuilding ∧ ¬WorkList.FallsBack rebuilding ∧
    Callbacks.Reaches .basic 5 (Callbacks.start call [] [] 0 {}) adding ∧
    adding.Orderly .basic 5 0 ∧ ¬Callbacks.FallsBack adding := by
  obtain ⟨orderly, keeps⟩ :=
    runs_never_fall_back.1 filling 5 0 sum ⟨25⟩ rebuilding rebuilding_reached
  exact ⟨rebuilding_reached, orderly, keeps, adding_reached,
    runs_never_fall_back.2 .basic 5 0 call [] {} adding adding_reached⟩

end TypedTrees
