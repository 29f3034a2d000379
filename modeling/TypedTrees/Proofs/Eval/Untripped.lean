import TypedTrees.Proofs.Eval.Cutoff
import TypedTrees.Proofs.Eval.Pending
/-!
Evaluations that never come to the limit. Step by step such an evaluation comes to what any
recursion comes to that takes a node one level above its operands (`Takes.of_unfolds`), whatever
becomes of the nodes at the limit. So it comes to the same with more levels left
(`Untripped.within_eq`).
-/
namespace TypedTrees

namespace Callbacks

/-- A run is about to take up a node and there is no level left for it. -/
def State.atLimit (limit : Nat) : State → Bool
  | .working ⟨_, _, _, .eval _ :: _, _⟩ _ depth _ => decide (limit ≤ depth)
  | _ => false

/-- From this state on no node is taken up at the limit, in what natives have evaluated included. -/
def Untripped (host : Host) (limit : Nat) (state : State) : Prop :=
  ∀ later, Reaches host limit state later → later.atLimit limit = false

/-- Whether the steps end without one at the limit, and not after more than so many. -/
def untrippedFor (host : Host) (limit : Nat) : Nat → State → Bool
  | 0, _ => false
  | steps + 1, state =>
    !state.atLimit limit && match step host limit state with
      | some next => untrippedFor host limit steps next
      | none => true

section

variable {host : Host} {limit : Nat} {state later : State}

theorem Untripped.of_untrippedFor {steps : Nat}
    (ends : untrippedFor host limit steps state = true) : Untripped host limit state := by
  intro later reaches
  induction steps generalizing state with
  | zero => cases ends
  | succ steps ih =>
    rw [untrippedFor, Bool.and_eq_true, Bool.not_eq_true'] at ends
    rcases reaches.cases_head with rfl | ⟨next, moves, onward⟩
    · exact ends.1
    · rw [moves] at ends
      exact ih ends.2 onward

theorem Untripped.reaches (untripped : Untripped host limit state)
    (reaches : Reaches host limit state later) : Untripped host limit later :=
  fun last onward => untripped last (reaches.trans onward)

theorem Untripped.step (untripped : Untripped host limit state)
    (moves : step host limit state = some later) : Untripped host limit later :=
  untripped.reaches (.single moves)

/-- There is a level left for a node that is about to be taken up. -/
theorem Untripped.entered {run : Run} {callers : List Caller} {depth : Nat} {store : Store}
    (untripped : Untripped host limit (.working run callers depth store)) {node : Node}
    {rest : List Machine.Task} (next : run.tasks = .eval node :: rest) : depth < limit := by
  obtain ⟨root, env, base, tasks, values⟩ := run
  cases next
  have under : decide (limit ≤ depth) = false := untripped _ .refl
  exact Nat.lt_of_not_le (of_decide_eq_false under)

end

/-- The steps lead on as a recursion says: to this run with the new values on top of the old ones,
or with the error back to the callers. -/
def Leads (host : Host) (limit : Nat) (run : Run) (callers : List Caller) (depth : Nat)
    (state : State) : Except Error (List Value) × Store → Prop
  | (.ok vs, after) => Reaches host limit state
      (.working { run with values := vs.reverse ++ run.values } callers depth after)
  | (.error e, after) => Reaches host limit state (resume callers ⟨.error e, run.base, after⟩)

/-- Whatever is taken up at this depth, without coming to the limit, leads on as `below` says. -/
def Takes (host : Host) (limit : Nat) (below : Evaluation) (depth : Nat) : Prop :=
  ∀ (run : Run) (callers : List Caller) (node : Node) (store : Store), run.base ≤ depth →
    let taking := State.working { run with tasks := .eval node :: run.tasks } callers depth store
    Untripped host limit taking →
    Leads host limit run callers depth taking (Machine.single (below node run.env store))

section

variable {host : Host} {limit : Nat} {run : Run} {callers : List Caller} {depth : Nat}
  {state later : State} {below : Evaluation}

theorem Leads.head {result : Except Error (List Value) × Store}
    (reaches : Reaches host limit state later)
    (leads : Leads host limit run callers depth later result) :
    Leads host limit run callers depth state result := by
  obtain ⟨e | vs, after⟩ := result
  · exact reaches.trans leads
  · exact reaches.trans leads

/-- A run that has failed goes back to its callers. -/
theorem finish_error {deep : Nat} (above : run.base ≤ deep) (e : Error) (after : Store) :
    finish run callers ⟨.error e, deep, after⟩ = resume callers ⟨.error e, run.base, after⟩ := by
  simp only [finish, Nat.min_eq_right above]

/-- The operands of a node are taken up one after the other. -/
theorem Takes.all (takes : Takes host limit below depth) (above : run.base ≤ depth)
    (nodes : List Node) (store : Store)
    (untripped : Untripped host limit
      (.working { run with tasks := nodes.map .eval ++ run.tasks } callers depth store)) :
    Leads host limit run callers depth
      (.working { run with tasks := nodes.map .eval ++ run.tasks } callers depth store)
      (below.all run.env nodes store) := by
  induction nodes generalizing run store with
  | nil => exact .refl
  | cons node nodes ih =>
    have first := takes { run with tasks := nodes.map .eval ++ run.tasks } callers node store above
      untripped
    rw [Evaluation.all]
    simp only at first
    rcases here : below node run.env store with ⟨e | v, middle⟩
    · rw [here] at first
      exact first
    · rw [here] at first
      have others := @ih { run with values := v :: run.values } above middle
        (untripped.reaches first)
      simp only at others ⊢
      rcases there : below.all run.env nodes middle with ⟨e | vs, after⟩
      · rw [there] at others
        exact first.trans others
      · rw [there] at others
        have joined := first.trans others
        simpa only [Leads, List.map_cons, List.cons_append, List.reverse_cons, List.append_assoc,
          List.nil_append] using joined

/-- What a native has evaluated at the depth of its call comes back to it, until it answers. -/
theorem Takes.carryOut (takes : Takes host limit below (depth + 1)) (above : run.base ≤ depth)
    (procedure : Procedure) (store : Store)
    (untripped : Untripped host limit (.native procedure run callers (depth + 1) store)) :
    Leads host limit run callers depth (.native procedure run callers (depth + 1) store)
      (Machine.single (procedure.carryOut below store)) := by
  -- a run that a native starts goes back to the native with its outcome
  have starts (node : Node) (env : Env) (next : Except Error Value → Procedure)
      (onward : ∀ outcome store, Untripped host limit (.native (next outcome) run callers
        (depth + 1) store) → Leads host limit run callers depth
          (.native (next outcome) run callers (depth + 1) store)
          (Machine.single ((next outcome).carryOut below store)))
      (store : Store) (untripped : Untripped host limit
        (start node env (⟨next, run⟩ :: callers) (depth + 1) store)) :
      Leads host limit run callers depth (start node env (⟨next, run⟩ :: callers) (depth + 1) store)
        (Machine.single ((next (below node env store).1).carryOut below
          (below node env store).2)) := by
    have returns := takes ⟨node, env, depth + 1, [], []⟩ (⟨next, run⟩ :: callers) node store
      (Nat.le_refl _) untripped
    simp only at returns
    rcases here : below node env store with ⟨e | v, after⟩
    · rw [here] at returns
      exact .head returns (onward (.error e) after (untripped.reaches returns))
    · rw [here] at returns
      have ended := Relation.ReflTransGen.tail returns rfl
      exact .head ended (onward (.ok v) after (untripped.reaches ended))
  induction procedure generalizing store with
  | answer outcome =>
    cases outcome with
    | ok v => exact .single rfl
    | error e =>
      refine .single ?_
      rw [step, finish_error (Nat.le_succ_of_le above)]
  | apply callee args next ih =>
    rw [Procedure.carryOut]
    rcases target : callee.callTarget args with e | ⟨body, scope⟩
    · have moves : step host limit (.native (.apply callee args next) run callers (depth + 1)
          store) = some (.native (next (.error e)) run callers (depth + 1) store) := by
        simp only [step, target]
      exact .head (.single moves) (ih (.error e) store (untripped.step moves))
    · have moves : step host limit (.native (.apply callee args next) run callers (depth + 1)
          store) = some (start body scope (⟨next, run⟩ :: callers) (depth + 1) store) := by
        simp only [step, target]
      exact .head (.single moves) (starts body scope next ih store (untripped.step moves))
  | evaluate node env next ih =>
    exact .head (.single rfl) (starts node env next ih store (untripped.step rfl))
  | draw rest next ih => exact .head (.single rfl) (ih _ _ (untripped.step rfl))
  | change slots next ih => exact .head (.single rfl) (ih _ _ (untripped.step rfl))

/-- The run is about to do this task, and these values are on top. -/
abbrev State.doing (run : Run) (callers : List Caller) (task : Machine.Task) (vs : List Value)
    (depth : Nat) (store : Store) : State :=
  .working { run with tasks := task :: run.tasks, values := vs.reverse ++ run.values } callers depth
    store

variable {node : Node} {vs : List Value} {store after : Store}

/-- A value that is judged and is no boolean takes the run back to its callers. -/
theorem reaches_refused {task : Machine.Task} {v : Value} (judged : task.judged? = some node)
    (noBool : v.asBool? = none) (above : run.base ≤ depth) :
    Reaches host limit (.doing run callers task [v] depth store)
      (resume callers ⟨.error (.eval (.notBool node.text v.text)), run.base, store⟩) := by
  have alone : called? host { run with tasks := task :: run.tasks, values := v :: run.values } =
      none := by
    cases task with
    | finish _ => cases judged
    | _ => rfl
  refine .single ?_
  simp only [List.reverse_singleton, List.singleton_append, step, alone,
    Machine.step_refused judged noBool]
  exact congrArg some (finish_error above _ store)

/-- A strict node is finished on the values of its operands. -/
theorem Leads.strict (strict : node.expr.isStrict = true)
    (noConstant : ∀ v ty, node.expr ≠ .constant v ty)
    (noCall : ∀ receiver callee args ty, node.expr ≠ .call receiver callee args ty)
    (lengths : vs.length = node.expr.children.length) (above : run.base ≤ depth) :
    Leads host limit run callers depth (.doing run callers (.finish node) vs (depth + 1) store)
      (Machine.single (node.expr.finish host vs store)) := by
  have alone := @called?_of_noCall host run node noCall run.tasks (vs.reverse ++ run.values)
  have finishes := @Machine.finish_strict (evaluateWithin host limit 0) host node strict noConstant
    noCall vs lengths run.values (depth + 1) store
  rcases result : node.expr.finish host vs store with ⟨e | v, after⟩
  · refine .single ?_
    simp only [step, alone, Machine.step, finishes, result]
    exact congrArg some (finish_error (Nat.le_succ_of_le above) e after)
  · refine .single ?_
    simp only [step, alone, Machine.step, finishes, result]
    rfl

section

variable (takes : Takes host limit below (depth + 1)) (above : run.base ≤ depth)

include takes above

/-- A native is called on the values of the operands. -/
theorem Takes.call {receiver : Option Node} {callee : Callee} {args : List Node} {ty : Ty}
    {native : Native} (isExpr : node.expr = .call receiver callee args ty)
    (hasNative : callee.native? = some native) (lengths : vs.length = node.expr.children.length)
    (untripped : Untripped host limit (.doing run callers (.finish node) vs (depth + 1) store)) :
    Leads host limit run callers depth (.doing run callers (.finish node) vs (depth + 1) store)
      (Machine.single ((native.procedure host vs).carryOut below store)) := by
  have called := @called?_of_operands host run node receiver callee args ty native isExpr hasNative
    vs lengths run.tasks run.values
  have moves : step host limit (.doing run callers (.finish node) vs (depth + 1) store) =
      some (.native (native.procedure host vs) run callers (depth + 1) store) := by
    simp only [step, called]
  exact .head (.single moves) (takes.carryOut above _ store (untripped.step moves))

/-- The right operand of a short-circuiting operator is taken up. -/
theorem Takes.right {right : Node} (untripped : Untripped host limit (.working
      { run with tasks := .eval right :: .expectBool right :: run.tasks } callers (depth + 1)
        store)) :
    Leads host limit run callers depth (.working
      { run with tasks := .eval right :: .expectBool right :: run.tasks } callers (depth + 1) store)
      (Machine.single (below.truthThen run.env right store
        fun b store => (.ok (.bool b), store))) := by
  have higher : run.base ≤ depth + 1 := Nat.le_succ_of_le above
  have second := takes { run with tasks := .expectBool right :: run.tasks } callers right store
    higher untripped
  simp only at second
  rw [Evaluation.truthThen, Evaluation.truth]
  rcases there : below right run.env store with ⟨e | v, after⟩
  · rw [there] at second
    exact second
  rw [there] at second
  simp only
  rcases isBool : v.asBool? with _ | b
  · exact Relation.ReflTransGen.trans second (reaches_refused rfl isBool higher)
  · refine Relation.ReflTransGen.tail second ?_
    simp only [List.reverse_singleton, List.singleton_append, step, called?, Machine.step,
      Machine.popBool_cons, isBool]
    rfl

/-- The left operand of a short-circuiting operator settles it, or the right operand is taken up. -/
theorem Takes.left {op : BinaryOp} {left right : Node} {v : Value}
    (untripped : Untripped host limit
      (.doing run callers (.decide op left right) [v] (depth + 1) after))
    (value : below left run.env store = (.ok v, after)) :
    Leads host limit run callers depth
      (.doing run callers (.decide op left right) [v] (depth + 1) after)
      (Machine.single (below.truthThen run.env left store fun first store =>
        if first = (op == .orElse) then (.ok (.bool first), store)
        else below.truthThen run.env right store fun b store => (.ok (.bool b), store))) := by
  have higher : run.base ≤ depth + 1 := Nat.le_succ_of_le above
  rw [Evaluation.truthThen, Evaluation.truth_of_value value]
  rcases isBool : v.asBool? with _ | first
  · exact reaches_refused rfl isBool higher
  simp only
  by_cases settles : first = (op == .orElse)
  · rw [if_pos settles]
    refine .single ?_
    simp only [List.reverse_singleton, List.singleton_append, step, called?, Machine.step,
      Machine.popBool_cons, isBool, if_pos settles]
    rfl
  · rw [if_neg settles]
    have moves : step host limit (.doing run callers (.decide op left right) [v] (depth + 1)
        after) = some (.working { run with tasks := .eval right :: .expectBool right :: run.tasks }
          callers (depth + 1) after) := by
      simp only [List.reverse_singleton, List.singleton_append, step, called?, Machine.step,
        Machine.popBool_cons, isBool, if_neg settles]
    exact .head (.single moves) (takes.right above (untripped.step moves))

/-- The test of a conditional chooses the branch that is taken up. -/
theorem Takes.branch {test ifTrue ifFalse : Node} {v : Value}
    (untripped : Untripped host limit
      (.doing run callers (.branch test ifTrue ifFalse) [v] (depth + 1) after))
    (value : below test run.env store = (.ok v, after)) :
    Leads host limit run callers depth
      (.doing run callers (.branch test ifTrue ifFalse) [v] (depth + 1) after)
      (Machine.single (below.truthThen run.env test store fun b store =>
        below (if b then ifTrue else ifFalse) run.env store)) := by
  have higher : run.base ≤ depth + 1 := Nat.le_succ_of_le above
  rw [Evaluation.truthThen, Evaluation.truth_of_value value]
  rcases isBool : v.asBool? with _ | b
  · exact reaches_refused rfl isBool higher
  simp only
  have moves : step host limit (.doing run callers (.branch test ifTrue ifFalse) [v] (depth + 1)
      after) = some (.working
        { run with tasks := .eval (if b then ifTrue else ifFalse) :: .leave :: run.tasks } callers
          (depth + 1) after) := by
    simp only [List.reverse_singleton, List.singleton_append, step, called?, Machine.step,
      Machine.popBool_cons, isBool]
  have chosen := takes { run with tasks := .leave :: run.tasks } callers _ after higher
    (untripped.step moves)
  refine .head (.single moves) ?_
  simp only at chosen
  rcases there : below (if b then ifTrue else ifFalse) run.env after with ⟨e | w, later⟩
  · rw [there] at chosen
    exact chosen
  · rw [there] at chosen
    exact Relation.ReflTransGen.tail chosen rfl

/-- Once its operands have their values, a node leads on as it should. -/
theorem Takes.task {nodes : List Node} {task : Machine.Task}
    (planned : Machine.Planned node nodes task)
    (all : below.all run.env nodes store = (.ok vs, after))
    (untripped : Untripped host limit (.doing run callers task vs (depth + 1) after)) :
    Leads host limit run callers depth (.doing run callers task vs (depth + 1) after)
      (Machine.single (below.ofNode host node run.env store)) := by
  cases planned with
  | strict strict noConstant noCall =>
    rw [Evaluation.ofNode_strict strict, Evaluation.allThen, all]
    exact .strict strict noConstant noCall (Evaluation.all_length all) above
  | call isExpr hasNative =>
    have lengths := Evaluation.all_length all
    rw [isExpr] at all
    change below.all run.env (_ ++ _) store = _ at all
    rw [Evaluation.ofNode_native isExpr hasNative, Evaluation.allThen, all]
    exact takes.call above isExpr hasNative lengths untripped
  | shortCircuit isExpr short =>
    obtain ⟨v, rfl, value⟩ := Evaluation.all_singleton all
    rw [Evaluation.ofNode_shortCircuit isExpr short]
    exact takes.left above untripped value
  | condition isExpr =>
    obtain ⟨v, rfl, value⟩ := Evaluation.all_singleton all
    rw [Evaluation.ofNode_condition isExpr]
    exact takes.branch above untripped value

end

/-- What a node leaves to be done is taken up one level deeper. -/
theorem step_opens {tasks : List Machine.Task} (entered : depth < limit)
    (plans : Machine.plan run.env node = .tasks tasks) (store : Store) :
    step host limit (.working { run with tasks := .eval node :: run.tasks } callers depth store) =
      some (.working { run with tasks := tasks ++ run.tasks } callers (depth + 1) store) := by
  simp only [step, called?, Machine.step, if_neg (Nat.not_le_of_lt entered), plans]

/-- A node that is taken up leads on as it should, if its operands, what its native has evaluated
and the branch that it chooses do so one level deeper. -/
theorem Takes.ofNode (takes : Takes host limit below (depth + 1)) (entered : depth < limit) :
    Takes host limit (below.ofNode host) depth := by
  intro run callers node store above taking untripped
  have roomy : ¬limit ≤ depth := by omega
  have higher : run.base ≤ depth + 1 := Nat.le_succ_of_le above
  have atOnce {result} (comes : (Machine.plan run.env node).atOnce store = some result) :
      below.ofNode host node run.env store = result := Machine.ofNode_of_atOnce comes below host
  rcases plans : Machine.plan run.env node with v | tasks | e
  · rw [atOnce (congrArg (Machine.Plan.atOnce · store) plans)]
    refine .single ?_
    simp only [taking, step, called?, Machine.step, if_neg roomy, plans]
    rfl
  · obtain ⟨nodes, task, planned, rfl⟩ := Machine.Planned.of_plan plans
    have opens := @step_opens host limit run callers depth node _ entered plans store
    rw [List.append_assoc, List.singleton_append] at opens
    refine .head (.single opens) ?_
    have operands := @Takes.all host limit { run with tasks := task :: run.tasks } callers
      (depth + 1) below takes higher nodes store (untripped.step opens)
    rcases all : below.all run.env nodes store with ⟨e | vs, after⟩
    · rw [all] at operands
      rw [planned.fails all]
      exact operands
    · rw [all] at operands
      have reached := (untripped.step opens).reaches operands
      exact .head operands (takes.task above planned all reached)
  · rw [atOnce (congrArg (Machine.Plan.atOnce · store) plans)]
    refine .single ?_
    simp only [taking, step, called?, Machine.step, if_neg roomy, plans]
    exact congrArg some (finish_error higher e store)

/-- Steps that stay under the limit lead where any recursion leads that unfolds there. -/
theorem Takes.of_unfolds {levels : Nat → Evaluation}
    (unfolds : ∀ depth < limit, levels depth = (levels (depth + 1)).ofNode host) (depth : Nat) :
    Takes host limit (levels depth) depth := by
  induction room : limit - depth generalizing depth with
  | zero =>
    intro run callers node store _ taking untripped
    have entered := untripped.entered rfl
    omega
  | succ room ih =>
    have entered : depth < limit := by omega
    rw [unfolds depth entered]
    exact (ih (depth + 1) (by omega)).ofNode entered

section

variable {node : Node} {env : Env} {store : Store}
  (untripped : Untripped host limit (start node env [] depth store))

include untripped

theorem Untripped.reaches_ended {levels : Nat → Evaluation}
    (unfolds : ∀ depth < limit, levels depth = (levels (depth + 1)).ofNode host) :
    Reaches host limit (start node env [] depth store)
      (.ended ⟨(levels depth node env store).1, depth, (levels depth node env store).2⟩) := by
  have leads := Takes.of_unfolds unfolds depth ⟨node, env, depth, [], []⟩ [] node store
    (Nat.le_refl depth) untripped
  simp only at leads
  rcases result : levels depth node env store with ⟨e | v, after⟩
  · rw [result] at leads
    exact leads
  · rw [result] at leads
    exact Relation.ReflTransGen.tail leads rfl

/-- With as many levels left or more the recursion comes to the same, whatever the limit. -/
theorem Untripped.within_eq {room : Nat} (levels : limit - depth ≤ room) (other : Nat) :
    Evaluation.within host limit (limit - depth) node env store =
      Evaluation.within host other room node env store := by
  have entered := untripped.entered rfl
  have unfolds : ∀ deep < limit, Evaluation.within host other (room + depth - deep) =
      (Evaluation.within host other (room + depth - (deep + 1))).ofNode host :=
    fun deep under => Evaluation.within_entered (by omega)
  have ends := untripped.reaches_ended unfolds
  rw [Nat.add_sub_cancel] at ends
  have same := ended_unique (evaluateFrom_reached host limit depth node env store) ends
  rw [evaluateFrom_eq_within] at same
  exact Prod.ext (congrArg Evaluated.outcome same) (congrArg Evaluated.store same)

end

end

end Callbacks

end TypedTrees
