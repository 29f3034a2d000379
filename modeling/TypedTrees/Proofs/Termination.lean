import Mathlib.Logic.Relation
import TypedTrees.Eval.Callbacks
import TypedTrees.Proofs.Eval.Refinement
import TypedTrees.Proofs.Expansion.Waiting
/-!
Evaluation comes to an end, the callbacks of natives included. A node leaves evaluations behind that
are all one level deeper, and so does a native, since the level of its call is still entered while
it is at work; so the levels left under the limit bound how far runs can nest, and what is left to
do on each level is finite (`Callbacks.wellFounded_follows`). The state in which the steps end holds
what the evaluator answers (`Callbacks.evaluateFrom_reached`). With what holds of the driver of
passes and of expansions this says which runs end (`runs_end`).
-/
namespace TypedTrees

namespace Machine

/-- Every task but the evaluation of a node closes a level that has been entered. -/
def Task.closes : Task → Bool
  | .eval _ => false
  | _ => true

/-- What a node leaves to be done is the evaluation of other nodes and then one task, which closes
the level of the node. -/
theorem plan_tasks {env : Env} {node : Node} {tasks : List Task}
    (plans : plan env node = .tasks tasks) :
    ∃ (nodes : List Node) (closing : Task),
      tasks = nodes.map .eval ++ [closing] ∧ closing.closes = true := by
  simp only [plan] at plans
  cases isExpr : node.expr with
  | parameter param =>
    simp only [isExpr] at plans
    split at plans <;> cases plans
  | constant v ty => cases isExpr ▸ plans
  | lambda l => cases isExpr ▸ plans
  | member target m =>
    simp only [isExpr] at plans
    cases plans
    exact ⟨target.toList, _, rfl, rfl⟩
  | call receiver callee args ty =>
    simp only [isExpr] at plans
    split at plans
    · cases plans
      exact ⟨receiver.toList ++ args, _, by rw [List.map_append], rfl⟩
    · cases plans
  | unary op operand ty =>
    simp only [isExpr] at plans
    cases plans
    exact ⟨[operand], _, rfl, rfl⟩
  | binary op left right ty =>
    simp only [isExpr] at plans
    split at plans
    · cases plans
      exact ⟨[left], _, rfl, rfl⟩
    · cases plans
      exact ⟨[left, right], _, rfl, rfl⟩
  | condition test ifTrue ifFalse ty =>
    simp only [isExpr] at plans
    cases plans
    exact ⟨[test], _, rfl, rfl⟩
  | record typeName fields =>
    simp only [isExpr] at plans
    cases plans
    exact ⟨fields.map Prod.snd, _, by rw [List.map_map]; rfl, rfl⟩
  | setMember target m value =>
    simp only [isExpr] at plans
    cases plans
    exact ⟨[target, value], _, rfl, rfl⟩

end Machine

namespace Callbacks

variable {host : Host} {bound : Nat}

/-- A call of a native is taken up by finishing the call node, and the machine comes to what the
native comes to. -/
theorem finish_of_called {run back : Run} {procedure : Procedure}
    (calls : called? host run = some (procedure, back)) :
    ∃ node rest values, run.tasks = .finish node :: rest ∧
      back = { run with tasks := rest, values } ∧
      ∀ nested depth store, Machine.finish nested host node run.values depth store =
        (procedure.run nested depth store, values) := by
  simp only [called?] at calls
  split at calls
  · rename_i node rest tasks
    split at calls
    · rename_i receiver callee args ty isCall
      obtain ⟨native, hasNative, called⟩ := Option.map_eq_some_iff.mp calls
      cases called
      refine ⟨node, rest, _, tasks, rfl, fun nested depth store => ?_⟩
      simp only [Machine.finish, isCall, hasNative]
    · cases calls
  · cases calls

/-- A node that is finished without a native leaves the depth alone, and no evaluation is started
for it. -/
theorem finish_of_not_called {run : Run} {node : Node} {rest : List Machine.Task}
    (tasks : run.tasks = .finish node :: rest) (calls : called? host run = none) (depth : Nat)
    (store : Store) :
    ∃ outcome values later, ∀ nested, Machine.finish nested host node run.values depth store =
      (⟨outcome, depth, later⟩, values) := by
  simp only [called?, tasks] at calls
  have same : ∀ nested idle, Machine.finish nested host node run.values depth store =
      (⟨(Machine.finish idle host node run.values depth store).1.outcome, depth,
        (Machine.finish idle host node run.values depth store).1.store⟩,
        (Machine.finish idle host node run.values depth store).2) := by
    intro nested idle
    simp only [Machine.finish]
    split
    · rfl
    · rename_i isCall
      simp only [isCall, Option.map_eq_none_iff] at calls
      simp only [calls]
    all_goals rfl
  exact ⟨_, _, _, fun nested => same nested (evaluateWithin host 0 0)⟩

/-- `Follows host bound s' s` when `s'` is the state one step after `s`, under any limit up to
`bound`. -/
def Follows (host : Host) (bound : Nat) (s' s : State) : Prop :=
  ∃ limit ≤ bound, step host limit s = some s'

/-- These tasks, taken up at this depth by the given run, come to an end with any values and in any
store. -/
def Halts (host : Host) (bound : Nat) (run : Run) (callers : List Caller)
    (tasks : List Machine.Task) (depth : Nat) : Prop :=
  ∀ values store,
    Acc (Follows host bound) (.working { run with tasks, values } callers depth store)

/-- If the run fails at this depth or deeper, its callers come to an end. -/
def Exits (host : Host) (bound base : Nat) (callers : List Caller) (depth : Nat) : Prop :=
  ∀ deep, depth ≤ deep → ∀ e store,
    Acc (Follows host bound) (resume callers ⟨.error e, min deep base, store⟩)

/-- Whatever is evaluated at this depth comes to an end, if what comes after it does. -/
def Concludes (host : Host) (bound depth : Nat) : Prop :=
  ∀ (run : Run) (callers : List Caller), Exits host bound run.base callers depth →
    ∀ node rest, Halts host bound run callers rest depth →
      Halts host bound run callers (.eval node :: rest) depth

section Halts

variable {run : Run} {callers : List Caller} {rest : List Machine.Task} {depth : Nat}

theorem Halts.nil
    (returns : ∀ v store, Acc (Follows host bound) (resume callers ⟨.ok v, depth, store⟩))
    (exits : Exits host bound run.base callers depth) :
    Halts host bound run callers [] depth := by
  intro values store
  refine .intro _ fun s' ⟨limit, _, moves⟩ => ?_
  cases values with
  | nil =>
    cases moves
    exact exits depth (Nat.le_refl depth) _ store
  | cons v values =>
    cases moves
    exact returns v store

theorem Halts.leave (after : Halts host bound run callers rest (depth - 1)) :
    Halts host bound run callers (.leave :: rest) depth := by
  intro values store
  refine .intro _ fun s' ⟨limit, _, moves⟩ => ?_
  cases moves
  exact after values store

theorem Halts.expectBool {node : Node} (exits : Exits host bound run.base callers depth)
    (after : Halts host bound run callers rest (depth - 1)) :
    Halts host bound run callers (.expectBool node :: rest) depth := by
  intro values store
  refine .intro _ fun s' ⟨limit, _, moves⟩ => ?_
  simp only [step, called?, Machine.step] at moves
  generalize Machine.popBool node values = popped at moves
  obtain ⟨e | b, values⟩ := popped
  · cases moves
    exact exits depth (Nat.le_refl depth) e store
  · cases moves
    exact after _ store

theorem Halts.decide {op : BinaryOp} {left right : Node} (one : Concludes host bound depth)
    (exits : Exits host bound run.base callers depth)
    (after : Halts host bound run callers rest (depth - 1)) :
    Halts host bound run callers (.decide op left right :: rest) depth := by
  intro values store
  refine .intro _ fun s' ⟨limit, _, moves⟩ => ?_
  simp only [step, called?, Machine.step] at moves
  generalize Machine.popBool left values = popped at moves
  obtain ⟨e | first, values⟩ := popped
  · cases moves
    exact exits depth (Nat.le_refl depth) e store
  · by_cases settles : first = (op == .orElse)
    · simp only [if_pos settles] at moves
      cases moves
      exact after _ store
    · simp only [if_neg settles] at moves
      cases moves
      exact one run callers exits right _ (.expectBool exits after) values store

theorem Halts.branch {test ifTrue ifFalse : Node} (one : Concludes host bound depth)
    (exits : Exits host bound run.base callers depth)
    (after : Halts host bound run callers rest (depth - 1)) :
    Halts host bound run callers (.branch test ifTrue ifFalse :: rest) depth := by
  intro values store
  refine .intro _ fun s' ⟨limit, _, moves⟩ => ?_
  simp only [step, called?, Machine.step] at moves
  generalize Machine.popBool test values = popped at moves
  obtain ⟨e | b, values⟩ := popped
  · cases moves
    exact exits depth (Nat.le_refl depth) e store
  · cases moves
    exact one run callers exits _ _ (.leave after) values store

theorem acc_start {node : Node} {env : Env} {store : Store} (one : Concludes host bound depth)
    (returns : ∀ outcome store,
      Acc (Follows host bound) (resume callers ⟨outcome, depth, store⟩)) :
    Acc (Follows host bound) (start node env callers depth store) := by
  have exits : Exits host bound depth callers depth := by
    intro deep below e store
    rw [Nat.min_eq_right below]
    exact returns (.error e) store
  exact one ⟨node, env, depth, [], []⟩ callers exits node []
    (.nil (fun v store => returns (.ok v) store) exits) [] store

/-- A native comes to an end, since it goes on for finitely many steps and each evaluation that it
starts ends. -/
theorem acc_native (one : Concludes host bound depth)
    (exits : Exits host bound run.base callers depth)
    (after : Halts host bound run callers run.tasks (depth - 1)) (procedure : Procedure)
    (store : Store) : Acc (Follows host bound) (.native procedure run callers depth store) := by
  induction procedure generalizing store with
  | answer outcome =>
    refine .intro _ fun s' ⟨limit, _, moves⟩ => ?_
    cases outcome with
    | ok v =>
      cases moves
      exact after (v :: run.values) store
    | error e =>
      cases moves
      exact exits depth (Nat.le_refl depth) e store
  | apply callee args next ih =>
    refine .intro _ fun s' ⟨limit, _, moves⟩ => ?_
    simp only [step] at moves
    generalize callee.callTarget args = target at moves
    obtain e | ⟨body, scope⟩ := target
    · cases moves
      exact ih _ store
    · cases moves
      exact acc_start one fun outcome store => ih outcome store
  | evaluate node env next ih =>
    refine .intro _ fun s' ⟨limit, _, moves⟩ => ?_
    cases moves
    exact acc_start one fun outcome store => ih outcome store
  | draw rest next ih =>
    refine .intro _ fun s' ⟨limit, _, moves⟩ => ?_
    cases moves
    exact ih _ _
  | change slots next ih =>
    refine .intro _ fun s' ⟨limit, _, moves⟩ => ?_
    cases moves
    exact ih _ _

theorem Halts.finish {node : Node} (one : Concludes host bound depth)
    (exits : Exits host bound run.base callers depth)
    (after : Halts host bound run callers rest (depth - 1)) :
    Halts host bound run callers (.finish node :: rest) depth := by
  intro values store
  refine .intro _ fun s' ⟨limit, _, moves⟩ => ?_
  rcases calls : called? host { run with tasks := .finish node :: rest, values } with _ | ⟨p, back⟩
  · obtain ⟨outcome, values, later, finishes⟩ := finish_of_not_called rfl calls depth store
    simp only at finishes
    simp only [step, calls, Machine.step, finishes] at moves
    cases outcome with
    | error e =>
      cases moves
      exact exits depth (Nat.le_refl depth) e later
    | ok v =>
      cases moves
      exact after _ later
  · obtain ⟨_, _, values, tasks, rfl, _⟩ := finish_of_called calls
    cases tasks
    simp only [step, calls] at moves
    cases moves
    exact @acc_native host bound { run with tasks := rest, values } callers depth one exits after p
      store

/-- A task that closes a level comes to an end, if what is evaluated inside the level does and what
comes after the task. -/
theorem Halts.closing {task : Machine.Task} (closes : task.closes = true)
    (one : Concludes host bound depth) (exits : Exits host bound run.base callers depth)
    (after : Halts host bound run callers rest (depth - 1)) :
    Halts host bound run callers (task :: rest) depth := by
  cases task with
  | eval node => cases closes
  | finish node => exact .finish one exits after
  | decide op left right => exact .decide one exits after
  | expectBool node => exact .expectBool exits after
  | branch test ifTrue ifFalse => exact .branch one exits after
  | leave => exact .leave after

theorem Halts.evals (one : Concludes host bound depth)
    (exits : Exits host bound run.base callers depth)
    (after : Halts host bound run callers rest depth) (nodes : List Node) :
    Halts host bound run callers (nodes.map .eval ++ rest) depth := by
  induction nodes with
  | nil => exact after
  | cons node nodes ih => exact one run callers exits node _ ih

end Halts

/-- Evaluations come to an end, by induction on the levels left. -/
theorem concludes (room : Nat) {depth : Nat} (levels : bound - depth = room) :
    Concludes host bound depth := by
  induction room generalizing depth with
  | zero =>
    intro run callers exits node rest _ values store
    refine .intro _ fun s' ⟨limit, under, moves⟩ => ?_
    have full : limit ≤ depth := by omega
    simp only [step, called?, Machine.step, if_pos full] at moves
    cases moves
    exact exits depth (Nat.le_refl depth) _ store
  | succ room ih =>
    intro run callers exits node rest after values store
    have deeper : Concludes host bound (depth + 1) := ih (by omega)
    have exitsDeeper : Exits host bound run.base callers (depth + 1) :=
      fun deep below => exits deep (by omega)
    refine .intro _ fun s' ⟨limit, under, moves⟩ => ?_
    simp only [step, called?, Machine.step] at moves
    by_cases full : limit ≤ depth
    · simp only [if_pos full] at moves
      cases moves
      exact exits depth (Nat.le_refl depth) _ store
    · simp only [if_neg full] at moves
      cases plans : Machine.plan run.env node with
      | value v =>
        simp only [plans] at moves
        cases moves
        exact after _ store
      | failure e =>
        simp only [plans] at moves
        cases moves
        exact exits (depth + 1) (by omega) e store
      | tasks tasks =>
        simp only [plans] at moves
        cases moves
        obtain ⟨nodes, closing, rfl, closes⟩ := Machine.plan_tasks plans
        have closed : Halts host bound run callers (closing :: rest) (depth + 1) :=
          .closing closes deeper exitsDeeper after
        have whole := Halts.evals deeper exitsDeeper closed nodes values store
        simpa only [List.append_assoc, List.cons_append, List.nil_append] using whole

theorem Halts.all {run : Run} {callers : List Caller}
    (returns : ∀ evaluated, Acc (Follows host bound) (resume callers evaluated))
    (tasks : List Machine.Task) (depth : Nat) : Halts host bound run callers tasks depth := by
  have exits : ∀ depth, Exits host bound run.base callers depth :=
    fun _ _ _ _ _ => returns _
  induction tasks generalizing depth with
  | nil => exact .nil (fun _ _ => returns _) (exits depth)
  | cons task rest ih =>
    cases task with
    | eval node => exact concludes _ rfl run callers (exits depth) node rest (ih depth)
    | _ => exact .closing rfl (concludes _ rfl) (exits depth) (ih _)

theorem acc_resume (callers : List Caller) (evaluated : Evaluated) :
    Acc (Follows host bound) (resume callers evaluated) := by
  induction callers generalizing evaluated with
  | nil => exact .intro _ fun s' ⟨_, _, moves⟩ => nomatch moves
  | cons caller callers ih =>
    exact acc_native (concludes _ rfl) (fun _ _ _ _ => ih _) (.all ih _ _) _ _

/-- No evaluation goes on forever, whatever natives call and evaluate, and even if the limit changes
on the way. -/
theorem wellFounded_follows (host : Host) (bound : Nat) : WellFounded (Follows host bound) := by
  refine ⟨fun state => ?_⟩
  cases state with
  | working run callers depth store =>
    exact @Halts.all host bound run callers (acc_resume callers) run.tasks depth run.values store
  | native procedure run callers depth store =>
    exact acc_native (concludes _ rfl) (fun _ _ _ _ => acc_resume _ _) (.all (acc_resume _) _ _)
      procedure store
  | ended evaluated => exact .intro _ fun s' ⟨_, _, moves⟩ => nomatch moves

variable {limit : Nat}

/-- Steps lead from the one state to the other. -/
abbrev Reaches (host : Host) (limit : Nat) : State → State → Prop :=
  Relation.ReflTransGen fun s s' => step host limit s = some s'

/-- A native leads to its answer, if the evaluations that it starts lead to their outcomes. -/
theorem reaches_answer {room depth : Nat} (enough : limit - depth ≤ room)
    (starts : ∀ node env callers store, Reaches host limit (start node env callers depth store)
      (resume callers (evaluateWithin host limit room depth node env store)))
    (procedure : Procedure) (run : Run) (callers : List Caller) (store : Store) :
    Reaches host limit (.native procedure run callers depth store)
      (.native (.answer (procedure.run (evaluateWithin host limit room) depth store).outcome) run
        callers depth (procedure.run (evaluateWithin host limit room) depth store).store) := by
  have back : ∀ node env store,
      (evaluateWithin host limit room depth node env store).depth = depth := by
    intro node env store
    rw [evaluateWithin_eq_within enough]
  induction procedure generalizing store with
  | answer outcome => exact .refl
  | apply callee args next ih =>
    rw [Procedure.run]
    rcases target : callee.callTarget args with e | ⟨body, scope⟩
    · refine .head ?_ (ih (.error e) store)
      simp only [step, target]
    · have returns := starts body scope (⟨next, run⟩ :: callers) store
      rw [resume, back] at returns
      simp only [back]
      refine .head ?_ (returns.trans (ih _ _))
      simp only [step, target]
  | evaluate node env next ih =>
    have returns := starts node env (⟨next, run⟩ :: callers) store
    rw [resume, back] at returns
    rw [Procedure.run]
    simp only [back]
    exact .head rfl (returns.trans (ih _ _))
  | draw rest next ih => exact .head rfl (ih _ _)
  | change slots next ih => exact .head rfl (ih _ _)

/-- How many levels the tasks are still to close. -/
def openLevels (tasks : List Machine.Task) : Nat := tasks.countP Machine.Task.closes

theorem openLevels_closing {task : Machine.Task} (closes : task.closes = true)
    (rest : List Machine.Task) : openLevels (task :: rest) = openLevels rest + 1 :=
  List.countP_cons_of_pos closes

theorem openLevels_evals (nodes : List Node) (rest : List Machine.Task) :
    openLevels (nodes.map .eval ++ rest) = openLevels rest := by
  induction nodes with
  | nil => rfl
  | cons node nodes ih => exact ih

/-- A step of the machine that calls no native does the same whatever natives would evaluate with,
and changes the depth by as many levels as it opens or closes. -/
theorem step_of_not_called {run : Run} (calls : called? host run = none) (nested : Nested)
    {depth : Nat} {store : Store} (level : depth = run.base + openLevels run.tasks) :
    Machine.step nested host limit run.env run.root ⟨run.tasks, run.values, depth, store⟩ =
      Machine.step (evaluateWithin host limit 0) host limit run.env run.root
        ⟨run.tasks, run.values, depth, store⟩ ∧
    ∀ c, Machine.step nested host limit run.env run.root ⟨run.tasks, run.values, depth, store⟩ =
      .running c → c.depth = run.base + openLevels c.tasks := by
  rcases tasks : run.tasks with _ | ⟨task, rest⟩
  · refine ⟨rfl, fun c moves => ?_⟩
    simp only [Machine.step] at moves
    split at moves <;> cases moves
  rw [tasks] at level
  cases task with
  | eval node =>
    refine ⟨rfl, fun c moves => ?_⟩
    simp only [Machine.step] at moves
    split at moves
    · cases moves
    · split at moves
      · cases moves
        exact level
      · rename_i plans
        cases moves
        obtain ⟨nodes, closing, rfl, closes⟩ := Machine.plan_tasks plans
        have opened : openLevels (nodes.map .eval ++ [closing] ++ rest) = openLevels rest + 1 := by
          rw [List.append_assoc, openLevels_evals]
          exact openLevels_closing closes rest
        rw [opened]
        exact congrArg (· + 1) level
      · cases moves
  | finish node =>
    obtain ⟨outcome, values, later, finishes⟩ := finish_of_not_called tasks calls depth store
    simp only [Machine.step, finishes]
    refine ⟨trivial, fun c moves => ?_⟩
    cases outcome with
    | error e => cases moves
    | ok v =>
      cases moves
      rw [openLevels_closing rfl] at level
      simp only
      omega
  | decide op left right =>
    refine ⟨rfl, fun c moves => ?_⟩
    simp only [Machine.step] at moves
    split at moves
    · cases moves
    · split at moves <;> cases moves
      · simp only [openLevels, List.countP_cons, Machine.Task.closes, if_true] at level ⊢
        omega
      · exact level
  | expectBool node =>
    refine ⟨rfl, fun c moves => ?_⟩
    simp only [Machine.step] at moves
    split at moves
    · cases moves
    · cases moves
      rw [openLevels_closing rfl] at level
      simp only
      omega
  | branch test ifTrue ifFalse =>
    refine ⟨rfl, fun c moves => ?_⟩
    simp only [Machine.step] at moves
    split at moves
    · cases moves
    · cases moves
      exact level
  | leave =>
    refine ⟨rfl, fun c moves => ?_⟩
    cases moves
    rw [openLevels_closing rfl] at level
    simp only
    omega

/-- A run leads to its end, if the evaluations that natives start in it, all of them on deeper
levels, lead to their outcomes. -/
theorem reaches_finish {room : Nat} {run : Run} {callers : List Caller} {depth : Nat}
    {store : Store} (enough : limit - run.base ≤ room + 1)
    (starts : ∀ depth, run.base < depth → ∀ node env callers store,
      Reaches host limit (start node env callers depth store)
        (resume callers (evaluateWithin host limit room depth node env store)))
    (level : depth = run.base + openLevels run.tasks) :
    Reaches host limit (.working run callers depth store)
      (finish run callers (Machine.run (evaluateWithin host limit room) host limit run.env run.root
        ⟨run.tasks, run.values, depth, store⟩)) := by
  induction size : Machine.cost run.tasks using Nat.strongRecOn
    generalizing run depth store with
  | ind size ih =>
    subst size
    rcases calls : called? host run with _ | ⟨procedure, back⟩
    · obtain ⟨same, levels⟩ := step_of_not_called calls (evaluateWithin host limit room) level
      rcases moves : Machine.step (evaluateWithin host limit room) host limit run.env run.root
        ⟨run.tasks, run.values, depth, store⟩ with c | evaluated
      · have lesser := Machine.cost_step moves
        have later := @ih _ lesser { run with tasks := c.tasks, values := c.values } c.depth c.store
          enough starts (levels c moves) rfl
        rw [Machine.run_running moves]
        refine .head ?_ later
        rw [same] at moves
        simp only [step, calls, moves]
      · rw [Machine.run_finished moves]
        refine .single ?_
        rw [same] at moves
        simp only [step, calls, moves]
    · obtain ⟨node, rest, values, tasks, rfl, finishes⟩ := finish_of_called calls
      have deeper : run.base < depth := by
        rw [tasks, openLevels_closing rfl] at level
        omega
      have within : limit - depth ≤ room := by omega
      have answers := reaches_answer within (starts depth deeper) procedure
        { run with tasks := rest, values } callers store
      have kept : (procedure.run (evaluateWithin host limit room) depth store).depth = depth := by
        rw [Procedure.run_eq_carryOut (evaluateWithin_eq_within within)]
      refine .head (by simp only [step, calls]) (answers.trans ?_)
      rcases result : procedure.run (evaluateWithin host limit room) depth store with
        ⟨e | v, deep, later⟩
      all_goals
        rw [result] at kept
        obtain rfl : depth = deep := kept.symm
      · have stops : Machine.step (evaluateWithin host limit room) host limit run.env run.root
            ⟨run.tasks, run.values, depth, store⟩ = .finished ⟨.error e, depth, later⟩ := by
          simp only [Machine.step, tasks, finishes, result]
        rw [Machine.run_finished stops]
        exact .single rfl
      · have moves : Machine.step (evaluateWithin host limit room) host limit run.env run.root
            ⟨run.tasks, run.values, depth, store⟩ =
              .running ⟨rest, v :: values, depth - 1, later⟩ := by
          simp only [Machine.step, tasks, finishes, result]
        have lesser := Machine.cost_step moves
        rw [Machine.run_running moves]
        refine .head rfl (@ih _ lesser { run with tasks := rest, values := v :: values } (depth - 1)
          later enough starts ?_ rfl)
        rw [tasks, openLevels_closing rfl] at level
        change depth - 1 = run.base + openLevels rest
        omega

theorem reaches_resume (room : Nat) {depth : Nat} (enough : limit - depth ≤ room) (node : Node)
    (env : Env) (callers : List Caller) (store : Store) :
    Reaches host limit (start node env callers depth store)
      (resume callers (evaluateWithin host limit room depth node env store)) := by
  induction room generalizing depth node env callers store with
  | zero =>
    refine .single ?_
    simp only [start, step, called?, Machine.step, if_pos (by omega : limit ≤ depth), finish,
      Nat.min_self, evaluateWithin]
  | succ room ih =>
    have ends := @reaches_finish host limit room ⟨node, env, depth, [.eval node], []⟩ callers depth
      store enough (fun deeper (below : depth < deeper) => ih (by omega)) rfl
    rw [evaluateWithin]
    rw [finish] at ends
    split at ends
    all_goals
      rename_i outcome
      simp only [outcome] at ends ⊢
      exact ends

/-- The steps of an evaluation lead to the end, with what the evaluator answers. -/
theorem evaluateFrom_reached (host : Host) (limit depth : Nat) (node : Node) (env : Env)
    (store : Store) : Reaches host limit (start node env [] depth store)
      (.ended (evaluateFrom host limit depth node env store)) :=
  reaches_resume _ (Nat.le_refl _) node env [] store

end Callbacks

/-- No run is endless while the limits that it goes by stay under some bound.

* The driver of passes has no infinite run, whatever the pass decides and whatever its state is. It
  enters and leaves the levels itself: a pass is told the depth and cannot change it.
* The steps of an expansion, with no look-up that waits, lead to its end, and to what the expander
  gives, unless a look-up is made of an entry in the course of its own capture. Then that look-up
  waits, and the expansion has no end.
* No look-up waits, and every expansion ends, where the functions can be ranked so that each body
  looks up functions of lower rank only, as bodies do that look up none.
* Evaluation has no infinite run, whatever the natives of the host call and evaluate, and so its
  steps lead to its end, and to what the evaluator gives. -/
theorem runs_end (bound : Nat) :
    (∀ {σ : Type} (pass : Pass σ) (root : Node),
      WellFounded (WorkList.Follows pass bound root)) ∧
    (∀ (expander : Expander) (host : Host) (tree : Node) (session : Session)
      (outcome : Except Error Node) (after : Session),
      expander.Ends host tree session outcome after ↔
        (expander.expand host tree session).1 = outcome ∧
          (expander.expand host tree session).2.2 = after ∧ after.waits = false) ∧
    (∀ (rank : Nat → Nat → Nat) (expander : Expander) (host : Host) (tree : Node)
      (session : Session), session.Ranked rank → session.waits = false →
        ∃ outcome after, expander.Ends host tree session outcome after) ∧
    (∀ host : Host, WellFounded (Callbacks.Follows host bound)) ∧
    ∀ (evaluator : Evaluator) (host : Host) (sessionLimit : Nat) (node : Node) (env : Env)
      (store : Store), ∃ evaluated,
        Callbacks.Reaches host (evaluator.guard.bound sessionLimit)
          (Callbacks.start node env [] evaluator.guard.current store) (.ended evaluated) ∧
        (evaluator.evaluate host sessionLimit node env store).1 = evaluated.outcome := by
  refine ⟨fun pass root => WorkList.wellFounded_follows pass bound root,
    fun _ _ _ _ _ _ => Expander.ends_iff,
    fun _ expander host tree _ ranked straight =>
      ⟨_, _, Expander.ends_of_ranked ranked straight expander host tree⟩,
    fun host => Callbacks.wellFounded_follows host bound, ?_⟩
  intro evaluator host sessionLimit node env store
  exact ⟨_, Callbacks.evaluateFrom_reached host _ _ node env store, rfl⟩

end TypedTrees
