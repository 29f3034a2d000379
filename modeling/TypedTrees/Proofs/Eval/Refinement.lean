import Mathlib.Data.List.Basic
import TypedTrees.Eval.Evaluator
import TypedTrees.Proofs.Eval.Strict
/-!
The evaluator's machine against plain recursion. The machine's tasks and operands stand for the
recursion that is under way: taking up the evaluation of a node leads to the same machine with the
node's value on top of the values, or to the end of the run with the same error
(`Machine.Leads.eval`). So an evaluation and the recursion come to the same thing
(`Evaluator.evaluate_refines_recursion`).
-/
namespace TypedTrees

/-- At this depth a nested evaluation is the given one, and it ends at the depth it started from. -/
def Nested.Agrees (nested : Nested) (evaluation : Evaluation) (depth : Nat) : Prop :=
  ∀ node env store, nested depth node env store =
    ⟨(evaluation node env store).1, depth, (evaluation node env store).2⟩

theorem Procedure.run_eq_carryOut {nested : Nested} {evaluation : Evaluation} {depth : Nat}
    (agrees : nested.Agrees evaluation depth) (procedure : Procedure) (store : Store) :
    procedure.run nested depth store =
      ⟨(procedure.carryOut evaluation store).1, depth,
        (procedure.carryOut evaluation store).2⟩ := by
  induction procedure generalizing store with
  | answer outcome => rfl
  | apply callee args next ih =>
    rw [run, carryOut]
    rcases callee.callTarget args with e | ⟨body, scope⟩
    · exact ih _ _
    · simp only [agrees _ _ _]
      exact ih _ _
  | evaluate node env next ih =>
    rw [run, carryOut]
    simp only [agrees _ _ _]
    exact ih _ _
  | draw rest next ih =>
    rw [run, carryOut]
    exact ih _ _
  | change slots next ih =>
    rw [run, carryOut]
    exact ih _ _

namespace Machine

variable {nested : Nested} {host : Host} {limit : Nat} {env : Env} {root : Node}

theorem run_running {c c' : Config} (moves : step nested host limit env root c = .running c') :
    run nested host limit env root c = run nested host limit env root c' := by
  rw [run]
  split
  · rename_i stops
    cases moves.symm.trans stops
  · rename_i next goes
    cases goes.symm.trans moves
    rfl

theorem run_finished {c : Config} {evaluated : Evaluated}
    (stops : step nested host limit env root c = .finished evaluated) :
    run nested host limit env root c = evaluated := by
  rw [run]
  split
  · rename_i other halts
    cases halts.symm.trans stops
    rfl
  · rename_i goes
    cases stops.symm.trans goes

/-- From `c` the machine goes on as the recursion says: with the new values on top of the old ones
at the depth it had before, or with the error, at no lesser depth, as the end of the run. -/
def Leads (nested : Nested) (host : Host) (limit : Nat) (env : Env) (root : Node) (c : Config)
    (depth : Nat) (rest : List Task) (values : List Value) :
    Except Error (List Value) × Store → Prop
  | (.ok vs, store) => run nested host limit env root c =
      run nested host limit env root ⟨rest, vs.reverse ++ values, depth, store⟩
  | (.error e, store) => ∃ deep, depth ≤ deep ∧
      run nested host limit env root c = ⟨.error e, deep, store⟩

def single : Except Error Value × Store → Except Error (List Value) × Store
  | (.ok v, store) => (.ok [v], store)
  | (.error e, store) => (.error e, store)

theorem Leads.of_run_eq {c c' : Config} {depth : Nat} {rest : List Task} {values : List Value}
    {result : Except Error (List Value) × Store}
    (same : run nested host limit env root c = run nested host limit env root c')
    (leads : Leads nested host limit env root c' depth rest values result) :
    Leads nested host limit env root c depth rest values result := by
  obtain ⟨e | vs, store⟩ := result
  · obtain ⟨deep, bound, ends⟩ := leads
    exact ⟨deep, bound, same.trans ends⟩
  · exact same.trans leads

theorem Leads.step {c c' : Config} {depth : Nat} {rest : List Task} {values : List Value}
    {result : Except Error (List Value) × Store}
    (moves : Machine.step nested host limit env root c = .running c')
    (leads : Leads nested host limit env root c' depth rest values result) :
    Leads nested host limit env root c depth rest values result :=
  .of_run_eq (run_running moves) leads

theorem Leads.evals {below : Evaluation} {depth : Nat}
    (one : ∀ node rest values store,
      Leads nested host limit env root ⟨.eval node :: rest, values, depth, store⟩ depth rest values
        (single (below node env store)))
    (nodes : List Node) (rest : List Task) (values : List Value) (store : Store) :
    Leads nested host limit env root ⟨nodes.map .eval ++ rest, values, depth, store⟩ depth rest
      values (below.all env nodes store) := by
  induction nodes generalizing values store with
  | nil => simp [Leads, Evaluation.all]
  | cons node nodes ih =>
    have first := one node (nodes.map .eval ++ rest) values store
    rw [Evaluation.all]
    rcases here : below node env store with ⟨e | v, after⟩
    · rw [here] at first
      exact first
    · rw [here] at first
      have others := ih (v :: values) after
      simp only
      rcases there : below.all env nodes after with ⟨e | vs, final⟩
      · rw [there] at others
        obtain ⟨deep, below, ends⟩ := others
        exact ⟨deep, below, first.trans ends⟩
      · rw [there] at others
        have joined := first.trans others
        simpa only [Leads, List.map_cons, List.cons_append, List.reverse_cons, List.append_assoc,
          List.nil_append] using joined

/-- A node that is finished on the values of all its operands leads where the recursion leads that
evaluates the operands and goes on with `next`. -/
theorem Leads.operands {below : Evaluation} {depth : Nat} (entered : ¬limit ≤ depth)
    (one : ∀ node rest values store,
      Leads nested host limit env root ⟨.eval node :: rest, values, depth + 1, store⟩ (depth + 1)
        rest values (single (below node env store)))
    {node : Node} {nodes : List Node} {next : List Value → Store → Except Error Value × Store}
    (plans : plan env node = .tasks (nodes.map .eval ++ [.finish node]))
    (finishes : ∀ (vs values : List Value) store, vs.length = nodes.length →
      finish nested host node (vs.reverse ++ values) (depth + 1) store =
        (⟨(next vs store).1, depth + 1, (next vs store).2⟩, values))
    (rest : List Task) (values : List Value) (store : Store) :
    Leads nested host limit env root ⟨.eval node :: rest, values, depth, store⟩ depth rest values
      (single (below.allThen env nodes store next)) := by
  have moves : Machine.step nested host limit env root ⟨.eval node :: rest, values, depth, store⟩ =
      .running ⟨nodes.map .eval ++ .finish node :: rest, values, depth + 1, store⟩ := by
    simp only [Machine.step, if_neg entered, plans, List.append_assoc, List.cons_append,
      List.nil_append]
  have leads := Leads.evals one nodes (.finish node :: rest) values store
  refine .step moves ?_
  rw [Evaluation.allThen]
  rcases all : below.all env nodes store with ⟨e | vs, after⟩
  · rw [all] at leads
    obtain ⟨deep, bound, ends⟩ := leads
    exact ⟨deep, by omega, ends⟩
  · rw [all] at leads
    have finished := finishes vs values after (Evaluation.all_length all)
    simp only
    rcases done : next vs after with ⟨e | v, final⟩
    · rw [done] at finished
      refine ⟨depth + 1, by omega, leads.trans (run_finished ?_)⟩
      simp only [Machine.step, finished]
    · rw [done] at finished
      refine leads.trans (run_running ?_)
      simp only [Machine.step, finished, Nat.add_sub_cancel, List.reverse_cons, List.reverse_nil,
        List.nil_append, List.cons_append]

theorem finish_strict {node : Node} (strict : node.expr.isStrict = true)
    (noConstant : ∀ v ty, node.expr ≠ .constant v ty)
    (noCall : ∀ receiver callee args ty, node.expr ≠ .call receiver callee args ty)
    {vs : List Value} (lengths : vs.length = node.expr.children.length) (values : List Value)
    (depth : Nat) (store : Store) :
    finish nested host node (vs.reverse ++ values) depth store =
      (⟨(node.expr.finish host vs store).1, depth, (node.expr.finish host vs store).2⟩,
        values) := by
  cases isExpr : node.expr with
  | parameter _ | lambda _ | condition _ _ _ _ => cases isExpr ▸ strict
  | constant v ty => exact absurd isExpr (noConstant v ty)
  | call receiver callee args ty => exact absurd isExpr (noCall receiver callee args ty)
  | member target m =>
    rw [isExpr] at lengths
    cases target with
    | none =>
      cases List.length_eq_zero_iff.mp lengths
      simp only [finish, isExpr, Expr.finish]
      rfl
    | some target =>
      obtain ⟨v, rfl⟩ := List.length_eq_one_iff.mp lengths
      simp only [finish, isExpr, Expr.finish]
      rfl
  | unary op operand ty =>
    rw [isExpr] at lengths
    obtain ⟨v, rfl⟩ := List.length_eq_one_iff.mp lengths
    simp only [finish, isExpr, Expr.finish]
    rfl
  | binary op left right ty =>
    rw [isExpr] at lengths
    obtain ⟨l, r, rfl⟩ := List.length_eq_two.mp lengths
    simp only [finish, isExpr, Expr.finish]
    rfl
  | record typeName fields =>
    rw [isExpr] at lengths
    have length : fields.length = vs.reverse.length := by
      rw [List.length_reverse, lengths, Expr.children, List.length_map]
    simp only [finish, isExpr, Expr.finish, popMany, length, List.take_left, List.drop_left,
      List.reverse_reverse]
  | setMember target m value =>
    rw [isExpr] at lengths
    obtain ⟨t, v, rfl⟩ := List.length_eq_two.mp lengths
    simp only [finish, isExpr, Expr.finish]
    rfl

theorem plan_strict {node : Node} (strict : node.expr.isStrict = true)
    (noConstant : ∀ v ty, node.expr ≠ .constant v ty)
    (noCall : ∀ receiver callee args ty, node.expr ≠ .call receiver callee args ty) :
    plan env node = .tasks (node.expr.children.map .eval ++ [.finish node]) := by
  cases isExpr : node.expr with
  | parameter _ | lambda _ | condition _ _ _ _ => cases isExpr ▸ strict
  | constant v ty => exact absurd isExpr (noConstant v ty)
  | call receiver callee args ty => exact absurd isExpr (noCall receiver callee args ty)
  | binary op left right ty =>
    have both : ¬(op = .andAlso ∨ op = .orElse) := by simpa [isExpr, Expr.isStrict] using strict
    simp only [plan, isExpr, if_neg both]
    rfl
  | record typeName fields =>
    simp only [plan, isExpr, Expr.children, List.map_map]
    rfl
  | _ =>
    simp only [plan, isExpr]
    rfl

theorem popBool_cons (node : Node) (v : Value) (values : List Value) :
    popBool node (v :: values) = match v.asBool? with
      | some b => (.ok b, values)
      | none => (.error (.eval (.notBool node.text v.text)), values) := rfl

section Lazy

variable {below : Evaluation} {depth : Nat} (entered : ¬limit ≤ depth)
  (one : ∀ node rest values store,
    Leads nested host limit env root ⟨.eval node :: rest, values, depth + 1, store⟩ (depth + 1)
      rest values (single (below node env store)))

include one

/-- A test leads to an error, or to the task that takes up its verdict. -/
theorem Leads.truth {test : Node} {task : Task} {rest : List Task} {values : List Value}
    {next : Bool → Store → Except Error Value × Store}
    (refuses : ∀ v store, v.asBool? = none →
      Machine.step nested host limit env root ⟨task :: rest, v :: values, depth + 1, store⟩ =
        .finished ⟨.error (.eval (.notBool test.text v.text)), depth + 1, store⟩)
    (goes : ∀ v b store, v.asBool? = some b →
      Leads nested host limit env root ⟨task :: rest, v :: values, depth + 1, store⟩ depth rest
        values (single (next b store)))
    (store : Store) :
    Leads nested host limit env root ⟨.eval test :: task :: rest, values, depth + 1, store⟩ depth
      rest values (single (below.truthThen env test store next)) := by
  have tested := one test (task :: rest) values store
  rw [Evaluation.truthThen, Evaluation.truth]
  rcases first : below test env store with ⟨e | v, middle⟩
  · rw [first] at tested
    obtain ⟨deep, bound, ends⟩ := tested
    exact ⟨deep, by omega, ends⟩
  rw [first] at tested
  have verdict : run nested host limit env root ⟨.eval test :: task :: rest, values, depth + 1,
      store⟩ = run nested host limit env root
        ⟨task :: rest, v :: values, depth + 1, middle⟩ := tested
  simp only
  cases isBool : v.asBool? with
  | none => exact ⟨depth + 1, by omega, verdict.trans (run_finished (refuses v middle isBool))⟩
  | some b => exact .of_run_eq verdict (goes v b middle isBool)

include entered

theorem Leads.call {node : Node} {receiver : Option Node} {callee : Callee} {args : List Node}
    {ty : Ty} {native : Native} (isExpr : node.expr = .call receiver callee args ty)
    (hasNative : callee.native? = some native) (agrees : nested.Agrees below (depth + 1))
    (rest : List Task) (values : List Value) (store : Store) :
    Leads nested host limit env root ⟨.eval node :: rest, values, depth, store⟩ depth rest values
      (single (below.allThen env (receiver.toList ++ args) store fun operands store =>
        (native.procedure host operands).carryOut below store)) := by
  refine .operands entered one ?_ ?_ rest values store
  · simp only [plan, isExpr, hasNative, List.map_append, List.append_assoc]
  · intro vs values store lengths
    have count : receiver.toList.length + args.length = vs.reverse.length := by
      rw [List.length_reverse, lengths, List.length_append]
    simp only [finish, isExpr, hasNative, popMany, count, List.take_left, List.drop_left,
      List.reverse_reverse, Procedure.run_eq_carryOut agrees]

theorem Leads.condition {node test ifTrue ifFalse : Node} {ty : Ty}
    (isExpr : node.expr = .condition test ifTrue ifFalse ty) (rest : List Task)
    (values : List Value) (store : Store) :
    Leads nested host limit env root ⟨.eval node :: rest, values, depth, store⟩ depth rest values
      (single (Evaluation.ofNode below host node env store)) := by
  have moves : Machine.step nested host limit env root ⟨.eval node :: rest, values, depth, store⟩ =
      .running ⟨.eval test :: .branch test ifTrue ifFalse :: rest, values, depth + 1, store⟩ := by
    simp only [Machine.step, if_neg entered, plan, isExpr, List.cons_append, List.nil_append]
  rw [Evaluation.ofNode_condition isExpr]
  refine .step moves (.truth one ?_ ?_ store)
  · intro v store noBool
    simp only [Machine.step, popBool_cons, noBool]
  intro v b middle isBool
  have branches : Machine.step nested host limit env root
      ⟨.branch test ifTrue ifFalse :: rest, v :: values, depth + 1, middle⟩ =
        .running ⟨.eval (if b then ifTrue else ifFalse) :: .leave :: rest, values, depth + 1,
          middle⟩ := by
    simp only [Machine.step, popBool_cons, isBool]
  have chosen := one (if b then ifTrue else ifFalse) (.leave :: rest) values middle
  refine .step branches ?_
  rcases second : below (if b then ifTrue else ifFalse) env middle with ⟨e | w, after⟩
  · rw [second] at chosen
    obtain ⟨deep, bound, ends⟩ := chosen
    exact ⟨deep, by omega, ends⟩
  · rw [second] at chosen
    exact chosen.trans (run_running rfl)

theorem Leads.shortCircuit {node left right : Node} {op : BinaryOp} {ty : Ty}
    (isExpr : node.expr = .binary op left right ty) (short : op = .andAlso ∨ op = .orElse)
    (rest : List Task) (values : List Value) (store : Store) :
    Leads nested host limit env root ⟨.eval node :: rest, values, depth, store⟩ depth rest values
      (single (Evaluation.ofNode below host node env store)) := by
  have moves : Machine.step nested host limit env root ⟨.eval node :: rest, values, depth, store⟩ =
      .running ⟨.eval left :: .decide op left right :: rest, values, depth + 1, store⟩ := by
    simp only [Machine.step, if_neg entered, plan, isExpr, if_pos short, List.cons_append,
      List.nil_append]
  rw [Evaluation.ofNode_shortCircuit isExpr short]
  refine .step moves (.truth one ?_ ?_ store)
  · intro v store noBool
    simp only [Machine.step, popBool_cons, noBool]
  intro v first middle isBool
  by_cases settles : first = (op == .orElse)
  · rw [if_pos settles]
    refine run_running ?_
    simp only [Machine.step, popBool_cons, isBool, if_pos settles]
    rfl
  have decides : Machine.step nested host limit env root
      ⟨.decide op left right :: rest, v :: values, depth + 1, middle⟩ =
        .running ⟨.eval right :: .expectBool right :: rest, values, depth + 1, middle⟩ := by
    simp only [Machine.step, popBool_cons, isBool, if_neg settles]
  rw [if_neg settles]
  refine .step decides (.truth one ?_ ?_ middle)
  · intro w store noBool
    simp only [Machine.step, popBool_cons, noBool]
  · intro w second after isBool
    refine run_running ?_
    simp only [Machine.step, popBool_cons, isBool]
    rfl

end Lazy

/-- Taking up the evaluation of a node leads where the recursion leads. -/
theorem Leads.eval {start : Nat}
    (agrees : ∀ depth, start < depth →
      nested.Agrees (Evaluation.within host limit (limit - depth)) depth)
    {room depth : Nat} (from_start : start ≤ depth) (levels : limit - depth = room) (node : Node)
    (rest : List Task) (values : List Value) (store : Store) :
    Leads nested host limit env root ⟨.eval node :: rest, values, depth, store⟩ depth rest values
      (single (Evaluation.within host limit room node env store)) := by
  -- whatever a node leaves to be evaluated lies one level deeper
  induction room generalizing depth node rest values store with
  | zero =>
    have full : limit ≤ depth := by omega
    exact ⟨depth, Nat.le_refl depth, run_finished (by simp only [Machine.step, if_pos full])⟩
  | succ room ih =>
    have entered : ¬limit ≤ depth := by omega
    have deeper := @ih (depth + 1) (by omega) (by omega)
    have nestedAgrees : nested.Agrees (Evaluation.within host limit room) (depth + 1) := by
      have same : limit - (depth + 1) = room := by omega
      exact same ▸ agrees (depth + 1) (by omega)
    rw [Evaluation.within]
    cases isExpr : node.expr with
    | parameter param =>
      simp only [Evaluation.ofNode, isExpr]
      cases found : env.lookup param.id with
      | none =>
        refine ⟨depth + 1, by omega, run_finished ?_⟩
        simp only [Machine.step, if_neg entered, plan, isExpr, found]
      | some v =>
        refine run_running ?_
        simp only [Machine.step, if_neg entered, plan, isExpr, found]
        rfl
    | constant v ty =>
      simp only [Evaluation.ofNode, isExpr]
      refine run_running ?_
      simp only [Machine.step, if_neg entered, plan, isExpr]
      rfl
    | lambda l =>
      simp only [Evaluation.ofNode, isExpr]
      refine run_running ?_
      simp only [Machine.step, if_neg entered, plan, isExpr]
      rfl
    | condition test ifTrue ifFalse ty =>
      exact .condition entered deeper isExpr rest values store
    | call receiver callee args ty =>
      cases native : callee.native? with
      | none =>
        simp only [Evaluation.ofNode, isExpr, native]
        refine ⟨depth + 1, by omega, run_finished ?_⟩
        simp only [Machine.step, if_neg entered, plan, isExpr, native]
      | some which =>
        rw [Evaluation.ofNode_native isExpr native]
        exact .call entered deeper isExpr native nestedAgrees rest values store
    | binary op left right ty =>
      by_cases short : op = .andAlso ∨ op = .orElse
      · exact .shortCircuit entered deeper isExpr short rest values store
      · have strict : node.expr.isStrict = true := by simpa [isExpr, Expr.isStrict] using short
        rw [Evaluation.ofNode_strict strict]
        refine .operands entered deeper (plan_strict strict ?_ ?_) ?_ rest values store
        · simp [isExpr]
        · simp [isExpr]
        · intro vs values store lengths
          exact finish_strict strict (by simp [isExpr]) (by simp [isExpr]) lengths values _ store
    | _ =>
      have strict : node.expr.isStrict = true := by simp [isExpr, Expr.isStrict]
      rw [Evaluation.ofNode_strict strict]
      refine .operands entered deeper (plan_strict strict ?_ ?_) ?_ rest values store
      · simp [isExpr]
      · simp [isExpr]
      · intro vs values store lengths
        exact finish_strict strict (by simp [isExpr]) (by simp [isExpr]) lengths values _ store

end Machine

theorem evaluateWithin_eq_within {host : Host} {limit room depth : Nat}
    (enough : limit - depth ≤ room) :
    Nested.Agrees (evaluateWithin host limit room) (Evaluation.within host limit (limit - depth))
      depth := by
  induction room generalizing depth with
  | zero =>
    intro node env store
    have none : limit - depth = 0 := by omega
    rw [none]
    rfl
  | succ room ih =>
    intro node env store
    have agrees : ∀ deeper, depth < deeper → Nested.Agrees (evaluateWithin host limit room)
        (Evaluation.within host limit (limit - deeper)) deeper := fun deeper _ => ih (by omega)
    have leads : Machine.Leads (evaluateWithin host limit room) host limit env node
        ⟨[.eval node], [], depth, store⟩ depth [] []
          (Machine.single (Evaluation.within host limit (limit - depth) node env store)) :=
      .eval agrees (Nat.le_refl depth) rfl node [] [] store
    rw [evaluateWithin]
    rcases result : Evaluation.within host limit (limit - depth) node env store with ⟨e | v, after⟩
    · rw [result] at leads
      obtain ⟨deep, bound, ends⟩ := leads
      simp only [ends, Nat.min_eq_right bound]
    · rw [result] at leads
      have ends : Machine.run (evaluateWithin host limit room) host limit env node
          ⟨[], [v], depth, after⟩ = ⟨.ok v, depth, after⟩ := Machine.run_finished rfl
      have whole := leads.trans ends
      simp only [whole]

/-- An evaluation comes to what the recursion comes to, and ends at the depth it started from. -/
theorem evaluateFrom_eq_within (host : Host) (limit depth : Nat) (node : Node) (env : Env)
    (store : Store) :
    evaluateFrom host limit depth node env store =
      ⟨(Evaluation.within host limit (limit - depth) node env store).1, depth,
        (Evaluation.within host limit (limit - depth) node env store).2⟩ :=
  evaluateWithin_eq_within (Nat.le_refl _) node env store

/-- The evaluator and plain recursion on the levels left come to the same value or error and leave
the same store, whatever the natives of the host do with the evaluations that they start; and the
evaluator is as it was before, on success and on failure. -/
theorem Evaluator.evaluate_refines_recursion (evaluator : Evaluator) (host : Host)
    (sessionLimit : Nat) (node : Node) (env : Env) (store : Store) :
    ∃ outcome after,
      Evaluation.within host (evaluator.guard.bound sessionLimit)
        (evaluator.guard.bound sessionLimit - evaluator.guard.current) node env store =
          (outcome, after) ∧
      evaluator.evaluate host sessionLimit node env store = (outcome, evaluator, after) := by
  refine ⟨_, _, rfl, ?_⟩
  rw [evaluate, evaluateFrom_eq_within]

end TypedTrees
