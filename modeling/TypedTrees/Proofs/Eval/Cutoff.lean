import Mathlib
import TypedTrees.Proofs.Eval.Builtins
/-!
What a limit does to an evaluation. The builtin natives pass every error of a callback on, so an
error that one of two evaluations comes to somewhere is what that evaluation ends with
(`Tally.ofNode`). Here it is the error of the limit in the one, and in the other what a native of
the host answers that has been barred: an evaluation that calls no native but the builtin ones comes
to the same with all others barred (`Callbacks.CallsBuiltins.evaluateFrom_withNative`). So a limit
only cuts off (`Evaluator.evaluate_withMaxDepth`), whatever the natives of the host would do with
the failures of evaluations that they start.
-/
namespace TypedTrees

/-- The two results are the same, unless the first is the error `e` or the second the error `e'`. -/
def Tally (e e' : Error) {α : Type} (a b : Except Error α × Store) : Prop :=
  (∃ store, a = (.error e, store)) ∨ (∃ store, b = (.error e', store)) ∨ a = b

namespace Tally

variable {e e' : Error} {below below' : Evaluation}
  (one : ∀ node env store, Tally e e' (below node env store) (below' node env store))

include one

theorem all (env : Env) (nodes : List Node) (store : Store) :
    Tally e e' (below.all env nodes store) (below'.all env nodes store) := by
  induction nodes generalizing store with
  | nil => exact .inr (.inr rfl)
  | cons node nodes ih =>
    rcases one node env store with ⟨after, fails⟩ | ⟨after, fails⟩ | same
    · exact .inl ⟨after, by simp only [Evaluation.all, fails]⟩
    · exact .inr (.inl ⟨after, by simp only [Evaluation.all, fails]⟩)
    simp only [Evaluation.all, same]
    rcases below' node env store with ⟨fault | v, middle⟩
    · exact .inr (.inr rfl)
    rcases ih middle with ⟨after, fails⟩ | ⟨after, fails⟩ | same
    · exact .inl ⟨after, by simp only [fails]⟩
    · exact .inr (.inl ⟨after, by simp only [fails]⟩)
    · exact .inr (.inr (by simp only [same]))

theorem allThen (env : Env) (nodes : List Node) (store : Store)
    {next next' : List Value → Store → Except Error Value × Store}
    (onward : ∀ vs store, Tally e e' (next vs store) (next' vs store)) :
    Tally e e' (below.allThen env nodes store next) (below'.allThen env nodes store next') := by
  rcases all one env nodes store with ⟨after, fails⟩ | ⟨after, fails⟩ | same
  · exact .inl ⟨after, by simp only [Evaluation.allThen, fails]⟩
  · exact .inr (.inl ⟨after, by simp only [Evaluation.allThen, fails]⟩)
  simp only [Evaluation.allThen, same]
  rcases below'.all env nodes store with ⟨fault | vs, middle⟩
  · exact .inr (.inr rfl)
  · exact onward vs middle

theorem truthThen (env : Env) (node : Node) (store : Store)
    {next next' : Bool → Store → Except Error Value × Store}
    (onward : ∀ b store, Tally e e' (next b store) (next' b store)) :
    Tally e e' (below.truthThen env node store next) (below'.truthThen env node store next') := by
  rcases one node env store with ⟨after, fails⟩ | ⟨after, fails⟩ | same
  · exact .inl ⟨after, by simp only [Evaluation.truthThen, Evaluation.truth, fails]⟩
  · exact .inr (.inl ⟨after, by simp only [Evaluation.truthThen, Evaluation.truth, fails]⟩)
  simp only [Evaluation.truthThen, Evaluation.truth, same]
  rcases below' node env store with ⟨fault | v, middle⟩
  · exact .inr (.inr rfl)
  simp only
  cases v.asBool? with
  | none => exact .inr (.inr rfl)
  | some b => exact onward b middle

/-- Of what the builtin natives apply an error comes back at once. -/
theorem anyOf (predicate : Value) (items : List Value) (store : Store) :
    Tally e e' ((Builtin.anyOf predicate items).carryOut below store)
      ((Builtin.anyOf predicate items).carryOut below' store) := by
  induction items generalizing store with
  | nil => exact .inr (.inr rfl)
  | cons item rest ih =>
    simp only [Builtin.anyOf, Procedure.carryOut]
    rcases predicate.callTarget [item] with fault | ⟨body, scope⟩
    · exact .inr (.inr rfl)
    simp only
    rcases one body scope store with ⟨after, fails⟩ | ⟨after, fails⟩ | same
    · exact .inl ⟨after, by simp only [fails, Procedure.carryOut]⟩
    · exact .inr (.inl ⟨after, by simp only [fails, Procedure.carryOut]⟩)
    simp only [same]
    rcases below' body scope store with ⟨fault | v, middle⟩
    · exact .inr (.inr rfl)
    cases v with
    | bool passes =>
      cases passes with
      | true => exact .inr (.inr rfl)
      | false => exact ih middle
    | _ => exact .inr (.inr rfl)

theorem builtin (which : Builtin) (operands : List Value) (store : Store) :
    Tally e e' ((which.procedure operands).carryOut below store)
      ((which.procedure operands).carryOut below' store) := by
  cases answers : which.answers with
  | true =>
    rw [Builtin.procedure_eq_answer answers]
    exact .inr (.inr rfl)
  | false =>
    obtain rfl : which = .any := by cases which <;> first | rfl | cases answers
    rcases Builtin.procedure_any operands with ⟨items, predicate, rfl⟩ | refuses
    · exact anyOf one predicate items store
    · rw [refuses]
      exact .inr (.inr rfl)

end Tally

namespace Host

/-- The host with other natives in place of its own. -/
def withNative (host : Host) (native : String → List Value → Procedure) : Host :=
  { host with native }

/-- The host with natives that do nothing but fail with the error. -/
def barring (host : Host) (e : Error) : Host := host.withNative fun _ _ => .answer (.error e)

end Host

theorem Expr.finish_withNative (host : Host) (native : String → List Value → Procedure)
    {expr : Expr} (strict : expr.isStrict = true) (vs : List Value) (store : Store) :
    expr.finish (host.withNative native) vs store = expr.finish host vs store := by
  cases expr with
  | call receiver callee args ty =>
    obtain ⟨which, isBuiltin, -⟩ := native_of_isStrict strict
    cases callee with
    | invoke shape => cases isBuiltin
    | function f =>
      change f.native = some (.builtin which) at isBuiltin
      simp only [finish, isBuiltin, Native.procedure]
  | member target m => cases target <;> rcases vs with _ | ⟨v, _ | ⟨w, rest⟩⟩ <;> rfl
  | _ => rcases vs with _ | ⟨v, _ | ⟨w, _ | ⟨u, rest⟩⟩⟩ <;> rfl

/-- A node's evaluations tally if those of its children and of what its native applies do. -/
theorem Tally.ofNode {e e' : Error} {below below' : Evaluation}
    (one : ∀ node env store, Tally e e' (below node env store) (below' node env store))
    (host : Host) (node : Node) (env : Env) (store : Store) :
    Tally e e' (Evaluation.ofNode below host node env store)
      (Evaluation.ofNode below' (host.barring e') node env store) := by
  have strict : node.expr.isStrict = true →
      Tally e e' (Evaluation.ofNode below host node env store)
        (Evaluation.ofNode below' (host.barring e') node env store) := by
    intro strict
    rw [Evaluation.ofNode_strict strict, Evaluation.ofNode_strict strict]
    refine allThen one env _ store fun vs middle => .inr (.inr ?_)
    exact (Expr.finish_withNative host _ strict vs middle).symm
  cases isExpr : node.expr with
  | parameter param =>
    simp only [Evaluation.ofNode, isExpr]
    exact .inr (.inr rfl)
  | lambda l =>
    simp only [Evaluation.ofNode, isExpr]
    exact .inr (.inr rfl)
  | call receiver callee args ty =>
    cases native : callee.native? with
    | none =>
      simp only [Evaluation.ofNode, isExpr, native]
      exact .inr (.inr rfl)
    | some native' =>
      rw [Evaluation.ofNode_native isExpr native, Evaluation.ofNode_native isExpr native]
      refine allThen one env _ store fun vs middle => ?_
      cases native' with
      | builtin which => exact builtin one which vs middle
      | host name => exact .inr (.inl ⟨middle, rfl⟩)
  | binary op left right ty =>
    by_cases short : op = .andAlso ∨ op = .orElse
    · rw [Evaluation.ofNode_shortCircuit isExpr short, Evaluation.ofNode_shortCircuit isExpr short]
      refine truthThen one env left store fun first middle => ?_
      split
      · exact .inr (.inr rfl)
      · exact truthThen one env right middle fun b after => .inr (.inr rfl)
    · refine strict ?_
      rw [isExpr]
      simpa [Expr.isStrict] using short
  | condition test ifTrue ifFalse ty =>
    rw [Evaluation.ofNode_condition isExpr, Evaluation.ofNode_condition isExpr]
    exact truthThen one env test store fun b middle => one _ env middle
  | _ => exact strict (by rw [isExpr]; rfl)

/-- With no more levels left, an evaluation comes to the same as one with the natives of the host
barred, unless it is cut off or the other one calls such a native. -/
theorem Evaluation.within_tally (host : Host) (low high : Nat) (e : Error) {room room' : Nat}
    (levels : room ≤ room') (node : Node) (env : Env) (store : Store) :
    Tally (.recursionLimit low) e (within host low room node env store)
      (within (host.barring e) high room' node env store) := by
  induction room generalizing room' node env store with
  | zero => exact .inl ⟨store, rfl⟩
  | succ room ih =>
    obtain ⟨room', rfl⟩ := Nat.exists_eq_add_one_of_ne_zero (by omega : room' ≠ 0)
    exact .ofNode (ih (by omega)) host node env store

namespace Callbacks

variable {host : Host} {limit : Nat}

/-- A step that calls no native of the host is the same for every host with these properties. -/
theorem step_withNative (native : String → List Value → Procedure) {state : State}
    (builtin : ∀ native, state.native? = some native → ∃ which, native = .builtin which) :
    step (host.withNative native) limit state = step host limit state := by
  cases state with
  | ended evaluated => rfl
  | native procedure run callers depth store =>
    rcases procedure with ⟨_ | _⟩ | ⟨callee, args, next⟩ | _ | _ | _ <;> rfl
  | working run callers depth store =>
    have called : called? (host.withNative native) run = called? host run := by
      simp only [State.native?] at builtin
      simp only [called?]
      split
      · rename_i node rest tasks
        split
        · rename_i receiver callee args ty isCall
          simp only [tasks, isCall] at builtin
          rcases hasNative : callee.native? with _ | which
          · rfl
          · obtain ⟨which, rfl⟩ := builtin _ hasNative
            rfl
        · rfl
      · rfl
    simp only [step, called]
    rcases calls : called? host run with _ | ⟨procedure, back⟩
    · have moves : Machine.step (evaluateWithin (host.withNative native) limit 0)
          (host.withNative native) limit run.env run.root ⟨run.tasks, run.values, depth, store⟩ =
          Machine.step (evaluateWithin host limit 0) host limit run.env run.root
            ⟨run.tasks, run.values, depth, store⟩ := by
        rcases tasks : run.tasks with _ | ⟨task, rest⟩
        · rfl
        cases task with
        | finish node =>
          have finishes : Machine.finish (evaluateWithin (host.withNative native) limit 0)
              (host.withNative native) node run.values depth store =
                Machine.finish (evaluateWithin host limit 0) host node run.values depth store := by
            simp only [called?, tasks] at calls
            simp only [Machine.finish]
            split
            · rfl
            · rename_i isCall
              simp only [isCall, Option.map_eq_none_iff] at calls
              simp only [calls]
            all_goals rfl
          simp only [Machine.step, finishes]
        | _ => rfl
      simp only [moves]
    · rfl

/-- Where every call is one of a builtin native, the same steps are made with any natives in place
of those of the host. -/
theorem CallsBuiltins.reaches {state later : State} (calls : CallsBuiltins host limit state)
    (native : String → List Value → Procedure) (reaches : Reaches host limit state later) :
    Reaches (host.withNative native) limit state later := by
  induction reaches with
  | refl => exact .refl
  | @tail middle later before moves ih =>
    refine ih.tail ?_
    rw [step_withNative native fun native => calls middle native before]
    exact moves

/-- Steps from one state lead to no more than one end. -/
theorem ended_unique {state : State} {one other : Evaluated}
    (first : Reaches host limit state (.ended one))
    (second : Reaches host limit state (.ended other)) : one = other := by
  induction first using Relation.ReflTransGen.head_induction_on with
  | refl =>
    rcases second.cases_head with is | ⟨_, moves, -⟩
    · cases is
      rfl
    · cases moves
  | @head start next moves _ ih =>
    rcases second.cases_head with rfl | ⟨_, goes, rest⟩
    · cases moves
    · cases Option.some.inj (moves.symm.trans goes)
      exact ih rest

/-- An evaluation that calls no native but the builtin ones does not depend on those of the host. -/
theorem CallsBuiltins.evaluateFrom_withNative {depth : Nat} {node : Node} {env : Env}
    {store : Store} (calls : CallsBuiltins host limit (start node env [] depth store))
    (native : String → List Value → Procedure) :
    evaluateFrom (host.withNative native) limit depth node env store =
      evaluateFrom host limit depth node env store :=
  ended_unique (evaluateFrom_reached _ limit depth node env store)
    (calls.reaches native (evaluateFrom_reached host limit depth node env store))

end Callbacks

/-- A limit does nothing but cut off. Of two evaluations with limits of their own, the one under the
lower limit fails at this limit or comes to the same value or error, and leaves the same store, if
the one under the higher limit calls no natives but the builtin ones; the calls in closures and
lambda trees that `any` applies count as well. And neither depends on the limit of the session. -/
theorem Evaluator.evaluate_withMaxDepth {host : Host} {low high : Nat} (limits : low ≤ high)
    {node : Node} {env : Env} {store : Store}
    (calls : Callbacks.CallsBuiltins host high (Callbacks.start node env [] 0 store)) :
    (∀ sessionLimit sessionLimit',
      let short := (withMaxDepth low).evaluate host sessionLimit node env store
      let long := (withMaxDepth high).evaluate host sessionLimit' node env store
      short.1 = .error (.recursionLimit low) ∨ short.1 = long.1 ∧ short.2.2 = long.2.2) ∧
    ∀ limit sessionLimit sessionLimit',
      (withMaxDepth limit).evaluate host sessionLimit node env store =
        (withMaxDepth limit).evaluate host sessionLimit' node env store := by
  refine ⟨fun _ _ => ?_, fun _ _ _ => rfl⟩
  -- barred natives answer an error that the evaluation does not come to by itself
  obtain ⟨e, others⟩ : ∃ e, (Evaluation.within host high high node env store).1 ≠ .error e := by
    by_cases is : (Evaluation.within host high high node env store).1 = .error (.recursionLimit 0)
    · exact ⟨.recursionLimit 1, by simp [is]⟩
    · exact ⟨_, is⟩
  have barred := calls.evaluateFrom_withNative fun _ _ => .answer (.error e)
  rw [evaluateFrom_eq_within, evaluateFrom_eq_within, Nat.sub_zero] at barred
  have same : Evaluation.within (host.barring e) high high node env store =
      Evaluation.within host high high node env store :=
    Prod.ext (congrArg Evaluated.outcome barred) (congrArg Evaluated.store barred)
  simp only [evaluate, withMaxDepth, DepthGuard.bound, Option.getD_some, evaluateFrom_eq_within,
    Nat.sub_zero]
  rcases Evaluation.within_tally host low high e limits node env store with
    ⟨after, fails⟩ | ⟨after, fails⟩ | tally
  · exact .inl (by rw [fails])
  · rw [same] at fails
    exact absurd (congrArg Prod.fst fails) others
  · rw [tally, same]
    exact .inr ⟨rfl, rfl⟩

namespace AnyAtLimit

def x : Parameter := ⟨16, "x", .int⟩

/-- The tree `any([1, 2], x => x == 2)`, where the lambda is held as data. -/
def tree : Node :=
  ⟨17, .call none (.function .seqAny)
    [⟨18, .constant (.seq [.int 1, .int 2]) (.seq .int)⟩,
      ⟨19, .constant (.tree ⟨[x], ⟨20, .binary .equal ⟨21, .parameter x⟩
        ⟨22, .constant (.int 2) .int⟩ .bool⟩, .bool⟩) .any⟩] .bool⟩

theorem ofBuiltins : tree.OfBuiltins := by
  have parameter : Node.OfBuiltins ⟨21, .parameter x⟩ := .mk nofun nofun (List.forall_mem_nil _)
  have two : Node.OfBuiltins ⟨22, .constant (.int 2) .int⟩ := by
    refine .mk nofun ?_ (List.forall_mem_nil _)
    rintro _ _ ⟨⟩
    exact .scalar rfl
  have body : Node.OfBuiltins ⟨20, .binary .equal ⟨21, .parameter x⟩
      ⟨22, .constant (.int 2) .int⟩ .bool⟩ := by
    refine .mk nofun nofun ?_
    exact List.forall_mem_cons.mpr ⟨parameter, List.forall_mem_singleton.mpr two⟩
  have items : Node.OfBuiltins ⟨18, .constant (.seq [.int 1, .int 2]) (.seq .int)⟩ := by
    refine .mk nofun ?_ (List.forall_mem_nil _)
    rintro _ _ ⟨⟩
    exact .seq (List.forall_mem_cons.mpr ⟨.scalar rfl, List.forall_mem_singleton.mpr (.scalar rfl)⟩)
  have predicate : Node.OfBuiltins ⟨19, .constant (.tree ⟨[x], ⟨20, .binary .equal
      ⟨21, .parameter x⟩ ⟨22, .constant (.int 2) .int⟩ .bool⟩, .bool⟩) .any⟩ := by
    refine .mk nofun ?_ (List.forall_mem_nil _)
    rintro _ _ ⟨⟩
    exact .tree body
  refine .mk ?_ nofun ?_
  · rintro _ _ _ _ _ ⟨⟩ ⟨⟩
    exact ⟨.any, rfl⟩
  · exact List.forall_mem_cons.mpr ⟨items, List.forall_mem_singleton.mpr predicate⟩

theorem calls : Callbacks.CallsBuiltins .basic 1500 (Callbacks.start tree [] [] 0 {}) := by
  have noSlots : Store.OfBuiltins {} := List.forall_mem_nil _
  exact .of_ofBuiltins Host.basic_readsBuiltins ofBuiltins (List.forall_mem_nil _) noSlots 1500 0

end AnyAtLimit

open AnyAtLimit in
/-- The body of the lambda takes two levels below that of the call. A limit of two cuts the
evaluation off, and what it comes to under a limit of three it comes to under a higher one. -/
theorem Evaluator.evaluate_withMaxDepth_anyAtLimit :
    3 ≤ 1500 ∧ Callbacks.CallsBuiltins .basic 1500 (Callbacks.start tree [] [] 0 {}) ∧
    ((withMaxDepth 2).evaluate .basic 20 tree [] {}).1 = .error (.recursionLimit 2) ∧
    ((withMaxDepth 1500).evaluate .basic 20 tree [] {}).1 = .ok (.bool true) := by
  have limits : 3 ≤ 1500 := by decide
  have fails : ((withMaxDepth 2).evaluate .basic 20 tree [] {}).1 =
      .error (.recursionLimit 2) := by
    simp only [evaluate, evaluateFrom_eq_within]
    cbv
  have succeeds : ((withMaxDepth 3).evaluate .basic 1 tree [] {}).1 = .ok (.bool true) := by
    simp only [evaluate, evaluateFrom_eq_within]
    cbv
  refine ⟨limits, calls, fails, ?_⟩
  rcases (evaluate_withMaxDepth limits calls).1 1 20 with cut | ⟨same, -⟩
  · cases succeeds.symm.trans cut
  · exact same.symm.trans succeeds

end TypedTrees
