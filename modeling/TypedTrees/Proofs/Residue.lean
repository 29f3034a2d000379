import TypedTrees.Expansion
import TypedTrees.Proofs.Eval.Refinement
import TypedTrees.Proofs.Pass.Refinement
/-!
Expanders and evaluators that are called more than once. A call leaves nothing behind for the next
one: whether it succeeds or fails, the guard is back at the depth that it was called at, and an
expander has no more than the steps of the call at the end of its trace. So calls made in turn come
to what each of them comes to when it is made of an expander or an evaluator of its own
(`calls_stand_alone`).
-/
namespace TypedTrees

section InTurn

variable {γ ω τ α : Type}

/-- Calls made of one worker in turn. What lies around the worker may change in any way before each
call. -/
def inTurn (call : γ → ω → τ → α × ω × τ) : List ((τ → τ) × γ) → ω → τ → List α × ω × τ
  | [], worker, around => ([], worker, around)
  | (change, request) :: rest, worker, around =>
    let (outcome, worker, around) := call request worker (change around)
    let (outcomes, worker, around) := inTurn call rest worker around
    (outcome :: outcomes, worker, around)

/-- The same calls, each made of a new worker. With each outcome comes the worker that the call has
left. -/
def apart (call : γ → ω → τ → α × ω × τ) (new : ω) : List ((τ → τ) × γ) → τ → List (α × ω) × τ
  | [], around => ([], around)
  | (change, request) :: rest, around =>
    let (outcome, worker, around) := call request new (change around)
    let (others, around) := apart call new rest around
    ((outcome, worker) :: others, around)

end InTurn

namespace Expander

/-- What an expander is called for. -/
inductive Request where
  | tree (node : Node)
  | lambda (l : Lambda)

/-- Carries out a call. -/
def answer (host : Host) (request : Request) (expander : Expander) (session : Session) :
    Except Error (Node ⊕ Lambda) × Expander × Session :=
  match request with
  | .tree node =>
    let (outcome, after) := expander.expand host node session
    (outcome.map .inl, after)
  | .lambda l =>
    let (outcome, after) := expander.expandLambda host l session
    (outcome.map .inr, after)

/-- An expansion comes to what it comes to without the steps made before, which stay where they are
in the trace, and leaves the guard as it was. -/
theorem expand_clearTrace (expander : Expander) (host : Host) (node : Node) (session : Session) :
    expander.expand host node session =
      let alone := expander.clearTrace.expand host node session
      (alone.1, { expander with trace := expander.trace ++ alone.2.1.trace }, alone.2.2) := by
  simp only [expand, clearTrace, Pass.run_eq_transform, List.nil_append]

theorem answer_clearTrace (host : Host) (request : Request) (expander : Expander)
    (session : Session) :
    answer host request expander session =
      let alone := answer host request expander.clearTrace session
      (alone.1, { expander with trace := expander.trace ++ alone.2.1.trace }, alone.2.2) := by
  cases request with
  | tree node =>
    simp only [answer]
    rw [expand_clearTrace]
  | lambda l =>
    simp only [answer, expandLambda]
    rw [expand_clearTrace]

theorem inTurn_answer (host : Host) (calls : List ((Session → Session) × Request))
    (expander : Expander) (session : Session) :
    inTurn (answer host) calls expander session =
      let each := apart (answer host) expander.clearTrace calls session
      (each.1.map Prod.fst,
        { expander with trace := expander.trace ++ each.1.flatMap fun made => made.2.trace },
        each.2) := by
  induction calls generalizing expander session with
  | nil => simp only [inTurn, apart, List.map_nil, List.flatMap_nil, List.append_nil]
  | cons call rest ih =>
    obtain ⟨change, request⟩ := call
    have same : ∀ steps, ({ expander with trace := steps } : Expander).clearTrace =
        expander.clearTrace := fun _ => rfl
    simp only [inTurn, apart]
    rw [answer_clearTrace]
    simp only [ih, same, List.map_cons, List.flatMap_cons, List.append_assoc]

end Expander

namespace Evaluator

/-- What an evaluator is called for. -/
inductive Request where
  | tree (node : Node) (env : Env)
  | callable (callee : Value) (args : List Value)
  | lambda (l : Lambda) (env : Env) (args : List Value)

/-- Carries out a call, under the limit and on the store of the session. -/
def answer (host : Host) (request : Request) (evaluator : Evaluator) (session : Session) :
    Except Error Value × Evaluator × Session :=
  let (outcome, evaluator, store) := match request with
    | .tree node env => evaluator.evaluate host session.limit node env session.store
    | .callable callee args => evaluator.apply host session.limit callee args session.store
    | .lambda l env args => evaluator.applyLambda host session.limit l env args session.store
  (outcome, evaluator, { session with store })

theorem evaluate_keeps (evaluator : Evaluator) (host : Host) (limit : Nat) (node : Node) (env : Env)
    (store : Store) : (evaluator.evaluate host limit node env store).2.1 = evaluator := by
  rw [evaluate, evaluateFrom_eq_within]

/-- A call leaves the evaluator at the depth that it was called at. -/
theorem answer_keeps (host : Host) (request : Request) (evaluator : Evaluator) (session : Session) :
    (answer host request evaluator session).2.1 = evaluator := by
  cases request with
  | tree node env => exact evaluator.evaluate_keeps ..
  | callable callee args =>
    simp only [answer, apply]
    split
    · rfl
    · exact evaluator.evaluate_keeps ..
  | lambda l env args =>
    simp only [answer, applyLambda]
    split
    · rfl
    · exact evaluator.evaluate_keeps ..

theorem inTurn_answer (host : Host) (calls : List ((Session → Session) × Request))
    (evaluator : Evaluator) (session : Session) :
    inTurn (answer host) calls evaluator session =
      let each := apart (answer host) evaluator calls session
      (each.1.map Prod.fst, evaluator, each.2) := by
  induction calls generalizing session with
  | nil => rfl
  | cons call rest ih =>
    obtain ⟨change, request⟩ := call
    simp only [inTurn, apart, answer_keeps, ih, List.map_cons]

end Evaluator

/-- A native is back at the depth of its call when it is done, whatever evaluations it has started
and whichever of their failures it has passed over. -/
theorem Procedure.run_depth (procedure : Procedure) (host : Host) (limit depth : Nat)
    (store : Store) : (procedure.run (evaluateFrom host limit) depth store).depth = depth := by
  have agrees : Nested.Agrees (evaluateFrom host limit)
      (Evaluation.within host limit (limit - depth)) depth :=
    evaluateFrom_eq_within host limit depth
  rw [procedure.run_eq_carryOut agrees]

/-- Calls leave nothing behind. The session may change in any way between the calls, and each may
succeed or fail with any error.

* Calls made in turn of a new expander have the outcomes, and leave the session, that they have and
  leave when each is made of a new expander of the same registry and limit. The expander ends with
  no level entered, and its trace consists of the traces of those expanders in a row.
* Calls made in turn of an evaluator, at whatever depth it is, have the outcomes, and leave the
  session, that they have and leave when each is made of the evaluator as it was before the first;
  and each call leaves the evaluator at the depth that it was called at.
* Nor does a native leave a level entered, however its own calls of the evaluator end. -/
theorem calls_stand_alone (host : Host) :
    (∀ registry limit calls session,
      let new : Expander := { registry, guard := { limit } }
      let each := apart (Expander.answer host) new calls session
      inTurn (Expander.answer host) calls new session =
        (each.1.map Prod.fst, { new with trace := each.1.flatMap fun made => made.2.trace },
          each.2)) ∧
    (∀ evaluator calls session,
      let each := apart (Evaluator.answer host) evaluator calls session
      inTurn (Evaluator.answer host) calls evaluator session =
        (each.1.map Prod.fst, evaluator, each.2)) ∧
    (∀ request evaluator session,
      (Evaluator.answer host request evaluator session).2.1.guard = evaluator.guard) ∧
    ∀ (procedure : Procedure) limit depth store,
      (procedure.run (evaluateFrom host limit) depth store).depth = depth := by
  refine ⟨fun registry limit calls session => ?_, fun evaluator calls session => ?_,
    fun request evaluator session => ?_, fun procedure limit depth store => ?_⟩
  · exact Expander.inTurn_answer host calls { registry, guard := { limit } } session
  · exact Evaluator.inTurn_answer host calls evaluator session
  · rw [Evaluator.answer_keeps]
  · exact procedure.run_depth host limit depth store

end TypedTrees
