import TypedTrees.Proofs.Eval.Strict
/-!
Rules for how an evaluation ends. `Ends` says of a result what its value is like, which errors it
may be, and what is true of the store in either case. Evaluating operands and tests and going on
with them keeps that, so that of a node it has to be shown only what its own work adds: binding,
finishing, or what its native does (`Ends.ofNode`).
-/
namespace TypedTrees

/-- The outcome is a good value, or an error that is admitted. -/
def EndsWith {α : Type} (admits : Error → Prop) (good : α → Prop) : Except Error α → Prop
  | .ok v => good v
  | .error e => admits e

/-- The outcome is a good value or an admitted error, and the store is as `holds` says. -/
structure Ends {α : Type} (holds : Store → Prop) (admits : Error → Prop) (good : α → Prop)
    (result : Except Error α × Store) : Prop where
  outcome : EndsWith admits good result.1
  store : holds result.2

theorem EndsWith.mono {α : Type} {admits : Error → Prop} {good better : α → Prop}
    {outcome : Except Error α} (ends : EndsWith admits good outcome)
    (weaker : ∀ v, good v → better v) : EndsWith admits better outcome := by
  cases outcome with
  | ok v => exact weaker v ends
  | error e => exact ends

/-- Where only the store matters. -/
theorem Ends.of_store {α : Type} {holds : Store → Prop} {result : Except Error α × Store}
    (kept : holds result.2) : Ends holds (fun _ => True) (fun _ => True) result := by
  obtain ⟨e | v, after⟩ := result <;> exact ⟨trivial, kept⟩

namespace Ends

variable {holds : Store → Prop} {admits : Error → Prop} {good better : Value → Prop}
  {below : Evaluation} {env : Env} {store : Store}

theorem mono {result : Except Error Value × Store} (ends : Ends holds admits good result)
    (weaker : ∀ v, good v → better v) : Ends holds admits better result :=
  ⟨ends.outcome.mono weaker, ends.store⟩

theorem all {nodes : List Node}
    (each : ∀ node ∈ nodes, ∀ store, holds store → Ends holds admits good (below node env store))
    (start : holds store) :
    Ends holds admits (fun vs : List Value => ∀ v ∈ vs, good v) (below.all env nodes store) := by
  induction nodes generalizing store with
  | nil => exact ⟨List.forall_mem_nil _, start⟩
  | cons node nodes ih =>
    rw [List.forall_mem_cons] at each
    have first := each.1 store start
    rw [Evaluation.all]
    generalize below node env store = result at first
    obtain ⟨e | v, middle⟩ := result
    · exact ⟨first.outcome, first.store⟩
    · have others := ih each.2 first.store
      simp only
      generalize below.all env nodes middle = results at others
      obtain ⟨e | vs, after⟩ := results
      · exact ⟨others.outcome, others.store⟩
      · exact ⟨List.forall_mem_cons.mpr ⟨first.outcome, others.outcome⟩, others.store⟩

theorem allThen {nodes : List Node}
    (each : ∀ node ∈ nodes, ∀ store, holds store → Ends holds admits good (below node env store))
    (start : holds store) {next : List Value → Store → Except Error Value × Store}
    (onward : ∀ vs store, (∀ v ∈ vs, good v) → holds store →
      Ends holds admits better (next vs store)) :
    Ends holds admits better (below.allThen env nodes store next) := by
  have operands := all each start
  rw [Evaluation.allThen]
  generalize below.all env nodes store = result at operands
  obtain ⟨e | vs, middle⟩ := result
  · exact ⟨operands.outcome, operands.store⟩
  · exact onward vs middle operands.outcome operands.store

variable (faults : ∀ fault, admits (.eval fault))

include faults

theorem truthThen {node : Node} (ends : Ends holds admits good (below node env store))
    {next : Bool → Store → Except Error Value × Store}
    (onward : ∀ b store, holds store → Ends holds admits better (next b store)) :
    Ends holds admits better (below.truthThen env node store next) := by
  rw [Evaluation.truthThen, Evaluation.truth]
  generalize below node env store = result at ends
  obtain ⟨e | v, middle⟩ := result
  · exact ⟨ends.outcome, ends.store⟩
  · simp only
    cases v.asBool? with
    | none => exact ⟨faults _, ends.store⟩
    | some b => exact onward b middle ends.store

/-- A node's evaluation ends well if those of its children do, and its own work keeps it so: what
it takes from its bindings, how a strict node is finished, and what a native does that has more to
do than answer. -/
theorem ofNode {host : Host} {node : Node}
    (children : ∀ child ∈ node.expr.children, ∀ store, holds store →
      Ends holds admits good (below child env store))
    (start : holds store) (direct : ∀ text, admits (.directInvocation text))
    (weaker : ∀ v, good v → better v) (truths : ∀ b, better (.bool b))
    (bound : ∀ id v, env.lookup id = some v → better v)
    (closure : ∀ l, node.expr = .lambda l → better (.closure l env))
    (finish : node.expr.isStrict = true → ∀ vs store, (∀ v ∈ vs, good v) → holds store →
      Ends holds admits better (node.expr.finish host vs store))
    (carryOut : ∀ receiver callee args ty native, node.expr = .call receiver callee args ty →
      callee.native? = some native → node.expr.isStrict = false →
        ∀ vs store, (∀ v ∈ vs, good v) → holds store →
          Ends holds admits better ((native.procedure host vs).carryOut below store)) :
    Ends holds admits better (Evaluation.ofNode below host node env store) := by
  have strict : node.expr.isStrict = true →
      Ends holds admits better (Evaluation.ofNode below host node env store) := by
    intro strict
    rw [Evaluation.ofNode_strict strict]
    exact allThen children start (finish strict)
  cases isExpr : node.expr with
  | parameter param =>
    simp only [Evaluation.ofNode, isExpr]
    split
    · rename_i v found
      exact ⟨bound _ v found, start⟩
    · exact ⟨faults _, start⟩
  | lambda l =>
    simp only [Evaluation.ofNode, isExpr]
    exact ⟨closure l isExpr, start⟩
  | call receiver callee args ty =>
    cases native : callee.native? with
    | none =>
      simp only [Evaluation.ofNode, isExpr, native]
      exact ⟨direct _, start⟩
    | some native' =>
      cases isStrict : node.expr.isStrict with
      | true => exact strict isStrict
      | false =>
        rw [Evaluation.ofNode_native isExpr native]
        rw [isExpr] at children
        exact allThen children start (carryOut _ _ _ _ _ isExpr native isStrict)
  | binary op left right ty =>
    by_cases short : op = .andAlso ∨ op = .orElse
    · rw [Evaluation.ofNode_shortCircuit isExpr short]
      rw [isExpr] at children
      refine truthThen faults (children left (.head _) store start) fun first store kept => ?_
      split
      · exact ⟨truths first, kept⟩
      · exact truthThen faults (children right (.tail _ (.head _)) store kept)
          fun b _ kept => ⟨truths b, kept⟩
    · refine strict ?_
      rw [isExpr]
      simpa [Expr.isStrict] using short
  | condition test ifTrue ifFalse ty =>
    rw [Evaluation.ofNode_condition isExpr]
    rw [isExpr] at children
    refine truthThen faults (children test (.head _) store start) fun b store kept => ?_
    cases b with
    | true => exact (children ifTrue (.tail _ (.head _)) store kept).mono weaker
    | false => exact (children ifFalse (.tail _ (.tail _ (.head _))) store kept).mono weaker
  | _ => exact strict (by rw [isExpr]; rfl)

end Ends

end TypedTrees
