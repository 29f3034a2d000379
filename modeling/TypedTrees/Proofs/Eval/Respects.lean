import TypedTrees.Proofs.Eval.Ends
import TypedTrees.Proofs.Tree.Denoted
/-!
What an evaluation does to the store. It makes readers, draws identities and, where a native of the
host does so, changes slots; a relation between stores that these respect is one that every
evaluation respects (`Evaluation.within_respects`).
-/
namespace TypedTrees

section Respects

variable {respects : Store → Store → Prop} (refl : ∀ store, respects store store)
  (trans : ∀ {a b c}, respects a b → respects b c → respects a c)

namespace Evaluation

variable {below : Evaluation} (each : ∀ node env store, respects store (below node env store).2)

include refl trans each

/-- A native does nothing to the store but have trees evaluated, draw and change slots. -/
theorem carryOut_respects
    (draws : ∀ (store : Store) supply, respects store { store with supply })
    (changes : ∀ (store : Store) slots, respects store { store with slots }) (procedure : Procedure)
    (store : Store) : respects store (procedure.carryOut below store).2 := by
  induction procedure generalizing store with
  | answer outcome => exact refl store
  | apply callee args next ih =>
    rw [Procedure.carryOut]
    split
    · exact ih _ store
    · exact trans (each _ _ store) (ih _ _)
  | evaluate node env next ih =>
    rw [Procedure.carryOut]
    exact trans (each node env store) (ih _ _)
  | draw rest next ih =>
    rw [Procedure.carryOut]
    exact trans (draws store _) (ih _ _)
  | change slots next ih =>
    rw [Procedure.carryOut]
    exact trans (changes store _) (ih _ _)

variable (reads : ∀ (store : Store) m, respects store (store.readerOf m).2)
  (draws : ∀ (store : Store) supply, respects store { store with supply })

include reads draws in
omit trans each in
/-- Finishing a node does nothing to the store but make a reader or draw. -/
theorem finish_respects (host : Host) (expr : Expr) (vs : List Value) (store : Store) :
    respects store (expr.finish host vs store).2 := by
  have read : ∀ m target, respects store (store.readMember host m target).2 := by
    intro m target
    have read := reads store m
    rw [Store.readMember.eq_def]
    split
    · exact refl store
    · simp only [Store.read]
      split <;> exact read
  rw [Expr.finish.eq_def]
  split
  · exact refl store
  · exact read _ _
  · exact read _ _
  · split <;> exact refl store
  · exact refl store
  · exact refl store
  · exact draws store _
  · rw [Store.writeMember.eq_def]
    split
    · exact draws store _
    · exact refl store
    · exact refl store
  · exact refl store

variable (changes : ∀ (store : Store) slots, respects store { store with slots })

include reads draws changes

theorem ofNode_respects (host : Host) (node : Node) (env : Env) (store : Store) :
    respects store (ofNode below host node env store).2 := by
  refine (@Ends.ofNode (respects store) _ _ (fun _ => True) below env store (fun _ => trivial) host
    node (fun child _ middle kept => .of_store (trans kept (each child env middle))) (refl store)
    (fun _ => trivial) (fun _ _ => trivial) (fun _ => trivial) (fun _ _ _ => trivial)
    (fun _ _ => trivial) ?_ ?_).store
  · exact fun _ vs middle _ kept =>
      .of_store (trans kept (finish_respects refl reads draws host node.expr vs middle))
  · exact fun _ _ _ _ _ _ _ _ vs middle _ kept =>
      .of_store (trans kept (carryOut_respects refl trans each draws changes _ middle))

omit each in
/-- A relation between stores that new readers, drawing and changes of slots respect is one that
every evaluation respects, on success and on failure. -/
theorem within_respects (host : Host) (limit room : Nat) (node : Node) (env : Env) (store : Store) :
    respects store (within host limit room node env store).2 := by
  induction room generalizing node env store with
  | zero => exact refl store
  | succ room ih => exact ofNode_respects refl trans ih reads draws changes host node env store

end Evaluation

end Respects

/-- Readers that have been made stay in use in an evaluation. -/
theorem Evaluation.within_readers {host : Host} {limit room : Nat} {node : Node} {env : Env}
    {store : Store} {id : Nat} {reader : Reader} (found : store.readers.lookup id = some reader) :
    (within host limit room node env store).2.readers.lookup id = some reader :=
  @within_respects (fun before after => ∀ id reader, before.readers.lookup id = some reader →
      after.readers.lookup id = some reader) (fun _ _ _ found => found)
    (fun first second id reader found => second id reader (first id reader found))
    (fun store m => (store.precedes_readerOf m).readers) (fun _ _ _ _ found => found)
    (fun _ _ _ _ found => found) host limit room node env store id reader found

end TypedTrees
