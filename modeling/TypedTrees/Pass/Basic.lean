import TypedTrees.Error
import TypedTrees.Tree
/-!
Passes over trees: what a pass decides node by node, and how a node is put together again from what
its children have become. A node keeps its mark exactly when every child kept its own.
-/
namespace TypedTrees

/-- What a pass does with one node. -/
inductive Visit where
  /-- Go through the children, and put the node together from what they become. -/
  | descend
  /-- The node's final result; its children are not visited. -/
  | done (node : Node)
  /-- Go through this tree in place of the node, one level deeper. -/
  | replace (node : Node)

/-- A pass with a state of its own. Each operation is told the depth it runs at. The levels are the
driver's: it enters one for each visit and leaves it when it is done with what the visit has asked
for, and no operation of a pass enters or leaves any. -/
structure Pass (σ : Type) where
  /-- Decides what happens to a node. -/
  visit : Nat → Node → σ → Except Error Visit × σ
  /-- Notes that the pass is through with the tree given in place of a node: first the node, then
  what came of the tree. -/
  replaced : Nat → Node → Node → σ → σ
  /-- Takes a new mark from the state. -/
  draw : σ → Nat × σ

/-- What a pass ends with: a tree or an error, the depth it ended at, and its state. -/
structure PassResult (σ : Type) where
  outcome : Except Error Node
  depth : Nat
  state : σ

/-- Whether two lists hold the same nodes, place by place. -/
def sameNodes : List Node → List Node → Bool
  | [], [] => true
  | a :: as, b :: bs => a.same b && sameNodes as bs
  | _, _ => false

/-- The node with its children replaced. It stays the same node if every child is the child it was;
otherwise it is a new node. -/
def Pass.rebuild {σ : Type} (pass : Pass σ) (node : Node) (kids : List Node) (state : σ) :
    Node × σ :=
  let expr := node.expr.withChildren kids
  if sameNodes node.expr.children kids then (⟨node.mark, expr⟩, state)
  else
    let (mark, state) := pass.draw state
    (⟨mark, expr⟩, state)

/-- The pass that visits every node and replaces none. -/
def Pass.identity : Pass Supply where
  visit := fun _ _ supply => (.ok .descend, supply)
  replaced := fun _ _ _ supply => supply
  draw := Supply.draw

end TypedTrees
