import TypedTrees.Tree.Subtree
/-!
Where parameters occur in a tree and where they are bound. Binding goes by identity: a lambda binds
exactly the parameters it lists, and two parameters of one name have nothing to do with each other.
-/
namespace TypedTrees

/-- The identities that a node binds in its direct sub-trees. Only lambdas bind. -/
def Expr.binders : Expr → List Nat
  | .lambda l => l.params.map Parameter.id
  | _ => []

namespace Node

/-- The parameter occurs somewhere in the tree, bound or not. -/
def Mentions (tree : Node) (id : Nat) : Prop :=
  ∃ part param, Subtree part tree ∧ part.expr = .parameter param ∧ param.id = id

/-- The parameter occurs in the tree outside every lambda that binds it. -/
inductive Free (id : Nat) : Node → Prop where
  | here {node : Node} {param : Parameter} (isParam : node.expr = .parameter param)
      (same : param.id = id) : Free id node
  | child {node child : Node} (member : child ∈ node.expr.children)
      (unbound : id ∉ node.expr.binders) (rest : Free id child) : Free id node

theorem Free.mentions {id : Nat} {tree : Node} (free : Free id tree) : tree.Mentions id := by
  induction free with
  | here isParam same => exact ⟨_, _, .refl _, isParam, same⟩
  | child member _ _ ih =>
    obtain ⟨part, param, inChild, isParam, same⟩ := ih
    exact ⟨part, param, .child member inChild, isParam, same⟩

end Node

/-- A lambda with nothing free in its body but its own parameters. -/
def Lambda.Closed (l : Lambda) : Prop :=
  ∀ id, Node.Free id l.body → id ∈ l.params.map Parameter.id

end TypedTrees
