import TypedTrees.Tree.Binding
import TypedTrees.Tree.Children
/-!
Properties that are told node by node. `Node.All holds tree` says of every part of a tree what it
is, and where `holds` does not look at children it survives every exchange of them.
-/
namespace TypedTrees

namespace Expr

theorem withChildren_eq_parameter {expr : Expr} {trees : List Node} {param : Parameter} :
    expr.withChildren trees = .parameter param ↔ expr = .parameter param := by
  cases expr with
  | member target _ => cases target <;> simp [withChildren]
  | call receiver _ _ _ => cases receiver <;> simp [withChildren]
  | _ => simp [withChildren]

theorem withChildren_eq_constant {expr : Expr} {trees : List Node} {v : Value} {ty : Ty} :
    expr.withChildren trees = .constant v ty ↔ expr = .constant v ty := by
  cases expr with
  | member target _ => cases target <;> simp [withChildren]
  | call receiver _ _ _ => cases receiver <;> simp [withChildren]
  | _ => simp [withChildren]

/-- Only a lambda becomes a lambda, one with the same parameters and the same result type. -/
theorem withChildren_eq_lambda {expr : Expr} {trees : List Node} {l : Lambda}
    (made : expr.withChildren trees = .lambda l) :
    ∃ k, expr = .lambda k ∧ l.params = k.params ∧ l.ret = k.ret := by
  cases expr with
  | member target _ => cases target <;> cases made
  | call receiver _ _ _ => cases receiver <;> cases made
  | lambda k =>
    cases made
    exact ⟨k, rfl, rfl, rfl⟩
  | _ => cases made

theorem binders_withChildren (expr : Expr) (trees : List Node) :
    (expr.withChildren trees).binders = expr.binders := by
  cases expr with
  | member target _ => cases target <;> rfl
  | call receiver _ _ _ => cases receiver <;> rfl
  | _ => rfl

end Expr

namespace Node

theorem parameter_or_inner (tree : Node) :
    (∃ param, tree.expr = .parameter param) ∨ ∀ param, tree.expr ≠ .parameter param :=
  (Classical.em _).imp_right not_exists.mp

/-- Every part of the tree, itself included, is as `holds` says. -/
def All (holds : Expr → Prop) (tree : Node) : Prop :=
  ∀ part, Subtree part tree → holds part.expr

theorem all_iff {holds : Expr → Prop} {tree : Node} :
    tree.All holds ↔ holds tree.expr ∧ ∀ child ∈ tree.expr.children, child.All holds := by
  constructor
  · intro all
    exact ⟨all tree (.refl tree), fun child member part below => all part (.child member below)⟩
  · rintro ⟨here, below⟩ part inTree
    cases inTree with
    | refl => exact here
    | child member rest => exact below _ member part rest

theorem All.here {holds : Expr → Prop} {tree : Node} (all : tree.All holds) : holds tree.expr :=
  all tree (.refl tree)

theorem All.child {holds : Expr → Prop} {tree child : Node} (all : tree.All holds)
    (member : child ∈ tree.expr.children) : child.All holds :=
  (all_iff.mp all).2 child member

/-- All parts of the tree, the tree itself first. -/
def parts (tree : Node) : List Node :=
  tree :: tree.expr.children.attach.flatMap fun child => child.val.parts
termination_by sizeOf tree
decreasing_by exact sizeOf_lt_of_child child.property

theorem parts_eq (tree : Node) : tree.parts = tree :: tree.expr.children.flatMap parts := by
  rw [parts]
  simp

theorem mem_parts_iff {part tree : Node} : part ∈ tree.parts ↔ part.Subtree tree := by
  induction tree using Node.induction with
  | node tree ih =>
    rw [parts_eq, List.mem_cons, List.mem_flatMap]
    constructor
    · rintro (rfl | ⟨child, member, below⟩)
      · exact .refl part
      · exact .child member ((ih child member).mp below)
    · intro inTree
      cases inTree with
      | refl => exact .inl rfl
      | child member rest => exact .inr ⟨_, member, (ih _ member).mpr rest⟩

theorem all_iff_parts {holds : Expr → Prop} {tree : Node} :
    tree.All holds ↔ ∀ part ∈ tree.parts, holds part.expr :=
  ⟨fun all part member => all part (mem_parts_iff.mp member),
    fun all part inTree => all part (mem_parts_iff.mpr inTree)⟩

/-- What the constants of a tree hold. -/
def payloads (tree : Node) : List Value :=
  tree.parts.filterMap fun part => match part.expr with
    | .constant v _ => some v
    | _ => none

theorem mem_payloads {part tree : Node} {v : Value} {ty : Ty} (inTree : part.Subtree tree)
    (isConstant : part.expr = .constant v ty) : v ∈ tree.payloads := by
  refine List.mem_filterMap.mpr ⟨part, mem_parts_iff.mpr inTree, ?_⟩
  rw [isConstant]

/-- The lambdas that stand in a tree as nodes. -/
def lambdas (tree : Node) : List Lambda := tree.parts.filterMap fun part => part.expr.asLambda?

theorem mem_lambdas {part tree : Node} {l : Lambda} (inTree : part.Subtree tree)
    (isLambda : part.expr = .lambda l) : l ∈ tree.lambdas := by
  refine List.mem_filterMap.mpr ⟨part, mem_parts_iff.mpr inTree, ?_⟩
  rw [isLambda]
  rfl

theorem free_iff {id : Nat} {tree : Node} :
    tree.Free id ↔ (∃ param, tree.expr = .parameter param ∧ param.id = id) ∨
      id ∉ tree.expr.binders ∧ ∃ child ∈ tree.expr.children, child.Free id := by
  constructor
  · intro free
    cases free with
    | here isParam same => exact .inl ⟨_, isParam, same⟩
    | child member unbound rest => exact .inr ⟨unbound, _, member, rest⟩
  · rintro (⟨param, isParam, same⟩ | ⟨unbound, child, member, rest⟩)
    · exact .here isParam same
    · exact .child member unbound rest

theorem free_mk {id mark : Nat} {expr : Expr} :
    (mk mark expr).Free id ↔ (∃ param, expr = .parameter param ∧ param.id = id) ∨
      id ∉ expr.binders ∧ ∃ child ∈ expr.children, child.Free id := free_iff

end Node

end TypedTrees
