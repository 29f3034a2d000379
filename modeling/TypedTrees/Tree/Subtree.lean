import TypedTrees.Tree
/-!
The trees below a tree. Every node is handled alike here, through its direct sub-trees
`Expr.children`: they are smaller than the node (`Node.sizeOf_lt_of_child`), so a property of all
trees can be shown one level at a time (`Node.induction`). The payload of a constant is not part of
the tree around it.
-/
namespace TypedTrees

theorem Expr.sizeOf_lt_of_mem_children {expr : Expr} {child : Node}
    (member : child ∈ expr.children) : sizeOf child < sizeOf expr := by
  cases expr with
  | parameter _ => simp [children] at member
  | constant _ _ => simp [children] at member
  | member target _ =>
    cases target with
    | none => simp [children] at member
    | some target =>
      simp only [children, Option.toList_some, List.mem_singleton] at member
      subst member
      simp only [member.sizeOf_spec, Option.some.sizeOf_spec]
      omega
  | call receiver _ args _ =>
    simp only [children, List.mem_append, Option.mem_toList] at member
    rcases member with atReceiver | atArgs
    · subst atReceiver
      simp only [call.sizeOf_spec, Option.some.sizeOf_spec]
      omega
    · have := List.sizeOf_lt_of_mem atArgs
      simp only [call.sizeOf_spec]
      omega
  | lambda l =>
    obtain ⟨params, body, ret⟩ := l
    simp only [children, Lambda.body, List.mem_singleton] at member
    subst member
    simp only [lambda.sizeOf_spec, Lambda.mk.sizeOf_spec]
    omega
  | unary _ _ _ =>
    simp only [children, List.mem_singleton] at member
    subst member
    simp only [unary.sizeOf_spec]
    omega
  | binary _ _ _ _ =>
    simp only [children, List.mem_cons, List.not_mem_nil, or_false] at member
    rcases member with rfl | rfl
    all_goals
      simp only [binary.sizeOf_spec]
      omega
  | condition _ _ _ _ =>
    simp only [children, List.mem_cons, List.not_mem_nil, or_false] at member
    rcases member with rfl | rfl | rfl
    all_goals
      simp only [condition.sizeOf_spec]
      omega
  | record _ fields =>
    simp only [children, List.mem_map, Prod.exists, exists_eq_right] at member
    obtain ⟨name, inFields⟩ := member
    have := List.sizeOf_lt_of_mem inFields
    simp only [Prod.mk.sizeOf_spec] at this
    simp only [record.sizeOf_spec]
    omega
  | setMember _ _ _ =>
    simp only [children, List.mem_cons, List.not_mem_nil, or_false] at member
    rcases member with rfl | rfl
    all_goals
      simp only [setMember.sizeOf_spec]
      omega

namespace Node

theorem sizeOf_lt_of_child {node child : Node} (member : child ∈ node.expr.children) :
    sizeOf child < sizeOf node := by
  obtain ⟨mark, expr⟩ := node
  have := Expr.sizeOf_lt_of_mem_children member
  simp only [Node.expr] at this
  simp
  omega

/-- A property that passes from the direct sub-trees of a node to the node holds of every tree. -/
@[elab_as_elim]
theorem induction {motive : Node → Prop}
    (node : ∀ node : Node, (∀ child ∈ node.expr.children, motive child) → motive node)
    (tree : Node) : motive tree :=
  node tree fun child _member => induction node child
termination_by sizeOf tree
decreasing_by exact sizeOf_lt_of_child _member

/-- `Subtree part whole` when `part` is `whole` itself or lies below it. -/
inductive Subtree : Node → Node → Prop where
  | refl (node : Node) : Subtree node node
  | child {part child whole : Node} (member : child ∈ whole.expr.children)
      (rest : Subtree part child) : Subtree part whole

theorem Subtree.trans {a b c : Node} (lower : Subtree a b) (upper : Subtree b c) : Subtree a c := by
  induction upper with
  | refl => exact lower
  | child member _ ih => exact .child member ih

/-- The number of levels of a tree. A leaf has one. -/
def height (tree : Node) : Nat :=
  (tree.expr.children.attach.map fun child => child.val.height).foldr max 0 + 1
termination_by sizeOf tree
decreasing_by exact sizeOf_lt_of_child child.property

theorem height_eq (tree : Node) :
    tree.height = (tree.expr.children.map height).foldr max 0 + 1 := by
  rw [height]
  simp

theorem height_pos (tree : Node) : 0 < tree.height := by
  rw [height_eq]
  omega

theorem height_lt_of_child {tree child : Node} (member : child ∈ tree.expr.children) :
    child.height < tree.height := by
  have bound : ∀ heights : List Nat, child.height ∈ heights →
      child.height ≤ heights.foldr max 0 := by
    intro heights found
    induction heights with
    | nil => cases found
    | cons first rest ih =>
      simp only [List.foldr_cons]
      rcases List.mem_cons.mp found with atFirst | inRest
      · omega
      · have := ih inRest
        omega
  rw [tree.height_eq]
  have := bound _ (List.mem_map_of_mem (f := height) member)
  omega

end Node

end TypedTrees
