import Mathlib.Data.List.Basic
import TypedTrees.Proofs.Tree.Parts
import TypedTrees.Tree.Equality
/-!
Trees without regard to marks. `Node.filled` puts trees in for parameters and erases the marks of
everything else, so filling in nothing leaves what two trees have in common that differ in marks
alone, their form `Node.unmarked`. Filling in twice comes to filling in once
(`Node.filled_filled`), and structural equality does not see more of a tree than its form
(`Node.beq_of_unmarked`).
-/
namespace TypedTrees

namespace Expr

theorem withChildren.overlay_overlay {old kids trees : List Node}
    (first : kids.length = old.length) (second : trees.length = old.length) :
    overlay (overlay old kids) trees = overlay old trees := by
  rw [overlay_of_length_eq first, overlay_of_length_eq (second.trans first.symm),
    overlay_of_length_eq second]

theorem withChildren.overlayFields_overlayFields {old : List (String × Node)}
    {kids trees : List Node} (first : kids.length = old.length)
    (second : trees.length = old.length) :
    overlayFields (overlayFields old kids) trees = overlayFields old trees := by
  induction old generalizing kids trees with
  | nil =>
    cases List.length_eq_zero_iff.mp first
    cases List.length_eq_zero_iff.mp second
    rfl
  | cons field rest ih =>
    obtain ⟨name, node⟩ := field
    match kids, trees, first, second with
    | kid :: kids, tree :: trees, first, second =>
      simp only [overlayFields, ih (Nat.succ.inj first) (Nat.succ.inj second)]

/-- Of children that are exchanged twice, the later ones stay. -/
theorem withChildren_withChildren {expr : Expr} {kids trees : List Node}
    (first : kids.length = expr.children.length) (second : trees.length = expr.children.length) :
    (expr.withChildren kids).withChildren trees = expr.withChildren trees := by
  cases expr with
  | parameter _ => rfl
  | constant _ _ => rfl
  | member target _ =>
    cases target with
    | none => rfl
    | some _ =>
      obtain ⟨_, rfl⟩ := List.length_eq_one_iff.mp first
      obtain ⟨_, rfl⟩ := List.length_eq_one_iff.mp second
      rfl
  | call receiver _ args _ =>
    cases receiver with
    | none =>
      have first : kids.length = args.length := first
      have second : trees.length = args.length := second
      simp only [withChildren, withChildren.overlay_overlay first second]
    | some _ =>
      obtain ⟨_, kids, rfl⟩ := List.exists_cons_of_length_eq_add_one first
      obtain ⟨_, trees, rfl⟩ := List.exists_cons_of_length_eq_add_one second
      have first : kids.length = args.length := Nat.succ.inj first
      have second : trees.length = args.length := Nat.succ.inj second
      simp only [withChildren, List.headD_cons, List.tail_cons,
        withChildren.overlay_overlay first second]
  | lambda _ | unary _ _ _ =>
    obtain ⟨_, rfl⟩ := List.length_eq_one_iff.mp first
    obtain ⟨_, rfl⟩ := List.length_eq_one_iff.mp second
    rfl
  | binary _ _ _ _ | setMember _ _ _ =>
    obtain ⟨_, _, rfl⟩ := List.length_eq_two.mp first
    obtain ⟨_, _, rfl⟩ := List.length_eq_two.mp second
    rfl
  | condition _ _ _ _ =>
    obtain ⟨_, _, _, rfl⟩ := List.length_eq_three.mp first
    obtain ⟨_, _, _, rfl⟩ := List.length_eq_three.mp second
    rfl
  | record _ fields =>
    have first : kids.length = fields.length := by simpa [children] using first
    have second : trees.length = fields.length := by simpa [children] using second
    simp only [withChildren, withChildren.overlayFields_overlayFields first second]

/-- A call whose children are mapped is the call with its parts mapped. -/
theorem withChildren_map_call (f : Node → Node) (receiver : Option Node) (callee : Callee)
    (args : List Node) (ty : Ty) :
    (call receiver callee args ty).withChildren ((call receiver callee args ty).children.map f) =
      .call (receiver.map f) callee (args.map f) ty := by
  cases receiver with
  | none =>
    simp only [children, withChildren, Option.toList_none, List.nil_append, Option.map_none,
      withChildren.overlay_of_length_eq (List.length_map f)]
  | some receiver =>
    simp only [children, withChildren, Option.toList_some, List.cons_append, List.nil_append,
      List.map_cons, List.headD_cons, List.tail_cons, Option.map_some,
      withChildren.overlay_of_length_eq (List.length_map f)]

end Expr

namespace Node

theorem expr_mk (mark : Nat) (expr : Expr) : (mk mark expr).expr = expr := rfl

/-- The tree with trees put in for the mapped parameters. The nodes of the tree itself lose their
marks, and the trees put in are not looked into. -/
def filled (put : Nat → Option Node) (tree : Node) : Node :=
  match tree.expr with
  | .parameter param => (put param.id).getD ⟨0, .parameter param⟩
  | _ => ⟨0, tree.expr.withChildren (tree.expr.children.attach.map fun child =>
      child.val.filled put)⟩
termination_by sizeOf tree
decreasing_by exact sizeOf_lt_of_child child.property

/-- The tree with all marks erased. -/
def unmarked (tree : Node) : Node := tree.filled fun _ => none

variable {put other : Nat → Option Node} {tree : Node}

theorem filled_parameter {param : Parameter} (isParam : tree.expr = .parameter param) :
    tree.filled put = (put param.id).getD ⟨0, .parameter param⟩ := by
  rw [filled]
  split
  · rename_i is
    cases isParam.symm.trans is
    rfl
  · rename_i noParam
    exact absurd isParam (noParam param)

theorem filled_inner (noParam : ∀ param, tree.expr ≠ .parameter param) :
    tree.filled put = ⟨0, tree.expr.withChildren (tree.expr.children.map (filled put))⟩ := by
  rw [filled]
  split
  · rename_i is
    exact absurd is (noParam _)
  · simp

/-- The trees that are put in first are filled in turn, and so are the parameters left. -/
theorem filled_filled (put other : Nat → Option Node) (tree : Node) :
    (tree.filled put).filled other =
      tree.filled fun id => ((put id).map (filled other)).or (other id) := by
  induction tree using Node.induction with
  | node tree ih =>
    rcases tree.parameter_or_inner with ⟨param, isParam⟩ | noParam
    · rw [filled_parameter isParam, filled_parameter isParam]
      cases put param.id with
      | none => exact filled_parameter rfl
      | some found => rfl
    · have lengths : ∀ put : Nat → Option Node,
          (tree.expr.children.map (filled put)).length = tree.expr.children.length :=
        fun put => List.length_map _
      rw [filled_inner noParam, filled_inner noParam, filled_inner]
      · simp only [expr_mk, Expr.children_withChildren (lengths put), List.map_map]
        rw [Expr.withChildren_withChildren (lengths put) (List.length_map _)]
        congr 2
        exact List.map_congr_left ih
      · intro param is
        exact noParam param (Expr.withChildren_eq_parameter.mp is)

/-- Only what is put in for parameters that occur in the tree matters. -/
theorem filled_congr (same : ∀ id, tree.Mentions id → put id = other id) :
    tree.filled put = tree.filled other := by
  induction tree using Node.induction with
  | node tree ih =>
    rcases tree.parameter_or_inner with ⟨param, isParam⟩ | noParam
    · rw [filled_parameter isParam, filled_parameter isParam,
        same param.id ⟨tree, param, .refl tree, isParam, rfl⟩]
    · rw [filled_inner noParam, filled_inner noParam]
      congr 2
      refine List.map_congr_left fun child member => ih child member fun id mentions => same id ?_
      obtain ⟨part, param, inChild, is⟩ := mentions
      exact ⟨part, param, .child member inChild, is⟩

theorem unmarked_filled (put : Nat → Option Node) (tree : Node) :
    tree.unmarked.filled put = tree.filled put := by
  rw [unmarked, filled_filled]
  rfl

theorem filled_unmarked (put : Nat → Option Node) (tree : Node) :
    (tree.filled put).unmarked = tree.filled fun id => (put id).map unmarked := by
  rw [unmarked, filled_filled]
  congr 1
  funext id
  rw [Option.or_none]
  rfl

/-- Trees of one form are one and the same once they are filled. -/
theorem filled_of_unmarked {node tree : Node} (same : node.unmarked = tree.unmarked)
    (put : Nat → Option Node) : node.filled put = tree.filled put := by
  rw [← unmarked_filled put node, same, unmarked_filled]

theorem unmarked_eq (tree : Node) :
    tree.unmarked = ⟨0, tree.expr.withChildren (tree.expr.children.map unmarked)⟩ := by
  rcases tree.parameter_or_inner with ⟨param, isParam⟩ | noParam
  · rw [unmarked, filled_parameter isParam, isParam]
    rfl
  · exact filled_inner noParam

/-- Trees of one form have children of the same forms, and agree in all else. -/
theorem unmarked_eq_iff {node tree : Node} :
    node.unmarked = tree.unmarked ↔
      node.expr.children.map unmarked = tree.expr.children.map unmarked ∧
        ∀ kids : List Node, kids.length = node.expr.children.length →
          node.expr.withChildren kids = tree.expr.withChildren kids := by
  have formLength : ∀ tree : Node,
      (tree.expr.children.map unmarked).length = tree.expr.children.length :=
    fun tree => List.length_map _
  constructor
  · intro same
    rw [unmarked_eq, unmarked_eq tree] at same
    have exprs : node.expr.withChildren (node.expr.children.map unmarked) =
        tree.expr.withChildren (tree.expr.children.map unmarked) := (Node.mk.inj same).2
    have kids := congrArg Expr.children exprs
    rw [Expr.children_withChildren (formLength node), Expr.children_withChildren (formLength tree)]
      at kids
    have lengths : node.expr.children.length = tree.expr.children.length := by
      rw [← formLength node, kids, formLength tree]
    refine ⟨kids, fun trees count => ?_⟩
    rw [← Expr.withChildren_withChildren (formLength node) count, exprs,
      Expr.withChildren_withChildren (formLength tree) (count.trans lengths)]
  · rintro ⟨kids, exprs⟩
    rw [unmarked_eq, unmarked_eq tree, exprs _ (formLength node), kids]

/-- The form of a node with new children is told by the forms of the children. -/
theorem unmarked_withChildren {mark : Nat} {expr : Expr} {kids : List Node}
    (lengths : kids.length = expr.children.length) :
    (mk mark (expr.withChildren kids)).unmarked = ⟨0, expr.withChildren (kids.map unmarked)⟩ := by
  rw [unmarked_eq]
  simp only [expr_mk, Expr.children_withChildren lengths]
  rw [Expr.withChildren_withChildren lengths (by rwa [List.length_map])]

section Equality

variable {onPage : Option (Value → Value → Bool)}

theorem allAlike_unmarked {nodes : List Node}
    (each : ∀ node ∈ nodes, ∀ other, Node.alike onPage node.unmarked other =
      Node.alike onPage node other) (others : List Node) :
    Node.allAlike onPage (nodes.map unmarked) others = Node.allAlike onPage nodes others := by
  induction nodes generalizing others with
  | nil => rfl
  | cons node nodes ih =>
    rw [List.forall_mem_cons] at each
    cases others with
    | nil => rfl
    | cons other others =>
      simp only [List.map_cons, Node.allAlike, each.1, ih each.2]

theorem fieldsAlike_unmarked {fields : List (String × Node)}
    (each : ∀ node ∈ fields.map Prod.snd, ∀ other, Node.alike onPage node.unmarked other =
      Node.alike onPage node other) (others : List (String × Node)) :
    Node.fieldsAlike onPage
        (Expr.withChildren.overlayFields fields ((fields.map Prod.snd).map unmarked)) others =
      Node.fieldsAlike onPage fields others := by
  induction fields generalizing others with
  | nil => rfl
  | cons field fields ih =>
    obtain ⟨name, node⟩ := field
    rw [List.map_cons, List.forall_mem_cons] at each
    cases others with
    | nil => rfl
    | cons other others =>
      simp only [List.map_cons, Expr.withChildren.overlayFields, Node.fieldsAlike, each.1,
        ih each.2]

/-- Structural equality does not look at marks. -/
theorem alike_unmarked (tree other : Node) :
    Node.alike onPage tree.unmarked other = Node.alike onPage tree other := by
  induction tree using Node.induction generalizing other with
  | node tree ih =>
    rw [unmarked_eq]
    obtain ⟨mark, expr⟩ := tree
    obtain ⟨mark', other⟩ := other
    simp only [expr_mk] at ih ⊢
    simp only [Node.alike]
    cases expr with
    | parameter _ => rfl
    | constant _ _ => rfl
    | member target _ =>
      cases target with
      | none => rfl
      | some target =>
        cases other with
        | member target' _ =>
          cases target' with
          | none => rfl
          | some target' =>
            have below := ih target (by simp [Expr.children]) target'
            simp [Expr.children, Expr.withChildren, Expr.alike, below]
        | _ => rfl
    | call receiver callee args ty =>
      rw [Expr.withChildren_map_call]
      have atArgs := @allAlike_unmarked onPage args fun arg member =>
        ih arg (by simp [Expr.children, member])
      cases other with
      | call receiver' callee' args' ty' =>
        cases receiver with
        | none =>
          cases receiver' <;> simp [Expr.alike, atArgs]
        | some receiver =>
          have below := ih receiver (by simp [Expr.children])
          cases receiver' <;> simp [Expr.alike, atArgs, below]
      | _ => cases receiver <;> rfl
    | lambda l =>
      obtain ⟨params, body, ret⟩ := l
      have below := ih body (by simp [Expr.children, Lambda.body])
      cases other with
      | lambda l' =>
        obtain ⟨params', body', ret'⟩ := l'
        simp [Expr.children, Expr.withChildren, Expr.alike, Lambda.alike, below, Lambda.params,
          Lambda.body, Lambda.ret]
      | _ => rfl
    | unary op operand ty =>
      have below := ih operand (by simp [Expr.children])
      cases other <;> simp [Expr.children, Expr.withChildren, Expr.alike, below]
    | binary op left right ty =>
      have atLeft := ih left (by simp [Expr.children])
      have atRight := ih right (by simp [Expr.children])
      cases other <;> simp [Expr.children, Expr.withChildren, Expr.alike, atLeft, atRight]
    | condition test ifTrue ifFalse ty =>
      have atTest := ih test (by simp [Expr.children])
      have atTrue := ih ifTrue (by simp [Expr.children])
      have atFalse := ih ifFalse (by simp [Expr.children])
      cases other <;>
        simp [Expr.children, Expr.withChildren, Expr.alike, atTest, atTrue, atFalse]
    | record typeName fields =>
      have atFields := @fieldsAlike_unmarked onPage fields ih
      have lengths : (Expr.withChildren.overlayFields fields
          ((fields.map Prod.snd).map unmarked)).length = fields.length := by
        rw [← List.length_map Prod.snd, Expr.withChildren.map_snd_overlayFields (by simp)]
        simp
      cases other with
      | record typeName' fields' =>
        simp only [Expr.children, Expr.withChildren, Expr.alike, atFields, lengths]
      | _ => rfl
    | setMember target m value =>
      have atTarget := ih target (by simp [Expr.children])
      have atValue := ih value (by simp [Expr.children])
      cases other <;> simp [Expr.children, Expr.withChildren, Expr.alike, atTarget, atValue]

/-- Two trees of one form are equal to the same trees. -/
theorem beq_of_unmarked {node tree : Node} (same : node.unmarked = tree.unmarked) (other : Node) :
    (node == other) = (tree == other) := by
  change Node.alike _ node other = Node.alike _ tree other
  rw [← alike_unmarked node, same, alike_unmarked]

end Equality

end Node

end TypedTrees
