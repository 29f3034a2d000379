import TypedTrees.Tree
/-!
How taking the children of a node and putting them back fit together: what is put in for all
children comes out again in the same order (`Expr.children_withChildren`), and putting a node's own
children back changes nothing (`Expr.withChildren_children`).
-/
namespace TypedTrees

namespace Expr

theorem withChildren.overlay_nil (old : List Node) : overlay old [] = old := by cases old <;> rfl

theorem withChildren.overlayFields_nil (old : List (String × Node)) :
    overlayFields old [] = old := by
  cases old <;> rfl

theorem withChildren.overlay_of_length_eq {old trees : List Node}
    (lengths : trees.length = old.length) : overlay old trees = trees := by
  induction old generalizing trees with
  | nil =>
    simp only [List.length_nil, List.length_eq_zero_iff] at lengths
    subst lengths
    rfl
  | cons first rest ih =>
    cases trees with
    | nil => simp at lengths
    | cons tree trees => simp [overlay, ih (by simpa using lengths)]

theorem withChildren.map_snd_overlayFields {old : List (String × Node)} {trees : List Node}
    (lengths : trees.length = old.length) : (overlayFields old trees).map Prod.snd = trees := by
  induction old generalizing trees with
  | nil =>
    simp only [List.length_nil, List.length_eq_zero_iff] at lengths
    subst lengths
    rfl
  | cons first rest ih =>
    obtain ⟨name, node⟩ := first
    cases trees with
    | nil => simp at lengths
    | cons tree trees => simp [overlayFields, ih (by simpa using lengths)]

theorem withChildren.overlayFields_map_snd (fields : List (String × Node)) :
    overlayFields fields (fields.map Prod.snd) = fields := by
  induction fields with
  | nil => rfl
  | cons first rest ih => simp [overlayFields, ih]

theorem withChildren_nil (expr : Expr) : expr.withChildren [] = expr := by
  cases expr with
  | member target _ => cases target <;> rfl
  | call receiver _ _ _ => cases receiver <;> simp [withChildren, withChildren.overlay_nil]
  | lambda l =>
    cases l
    rfl
  | record _ _ => simp [withChildren, withChildren.overlayFields_nil]
  | _ => rfl

theorem withChildren_children (expr : Expr) : expr.withChildren expr.children = expr := by
  cases expr with
  | member target _ => cases target <;> rfl
  | call receiver _ _ _ =>
    cases receiver <;> simp [children, withChildren, withChildren.overlay_of_length_eq]
  | lambda l =>
    cases l
    rfl
  | record _ _ => simp [children, withChildren, withChildren.overlayFields_map_snd]
  | _ => rfl

/-- Trees that are put in for all children are the children from then on, in the same order. -/
theorem children_withChildren {expr : Expr} {trees : List Node}
    (lengths : trees.length = expr.children.length) :
    (expr.withChildren trees).children = trees := by
  cases expr with
  | parameter _ => simp_all [children, withChildren]
  | constant _ _ => simp_all [children, withChildren]
  | member target _ =>
    cases target with
    | none => simp_all [children, withChildren]
    | some _ =>
      match trees, lengths with
      | [_], _ => rfl
  | call receiver _ args _ =>
    cases receiver with
    | none =>
      simp only [children, Option.toList_none, List.nil_append] at lengths
      simp [children, withChildren, withChildren.overlay_of_length_eq lengths]
    | some _ =>
      cases trees with
      | nil => simp [children] at lengths
      | cons tree trees =>
        have rest : trees.length = args.length := by
          simp only [children, Option.toList_some, List.length_cons, List.length_append,
            List.length_nil] at lengths
          omega
        simp [children, withChildren, withChildren.overlay_of_length_eq rest]
  | lambda _ =>
    match trees, lengths with
    | [_], _ => rfl
  | unary _ _ _ =>
    match trees, lengths with
    | [_], _ => rfl
  | binary _ _ _ _ =>
    match trees, lengths with
    | [_, _], _ => rfl
  | condition _ _ _ _ =>
    match trees, lengths with
    | [_, _, _], _ => rfl
  | record _ fields =>
    simp only [children, List.length_map] at lengths
    simp [children, withChildren, withChildren.map_snd_overlayFields lengths]
  | setMember _ _ _ =>
    match trees, lengths with
    | [_, _], _ => rfl

end Expr

end TypedTrees
