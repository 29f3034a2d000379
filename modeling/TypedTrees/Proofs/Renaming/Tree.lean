import Mathlib.Logic.Function.Defs
import TypedTrees.Proofs.Value.Storage
import TypedTrees.Tree.Children
/-!
Trees with other parameters. A `Renaming` gives each parameter another identity, a different one for
each, and any name. It is applied to everything in a tree that names parameters: to the lambdas in
it, and to the lambda trees and closures that its constants hold. The form of the tree, its marks,
its types and its members are kept, so taking the children of a node and putting them back goes the
same way on both sides (`Expr.children_rename`, `Expr.rename_withChildren`).
-/
namespace TypedTrees

/-- Other identities for parameters, which keep them apart, and other names. -/
structure Renaming where
  id : Nat → Nat
  injective : Function.Injective id
  name : Parameter → String

def Parameter.rename (r : Renaming) (param : Parameter) : Parameter :=
  ⟨r.id param.id, r.name param, param.ty⟩

mutual

/-- The value with the parameters renamed in all lambdas in it. A closure's bindings are put in the
order of the identities that they have now. -/
def Value.rename (r : Renaming) : Value → Value
  | .null => .null
  | .unit => .unit
  | .bool b => .bool b
  | .int n => .int n
  | .float x => .float x
  | .str s => .str s
  | .seq items => .seq (Value.renameAll r items)
  | .record typeName ⟨pages, fields⟩ => .record typeName ⟨pages, Value.renameFields r fields⟩
  | .tree l => .tree (l.rename r)
  | .closure l env => .closure (l.rename r) (Keyed.insertAll (Value.renameBindings r env) [])
termination_by structural v => v

def Value.renameAll (r : Renaming) : List Value → List Value
  | [] => []
  | v :: vs => v.rename r :: Value.renameAll r vs
termination_by structural vs => vs

def Value.renameFields (r : Renaming) : List (String × Value) → List (String × Value)
  | [] => []
  | (name, v) :: rest => (name, v.rename r) :: Value.renameFields r rest
termination_by structural fields => fields

def Value.renameBindings (r : Renaming) : List (Nat × Value) → List (Nat × Value)
  | [] => []
  | (id, v) :: rest => (r.id id, v.rename r) :: Value.renameBindings r rest
termination_by structural env => env

def Lambda.rename (r : Renaming) : Lambda → Lambda
  | .mk params body ret => .mk (params.map (Parameter.rename r)) (body.rename r) ret
termination_by structural l => l

def Node.rename (r : Renaming) : Node → Node
  | .mk mark expr => .mk mark (expr.rename r)
termination_by structural node => node

def Expr.rename (r : Renaming) : Expr → Expr
  | .parameter param => .parameter (param.rename r)
  | .constant v ty => .constant (v.rename r) ty
  | .member none m => .member none m
  | .member (some target) m => .member (some (target.rename r)) m
  | .call none callee args ty => .call none callee (Node.renameAll r args) ty
  | .call (some receiver) callee args ty =>
    .call (some (receiver.rename r)) callee (Node.renameAll r args) ty
  | .lambda l => .lambda (l.rename r)
  | .unary op operand ty => .unary op (operand.rename r) ty
  | .binary op left right ty => .binary op (left.rename r) (right.rename r) ty
  | .condition test ifTrue ifFalse ty =>
    .condition (test.rename r) (ifTrue.rename r) (ifFalse.rename r) ty
  | .record typeName fields => .record typeName (Node.renameFields r fields)
  | .setMember target m value => .setMember (target.rename r) m (value.rename r)
termination_by structural expr => expr

def Node.renameAll (r : Renaming) : List Node → List Node
  | [] => []
  | node :: nodes => node.rename r :: Node.renameAll r nodes
termination_by structural nodes => nodes

def Node.renameFields (r : Renaming) : List (String × Node) → List (String × Node)
  | [] => []
  | (name, node) :: rest => (name, node.rename r) :: Node.renameFields r rest
termination_by structural fields => fields

end

variable (r : Renaming)

/-! ### Values -/

namespace Value

theorem renameFields_eq (fields : List (String × Value)) :
    renameFields r fields = fields.map fun field => (field.1, field.2.rename r) := by
  induction fields with
  | nil => rfl
  | cons field rest ih =>
    obtain ⟨name, v⟩ := field
    rw [renameFields, ih, List.map_cons]

@[simp] theorem rename_record (typeName : String) (table : FieldTable Value) :
    (record typeName table).rename r =
      record typeName ⟨table.pages, table.fields.map fun field => (field.1, field.2.rename r)⟩ := by
  obtain ⟨pages, fields⟩ := table
  rw [rename, renameFields_eq]

@[simp] theorem isNull_rename (v : Value) : (v.rename r).isNull = v.isNull := by
  cases v <;> rfl

theorem kindName_rename (v : Value) : (v.rename r).kindName = v.kindName := by
  cases v <;> rfl

end Value

/-! ### Lambdas -/

namespace Lambda

variable (l : Lambda)

@[simp] theorem params_rename : (l.rename r).params = l.params.map (Parameter.rename r) := by
  obtain ⟨params, body, ret⟩ := l
  rfl

@[simp] theorem body_rename : (l.rename r).body = l.body.rename r := by
  obtain ⟨params, body, ret⟩ := l
  rfl

@[simp] theorem ret_rename : (l.rename r).ret = l.ret := by
  obtain ⟨params, body, ret⟩ := l
  rfl

@[simp] theorem arity_rename : (l.rename r).arity = l.arity := by
  rw [arity, params_rename, List.length_map, arity]

theorem paramTypes_rename :
    (l.rename r).params.map Parameter.ty = l.params.map Parameter.ty := by
  rw [params_rename, List.map_map]
  rfl

@[simp] theorem fnType_rename : (l.rename r).fnType = l.fnType := by
  rw [fnType, paramTypes_rename, ret_rename, fnType]

end Lambda

/-! ### Nodes -/

namespace Node

@[simp] theorem mark_rename (node : Node) : (node.rename r).mark = node.mark := by
  obtain ⟨mark, expr⟩ := node
  rfl

@[simp] theorem expr_rename (node : Node) : (node.rename r).expr = node.expr.rename r := by
  obtain ⟨mark, expr⟩ := node
  rfl

theorem renameAll_eq (nodes : List Node) : renameAll r nodes = nodes.map (rename r) := by
  induction nodes with
  | nil => rfl
  | cons node nodes ih => rw [renameAll, ih, List.map_cons]

theorem renameFields_eq (fields : List (String × Node)) :
    renameFields r fields = fields.map fun field => (field.1, field.2.rename r) := by
  induction fields with
  | nil => rfl
  | cons field rest ih =>
    obtain ⟨name, node⟩ := field
    rw [renameFields, ih, List.map_cons]

end Node

namespace Expr

@[simp] theorem rename_member (target : Option Node) (m : Member) :
    (member target m).rename r = member (target.map (Node.rename r)) m := by
  cases target <;> rfl

@[simp] theorem rename_call (receiver : Option Node) (callee : Callee) (args : List Node)
    (ty : Ty) : (call receiver callee args ty).rename r =
      call (receiver.map (Node.rename r)) callee (args.map (Node.rename r)) ty := by
  cases receiver with
  | none => rw [rename, Node.renameAll_eq, Option.map_none]
  | some _ => rw [rename, Node.renameAll_eq, Option.map_some]

@[simp] theorem rename_record (typeName : String) (fields : List (String × Node)) :
    (record typeName fields).rename r =
      record typeName (fields.map fun field => (field.1, field.2.rename r)) := by
  rw [rename, Node.renameFields_eq]

/-- The children of a renamed node are the children of the node, renamed. -/
theorem children_rename (expr : Expr) :
    (expr.rename r).children = expr.children.map (Node.rename r) := by
  cases expr with
  | member target m => cases target <;> simp [children]
  | call receiver callee args ty => cases receiver <;> simp [children]
  | lambda l => simp [rename, children]
  | record typeName fields => simp [children, Function.comp_def]
  | _ => rfl

theorem withChildren.overlay_map (f : Node → Node) (old trees : List Node) :
    (overlay old trees).map f = overlay (old.map f) (trees.map f) := by
  induction old generalizing trees with
  | nil => cases trees <;> rfl
  | cons node rest ih =>
    cases trees with
    | nil => rfl
    | cons tree trees => simp only [overlay, List.map_cons, ih]

theorem withChildren.overlayFields_map (f : Node → Node) (old : List (String × Node))
    (trees : List Node) :
    (overlayFields old trees).map (fun field => (field.1, f field.2)) =
      overlayFields (old.map fun field => (field.1, f field.2)) (trees.map f) := by
  induction old generalizing trees with
  | nil => cases trees <;> rfl
  | cons field rest ih =>
    cases trees with
    | nil => rfl
    | cons tree trees => simp only [overlayFields, List.map_cons, ih]

/-- New children are renamed as the old ones are. -/
theorem rename_withChildren (expr : Expr) (kids : List Node) :
    (expr.withChildren kids).rename r =
      (expr.rename r).withChildren (kids.map (Node.rename r)) := by
  cases expr with
  | member target m => cases target <;> simp [withChildren]
  | call receiver callee args ty =>
    cases receiver <;> simp [withChildren, withChildren.overlay_map]
  | lambda l => simp [rename, withChildren, Lambda.rename]
  | record typeName fields => simp [withChildren, withChildren.overlayFields_map]
  | _ => simp [rename, withChildren]

end Expr

end TypedTrees
