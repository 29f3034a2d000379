import TypedTrees.Proofs.Pass.Outcome
/-!
A node as its head and its children. The head is all that a node holds beside its children, so the
two together tell the node (`Expr.eq_of_head`). Putting a node together again exchanges the children
and keeps the head; and the node stays the very node that it was exactly when every child does
(`Pass.rebuild_agrees`).
-/
namespace TypedTrees

/-- What a node is apart from its children: its kind and what it holds beside them. Of the children
it tells only how many there are and which of them is a target or a receiver. -/
inductive Head where
  | parameter (param : Parameter)
  | constant (value : Value) (ty : Ty)
  | member (hasTarget : Bool) (member : Member)
  | call (hasReceiver : Bool) (callee : Callee) (arity : Nat) (ty : Ty)
  | lambda (params : List Parameter) (ret : Ty)
  | unary (op : UnaryOp) (ty : Ty)
  | binary (op : BinaryOp) (ty : Ty)
  | condition (ty : Ty)
  | record (typeName : String) (fields : List String)
  | setMember (member : Member)

namespace Expr

def head : Expr → Head
  | parameter param => .parameter param
  | constant value ty => .constant value ty
  | member target m => .member target.isSome m
  | call receiver callee args ty => .call receiver.isSome callee args.length ty
  | lambda l => .lambda l.params l.ret
  | unary op _ ty => .unary op ty
  | binary op _ _ ty => .binary op ty
  | condition _ _ _ ty => .condition ty
  | record typeName fields => .record typeName (fields.map Prod.fst)
  | setMember _ m _ => .setMember m

theorem withChildren.map_fst_overlayFields (fields : List (String × Node)) (trees : List Node) :
    (overlayFields fields trees).map Prod.fst = fields.map Prod.fst := by
  induction fields generalizing trees with
  | nil => cases trees <;> rfl
  | cons field rest ih =>
    cases trees with
    | nil => rfl
    | cons tree trees => simp only [overlayFields, List.map_cons, ih]

theorem withChildren.length_overlay (old trees : List Node) :
    (overlay old trees).length = old.length := by
  induction old generalizing trees with
  | nil => cases trees <;> rfl
  | cons node rest ih =>
    cases trees with
    | nil => rfl
    | cons tree trees => simp only [overlay, List.length_cons, ih]

/-- An exchange of children keeps everything else. -/
theorem head_withChildren (expr : Expr) (trees : List Node) :
    (expr.withChildren trees).head = expr.head := by
  cases expr with
  | member target _ => cases target <;> rfl
  | call receiver _ args _ =>
    cases receiver with
    | none => simp only [withChildren, head, withChildren.length_overlay]
    | some _ =>
      simp only [withChildren, head, withChildren.length_overlay]
      rfl
  | record _ fields => simp only [withChildren, head, withChildren.map_fst_overlayFields]
  | _ => rfl

/-- The head leaves out nothing but the children. -/
theorem eq_of_head {a b : Expr} (heads : a.head = b.head) (kids : a.children = b.children) :
    a = b := by
  cases a <;> cases b <;> simp only [head, reduceCtorEq] at heads
  case parameter.parameter => rw [Head.parameter.inj heads]
  case constant.constant =>
    obtain ⟨rfl, rfl⟩ := Head.constant.inj heads
    rfl
  case member.member target m target' m' =>
    obtain ⟨places, rfl⟩ := Head.member.inj heads
    cases target <;> cases target' <;> simp_all [children]
  case call.call receiver callee args ty receiver' callee' args' ty' =>
    obtain ⟨places, rfl, -, rfl⟩ := Head.call.inj heads
    cases receiver <;> cases receiver' <;> simp_all [children]
  case lambda.lambda l l' =>
    obtain ⟨params, body, ret⟩ := l
    obtain ⟨params', body', ret'⟩ := l'
    obtain ⟨rfl, rfl⟩ := Head.lambda.inj heads
    cases kids
    rfl
  case unary.unary =>
    obtain ⟨rfl, rfl⟩ := Head.unary.inj heads
    cases kids
    rfl
  case binary.binary =>
    obtain ⟨rfl, rfl⟩ := Head.binary.inj heads
    cases kids
    rfl
  case condition.condition =>
    obtain rfl := Head.condition.inj heads
    cases kids
    rfl
  case record.record typeName fields typeName' fields' =>
    obtain ⟨rfl, names⟩ := Head.record.inj heads
    have lists : fields.unzip = fields'.unzip := by
      rw [List.unzip_eq_map, List.unzip_eq_map, names]
      exact congrArg (Prod.mk _) kids
    rw [← List.zip_unzip fields, ← List.zip_unzip fields', lists]
  case setMember.setMember =>
    obtain rfl := Head.setMember.inj heads
    cases kids
    rfl

end Expr

/-- The nodes are the same, place by place. -/
theorem sameNodes_iff_forall₂ {nodes trees : List Node} :
    sameNodes nodes trees = true ↔
      List.Forall₂ (fun tree node => tree.same node = true) trees nodes := by
  induction nodes generalizing trees with
  | nil => cases trees <;> simp [sameNodes]
  | cons node nodes ih =>
    cases trees with
    | nil => simp [sameNodes]
    | cons tree trees =>
      have turned : node.same tree = tree.same node := Bool.beq_comm ..
      rw [sameNodes, Bool.and_eq_true, turned, ih, List.forall₂_cons]

namespace Pass

variable {σ : Type}

/-- A node is put together anew, under the mark that is drawn, unless every child is the same. -/
theorem same_rebuild_iff {pass : Pass σ} {node : Node} {trees : List Node} {state : σ}
    (drawn : (pass.draw state).1 ≠ node.mark) :
    (pass.rebuild node trees state).1.same node = true ↔
      sameNodes node.expr.children trees = true := by
  rw [rebuild]
  split
  · rename_i kept
    simp only [Node.same, Node.mark, BEq.rfl, kept]
  · rename_i changed
    rw [Node.same, beq_iff_eq]
    exact iff_of_false drawn changed

theorem head_rebuild (pass : Pass σ) (node : Node) (trees : List Node) (state : σ) :
    (pass.rebuild node trees state).1.expr.head = node.expr.head := by
  rw [rebuild_expr, Expr.head_withChildren]

theorem children_rebuild (pass : Pass σ) {node : Node} {trees : List Node}
    (lengths : trees.length = node.expr.children.length) (state : σ) :
    (pass.rebuild node trees state).1.expr.children = trees := by
  rw [rebuild_expr, Expr.children_withChildren lengths]

/-- As many trees as the node has children are its children once it has been put together from them,
in the same order, and nothing else of it has changed. It is the very node that it was exactly when
each tree is the very child at its place; a new node gets a mark that is not the old one. And what
it is put together from first does not matter once it is put together again. -/
theorem rebuild_agrees (pass : Pass σ) {node : Node} {trees : List Node} {state : σ}
    (lengths : trees.length = node.expr.children.length)
    (drawn : (pass.draw state).1 ≠ node.mark) :
    let rebuilt := (pass.rebuild node trees state).1
    rebuilt.expr.children = trees ∧
    rebuilt.expr.head = node.expr.head ∧
    (rebuilt.same node = true ↔
      List.Forall₂ (fun tree child => tree.same child = true) trees node.expr.children) ∧
    (rebuilt = node ↔ trees = node.expr.children) ∧
    ∀ again later later', again.length = node.expr.children.length →
      (pass.rebuild rebuilt again later).1.expr = (pass.rebuild node again later').1.expr := by
  intro rebuilt
  have children : rebuilt.expr.children = trees := pass.children_rebuild lengths state
  have head : rebuilt.expr.head = node.expr.head := pass.head_rebuild node trees state
  refine ⟨children, head, ?_, ⟨?_, ?_⟩, ?_⟩
  · rw [same_rebuild_iff drawn, sameNodes_iff_forall₂]
  · intro same
    rw [← children, same]
  · rintro rfl
    exact congrArg Prod.fst (pass.rebuild_children node state)
  · intro again later later' lengths'
    have places : again.length = rebuilt.expr.children.length := by
      rw [children, lengths', lengths]
    refine Expr.eq_of_head ?_ ?_
    · rw [head_rebuild, head, head_rebuild]
    · rw [children_rebuild pass places, children_rebuild pass lengths']

namespace Exchanged

def a : Node := ⟨20, .constant (.str "a") .str⟩

def b : Node := ⟨21, .constant (.int 1) .int⟩

def c : Node := ⟨22, .constant (.int 2) .int⟩

/-- The call `"a".slice(1, 2)`. -/
def call : Node :=
  ⟨23, .call (some a)
    (.function ⟨16, "slice", some .str, [⟨"from", .int, .value⟩, ⟨"to", .int, .value⟩], .str, none⟩)
    [b, c] .str⟩

end Exchanged

open Exchanged in
/-- The receiver and the arguments of a call change places, and back again. -/
theorem rebuild_agrees_methodCall :
    [b, c, a].length = call.expr.children.length ∧
    (Pass.identity.draw ⟨24⟩).1 ≠ call.mark ∧
    let rebuilt := (Pass.identity.rebuild call [b, c, a] ⟨24⟩).1
    rebuilt.expr.children = [b, c, a] ∧ rebuilt.expr.head = call.expr.head ∧
    rebuilt.same call = false ∧
    (Pass.identity.rebuild rebuilt [a, b, c] ⟨25⟩).1.expr = call.expr := by
  have lengths : [b, c, a].length = call.expr.children.length := rfl
  have drawn : (Pass.identity.draw ⟨24⟩).1 ≠ call.mark := by decide
  obtain ⟨children, head, same, -, twice⟩ := rebuild_agrees Pass.identity lengths drawn
  refine ⟨lengths, drawn, children, head, ?_, ?_⟩
  · rw [Bool.eq_false_iff]
    intro kept
    cases same.mp kept with
    | cons first _ => cases first
  · rw [twice [a, b, c] ⟨25⟩ ⟨25⟩ rfl]
    rfl

end Pass

end TypedTrees
