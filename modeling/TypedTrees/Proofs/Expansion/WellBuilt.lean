import TypedTrees.Proofs.Expansion.Confluence
import TypedTrees.Proofs.Tree.Built
/-!
Trees in which every reference call is built on a literal holder. Inlining such a call brings in the
body of a lambda tree that lies deeper in the nesting of held trees, and what it puts in for the
parameters has been dealt with before; no holder is a parameter, so nothing that is put in becomes
one. Hence expansion comes to an end within a number of levels that depends on the tree alone
(`Node.WellBuilt.settles`), and nothing but a lower limit makes it fail
(`Expander.expand_wellBuilt`).
-/
namespace TypedTrees

/-- If the node is a reference call, it is what is built on a constant that holds a lambda tree. -/
def Expr.InvokesLiteral (expr : Expr) : Prop :=
  ∀ receiver shape args ty, expr = .call receiver (.invoke shape) args ty →
    ∃ mark l rest, args = ⟨mark, treeOf l⟩ :: rest ∧ invokeOf ⟨mark, treeOf l⟩ rest = .ok expr

/-- Where no function is registered, a call to expand is a reference call. -/
theorem Expr.invoke_or_kept (expr : Expr) :
    (∃ receiver shape args ty, expr = .call receiver (.invoke shape) args ty) ∨
      expr.isExpandable (fun _ => false) = false := by
  cases expr with
  | call receiver callee args ty =>
    cases callee with
    | invoke shape => exact .inl ⟨receiver, shape, args, ty, rfl⟩
    | function f => exact .inr rfl
  | _ => exact .inr rfl

/-- A node that is a constant holding a lambda tree holds a good one. -/
def Expr.TreeIs (good : Lambda → Prop) (expr : Expr) : Prop :=
  ∀ l ty, expr = .constant (.tree l) ty → good l

namespace Node

/-- The lambda trees that constants hold in a tree, that constants hold in the bodies of these, and
so on. -/
inductive Holds : Node → Lambda → Prop
  | constant {tree part : Node} {l : Lambda} {ty : Ty} (inTree : part.Subtree tree)
      (isConstant : part.expr = .constant (.tree l) ty) : Holds tree l
  | nested {tree : Node} {l k : Lambda} (outer : Holds tree k) (inner : Holds k.body l) :
      Holds tree l

theorem Holds.of_child {tree child : Node} {l : Lambda} (member : child ∈ tree.expr.children)
    (holds : child.Holds l) : tree.Holds l := by
  induction holds with
  | constant inTree isConstant => exact .constant (.child member inTree) isConstant
  | nested _ inner ih _ => exact .nested (ih member) inner

/-- What is held is good, if the constants of the tree and of the bodies of good lambdas hold good
ones only. -/
theorem Holds.good {good : Lambda → Prop} {tree : Node} {l : Lambda}
    (here : tree.All (·.TreeIs good)) (bodies : ∀ k, good k → k.body.All (·.TreeIs good))
    (holds : tree.Holds l) : good l := by
  induction holds with
  | constant inTree isConstant => exact here _ inTree _ _ isConstant
  | nested _ _ outer inner => exact inner (bodies _ (outer here))

/-- Every reference call, in the tree and in the bodies of the lambda trees held in it, is built on
a literal holder. -/
structure WellBuilt (tree : Node) : Prop where
  calls : tree.All Expr.InvokesLiteral
  held : ∀ l, tree.Holds l → l.body.All Expr.InvokesLiteral

namespace WellBuilt

variable {tree : Node}

theorem of_child {child : Node} (wellBuilt : tree.WellBuilt)
    (member : child ∈ tree.expr.children) : child.WellBuilt :=
  ⟨wellBuilt.calls.child member, fun l holds => wellBuilt.held l (holds.of_child member)⟩

theorem body {l : Lambda} (wellBuilt : tree.WellBuilt) (holds : tree.Holds l) : l.body.WellBuilt :=
  ⟨wellBuilt.held l holds, fun k inner => wellBuilt.held k (.nested holds inner)⟩

/-- A well-built call is on a literal holder, whose lambda takes the other arguments and is smaller
than the call. -/
theorem invokes {receiver : Option Node} {shape : InvokeShape} {args : List Node} {ty : Ty}
    (wellBuilt : tree.WellBuilt) (isCall : tree.expr = .call receiver (.invoke shape) args ty) :
    ∃ mark l rest, tree.expr = .call none (.invoke shape) (⟨mark, Expr.treeOf l⟩ :: rest) ty ∧
      l.arity = rest.length ∧ l.body.WellBuilt ∧ sizeOf l.body < sizeOf tree := by
  obtain ⟨mark, l, rest, rfl, built⟩ := wellBuilt.calls.here receiver shape args ty isCall
  obtain ⟨arity, shape', is⟩ := Expr.invokeOf_treeOf built
  cases isCall.symm.trans is
  have isChild : (⟨mark, Expr.treeOf l⟩ : Node) ∈ tree.expr.children := by
    rw [is]
    exact .head _
  have holds : tree.Holds l := .constant (.child isChild (.refl _)) rfl
  refine ⟨mark, l, rest, is, arity, wellBuilt.body holds, ?_⟩
  have below := sizeOf_lt_of_child isChild
  have inHolder : sizeOf l.body < sizeOf (⟨mark, Expr.treeOf l⟩ : Node) := by
    obtain ⟨params, body, ret⟩ := l
    simp only [Expr.treeOf, Expr.constantOf, Lambda.body, Node.mk.sizeOf_spec,
      Expr.constant.sizeOf_spec, Value.tree.sizeOf_spec, Lambda.mk.sizeOf_spec]
    omega
  omega

end WellBuilt

/-- Wherever no function is registered, every run on a tree of this form comes to one and the same
outcome, as soon as it has so many levels left. -/
def SettlesTo (node out : Node) (enough : Nat) : Prop :=
  ∀ (host : Host) (registry : Nat) (session : Session),
    (∀ f, (session.registry registry).contains f = false) →
      Expands.Attained host registry session node out enough

def Settles (node : Node) : Prop := ∃ out enough, node.SettlesTo out enough

theorem Settles.all {nodes : List Node} (each : ∀ node ∈ nodes, node.Settles) :
    ∃ kids enough, List.Forall₂ (fun node kid => node.SettlesTo kid enough) nodes kids := by
  have kids : ∃ kids, List.Forall₂ (fun node kid => ∃ enough, node.SettlesTo kid enough)
      nodes kids := by
    induction nodes with
    | nil => exact ⟨[], .nil⟩
    | cons node nodes ih =>
      rw [List.forall_mem_cons] at each
      obtain ⟨kid, first⟩ := each.1
      obtain ⟨kids, others⟩ := ih each.2
      exact ⟨kid :: kids, .cons first others⟩
  obtain ⟨kids, each⟩ := kids
  refine ⟨kids, Expands.exists_enough ?_ each⟩
  intro node kid enough more le settles host registry session none
  exact (settles host registry session none).mono le

/-- A node that is no call to expand settles if its children do. -/
theorem Settles.inner {node : Node} (kept : node.expr.isExpandable (fun _ => false) = false)
    (each : ∀ child ∈ node.expr.children, child.Settles) : node.Settles := by
  obtain ⟨kids, enough, each⟩ := Settles.all each
  refine ⟨⟨0, node.expr.withChildren kids⟩, enough + 1, fun host registry session none => ?_⟩
  refine Expands.attained_descends ?_
    (each.imp fun _ _ settles => settles host registry session none)
  rwa [show (session.registry registry).contains = fun _ => false from funext none]

/-- A call on a literal holder settles if the body of its lambda does with the arguments put in. -/
theorem Settles.invoke {mark holder : Nat} {shape : InvokeShape} {l : Lambda} {args : List Node}
    {ty : Ty} (arity : l.arity = args.length)
    (body : (l.body.filled (Substitution.zip l.params args).at?).Settles) :
    Settles ⟨mark, .call none (.invoke shape) (⟨holder, Expr.treeOf l⟩ :: args) ty⟩ := by
  obtain ⟨out, enough, settles⟩ := body
  refine ⟨out, max enough l.body.height + 1, fun host registry session none => ?_⟩
  exact Expands.attained_inlines rfl rfl arity rfl (settles host registry session none)

/-- A well-built tree settles with trees put in for parameters that settle. The recursion goes below
a node, and from a call on a literal holder to the body of the lambda that is held there; that body
is settled with the arguments of the call put in, which lie below the call themselves. -/
theorem WellBuilt.settles {tree : Node} (wellBuilt : tree.WellBuilt) {put : Nat → Option Node}
    (puts : ∀ id found, put id = some found → found.Settles) : (tree.filled put).Settles := by
  rcases tree.parameter_or_inner with ⟨param, isParam⟩ | noParam
  · rw [filled_parameter isParam]
    cases found : put param.id with
    | some tree => exact puts _ _ found
    | none => exact .inner rfl (by simp [expr, Expr.children])
  have children : ∀ child ∈ tree.expr.children, (child.filled put).Settles := by
    intro child member
    have smaller := sizeOf_lt_of_child member
    exact WellBuilt.settles (wellBuilt.of_child member) puts
  rw [filled_inner noParam]
  rcases tree.expr.invoke_or_kept with ⟨receiver, shape, args, ty, isCall⟩ | kept
  · obtain ⟨mark, l, rest, isCall, arity, body, smaller⟩ := wellBuilt.invokes isCall
    have holder : (⟨mark, Expr.treeOf l⟩ : Node).filled put = ⟨0, Expr.treeOf l⟩ :=
      filled_inner (by simp [expr, Expr.treeOf, Expr.constantOf])
    rw [isCall, Expr.withChildren_map_call, List.map_cons, holder]
    refine Settles.invoke (arity.trans (List.length_map (filled put)).symm) ?_
    refine WellBuilt.settles body fun id found among => ?_
    obtain ⟨arg, inRest, rfl⟩ := List.mem_map.mp (Substitution.mem_of_zip among)
    refine children arg ?_
    rw [isCall]
    exact .tail _ inRest
  · refine .inner ((Expr.isExpandable_withChildren _ _ _).trans kept) fun kid member => ?_
    rw [expr_mk, Expr.children_withChildren (List.length_map _)] at member
    obtain ⟨child, inTree, rfl⟩ := List.mem_map.mp member
    exact children child inTree
termination_by sizeOf tree

end Node

namespace Expander

/-- Where no function is registered, the expansion of a tree whose reference calls are all built on
literal holders succeeds as soon as it has enough levels left, how many depending on the tree alone.
If it fails, then for want of levels. -/
theorem expand_wellBuilt {tree : Node} (wellBuilt : tree.WellBuilt) :
    ∃ enough, ∀ (expander : Expander) (host : Host) (session : Session),
      (∀ f, (session.registry expander.registry).contains f = false) →
        (expander.guard.current + enough ≤ expander.guard.bound session.limit →
          ∃ out, (expander.expand host tree session).1 = .ok out) ∧
        ∀ e, (expander.expand host tree session).1 = .error e →
          e = .recursionLimit (expander.guard.bound session.limit) := by
  obtain ⟨out, enough, settles⟩ := @Node.WellBuilt.settles tree wellBuilt (fun _ => none) (by simp)
  refine ⟨enough, fun expander host session unregistered => ?_⟩
  have same : tree.unmarked = (tree.filled fun _ => none).unmarked := (tree.unmarked_filled _).symm
  have ran := (settles host expander.registry session unregistered).run same
    (expander.guard.bound session.limit) expander.guard.current
  simp only [expand, Pass.run_eq_transform]
  rcases ran with ⟨made, run, -⟩ | ⟨short, fails⟩
  · exact ⟨fun _ => ⟨made, run⟩, fun e is => by cases run.symm.trans is⟩
  · refine ⟨fun room => absurd short (by omega), fun e is => ?_⟩
    cases fails.symm.trans is
    rfl

end Expander

namespace IdentityTwice

def x : Parameter := ⟨16, "x", .int⟩

/-- The lambda `x => x`. -/
def identity : Lambda := .of [x] ⟨0, .parameter x⟩

def seven : Node := ⟨2, .constantOf (.int 7)⟩

/-- The call `quote(identity).invoke(7)`. -/
def once : Node := ⟨3, .call none (.invoke .one) [⟨1, .treeOf identity⟩, seven] .int⟩

/-- The call `quote(identity).invoke(quote(identity).invoke(7))`. -/
def twice : Node := ⟨4, .call none (.invoke .one) [⟨1, .treeOf identity⟩, once] .int⟩

theorem ofTwice : twice.parts =
    [twice, ⟨1, .treeOf identity⟩, once, ⟨1, .treeOf identity⟩, seven] := by
  cbv

theorem ofIdentity : identity.body.parts = [⟨0, .parameter x⟩] := by cbv

theorem held {l : Lambda} (holds : twice.Holds l) : l = identity := by
  refine @Node.Holds.good (· = identity) twice l ?_ ?_ holds
  · rw [Node.all_iff_parts, ofTwice]
    simp [Expr.TreeIs, Node.expr, twice, once, seven, Expr.treeOf, Expr.constantOf]
  · rintro k rfl
    rw [Node.all_iff_parts, ofIdentity]
    simp [Expr.TreeIs, Node.expr]

theorem invoked {arg : Node} (isInt : arg.ty = .int) :
    Expr.invokeOf ⟨1, .treeOf identity⟩ [arg] =
      .ok (.call none (.invoke .one) [⟨1, .treeOf identity⟩, arg] .int) := by
  refine Expr.invokeOf_eq_ok_iff.mpr ⟨.one, .int, rfl, .known rfl (.cons ?_ .nil), rfl⟩
  rw [isInt]
  rfl

theorem invokesIdentity {arg : Node} (isInt : arg.ty = .int) :
    Expr.InvokesLiteral (.call none (.invoke .one) [⟨1, .treeOf identity⟩, arg] .int) := by
  intro receiver shape args ty is
  cases is
  exact ⟨1, identity, [arg], rfl, invoked isInt⟩

theorem wellBuilt : twice.WellBuilt := by
  refine ⟨?_, fun l holds => ?_⟩
  · rw [Node.all_iff_parts, ofTwice]
    simp only [List.forall_mem_cons]
    refine ⟨invokesIdentity rfl, ?_, invokesIdentity rfl, ?_, ?_, List.forall_mem_nil _⟩
    all_goals exact fun _ _ _ _ is => by cases is
  · rw [held holds, Node.all_iff_parts, ofIdentity, List.forall_mem_singleton]
    exact fun _ _ _ _ is => by cases is

end IdentityTwice

open IdentityTwice in
/-- A call on a call of `x => x` expands to something under every limit that is large enough. -/
theorem Expander.expand_wellBuilt_identityTwice :
    ∃ enough, ∀ limit, enough ≤ limit →
      ∃ out, ((({} : Expander).withMaxDepth limit).expand .basic twice {}).1 = .ok out := by
  obtain ⟨enough, expands⟩ := expand_wellBuilt wellBuilt
  refine ⟨enough, fun limit large => (expands _ .basic {} fun _ => rfl).1 ?_⟩
  change 0 + enough ≤ limit
  omega

end TypedTrees
