import TypedTrees.Proofs.Eval.Meaning
import TypedTrees.Proofs.Substitution.Substituted
/-!
What a tree means when its children are exchanged. A tree whose children stand for the same under
other bindings has the same value there (`Evaluates.congr`), lambdas being taken only where the
builtin `any` calls them. From this it follows that the body of a lambda without further lambdas has
the value with the arguments put in that it has with the parameters bound to their values
(`Evaluates.inlined`).
-/
namespace TypedTrees

namespace Expr

variable (expr : Expr) (trees : List Node)

theorem isStrict_withChildren : (expr.withChildren trees).isStrict = expr.isStrict := by
  cases expr with
  | member target _ => cases target <;> rfl
  | call receiver _ _ _ => cases receiver <;> rfl
  | _ => rfl

theorem isAny_withChildren : (expr.withChildren trees).isAny = expr.isAny := by
  cases expr with
  | member target _ => cases target <;> rfl
  | call receiver _ _ _ => cases receiver <;> rfl
  | _ => rfl

theorem isAny_of_isStrict {expr : Expr} (strict : expr.isStrict = true) : expr.isAny = false := by
  cases expr with
  | call receiver callee args ty =>
    obtain ⟨which, native, answers⟩ := native_of_isStrict strict
    rw [isAny, native]
    cases which <;> first | rfl | cases answers
  | _ => rfl

theorem applies_withChildren (subs : Substitutes) (vs : List Value) :
    (expr.withChildren trees).applies subs vs = expr.applies subs vs := by
  cases expr with
  | member target _ => cases target <;> rfl
  | call receiver callee _ _ =>
    cases receiver <;> cases callee <;> rcases vs with _ | ⟨v, _⟩ <;> first | rfl | cases v <;> rfl
  | _ => rfl

theorem namedBy_withChildren {naming : Nat → Reader} {expr : Expr} (named : expr.NamedBy naming)
    (trees : List Node) : (expr.withChildren trees).NamedBy naming := by
  intro target m isMember
  cases expr with
  | member old _ =>
    cases old with
    | none =>
      cases isMember
      exact named _ m rfl
    | some _ =>
      cases isMember
      exact named _ m rfl
  | call receiver _ _ _ => cases receiver <;> cases isMember
  | _ => cases isMember

theorem finish_withChildren (host : Host) (vs : List Value) (store : Store) :
    (expr.withChildren trees).finish host vs store = expr.finish host vs store := by
  have names : ∀ (fields : List (String × Node)) (trees : List Node),
      (withChildren.overlayFields fields trees).map Prod.fst = fields.map Prod.fst := by
    intro fields
    induction fields with
    | nil => exact fun trees => by cases trees <;> rfl
    | cons field fields ih =>
      intro trees
      cases trees with
      | nil => rfl
      | cons tree trees => simp only [withChildren.overlayFields, List.map_cons, ih]
  cases expr with
  | member target _ => cases target <;> rcases vs with _ | ⟨v, _ | ⟨w, _⟩⟩ <;> rfl
  | call receiver callee _ _ => cases receiver <;> cases callee <;> rfl
  | record typeName fields => simp only [withChildren, finish, names]
  | _ => rcases vs with _ | ⟨v, _ | ⟨w, _ | ⟨u, _⟩⟩⟩ <;> rfl

theorem settled_withChildren {expr : Expr} {vs : List Value} (settled : expr.Settled vs)
    (trees : List Node) : (expr.withChildren trees).Settled vs where
  equality := by
    intro op left right ty l r isExpr operands equality
    cases expr with
    | binary op' left' right' ty' =>
      cases isExpr
      exact settled.equality op left' right' ty l r rfl operands equality
    | member target _ => cases target <;> cases isExpr
    | call receiver _ _ _ => cases receiver <;> cases isExpr
    | _ => cases isExpr
  search := by
    intro receiver callee args ty items item isExpr operands native
    cases expr with
    | call receiver' callee' args' ty' =>
      cases receiver' <;> cases isExpr <;>
        exact settled.search _ callee args' ty items item rfl operands native
    | member target _ => cases target <;> cases isExpr
    | _ => cases isExpr

/-- The arguments of a call are all its children, or all but the first. -/
theorem exists_args_eq_drop : ∃ skip, expr.args = expr.children.drop skip ∧
    ∀ trees, trees.length = expr.children.length →
      (expr.withChildren trees).args = trees.drop skip := by
  cases expr with
  | call receiver callee args ty =>
    refine ⟨receiver.toList.length, by simp [Expr.args, children], fun trees lengths => ?_⟩
    have puts := children_withChildren lengths
    cases receiver with
    | none => simpa [withChildren, children, Expr.args] using puts
    | some r =>
      cases trees with
      | nil => simp [children] at lengths
      | cons first rest => simpa [withChildren, children, Expr.args] using puts
  | member target _ =>
    refine ⟨target.toList.length, by simp [Expr.args, children], fun trees lengths => ?_⟩
    have length : trees.length = target.toList.length := lengths
    cases target <;> exact (List.drop_eq_nil_of_le (Nat.le_of_eq length)).symm
  | _ =>
    refine ⟨_, List.drop_length.symm, fun trees lengths => ?_⟩
    simp [withChildren, Expr.args, ← lengths]

end Expr

/-- The node is a lambda. -/
def Node.IsLambda (node : Node) : Prop := ∃ l, node.expr = .lambda l

instance (node : Node) : Decidable node.IsLambda :=
  match node with
  | .mk _ (.lambda l) => isTrue ⟨l, rfl⟩
  | .mk _ (.parameter _) | .mk _ (.constant ..) | .mk _ (.member ..) | .mk _ (.call ..)
  | .mk _ (.unary ..) | .mk _ (.binary ..) | .mk _ (.condition ..) | .mk _ (.record ..)
  | .mk _ (.setMember ..) => isFalse nofun

/-- Lambda nodes stand below the node only where the builtin `any` calls them: as its predicate,
which is always one. -/
def Expr.LambdasInPlace (registered : Function → Bool) (expr : Expr) : Prop :=
  ∀ (place : Nat) (child : Node), expr.children[place]? = some child →
    (child.IsLambda ↔ expr.isAny = true ∧ expr.isExpandable registered = false ∧ place = 1)

instance (registered : Function → Bool) (expr : Expr) :
    Decidable (expr.LambdasInPlace registered) :=
  decidable_of_iff (∀ place : Fin expr.children.length, (expr.children[place].IsLambda ↔
    expr.isAny = true ∧ expr.isExpandable registered = false ∧ place.val = 1)) <| by
    constructor
    · intro each place child atPlace
      obtain ⟨bound, rfl⟩ := List.getElem?_eq_some_iff.mp atPlace
      exact each ⟨place, bound⟩
    · exact fun inPlace place => inPlace place _ (List.getElem?_eq_getElem place.isLt)

/-- Lambdas stay in place where every child gives way to a lambda exactly if it is one. -/
theorem Expr.LambdasInPlace.withChildren {registered : Function → Bool} {expr : Expr}
    (inPlace : expr.LambdasInPlace registered) {kids : List Node}
    (lengths : kids.length = expr.children.length)
    (each : ∀ (place : Nat) (child kid : Node), expr.children[place]? = some child →
      kids[place]? = some kid → (kid.IsLambda ↔ child.IsLambda)) :
    (expr.withChildren kids).LambdasInPlace registered := by
  intro place kid atKid
  rw [Expr.children_withChildren lengths] at atKid
  obtain ⟨bound, -⟩ := List.getElem?_eq_some_iff.mp atKid
  have atChild := List.getElem?_eq_getElem (lengths ▸ bound : place < expr.children.length)
  rw [each place _ kid atChild atKid, inPlace place _ atChild, Expr.isAny_withChildren,
    Expr.isExpandable_withChildren]

namespace Node

section

variable {put : Nat → Option Node} {node out : Node}

theorem isLambda_of_withChildren {kids : List Node}
    (made : out.expr = node.expr.withChildren kids) :
    out.IsLambda ↔ node.IsLambda := by
  constructor
  · rintro ⟨l, is⟩
    obtain ⟨k, isLambda, -⟩ := Expr.withChildren_eq_lambda (made.symm.trans is)
    exact ⟨k, isLambda⟩
  · rintro ⟨l, is⟩
    rw [is] at made
    exact ⟨_, made⟩

/-- With trees put in that are no lambdas, a tree remains what it is, a lambda or none. -/
theorem Substituted.isLambda_iff (related : Substituted put node out)
    (puts : ∀ id tree, put id = some tree → ¬tree.IsLambda) : out.IsLambda ↔ node.IsLambda := by
  cases related with
  | @mapped _ _ param isParam found =>
    refine ⟨fun is => absurd is (puts _ _ found), fun ⟨l, is⟩ => ?_⟩
    cases isParam.symm.trans is
  | unmapped _ _ => exact .rfl
  | inner _ _ _ made => exact isLambda_of_withChildren made

/-- What holds of every part of the tree and of the trees put in holds of every part of the outcome,
if an exchange of children keeps it where every child gives way to a lambda exactly if it is one. -/
theorem Substituted.all_of_lambdas {holds : Expr → Prop} (related : Substituted put node out)
    (carries : ∀ (expr : Expr) (kids : List Node), kids.length = expr.children.length →
      (∀ (place : Nat) (child kid : Node), expr.children[place]? = some child →
        kids[place]? = some kid → (kid.IsLambda ↔ child.IsLambda)) →
      holds expr → holds (expr.withChildren kids))
    (here : node.All holds) (puts : ∀ id tree, put id = some tree → tree.All holds)
    (noLambda : ∀ id tree, put id = some tree → ¬tree.IsLambda) : out.All holds := by
  induction related with
  | mapped _ found => exact puts _ _ found
  | unmapped _ _ => exact here
  | @inner node out kids _ lengths each made ih =>
    refine all_iff.mpr ⟨?_, fun kid member => ?_⟩
    · rw [made]
      refine carries _ kids lengths (fun place child kid atChild atKid => ?_) here.here
      exact (each place child kid atChild atKid).isLambda_iff noLambda
    · rw [made, Expr.children_withChildren lengths] at member
      obtain ⟨place, atKid⟩ := List.mem_iff_getElem?.mp member
      obtain ⟨bound, -⟩ := List.getElem?_eq_some_iff.mp atKid
      have atChild := List.getElem?_eq_getElem (lengths ▸ bound : place < node.expr.children.length)
      exact ih place _ kid atChild atKid (here.child (List.mem_of_getElem? atChild))

end

end Node

theorem Lambda.scope_congr {l k : Lambda} (params : k.params = l.params) (env : Env)
    (args : List Value) : k.scope env args = l.scope env args := by
  rw [scope, scope, params]

section

variable {host : Host} {slots : List (Nat × Value)} {subs : Substitutes} {env env' : Env}
  {node out : Node}

/-- Whatever the tree stands for under the first bindings, `out` stands for under the others: the
same value, or, for a lambda, a body that has the same value for the same arguments. -/
inductive Stands (host : Host) (slots : List (Nat × Value)) (subs : Substitutes) (env env' : Env)
    (node out : Node) : Prop
  | value (noLambda : ¬node.IsLambda)
      (each : ∀ v, Evaluates host slots subs node env v → Evaluates host slots subs out env' v)
  | lambda {l k : Lambda} (isLambda : node.expr = .lambda l) (becomes : out.expr = .lambda k)
      (params : k.params = l.params)
      (bodies : ∀ args v, Evaluates host slots subs l.body (l.scope env args) v →
        Evaluates host slots subs k.body (l.scope env' args) v)

theorem Stands.evaluates (stands : Stands host slots subs env env' node out)
    (noLambda : ¬node.IsLambda) {v : Value}
    (evaluates : Evaluates host slots subs node env v) : Evaluates host slots subs out env' v := by
  cases stands with
  | value _ each => exact each v evaluates
  | lambda isLambda _ _ _ => exact absurd ⟨_, isLambda⟩ noLambda

/-- A lambda node has a closure as its value, and no other. -/
theorem Evaluates.eq_closure {l : Lambda} {v : Value} (isLambda : node.expr = .lambda l)
    (evaluates : Evaluates host slots subs node env v) : v = .closure l env := by
  cases evaluates with
  | lambda is =>
    cases isLambda.symm.trans is
    rfl
  | parameter is _ => cases isLambda.symm.trans is
  | strict _ strict _ _ _ _ =>
    rw [isLambda] at strict
    cases strict
  | applied expandable _ _ _ _ _ =>
    rw [isLambda] at expandable
    cases expandable
  | anyFails _ isAny _ _ _ _ _ =>
    rw [isLambda] at isAny
    cases isAny
  | anyPasses _ isAny _ _ _ _ _ _ _ =>
    rw [isLambda] at isAny
    cases isAny
  | left is _ _ => cases isLambda.symm.trans is
  | right is _ _ _ => cases isLambda.symm.trans is
  | condition is _ _ => cases isLambda.symm.trans is

theorem Value.callTarget_closure {l : Lambda} {env scope : Env} {args : List Value} {body : Node} :
    (closure l env).callTarget args = .ok (body, scope) ↔
      l.arity = args.length ∧ body = l.body ∧ scope = l.scope env args := by
  rw [callTarget, Lambda.bindArgs]
  by_cases arity : l.arity = args.length
  · rw [if_pos arity]
    constructor
    · intro is
      cases is
      exact ⟨arity, rfl, rfl⟩
    · rintro ⟨-, rfl, rfl⟩
      rfl
  · rw [if_neg arity]
    constructor
    · intro is
      cases is
    · exact fun is => absurd is.1 arity

/-- Whatever the first value can be applied to, the other can be with the same outcome. -/
def Value.Follows (host : Host) (slots : List (Nat × Value)) (subs : Substitutes) (p p' : Value) :
    Prop :=
  ∀ v body scope, p.callTarget [v] = .ok (body, scope) →
    ∃ body' scope', p'.callTarget [v] = .ok (body', scope') ∧
      ∀ w, Evaluates host slots subs body scope w → Evaluates host slots subs body' scope' w

section

variable {p p' w : Value} {vs : List Value} (follows : p.Follows host slots subs p')
  (targets : ∀ v ∈ vs, ∃ target, p.callTarget [v] = .ok target)

include follows targets

theorem Value.Follows.callable : ∀ v ∈ vs, ∃ target, p'.callTarget [v] = .ok target := by
  intro v member
  obtain ⟨⟨body, scope⟩, calls⟩ := targets v member
  obtain ⟨body', scope', calls', -⟩ := follows v body scope calls
  exact ⟨(body', scope'), calls'⟩

theorem Value.Follows.verdicts
    (each : ∀ v ∈ vs, ∀ body scope, p.callTarget [v] = .ok (body, scope) →
      Evaluates host slots subs body scope w) :
    ∀ v ∈ vs, ∀ body scope, p'.callTarget [v] = .ok (body, scope) →
      Evaluates host slots subs body scope w := by
  intro v member body' scope' calls'
  obtain ⟨⟨body, scope⟩, calls⟩ := targets v member
  obtain ⟨_, _, again, passes⟩ := follows v body scope calls
  cases calls'.symm.trans again
  exact passes w (each v member body scope calls)

end

/-- A predicate that stands for another one has a value that follows the value of that. -/
theorem Stands.predicate {predicate predicate' : Node} {l : Lambda} {p : Value}
    (isLambda : predicate.expr = .lambda l)
    (stands : Stands host slots subs env env' predicate predicate')
    (callable : Evaluates host slots subs predicate env p) :
    ∃ p', Evaluates host slots subs predicate' env' p' ∧ p.Follows host slots subs p' := by
  cases callable.eq_closure isLambda
  cases stands with
  | value noLambda _ => exact absurd ⟨l, isLambda⟩ noLambda
  | @lambda l' k is becomes params bodies =>
    cases isLambda.symm.trans is
    refine ⟨.closure k env', .lambda becomes, fun v body scope calls => ?_⟩
    obtain ⟨arity, rfl, rfl⟩ := Value.callTarget_closure.mp calls
    have arity' : k.arity = [v].length := by rw [Lambda.arity, params, ← arity, Lambda.arity]
    refine ⟨k.body, k.scope env' [v], Value.callTarget_closure.mpr ⟨arity', rfl, rfl⟩, ?_⟩
    rw [Lambda.scope_congr params]
    exact bodies [v]

section

variable {kids : List Node} (made : out.expr = node.expr.withChildren kids)
  (lengths : kids.length = node.expr.children.length)
  (inPlace : node.expr.LambdasInPlace subs.registered)
  (each : ∀ (place : Nat) (child kid : Node), node.expr.children[place]? = some child →
    kids[place]? = some kid → Stands host slots subs env env' child kid)

include made lengths inPlace each

theorem Stands.anyOperands {items predicate : Node} {sequence p : Value}
    (kept : node.expr.isExpandable subs.registered = false) (isAny : node.expr.isAny = true)
    (operands : node.expr.children = [items, predicate])
    (listed : Evaluates host slots subs items env sequence)
    (callable : Evaluates host slots subs predicate env p) :
    ∃ items' predicate' p', out.expr.children = [items', predicate'] ∧
      Evaluates host slots subs items' env' sequence ∧
      Evaluates host slots subs predicate' env' p' ∧ p.Follows host slots subs p' := by
  have children : out.expr.children = kids := by rw [made, Expr.children_withChildren lengths]
  rw [operands] at lengths
  obtain ⟨items', predicate', rfl⟩ := List.length_eq_two.mp lengths
  have place := fun place child => inPlace place child
  rw [operands] at place each
  have noLambda : ¬items.IsLambda := fun is => nomatch ((place 0 items rfl).mp is).2.2
  obtain ⟨l, isLambda⟩ := (place 1 predicate rfl).mpr ⟨isAny, kept, rfl⟩
  obtain ⟨p', callable', follows⟩ :=
    (each 1 predicate predicate' rfl rfl).predicate isLambda callable
  exact ⟨items', predicate', p', children, (each 0 items items' rfl rfl).evaluates noLambda listed,
    callable', follows⟩

/-- A tree has the value that another has under other bindings if it is the other one with children
that stand for the same, and neither is a parameter or a lambda. -/
theorem Evaluates.congr (noParam : ∀ param, node.expr ≠ .parameter param)
    (noLambda : ¬node.IsLambda) {v : Value} (evaluates : Evaluates host slots subs node env v) :
    Evaluates host slots subs out env' v := by
  have expandable : out.expr.isExpandable subs.registered =
      node.expr.isExpandable subs.registered := by
    rw [made, Expr.isExpandable_withChildren]
  have isAny' : out.expr.isAny = node.expr.isAny := by rw [made, Expr.isAny_withChildren]
  have children : out.expr.children = kids := by rw [made, Expr.children_withChildren lengths]
  -- away from the predicate of an unreplaced `any` a child has a value that is passed on
  have passes : ∀ (place : Nat) (child kid : Node) (v : Value),
      ¬(node.expr.isAny = true ∧ node.expr.isExpandable subs.registered = false ∧ place = 1) →
      node.expr.children[place]? = some child → kids[place]? = some kid →
      Evaluates host slots subs child env v → Evaluates host slots subs kid env' v := by
    intro place child kid v elsewhere atChild atKid
    exact (each place child kid atChild atKid).evaluates
      (fun isLambda => elsewhere ((inPlace place child atChild).mp isLambda))
  have childAt : ∀ (place : Nat) (kid : Node), kids[place]? = some kid →
      ∃ child, node.expr.children[place]? = some child := by
    intro place kid atKid
    obtain ⟨bound, -⟩ := List.getElem?_eq_some_iff.mp atKid
    exact ⟨_, List.getElem?_eq_getElem (lengths ▸ bound)⟩
  cases evaluates with
  | parameter isParam _ => exact absurd isParam (noParam _)
  | lambda isLambda => exact absurd ⟨_, isLambda⟩ noLambda
  | @strict _ _ vs w kept strict values meaning settled finished =>
    have noAny := Expr.isAny_of_isStrict strict
    have each' : ∀ (place : Nat) (kid : Node) (v : Value), out.expr.children[place]? = some kid →
        vs[place]? = some v → Evaluates host slots subs kid env' v := by
      intro place kid v atKid atValue
      rw [children] at atKid
      obtain ⟨child, atChild⟩ := childAt place kid atKid
      exact passes place child kid v (by simp [noAny]) atChild atKid
        (meaning place child v atChild atValue)
    refine .strict (expandable.trans kept) ?_ ?_ each' ?_ ?_
    · rw [made, Expr.isStrict_withChildren, strict]
    · rw [children, lengths, values]
    · exact made ▸ Expr.settled_withChildren settled kids
    · rw [made, Expr.finish_withChildren, finished]
  | @applied _ _ l vs passed _ expands values meaning applies arity body =>
    obtain ⟨skip, args, drops⟩ := node.expr.exists_args_eq_drop
    have args' : out.expr.args = kids.drop skip := by rw [made, drops kids lengths]
    have each' : ∀ (place : Nat) (kid : Node) (v : Value), out.expr.args[place]? = some kid →
        vs[place]? = some v → Evaluates host slots subs kid env' v := by
      intro place kid v atKid atValue
      rw [args', List.getElem?_drop] at atKid
      obtain ⟨child, atChild⟩ := childAt _ kid atKid
      refine passes _ child kid v (by simp [expands]) atChild atKid
        (meaning place child v ?_ atValue)
      rw [args, List.getElem?_drop, atChild]
    refine .applied (expandable.trans expands) ?_ each' ?_ arity body
    · rw [args', values, args, List.length_drop, List.length_drop, lengths]
    · rw [made, Expr.applies_withChildren, applies]
  | anyFails kept isAny operands sequence callable targets fails =>
    obtain ⟨items', predicate', p', operands', sequence', callable', follows⟩ :=
      Stands.anyOperands made lengths inPlace each kept isAny operands sequence callable
    exact .anyFails (expandable.trans kept) (isAny'.trans isAny) operands' sequence' callable'
      (follows.callable targets) (follows.verdicts targets fails)
  | anyPasses kept isAny operands sequence callable targets fails target passes =>
    obtain ⟨items', predicate', p', operands', sequence', callable', follows⟩ :=
      Stands.anyOperands made lengths inPlace each kept isAny operands sequence callable
    obtain ⟨body', scope', target', onward⟩ := follows _ _ _ target
    exact .anyPasses (expandable.trans kept) (isAny'.trans isAny) operands' sequence' callable'
      (follows.callable targets) (follows.verdicts targets fails) target' (onward _ passes)
  | @left _ left right _ op ty isExpr short first =>
    rw [isExpr] at lengths made passes
    obtain ⟨left', right', rfl⟩ := List.length_eq_two.mp lengths
    exact .left made short (passes 0 left left' _ (by simp) rfl rfl first)
  | @right _ left right _ op ty b isExpr short first second =>
    rw [isExpr] at lengths made passes
    obtain ⟨left', right', rfl⟩ := List.length_eq_two.mp lengths
    exact .right made short (passes 0 left left' _ (by simp) rfl rfl first)
      (passes 1 right right' _ nofun rfl rfl second)
  | @condition _ test ifTrue ifFalse _ ty b _ isExpr tested chosen =>
    rw [isExpr] at lengths made passes
    obtain ⟨test', ifTrue', ifFalse', rfl⟩ := List.length_eq_three.mp lengths
    refine .condition made (passes 0 test test' _ nofun rfl rfl tested) ?_
    cases b with
    | true => exact passes 1 ifTrue ifTrue' _ nofun rfl rfl chosen
    | false => exact passes 2 ifFalse ifFalse' _ nofun rfl rfl chosen

end

theorem Evaluates.lookup {param : Parameter} {v : Value} (isParam : node.expr = .parameter param)
    (evaluates : Evaluates host slots subs node env v) : env.lookup param.id = some v := by
  cases evaluates with
  | parameter is found =>
    cases isParam.symm.trans is
    exact found
  | lambda is => cases isParam.symm.trans is
  | strict _ strict _ _ _ _ =>
    rw [isParam] at strict
    cases strict
  | applied expandable _ _ _ _ _ =>
    rw [isParam] at expandable
    cases expandable
  | anyFails _ isAny _ _ _ _ _ =>
    rw [isParam] at isAny
    cases isAny
  | anyPasses _ isAny _ _ _ _ _ _ _ =>
    rw [isParam] at isAny
    cases isAny
  | left is _ _ => cases isParam.symm.trans is
  | right is _ _ _ => cases isParam.symm.trans is
  | condition is _ _ => cases isParam.symm.trans is

/-- No lambda node stands in the tree, and so there is no call of the builtin `any` in it either. -/
def Node.LambdaFree (registered : Function → Bool) (tree : Node) : Prop :=
  tree.All fun expr => (∀ l, expr ≠ .lambda l) ∧ expr.LambdasInPlace registered

theorem Node.LambdaFree.here {registered : Function → Bool} (free : node.LambdaFree registered) :
    ¬node.IsLambda := fun ⟨l, isLambda⟩ => (All.here free).1 l isLambda

theorem Node.lambdaFree_iff_parts {registered : Function → Bool} :
    node.LambdaFree registered ↔
      ∀ part ∈ node.parts, ¬part.IsLambda ∧ part.expr.LambdasInPlace registered := by
  simp only [LambdaFree, all_iff_parts, IsLambda, not_exists, ne_eq]

/-- Putting trees in for parameters comes to the same as binding the parameters to the values of
these trees, in a tree without lambdas. -/
theorem Evaluates.substituted {put : Nat → Option Node}
    (puts : ∀ id, Option.Rel (fun tree v => Evaluates host slots subs tree env' v) (put id)
      (env.lookup id))
    (free : node.LambdaFree subs.registered) (related : node.Substituted put out) {v : Value}
    (evaluates : Evaluates host slots subs node env v) : Evaluates host slots subs out env' v := by
  -- along the tree: the body of a call that is applied is none of its parts and stays what it is
  induction related generalizing v with
  | @mapped node out param isParam found =>
    have bound := puts param.id
    rw [found, evaluates.lookup isParam] at bound
    cases bound with
    | some meaning => exact meaning
  | @unmapped node param isParam absent =>
    have unbound := puts param.id
    rw [absent, evaluates.lookup isParam] at unbound
    cases unbound
  | @inner node out kids noParam lengths _ made ih =>
    refine .congr made lengths (Node.All.here free).2 ?_ noParam free.here evaluates
    intro place child kid atChild atKid
    have below : child.LambdaFree subs.registered :=
      Node.All.child free (List.mem_of_getElem? atChild)
    exact .value below.here fun v => ih place child kid atChild atKid below

/-- The body of a lambda with the arguments put in has the value that the body has with the
parameters bound to the values of the arguments, if no lambda node stands in the body. -/
theorem Evaluates.inlined {l : Lambda} {args : List Node} {vs : List Value} {v : Value}
    (free : l.body.LambdaFree subs.registered) (lengths : vs.length = args.length)
    (each : ∀ (place : Nat) (arg : Node) (v : Value), args[place]? = some arg →
      vs[place]? = some v → Evaluates host slots subs arg env v)
    (related : l.body.Substituted (Substitution.zip l.params args).at? out)
    (body : Evaluates host slots subs l.body (l.scope [] vs) v) :
    Evaluates host slots subs out env v := by
  refine body.substituted (fun id => ?_) free related
  have values : List.Forall₂ (fun arg v => Evaluates host slots subs arg env v) args vs := by
    refine List.forall₂_iff_get.mpr ⟨lengths.symm, fun place atArg atValue => ?_⟩
    exact each place _ _ (List.getElem?_eq_getElem atArg) (List.getElem?_eq_getElem atValue)
  rw [Substitution.zip_at?, Lambda.scope, Keyed.lookup_insertAll, List.lookup_nil, Option.or_none]
  exact Keyed.rel_zip values (l.params.map Parameter.id) id

end

end TypedTrees
