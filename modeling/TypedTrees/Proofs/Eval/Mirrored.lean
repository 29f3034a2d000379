import TypedTrees.Proofs.Eval.Likeness
/-!
A tree with trees put in, beside the tree itself with the parameters bound to the values of these
trees. Where the tree is evaluated by a look-up, the other one evaluates what has been put in: once,
many times, inside the predicates of `any`, or not at all. The two evaluations come to alike results
all the same (`Likeness.Mirrored.likewise`), if no lambda in the tree captures anything and lambdas
stand only where `any` applies them.
-/
namespace TypedTrees

namespace Lambda

variable {l : Lambda} {env env' : Env} {args args' : List Value} {id : Nat}

theorem lookup_scope_of_unbound (unbound : id ∉ l.params.map Parameter.id) :
    (l.scope env args).lookup id = env.lookup id := by
  rw [scope, Keyed.lookup_insertAll]
  cases found : ((l.params.map Parameter.id).zip args).reverse.lookup id with
  | none => rfl
  | some v =>
    obtain ⟨place, atId, -⟩ := Keyed.exists_place found
    exact absurd (List.mem_of_getElem? atId) unbound

/-- What a parameter is bound to in a call depends on the arguments alone. -/
theorem rel_lookup_scope {related : Value → Value → Prop} (arity : l.arity = args.length)
    (each : List.Forall₂ related args args') (bound : id ∈ l.params.map Parameter.id) :
    Option.Rel related ((l.scope env args).lookup id) ((l.scope env' args').lookup id) := by
  have lengths : (l.params.map Parameter.id).length = args.length := by
    rw [List.length_map]
    exact arity
  have found := Keyed.isSome_of_mem lengths bound
  have rel := Keyed.rel_zip each (l.params.map Parameter.id) id
  rw [scope, scope, Keyed.lookup_insertAll, Keyed.lookup_insertAll]
  generalize ((l.params.map Parameter.id).zip args).reverse.lookup id = here at found rel ⊢
  generalize ((l.params.map Parameter.id).zip args').reverse.lookup id = there at rel ⊢
  cases rel with
  | some same => exact .some same
  | none => cases found

end Lambda

namespace Expr

/-- Lambda nodes stand below the node only if it is a call of the builtin `any`. -/
def LambdasInAny (expr : Expr) : Prop := ∀ child ∈ expr.children, child.IsLambda → expr.isAny = true

instance (expr : Expr) : Decidable expr.LambdasInAny :=
  inferInstanceAs (Decidable (∀ child ∈ expr.children, child.IsLambda → expr.isAny = true))

theorem LambdasInAny.withChildren {expr : Expr} (inAny : expr.LambdasInAny) {kids : List Node}
    (lengths : kids.length = expr.children.length)
    (each : ∀ (place : Nat) (child kid : Node), expr.children[place]? = some child →
      kids[place]? = some kid → (kid.IsLambda ↔ child.IsLambda)) :
    (expr.withChildren kids).LambdasInAny := by
  intro kid member isLambda
  rw [children_withChildren lengths] at member
  obtain ⟨place, atKid⟩ := List.mem_iff_getElem?.mp member
  obtain ⟨bound, -⟩ := List.getElem?_eq_some_iff.mp atKid
  have atChild := List.getElem?_eq_getElem (lengths ▸ bound : place < expr.children.length)
  rw [isAny_withChildren]
  exact inAny _ (List.mem_of_getElem? atChild) ((each place _ kid atChild atKid).mp isLambda)

/-- The node binds no parameter that is mapped, and none that is free in a tree that is put in. -/
def Spares (put : Nat → Option Node) (expr : Expr) : Prop :=
  ∀ id ∈ expr.binders, put id = none ∧ ∀ other image, put other = some image → ¬image.Free id

theorem spares_of_nothing (expr : Expr) : expr.Spares fun _ => none :=
  fun _ _ => ⟨rfl, by simp⟩

end Expr

/-- Lambda nodes stand in the tree only where the builtin `any` applies them. -/
def Node.LambdasInAny (tree : Node) : Prop := ¬tree.IsLambda ∧ tree.All (·.LambdasInAny)

theorem Node.Substituted.lambdasInAny {put : Nat → Option Node} {node out : Node}
    (related : node.Substituted put out) (here : node.LambdasInAny)
    (puts : ∀ id tree, put id = some tree → tree.LambdasInAny) : out.LambdasInAny := by
  have noLambda := fun id tree found => (puts id tree found).1
  refine ⟨fun is => here.1 ((related.isLambda_iff noLambda).mp is), ?_⟩
  exact related.all_of_lambdas (fun _ _ lengths each inAny => inAny.withChildren lengths each)
    here.2 (fun id tree found => (puts id tree found).2) noLambda

theorem Node.binders_of_noLambda {node : Node} (noLambda : ¬node.IsLambda) :
    node.expr.binders = [] := by
  cases isExpr : node.expr with
  | lambda l => exact absurd ⟨l, isExpr⟩ noLambda
  | _ => rfl

/-- Only the lambdas in a tree bind. -/
theorem Node.all_spares {put : Nat → Option Node} {tree : Node}
    (each : ∀ l ∈ tree.lambdas, ∀ param ∈ l.params,
      put param.id = none ∧ ∀ other image, put other = some image → ¬image.Free param.id) :
    tree.All (·.Spares put) := by
  intro part inTree id bound
  cases isExpr : part.expr with
  | lambda l =>
    rw [isExpr] at bound
    obtain ⟨param, member, rfl⟩ := List.mem_map.mp bound
    exact each l (mem_lambdas inTree isExpr) param member
  | _ =>
    rw [isExpr] at bound
    cases bound

/-- What is free in the tree is free in what becomes of it, or else what is free in the tree put in
for it, since nothing that is put in is captured. -/
theorem Node.Substituted.free_of_free {put : Nat → Option Node} {node out : Node} {id other : Nat}
    (related : node.Substituted put out) (spares : node.All (·.Spares put)) (free : node.Free id)
    (gives : (put id = none ∧ other = id) ∨ ∃ image, put id = some image ∧ image.Free other) :
    out.Free other := by
  induction free generalizing out with
  | @here node param isParam same =>
    subst same
    cases related with
    | mapped is found =>
      cases isParam.symm.trans is
      rcases gives with ⟨absent, -⟩ | ⟨image, put, free⟩
      · cases absent.symm.trans found
      · cases found.symm.trans put
        exact free
    | unmapped is absent =>
      cases isParam.symm.trans is
      rcases gives with ⟨-, rfl⟩ | ⟨image, put, -⟩
      · exact .here isParam rfl
      · cases absent.symm.trans put
    | inner noParam _ _ _ => exact absurd isParam (noParam param)
  | @child node child member unbound _ ih =>
    cases related with
    | mapped is _ | unmapped is _ =>
      rw [is] at member
      cases member
    | @inner _ _ kids noParam lengths each made =>
      obtain ⟨place, atChild⟩ := List.mem_iff_getElem?.mp member
      obtain ⟨bound, -⟩ := List.getElem?_eq_some_iff.mp atChild
      have atKid := List.getElem?_eq_getElem (lengths ▸ bound : place < kids.length)
      refine .child ?_ ?_ (ih (each place child _ atChild atKid) (spares.child member))
      · rw [made, Expr.children_withChildren lengths]
        exact List.mem_of_getElem? atKid
      · rw [made, Expr.binders_withChildren]
        rcases gives with ⟨-, rfl⟩ | ⟨image, put, free⟩
        · exact unbound
        · exact fun captured => (spares.here other captured).2 id image put free

namespace Likeness

variable {host : Host} {declines : Expr → List Value → Bool} (like : Likeness host declines)

/-- Wherever what is free in the tree is bound as it is here, the tree comes to this value and
leaves the store as it was, if there are more levels than that. -/
def Comes (more : Nat) (tree : Node) (env : Env) (v : Value) : Prop :=
  ∀ env' : Env, (∀ id, tree.Free id → env'.lookup id = env.lookup id) →
    ∀ (limit room : Nat) (store store' : Store), like.stores store store' →
      Likewise (fun _ => False) limit (room ≤ more) like.stores like.values (.ok v, store)
        (Evaluation.within host limit room tree env' store')

/-- What a parameter is bound to in the one evaluation the tree put in for it comes to in the other,
or if there is none, what it is bound to there is alike. -/
inductive Provides (more : Nat) (put : Nat → Option Node) (env env' : Env) (id : Nat) : Prop
  | image {tree : Node} {v : Value} (found : put id = some tree) (bound : env.lookup id = some v)
      (comes : like.Comes more tree env' v)
  | own (absent : put id = none) (same : Option.Rel like.values (env.lookup id) (env'.lookup id))

/-- The second tree under its bindings does what the first one does under its own: it is the same
tree under bindings that are alike, or the tree with trees put in that provide what it has bound. -/
inductive Mirrored (more : Nat) (put : Nat → Option Node) : Node → Env → Node → Env → Prop
  | alike {node : Node} {env env' : Env} (same : like.envs env env') :
      Mirrored more put node env node env'
  | filled {node out : Node} {env env' : Env} (related : node.Substituted put out)
      (noLambda : ¬node.IsLambda) (inAny : node.All (·.LambdasInAny))
      (spares : node.All (·.Spares put))
      (provides : ∀ id, node.Free id → like.Provides more put env env' id) :
      Mirrored more put node env out env'

variable {like} {more : Nat} {put : Nat → Option Node} {env env' : Env} {node out : Node}

theorem Comes.congr {tree : Node} {v : Value} (comes : like.Comes more tree env v)
    (same : ∀ id, tree.Free id → env'.lookup id = env.lookup id) :
    like.Comes more tree env' v :=
  fun other agrees => comes other fun id free => (agrees id free).trans (same id free)

theorem Comes.mono {less : Nat} (le : less ≤ more) {tree : Node} {v : Value}
    (comes : like.Comes less tree env v) : like.Comes more tree env v := by
  intro other agrees limit room store store' kept
  exact (comes other agrees limit room store store' kept).shorter (by omega)

/-- In the body of a lambda, applied to values that are alike, everything is provided that is
outside of it, since it spares what is put in. -/
theorem Provides.scope {l : Lambda} {args args' : List Value} {id : Nat}
    (arity : l.arity = args.length) (each : List.Forall₂ like.values args args')
    (spares : (Expr.lambda l).Spares put)
    (outside : id ∉ l.params.map Parameter.id → like.Provides more put env env' id) :
    like.Provides more put (l.scope env args) (l.scope env' args') id := by
  by_cases bound : id ∈ l.params.map Parameter.id
  · exact .own (spares id bound).1 (Lambda.rel_lookup_scope arity each bound)
  have unbound : ∀ env args, (l.scope env args).lookup id = env.lookup id :=
    fun _ _ => Lambda.lookup_scope_of_unbound bound
  cases outside bound with
  | image found here comes =>
    refine .image found ((unbound env args).trans here) (comes.congr fun other free => ?_)
    exact Lambda.lookup_scope_of_unbound fun captured => (spares other captured).2 id _ found free
  | own absent same =>
    refine .own absent ?_
    rwa [unbound, unbound]

/-- Values that are alike are applied alike. -/
theorem follows_of_values {p p' : Value} (same : like.values p p') :
    like.Follows (like.Mirrored more put) p p' := by
  intro v v' args
  have targets := like.target same args
  generalize p.callTarget [v] = target at targets ⊢
  generalize p'.callTarget [v'] = target' at targets ⊢
  cases targets with
  | error kinds => exact .error kinds
  | ok bodies =>
    obtain ⟨rfl, envs⟩ := bodies
    exact .ok (.alike envs)

/-- A lambda below a call of `any` is applied like what becomes of it. -/
theorem follows_of_lambda {l : Lambda} (isLambda : node.expr = .lambda l)
    (related : node.Substituted put out) (inAny : node.All (·.LambdasInAny))
    (spares : node.All (·.Spares put))
    (provides : ∀ id, node.Free id → like.Provides more put env env' id) :
    ∃ l', out.expr = .lambda l' ∧
      like.Follows (like.Mirrored more put) (.closure l env) (.closure l' env') := by
  cases related with
  | mapped isParam _ => cases isLambda.symm.trans isParam
  | unmapped isParam _ => cases isLambda.symm.trans isParam
  | @inner _ _ kids noParam lengths each made =>
    rw [isLambda] at lengths made each
    obtain ⟨body, rfl⟩ := List.length_eq_one_iff.mp lengths
    refine ⟨⟨l.params, body, l.ret⟩, made, fun v v' same => ?_⟩
    have member : l.body ∈ node.expr.children := by
      rw [isLambda]
      exact .head _
    have noLambda : ¬l.body.IsLambda := by
      intro is
      have applied := inAny.here l.body member is
      rw [isLambda] at applied
      cases applied
    have here : (Expr.lambda l).Spares put := isLambda ▸ spares.here
    by_cases arity : l.arity = [v].length
    · have calls : (Value.closure l env).callTarget [v] = .ok (l.body, l.scope env [v]) :=
        Value.callTarget_closure.mpr ⟨arity, rfl, rfl⟩
      have calls' : (Value.closure ⟨l.params, body, l.ret⟩ env').callTarget [v'] =
          .ok (body, l.scope env' [v']) := Value.callTarget_closure.mpr ⟨arity, rfl, rfl⟩
      rw [calls, calls']
      refine .ok (.filled (each 0 l.body body rfl rfl) noLambda (inAny.child member)
        (spares.child member) fun id free => ?_)
      refine Provides.scope arity (.cons same .nil) here fun unbound => provides id ?_
      refine .child member ?_ free
      rw [isLambda]
      exact unbound
    · have refuses : ∀ (k : Lambda) env v, k.params = l.params →
          (Value.closure k env).callTarget [v] = .error (.arityMismatch k.arity 1 k.text) := by
        intro k env v same
        have differs : ¬k.arity = [v].length := by rwa [Lambda.arity, same]
        simp only [Value.callTarget, Lambda.bindArgs, if_neg differs]
        rfl
      rw [refuses l env v rfl, refuses ⟨l.params, body, l.ret⟩ env' v' rfl]
      exact .error rfl

section Run

variable {limit limit' room room' : Nat} {e : Error} {store store' : Store}

/-- What stops the evaluation of the tree: a refusal, or its limit. -/
def Stops (e : Error) (limit : Nat) (fault : Error) : Prop :=
  fault = e ∨ fault = .recursionLimit limit

/-- An evaluation that does not come to the error of a refusal stops at its limit alone. -/
theorem unstopped {α β : Type} {short : Prop} {stores : Store → Store → Prop} {alike : α → β → Prop}
    {result : Except Error α × Store} {result' : Except Error β × Store}
    (likewise : Likewise (Stops e limit) limit' short stores alike result result')
    (other : result.1 ≠ .error e) :
    Likewise (· = .recursionLimit limit) limit' short stores alike result result' := by
  cases likewise with
  | ok same kept => exact .ok same kept
  | error kinds => exact .error kinds
  | cut isShort => exact .cut isShort
  | stopped isStop =>
    rcases isStop with rfl | isLimit
    · exact absurd rfl other
    · exact .stopped isLimit

/-- A lambda comes to a closure. -/
theorem lambda_likewise {alike : Value → Value → Prop} {short : Prop} {l l' : Lambda}
    (isLambda : node.expr = .lambda l) (becomes : out.expr = .lambda l')
    (isShort : 0 < room → room' = 0 → short) (same : alike (.closure l env) (.closure l' env'))
    (kept : like.stores store store') :
    Likewise (Stops e limit) limit' short like.stores alike
      (Evaluation.refusing e declines host limit room node env store)
      (Evaluation.within host limit' room' out env' store') := by
  cases room with
  | zero => exact .stopped (.inr rfl)
  | succ room =>
    cases room' with
    | zero => exact .cut (isShort room.succ_pos rfl)
    | succ room' =>
      simp only [Evaluation.refusing, Evaluation.refuse, Evaluation.within, Evaluation.ofNode,
        isLambda, becomes, Expr.isStrict, Bool.false_eq_true, if_false]
      exact .ok same kept

theorem parameter_likewise {param : Parameter} (isParam : node.expr = .parameter param)
    (becomes : out.expr = .parameter param) {short : Prop}
    (same : Option.Rel like.values (env.lookup param.id) (env'.lookup param.id))
    (kept : like.stores store store') :
    Likewise (Stops e limit) limit' short like.stores like.values
      (Evaluation.refusing e declines host limit (room + 1) node env store)
      (Evaluation.within host limit' (room' + 1) out env' store') := by
  simp only [Evaluation.refusing, Evaluation.refuse, Evaluation.within, Evaluation.ofNode, isParam,
    becomes, Expr.isStrict, Bool.false_eq_true, if_false]
  generalize env.lookup param.id = here at same ⊢
  generalize env'.lookup param.id = there at same ⊢
  cases same with
  | none => exact .error rfl
  | some same => exact .ok same kept

/-- The tree with trees put in comes to a result like that of the tree with its parameters bound: to
a value that is alike or an error of the same kind. The tree may stop at its own limit or at a
refusal. The other one fails at its limit only if it has fewer levels than the tree has left and the
trees put in need in addition. -/
theorem Mirrored.likewise (mirrored : like.Mirrored more put node env out env')
    (kept : like.stores store store') :
    Likewise (Stops e limit) limit' (room' < room + more) like.stores like.values
      (Evaluation.refusing e declines host limit room node env store)
      (Evaluation.within host limit' room' out env' store') := by
  induction room generalizing room' node out env env' store store' with
  | zero => exact .stopped (.inr rfl)
  | succ room ih =>
    cases room' with
    | zero => exact .cut (by omega)
    | succ room' =>
      have one : ∀ node env node' env' store store', like.Mirrored more put node env node' env' →
          like.stores store store' →
          Likewise (Stops e limit) limit' (room' + 1 < room + 1 + more) like.stores like.values
            (Evaluation.refusing e declines host limit room node env store)
            (Evaluation.within host limit' room' node' env' store') :=
        fun _ _ _ _ _ _ mirrored kept =>
          (ih mirrored kept).shorter (by omega)
      cases mirrored with
      | alike same =>
        rcases node.parameter_or_inner with ⟨param, isParam⟩ | noParam
        · exact parameter_likewise isParam isParam (like.lookup same _) kept
        by_cases lambda : node.IsLambda
        · obtain ⟨l, isLambda⟩ := lambda
          exact lambda_likewise isLambda isLambda (by simp) (like.closure l same) kept
        refine ofNode node.expr.withChildren_children.symm rfl ?_ (.inl rfl) kept one
          (fun _ _ => follows_of_values) noParam lambda
        rw [List.forall₂_same]
        exact fun child _ store store' kept =>
          (one child env child env' store store' (.alike same) kept).mono (fun _ => id) id
            fun _ _ => .inl
      | filled related noLambda inAny spares provides =>
        cases related with
        | @mapped _ _ param isParam found =>
          cases provides param.id (.here isParam rfl) with
          | own absent _ => cases found.symm.trans absent
          | image found' bound comes =>
            cases found.symm.trans found'
            have value : ∀ v, env.lookup param.id = some v →
                Evaluation.refusing e declines host limit (room + 1) node env store =
                  (.ok v, store) := by
              intro v bound
              simp only [Evaluation.refusing, Evaluation.refuse, Evaluation.ofNode, isParam,
                Expr.isStrict, Bool.false_eq_true, if_false, bound]
            rw [value _ bound]
            exact (comes env' (fun _ _ => rfl) limit' (room' + 1) store store' kept).mono
              (fun _ no => no.elim) (fun _ => by omega) fun _ _ => id
        | @unmapped _ param isParam absent =>
          cases provides param.id (.here isParam rfl) with
          | image found _ _ => cases absent.symm.trans found
          | own _ same => exact parameter_likewise isParam isParam same kept
        | @inner _ _ kids noParam lengths each made =>
          refine ofNode made lengths ?_ (.inl rfl) kept one (fun _ _ => follows_of_values) noParam
            noLambda
          refine List.forall₂_iff_get.mpr ⟨lengths.symm, fun place within bound => ?_⟩
          have member := List.get_mem node.expr.children ⟨place, within⟩
          have below := each place _ _ (List.getElem?_eq_getElem within)
            (List.getElem?_eq_getElem bound)
          have inside : ∀ id, Node.Free id (node.expr.children.get ⟨place, within⟩) →
              like.Provides more put env env' id := by
            refine fun id free => provides id (.child member ?_ free)
            rw [Node.binders_of_noLambda noLambda]
            exact List.not_mem_nil
          intro store store' kept
          by_cases lambda : (node.expr.children.get ⟨place, within⟩).IsLambda
          · obtain ⟨l, isLambda⟩ := lambda
            obtain ⟨l', becomes, follows⟩ := follows_of_lambda isLambda below (inAny.child member)
              (spares.child member) inside
            refine lambda_likewise isLambda becomes (by omega) (.inr ⟨?_, ?_, follows⟩) kept
            · exact inAny.here _ member ⟨l, isLambda⟩
            · exact ⟨l, env, l', env', rfl, rfl⟩
          · exact (one _ env _ env' store store' (.filled below lambda (inAny.child member)
              (spares.child member) inside) kept).mono (fun _ => id) id fun _ _ => .inl

/-- The same for an evaluation of the tree that refuses nothing. -/
theorem Mirrored.likewise_within (mirrored : like.Mirrored more put node env out env')
    (kept : like.stores store store')
    (unrefused : Evaluation.Unrefused declines host limit room node env store) :
    Likewise (· = .recursionLimit limit) limit' (room' < room + more) like.stores like.values
      (Evaluation.within host limit room node env store)
      (Evaluation.within host limit' room' out env' store') := by
  obtain ⟨e, other⟩ := exists_ne_error (Evaluation.within host limit room node env store).1
  have likewise : Likewise (Stops e limit) limit' (room' < room + more) like.stores like.values
      (Evaluation.refusing e declines host limit room node env store)
      (Evaluation.within host limit' room' out env' store') := mirrored.likewise kept
  rw [unrefused e] at likewise
  exact unstopped likewise other

/-- Let the tree have come to a value, and let the trees put in provide what it has bound. Then what
becomes of it comes to the same value, in any store that can take the place of the one in which the
tree was evaluated. -/
theorem Comes.of_run {v : Value} {last : Store} (related : node.Substituted put out)
    (noLambda : ¬node.IsLambda) (inAny : node.All (·.LambdasInAny))
    (spares : node.All (·.Spares put))
    (provides : ∀ id, node.Free id → like.Provides more put env env' id)
    (unrefused : Evaluation.Unrefused declines host limit room node env store)
    (run : Evaluation.within host limit room node env store = (.ok v, last))
    (stands : ∀ other store', like.stores other store' → like.stores store store' ∧
      ∀ last', like.stores last last' → like.stores other last') :
    like.Comes (room + more) out env' v := by
  intro later agrees limit' room' other store' kept
  obtain ⟨before, after⟩ := stands other store' kept
  have mirrored : like.Mirrored more put node env out later := by
    refine .filled related noLambda inAny spares fun id free => ?_
    cases provides id free with
    | image found bound comes =>
      refine .image found bound (comes.congr fun other inImage => agrees other ?_)
      exact related.free_of_free spares free (.inr ⟨_, found, inImage⟩)
    | own absent same =>
      refine .own absent ?_
      rwa [agrees id (related.free_of_free spares free (.inl ⟨absent, rfl⟩))]
  have likewise : Likewise (· = .recursionLimit limit) limit' (room' < room + more) like.stores
      like.values (Evaluation.within host limit room node env store)
      (Evaluation.within host limit' room' out later store') :=
    mirrored.likewise_within before unrefused
  rw [run] at likewise
  generalize Evaluation.within host limit' room' out later store' = result at likewise ⊢
  cases likewise with
  | ok same kept => exact .ok same (after _ kept)
  | cut isShort => exact .cut (by omega)

end Run

/-- A parameter comes to what it is bound to. -/
theorem Comes.parameter {mark : Nat} {param : Parameter} {v : Value}
    (bound : env.lookup param.id = some v) : like.Comes 0 ⟨mark, .parameter param⟩ env v := by
  intro env' agrees limit room store store' kept
  cases room with
  | zero => exact .cut (Nat.le_refl 0)
  | succ room =>
    simp only [Evaluation.within, Evaluation.ofNode, Node.expr, agrees param.id (.here rfl rfl),
      bound]
    exact .ok (like.refl v) kept

end Likeness

end TypedTrees
