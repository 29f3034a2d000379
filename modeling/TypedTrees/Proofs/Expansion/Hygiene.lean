import Mathlib
import TypedTrees.Eval.BasicHost
import TypedTrees.Proofs.Expansion.Sources
import TypedTrees.Proofs.Pass.Reaches
import TypedTrees.Proofs.Substitution.Substituted
/-!
When an inlining step captures. Substitution renames nothing, so a parameter that is free in an
argument is captured if the argument comes to stand inside a lambda that binds it. Where every
parameter of the sources is bound by one lambda only and occurs only there, this happens to calls
that stand inside a copy of that very lambda and to no others
(`Expander.captures_inside_copy`).
-/
namespace TypedTrees

/-- The body of `l` has `inner` in it, with a parameter in the body of `inner` whose argument has a
parameter of `inner` free: put in there, the argument is captured. -/
def Lambda.Captures (l : Lambda) (args : List Node) (inner : Lambda) : Prop :=
  (∃ part : Node, part.Subtree l.body ∧ part.expr = .lambda inner) ∧
    ∃ (place : Nat) (param : Parameter) (arg : Node) (id : Nat),
      l.params[place]? = some param ∧ args[place]? = some arg ∧
        inner.body.Mentions param.id ∧ id ∈ inner.params.map Parameter.id ∧ arg.Free id

namespace Sources

/-- The lambdas that bind parameters in the sources: the lambda trees, and the lambda nodes in the
tree and in their bodies. -/
inductive Binds (sources : Sources) : Lambda → Prop
  | held {l : Lambda} (held : sources.Held l) : Binds sources l
  | node {l : Lambda} {part : Node} (inTree : part.Subtree sources.tree)
      (isLambda : part.expr = .lambda l) : Binds sources l
  | nested {l k : Lambda} {part : Node} (held : sources.Held k) (inBody : part.Subtree k.body)
      (isLambda : part.expr = .lambda l) : Binds sources l

/-- Some lambda of the sources binds the parameter. -/
def Bound (sources : Sources) (id : Nat) : Prop :=
  ∃ l, sources.Binds l ∧ id ∈ l.params.map Parameter.id

/-- Every parameter is bound by one lambda only and occurs only inside that lambda's body. -/
structure Disciplined (sources : Sources) : Prop where
  one : ∀ l k id, sources.Binds l → sources.Binds k → id ∈ l.params.map Parameter.id →
    id ∈ k.params.map Parameter.id → l = k
  tree : ∀ id, sources.tree.Free id → ¬sources.Bound id
  body : ∀ l id, sources.Held l → l.body.Free id → id ∉ l.params.map Parameter.id →
    ¬sources.Bound id

/-- A lambda node has the parameters of a lambda of the sources. -/
def BindsOnly (sources : Sources) (expr : Expr) : Prop :=
  ∀ l, expr = .lambda l → ∃ k, sources.Binds k ∧ k.params = l.params

theorem BindsOnly.withChildren {sources : Sources} {expr : Expr} (only : sources.BindsOnly expr)
    (trees : List Node) : sources.BindsOnly (expr.withChildren trees) := by
  intro l isLambda
  obtain ⟨k, was, params, -⟩ := Expr.withChildren_eq_lambda isLambda
  obtain ⟨source, binds, same⟩ := only k was
  exact ⟨source, binds, same.trans params.symm⟩

/-- What an expansion of the sources keeps up at every node that it reaches: constants and lambdas
stem from the sources, and a parameter of the sources is free only where a lambda that binds it
stands around the node. -/
structure Keeps (sources : Sources) (scope : List (List Parameter)) (node : Node) : Prop where
  constants : node.All (·.HoldsOnly sources.host sources.Held)
  lambdas : node.All sources.BindsOnly
  opened : ∀ params ∈ scope, ∃ l, sources.Binds l ∧ l.params = params
  free : ∀ id, node.Free id → sources.Bound id → ∃ params ∈ scope, id ∈ params.map Parameter.id

namespace Keeps

variable {sources : Sources} {scope : List (List Parameter)} {node : Node}

theorem root (disciplined : sources.Disciplined) : sources.Keeps [] sources.tree where
  constants := sources.held_of_tree
  lambdas := fun _ inTree l isLambda => ⟨l, .node inTree isLambda, rfl⟩
  opened := nofun
  free := fun id free bound => absurd bound (disciplined.tree id free)

theorem child {child : Node} (keeps : sources.Keeps scope node)
    (member : child ∈ node.expr.children) : sources.Keeps (node.expr.opened ++ scope) child where
  constants := keeps.constants.child member
  lambdas := keeps.lambdas.child member
  opened := by
    intro params inScope
    rcases List.mem_append.mp inScope with here | around
    · cases isExpr : node.expr with
      | lambda l =>
        rw [isExpr] at here
        cases List.mem_singleton.mp here
        exact keeps.lambdas.here l isExpr
      | _ =>
        rw [isExpr] at here
        cases here
    · exact keeps.opened params around
  free := by
    intro id free bound
    by_cases binds : id ∈ node.expr.binders
    · cases isExpr : node.expr with
      | lambda l =>
        rw [isExpr] at binds
        exact ⟨l.params, .head _, binds⟩
      | _ =>
        rw [isExpr] at binds
        cases binds
    · obtain ⟨params, inScope, among⟩ := keeps.free id (.child member binds free) bound
      exact ⟨params, List.mem_append_right _ inScope, among⟩

theorem inlined {l : Lambda} {args : List Node} {next : Node} (disciplined : sources.Disciplined)
    (keeps : sources.Keeps scope node) (held : sources.Held l)
    (among : ∀ arg ∈ args, arg ∈ node.expr.children) (binds : node.expr.binders = [])
    (arity : l.arity = args.length)
    (substituted : Node.Substituted (Substitution.zip l.params args).at? l.body next) :
    sources.Keeps scope next := by
  have atPlace : ∀ id tree, (Substitution.zip l.params args).at? id = some tree →
      tree ∈ node.expr.children := fun _ tree found => among tree (Substitution.mem_of_zip found)
  refine ⟨?_, ?_, keeps.opened, fun id free bound => ?_⟩
  · exact substituted.all (fun _ trees only => only.withChildren trees) held.body
      fun id tree found => keeps.constants.child (atPlace id tree found)
  · refine substituted.all (fun _ trees only => only.withChildren trees) ?_
      fun id tree found => keeps.lambdas.child (atPlace id tree found)
    exact fun part inBody k isLambda => ⟨k, .nested held inBody isLambda, rfl⟩
  -- a parameter that was free in the body is one of its own, and all of those are mapped
  · rcases substituted.free free with ⟨inBody, unmapped⟩ | ⟨other, tree, found, inTree⟩
    · refine absurd bound (disciplined.body l id held inBody fun isParam => ?_)
      have mapped : ((Substitution.zip l.params args).at? id).isSome = true := by
        rw [Substitution.zip_at?]
        exact Keyed.isSome_of_mem (by rw [List.length_map]; exact arity) isParam
      rw [unmapped] at mapped
      cases mapped
    · exact keeps.free id (.child (atPlace other tree found) (by rw [binds]; exact nofun) inTree)
        bound

end Keeps

end Sources

namespace Expander

/-- The sources of an expansion. What functions stand for is told by the registry as the expansion
leaves it, when every lambda that it has looked up is kept. -/
def sources (expander : Expander) (host : Host) (tree : Node) (session : Session) : Sources where
  host := host
  slots := session.store.slots
  quotes := ((expander.expand host tree session).2.2.registry expander.registry).quoted?
  tree := tree

variable (expander : Expander) (host : Host) (tree : Node) (session : Session)

/-- The pass that the expander runs. -/
abbrev pass : Pass ExpansionState :=
  expansionPass host expander.registry (expander.guard.bound session.limit)

/-- The nodes that an expansion takes up, with the depth, the lambdas around them and the state. -/
abbrev Reaches : Nat → List (List Parameter) → Node → ExpansionState → Prop :=
  (expander.pass host session).Reaches (expander.guard.bound session.limit) expander.guard.current
    tree { session }

end Expander

/-- An inlining step: `call` refers to `l`, and the body of `l` with `args` put in takes its place
as `next`. -/
inductive Inlines (host : Host) (registry limit depth : Nat) (call : Node) (state : ExpansionState)
    (l : Lambda) : List Node → Node → ExpansionState → Prop
  | intro {receiver : Option Node} {callee : Callee} {args : List Node} {ty : Ty}
      {session : Session} {next : Node} {supply : Supply}
      (isCall : call.expr = .call receiver callee args ty)
      (refers : state.session.referenced host registry call callee args = (.ok (some l), session))
      (arity : l.arity = (callee.passed args).length)
      (substitutes : l.body.substituteFrom limit depth (.zip l.params (callee.passed args))
        session.supply = (.ok next, supply)) :
      Inlines host registry limit depth call state l (callee.passed args) next
        { state with session := session.setSupply supply }

theorem expansionPass_replace_iff {host : Host} {registry limit depth : Nat} {node next : Node}
    {state after : ExpansionState} :
    (expansionPass host registry limit).visit depth node state = (.ok (.replace next), after) ↔
      ∃ l args, Inlines host registry limit depth node state l args next after := by
  constructor
  · intro decides
    have decided := ExpansionVisit.of host registry limit depth node state
    rw [decides] at decided
    cases decided with
    | inlines isCall refers arity substitutes =>
      exact ⟨_, _, .intro isCall refers arity substitutes⟩
  · rintro ⟨l, args, isCall, refers, arity, substitutes⟩
    simp only [expansionPass, isCall, refers, Session.drawing, Lambda.inline, if_pos arity,
      substitutes]
    rfl

namespace Expander

variable {expander : Expander} {host : Host} {tree : Node} {session : Session}

theorem Reaches.grows {depth : Nat} {scope : List (List Parameter)} {node : Node}
    {state : ExpansionState} (reach : expander.Reaches host tree session depth scope node state) :
    Session.Grows session state.session ∧
      Session.Grows state.session (expander.expand host tree session).2.2 := by
  have reads : ∀ (session : Session) (store : Store), session.store.Precedes store →
      Session.Grows session { session with store } := fun _ _ precedes => .setStore precedes.slots
  have asks : ∀ f (session : Session),
      Session.Grows session (session.quotedBody expander.registry f).2 := fun f session =>
    session.lookUpWithin_grows _ expander.registry f
  obtain ⟨before, after⟩ :=
    expansionPass_between .refl reads asks Session.Grows.trans .setSupply reach
  have here := expansionPass_transform_respects .refl reads asks Session.Grows.trans .setSupply
    host (expander.guard.bound session.limit) depth node state
  refine ⟨before, ?_⟩
  simp only [expand, Pass.run_eq_transform]
  exact here.trans after

theorem Reaches.held {depth : Nat} {scope : List (List Parameter)} {call next : Node}
    {state after : ExpansionState} {l : Lambda} {args : List Node} (distinct : session.KeysDistinct)
    (reach : expander.Reaches host tree session depth scope call state)
    (entered : depth < expander.guard.bound session.limit)
    (keeps : (expander.sources host tree session).Keeps scope call)
    (inlines : Inlines host expander.registry (expander.guard.bound session.limit) (depth + 1) call
      state l args next after) :
    (expander.sources host tree session).Held l := by
  have onward : expander.Reaches host tree session (depth + 1) scope next after :=
    .replaced reach entered (expansionPass_replace_iff.mpr ⟨l, args, inlines⟩)
  obtain ⟨soFar, later⟩ := onward.grows
  cases inlines with
  | @intro receiver callee args _ middle _ supply isCall refers arity substitutes =>
    refine Sources.held_of_referenced (reach.grows.1.slots) ?_ ?_ refers
    · intro f k kept
      exact later.keeps (distinct.mono soFar.toSameEntries) expander.registry f k kept
    · intro arg member
      refine keeps.constants.child ?_
      rw [isCall]
      exact List.mem_append_right _ member

theorem Reaches.keeps {depth : Nat} {scope : List (List Parameter)} {node : Node}
    {state : ExpansionState} (distinct : session.KeysDistinct)
    (disciplined : (expander.sources host tree session).Disciplined)
    (reach : expander.Reaches host tree session depth scope node state) :
    (expander.sources host tree session).Keeps scope node := by
  -- along the visits that lead to the node
  induction reach with
  | root => exact .root disciplined
  | @replaced depth scope call next state after reach entered decides ih =>
    obtain ⟨l, args, inlines⟩ := expansionPass_replace_iff.mp decides
    have held := Reaches.held distinct reach entered ih inlines
    cases inlines with
    | @intro receiver callee args _ _ _ _ isCall _ arity substitutes =>
      refine ih.inlined disciplined held ?_ (by rw [isCall]; rfl) arity
        (Node.substituted_of_substituteFrom substitutes)
      intro arg member
      rw [isCall]
      cases callee with
      | invoke _ => exact List.mem_append_right _ (List.mem_of_mem_tail member)
      | function _ => exact List.mem_append_right _ member
  | @child depth scope node child _ _ _ before rest _ reach entered decides children _ ih =>
    exact ih.child (by rw [children]; exact List.mem_append_right _ (.head _))

/-- Of an expansion whose sources bind every parameter by one lambda only, which alone has it in its
body:

* every call made of the pass is about a node that is reached;
* where an inlining step at a node that is reached captures an argument under a nested lambda, the
  call stands inside a copy of that very lambda. -/
theorem captures_inside_copy (distinct : session.KeysDistinct)
    (disciplined : (expander.sources host tree session).Disciplined) :
    (∀ call ∈ ((expander.pass host session).recording.run (expander.guard.bound session.limit)
        expander.guard.current tree ({ session }, [])).state.2,
      (expander.pass host session).IsReached (expander.guard.bound session.limit)
        expander.guard.current tree { session } call) ∧
    ∀ {depth : Nat} {scope : List (List Parameter)} {call next : Node}
      {state after : ExpansionState} {l : Lambda} {args : List Node},
      expander.Reaches host tree session depth scope call state →
      depth < expander.guard.bound session.limit →
      Inlines host expander.registry (expander.guard.bound session.limit) (depth + 1) call state l
        args next after →
      ∀ inner, l.Captures args inner → inner.params ∈ scope := by
  refine ⟨fun call made => Pass.isReached_of_run made, ?_⟩
  intro depth scope call next state after l args reach entered inlines inner captures
  obtain ⟨⟨part, inBody, isLambda⟩, place, param, arg, id, -, atArg, -, binds, free⟩ := captures
  have keeps := Reaches.keeps distinct disciplined reach
  have held := Reaches.held distinct reach entered keeps inlines
  have source : (expander.sources host tree session).Binds inner := .nested held inBody isLambda
  have freeInCall : call.Free id := by
    cases inlines with
    | @intro receiver callee args _ _ _ _ isCall _ _ _ =>
      have passed : arg ∈ args := by
        cases callee with
        | invoke _ => exact List.mem_of_mem_tail (List.mem_of_getElem? atArg)
        | function _ => exact List.mem_of_getElem? atArg
      refine .child ?_ (by rw [isCall]; exact nofun) free
      rw [isCall]
      exact List.mem_append_right _ passed
  obtain ⟨params, inScope, among⟩ := keeps.free id freeInCall ⟨inner, source, binds⟩
  obtain ⟨around, aroundBinds, same⟩ := keeps.opened params inScope
  -- the lambda around the call binds the parameter too, so it is a copy of the nested one
  have one : around = inner := disciplined.one around inner id aroundBinds source
    (by rw [same]; exact among) binds
  rw [← one, same]
  exact inScope

end Expander

/-! ### A capture

`any` of `q => h.invoke(k, k, x + q)` calls what `h` holds under the binder of `q`. If this is the
lambda around it, its body is put in under a copy of the binder that it has itself, and the `q` of
the argument `x + q` is taken for the inner one. -/

namespace NestedCopy

def h : Parameter := ⟨17, "h", .any⟩

def k : Parameter := ⟨18, "k", .any⟩

def x : Parameter := ⟨19, "x", .any⟩

def q : Parameter := ⟨16, "q", .any⟩

/-- The lambda `q => h.invoke(k, k, x + q)`. -/
def inner : Lambda :=
  ⟨[q], ⟨43, .call none (.invoke .three)
    [⟨44, .parameter h⟩, ⟨45, .parameter k⟩, ⟨46, .parameter k⟩,
      ⟨47, .binary .add ⟨48, .parameter x⟩ ⟨49, .parameter q⟩ .any⟩] .bool⟩, .bool⟩

/-- The lambda `(h, k, x) => any([1, 10], q => h.invoke(k, k, x + q))`. -/
def outer : Lambda :=
  ⟨[h, k, x], ⟨40, .call none (.function .seqAny)
    [⟨41, .constant (.seq [.int 1, .int 10]) (.seq .int)⟩, ⟨42, .lambda inner⟩] .bool⟩, .bool⟩

/-- The lambda `(a, b, c) => c == 11`. -/
def last : Lambda :=
  ⟨[⟨20, "a", .any⟩, ⟨21, "b", .any⟩, ⟨22, "c", .any⟩],
    ⟨30, .binary .equal ⟨31, .parameter ⟨22, "c", .any⟩⟩ ⟨32, .constant (.int 11) .int⟩ .bool⟩,
    .bool⟩

/-- The static member that holds `outer`. -/
def slot : Member := ⟨23, "f", "Trees", .any, .slot⟩

/-- The call `Trees.f.invoke(Trees.f, quote(last), 0)`. -/
def tree : Node :=
  ⟨50, .call none (.invoke .three)
    [⟨51, .member none slot⟩, ⟨52, .member none slot⟩, ⟨53, .constant (.tree last) .any⟩,
      ⟨54, .constant (.int 0) .int⟩] .bool⟩

def session : Session := { store := { supply := ⟨100⟩, slots := [(23, .tree outer)] } }

/-- The arguments of the call that is reached inside the copy of `inner`. -/
def args : List Node :=
  [⟨53, .constant (.tree last) .any⟩, ⟨53, .constant (.tree last) .any⟩,
    ⟨100, .binary .add ⟨54, .constant (.int 0) .int⟩ ⟨49, .parameter q⟩ .any⟩]

/-- The call `Trees.f.invoke(quote(last), quote(last), 0 + q)`, reached inside the copy. -/
def call : Node := ⟨101, .call none (.invoke .three) (⟨52, .member none slot⟩ :: args) .bool⟩

/-- The state in which the call is reached. -/
def state : ExpansionState where
  session :=
    { store := { supply := ⟨104⟩, slots := [(23, .tree outer)], readers := [(23, .slot 23)] } }

def sources : Sources := ({} : Expander).sources .basic tree session

theorem distinct : session.KeysDistinct := .of_fresh rfl

theorem quotes (f : Function) : sources.quotes f = none := by
  have start : ({} : Expander).Reaches .basic tree session 0 [] tree { session } := .root
  have blank := start.grows.2.entries 0
  have empty : ((({} : Expander).expand .basic tree session).2.2.registry 0).bindings = [] := by
    simpa [Registry.blank, session, Session.registry] using blank
  change ((({} : Expander).expand .basic tree session).2.2.registry 0).quoted? f = none
  rw [Registry.quoted?, Registry.find?, empty]
  rfl

theorem held {l : Lambda} (held : sources.Held l) : l = outer ∨ l = last := by
  have ofTree : tree.payloads = [.tree last, .int 0] := by cbv
  have ofOuter : outer.body.payloads = [.seq [.int 1, .int 10]] := by cbv
  have ofLast : last.body.payloads = [.int 11] := by cbv
  refine @Sources.Held.of_payloads sources (fun l => l = outer ∨ l = last) ?_ ?_ ?_ ?_ l held
  · intro v among l holds
    change v ∈ tree.payloads at among
    simp only [ofTree, List.mem_cons, List.not_mem_nil, or_false] at among
    rcases among with rfl | rfl
    · exact .inr (by simpa [eq_comm] using holds.basic)
    · exact absurd holds.basic (by simp)
  · intro id v found l holds
    simp only [sources, Expander.sources, session, List.lookup_cons, List.lookup_nil] at found
    split at found
    · cases found
      exact .inl (by simpa [eq_comm] using holds.basic)
    · cases found
  · intro f l found
    rw [quotes] at found
    cases found
  · rintro k (rfl | rfl) v among l holds
    · rw [ofOuter, List.mem_singleton] at among
      exact absurd holds.basic (by simp [among])
    · rw [ofLast, List.mem_singleton] at among
      exact absurd holds.basic (by simp [among])

theorem binds {l : Lambda} (binds : sources.Binds l) : l = outer ∨ l = inner ∨ l = last := by
  have ofTree : tree.lambdas = [] := by cbv
  have ofOuter : outer.body.lambdas = [inner] := by cbv
  have ofLast : last.body.lambdas = [] := by cbv
  cases binds with
  | held isHeld =>
    rcases held isHeld with rfl | rfl
    · exact .inl rfl
    · exact .inr (.inr rfl)
  | node inTree isLambda =>
    have among : _ ∈ tree.lambdas := Node.mem_lambdas inTree isLambda
    rw [ofTree] at among
    cases among
  | nested isHeld inBody isLambda =>
    have among := Node.mem_lambdas inBody isLambda
    rcases held isHeld with rfl | rfl
    · rw [ofOuter, List.mem_singleton] at among
      exact .inr (.inl among)
    · rw [ofLast] at among
      cases among

theorem disciplined : sources.Disciplined where
  one := by
    intro l k id lBinds kBinds inL inK
    have ofOuter : outer.params.map Parameter.id = [17, 18, 19] := rfl
    have ofInner : inner.params.map Parameter.id = [16] := rfl
    have ofLast : last.params.map Parameter.id = [20, 21, 22] := rfl
    rcases binds lBinds with rfl | rfl | rfl <;> rcases binds kBinds with rfl | rfl | rfl <;>
      simp only [ofOuter, ofInner, ofLast, List.mem_cons, List.not_mem_nil, or_false] at inL inK <;>
      first | rfl | omega
  tree := by
    intro id free
    simp [sources, Expander.sources, tree, Node.free_mk, Expr.children, slot] at free
  body := by
    intro l id isHeld free absent
    rcases held isHeld with rfl | rfl
    · simp [outer, inner, Lambda.body, Lambda.params, Node.free_mk, Expr.children, Expr.binders, h,
        k, x, q] at free absent
      omega
    · simp [last, Lambda.body, Lambda.params, Node.free_mk, Expr.children] at free absent
      omega

theorem reached : ∃ scope, ({} : Expander).Reaches .basic tree session 3 scope call state := by
  have fifth : (((({} : Expander).pass .basic session).recording.transform 1500 0 tree
      ({ session }, [])).2.2.reverse)[4]? = some (.visit 4 call state) := by
    simp only [Expander.pass, expansionPass]
    cbv
  have made : PassCall.visit 4 call state ∈
      ((({} : Expander).pass .basic session).recording.run 1500 0 tree
        ({ session }, [])).state.2 := by
    rw [Pass.run_eq_transform]
    exact List.mem_reverse.mp (List.mem_of_getElem? fifth)
  obtain ⟨above, scope, deep, reach⟩ := Pass.isReached_of_run made
  cases deep
  exact ⟨scope, reach⟩

theorem inlines : ∃ next after, Inlines .basic 0 1500 4 call state outer args next after := by
  have refers : state.session.referenced .basic 0 call (.invoke .three)
      (⟨52, .member none slot⟩ :: args) = (.ok (some outer), state.session) := by cbv
  have succeeds : (outer.body.substituteFrom 1500 4 (.zip outer.params args)
      state.session.supply).1.toBool = true := by
    simp only [Node.substituteFrom, Pass.run_eq_transform]
    cbv
  rcases substitutes : outer.body.substituteFrom 1500 4 (.zip outer.params args)
    state.session.supply with ⟨e | next, supply⟩
  · rw [substitutes] at succeeds
    cases succeeds
  · exact ⟨next, _, .intro rfl refers rfl substitutes⟩

theorem captures : outer.Captures args inner := by
  refine ⟨⟨⟨42, .lambda inner⟩, .child (.tail _ (.head _)) (.refl _), rfl⟩, ?_⟩
  refine ⟨2, x, _, 16, rfl, rfl, ?_, .head _, ?_⟩
  · have sixth : inner.body.parts[5]? = some ⟨48, .parameter x⟩ := by cbv
    exact ⟨_, x, Node.mem_parts_iff.mp (List.mem_of_getElem? sixth), rfl, rfl⟩
  · exact .child (.tail _ (.head _)) List.not_mem_nil (.here rfl rfl)

end NestedCopy

open NestedCopy in
/-- In the sources above every parameter is bound once, and a step of the expansion captures. The
call stands inside a copy of the lambda that its argument is captured by. -/
theorem Expander.captures_inside_copy_nestedCopy :
    NestedCopy.sources.Disciplined ∧ ∃ (depth : Nat) (scope : List (List Parameter))
      (call next : Node) (state after : ExpansionState) (args : List Node),
      ({} : Expander).Reaches .basic tree session depth scope call state ∧
        Inlines .basic 0 1500 (depth + 1) call state outer args next after ∧
          outer.Captures args inner ∧ inner.params ∈ scope := by
  obtain ⟨scope, reach⟩ := reached
  obtain ⟨next, after, inlines⟩ := inlines
  refine ⟨disciplined, 3, scope, call, next, state, after, args, reach, inlines, captures, ?_⟩
  exact (captures_inside_copy distinct disciplined).2 reach (by decide) inlines inner captures

end TypedTrees
