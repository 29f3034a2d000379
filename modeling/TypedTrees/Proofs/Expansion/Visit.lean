import TypedTrees.Expansion
import TypedTrees.Proofs.Registry.LookUp
import TypedTrees.Proofs.Tree.Denoted
import TypedTrees.Tree.Subtree
/-!
What an expansion does at one node, case by case (`ExpansionVisit.of`): it goes on below a node that
is no call to expand, it puts the body of a lambda in place of one that is, or it fails. In every
case the entries of the registries stay what they are.
-/
namespace TypedTrees

/-- Whether an expansion replaces a node of this kind: a reference call, or a call of a function
that is registered. -/
def Expr.isExpandable (registered : Function → Bool) : Expr → Bool
  | .call _ (.invoke _) _ _ => true
  | .call _ (.function f) _ _ => registered f
  | _ => false

theorem Expr.isExpandable_withChildren (registered : Function → Bool) (expr : Expr)
    (trees : List Node) :
    (expr.withChildren trees).isExpandable registered = expr.isExpandable registered := by
  cases expr with
  | call receiver callee _ _ => cases receiver <;> cases callee <;> rfl
  | member target _ => cases target <;> rfl
  | _ => rfl

section Respects

variable {respects : Session → Session → Prop} {registry : Nat}
  (refl : ∀ session, respects session session)
  (reads : ∀ (session : Session) (store : Store), session.store.Precedes store →
    respects session { session with store })
  (asks : ∀ f session, respects session (session.quotedBody registry f).2)

include refl reads asks

/-- A relation that look-ups and new readers respect is one that looking for what a call refers to
respects. -/
theorem Session.referenced_respects (host : Host) (call : Node) (callee : Callee)
    (args : List Node) (session : Session) :
    respects session (session.referenced host registry call callee args).2 := by
  cases callee with
  | function f => exact asks f session
  | invoke shape =>
    cases args with
    | nil => exact refl session
    | cons holder _ =>
      have read := reads session _ (holder.precedes_denoted? host session.store)
      simp only [referenced]
      split <;> exact read

theorem expansionPass_visit_respects (trans : ∀ {a b c}, respects a b → respects b c → respects a c)
    (draws : ∀ session supply, respects session (session.setSupply supply)) (host : Host)
    (limit depth : Nat) (node : Node) (state : ExpansionState) :
    respects state.session
      ((expansionPass host registry limit).visit depth node state).2.session := by
  simp only [expansionPass]
  split
  · rename_i receiver callee args ty isCall
    have same := Session.referenced_respects refl reads asks host node callee args state.session
    generalize state.session.referenced host registry node callee args = result at same
    obtain ⟨e | _ | l, session⟩ := result
    · exact same
    · exact same
    · exact trans same (draws _ _)
  · exact refl _

end Respects

theorem Session.referenced_grows (host : Host) (registry : Nat) (call : Node)
    (callee : Callee) (args : List Node) (session : Session) :
    Grows session (session.referenced host registry call callee args).2 :=
  referenced_respects .refl (fun _ _ precedes => .setStore precedes.slots)
    (fun f session => lookUpWithin_grows _ registry f session) host call callee args session

/-- What an expansion decides at a node, with the state after it. -/
inductive ExpansionVisit (host : Host) (registry limit depth : Nat) (node : Node)
    (state : ExpansionState) : Except Error Visit × ExpansionState → Prop
  | descends (kept : node.expr.isExpandable (state.session.registry registry).contains = false) :
      ExpansionVisit host registry limit depth node state (.ok .descend, state)
  | inlines {receiver : Option Node} {callee : Callee} {args : List Node} {ty : Ty} {l : Lambda}
      {session : Session} {next : Node} {supply : Supply}
      (isCall : node.expr = .call receiver callee args ty)
      (refers : state.session.referenced host registry node callee args = (.ok (some l), session))
      (arity : l.arity = (callee.passed args).length)
      (substitutes : l.body.substituteFrom limit depth (.zip l.params (callee.passed args))
        session.supply = (.ok next, supply)) :
      ExpansionVisit host registry limit depth node state
        (.ok (.replace next), { state with session := session.setSupply supply })
  | fails (e : Error) {session : Session}
      (same : Session.Grows state.session session) :
      ExpansionVisit host registry limit depth node state
        (.error e, { state with session := session })

theorem ExpansionVisit.of (host : Host) (registry limit depth : Nat) (node : Node)
    (state : ExpansionState) :
    ExpansionVisit host registry limit depth node state
      ((expansionPass host registry limit).visit depth node state) := by
  simp only [expansionPass]
  split
  · rename_i receiver callee args ty isCall
    have same := state.session.referenced_grows host registry node callee args
    rcases refers : state.session.referenced host registry node callee args with
      ⟨e | found, session⟩
    · rw [refers] at same
      exact .fails e same
    rw [refers] at same
    cases found with
    | none =>
      -- only a function without an entry stands for nothing
      cases callee with
      | invoke shape =>
        cases args with
        | nil => cases refers
        | cons holder rest =>
          simp only [Session.referenced] at refers
          split at refers <;> cases refers
      | function f =>
        simp only [Session.referenced] at refers
        have unknown := Session.contains_of_quotedBody_none refers
        rw [Session.quotedBody_of_not_contains unknown] at refers
        cases refers
        exact .descends (by rw [isCall]; exact unknown)
    | some l =>
      simp only [Session.drawing, Lambda.inline]
      by_cases arity : l.arity = (callee.passed args).length
      · simp only [if_pos arity]
        rcases substitutes : l.body.substituteFrom limit depth
          (.zip l.params (callee.passed args)) session.supply with ⟨e | next, supply⟩
        · exact .fails e (same.trans (.setSupply session supply))
        · exact .inlines isCall refers arity substitutes
      · simp only [if_neg arity]
        exact .fails _ (same.trans (.setSupply session session.supply))
  · rename_i noCall
    refine .descends ?_
    cases isExpr : node.expr with
    | call receiver callee args ty => exact absurd isExpr (noCall receiver callee args ty)
    | _ => rfl

/-- An expansion goes on below a node that is no call to expand. -/
theorem expansionPass_visit_descends {host : Host} {registry limit depth : Nat} {node : Node}
    {state : ExpansionState}
    (kept : node.expr.isExpandable (state.session.registry registry).contains = false) :
    (expansionPass host registry limit).visit depth node state = (.ok .descend, state) := by
  simp only [expansionPass]
  split
  · rename_i receiver callee args ty isCall
    rw [isCall] at kept
    cases callee with
    | invoke _ => cases kept
    | function f => simp only [Session.referenced, Session.quotedBody_of_not_contains kept]
  · rfl

/-- An expansion puts the body of the lambda in place of a call that refers to it. -/
theorem expansionPass_visit_inlines {host : Host} {registry limit depth : Nat} {node next : Node}
    {receiver : Option Node} {callee : Callee} {args : List Node} {ty : Ty} {l : Lambda}
    {state : ExpansionState} {session : Session} {supply : Supply}
    (isCall : node.expr = .call receiver callee args ty)
    (refers : state.session.referenced host registry node callee args = (.ok (some l), session))
    (arity : l.arity = (callee.passed args).length)
    (substitutes : l.body.substituteFrom limit depth (.zip l.params (callee.passed args))
      session.supply = (.ok next, supply)) :
    (expansionPass host registry limit).visit depth node state =
      (.ok (.replace next), { state with session := session.setSupply supply }) := by
  simp only [expansionPass, isCall, refers, Session.drawing, Lambda.inline, if_pos arity,
    substitutes]
  rfl

/-- No step of an expansion changes the entries of a registry. -/
theorem expansionPass_visit_grows (host : Host) (registry limit depth : Nat) (node : Node)
    (state : ExpansionState) :
    Session.Grows state.session
      ((expansionPass host registry limit).visit depth node state).2.session :=
  expansionPass_visit_respects .refl (fun _ _ precedes => .setStore precedes.slots)
    (fun f session => Session.lookUpWithin_grows _ registry f session) .trans .setSupply host limit
    depth node state

theorem expansionPass_replaced_session (host : Host) (registry limit depth : Nat)
    (call output : Node) (state : ExpansionState) :
    ((expansionPass host registry limit).replaced depth call output state).session =
      state.session := by
  simp only [expansionPass]
  split <;> rfl

theorem expansionPass_rebuild_grows (host : Host) (registry limit : Nat) (node : Node)
    (kids : List Node) (state : ExpansionState) :
    Session.Grows state.session
      ((expansionPass host registry limit).rebuild node kids state).2.session := by
  simp only [Pass.rebuild]
  split
  · exact .refl _
  · exact .setSupply state.session _

end TypedTrees
