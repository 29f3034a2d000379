import TypedTrees.Proofs.Expansion.Completeness
import TypedTrees.Proofs.Pass.Simulation
import TypedTrees.Proofs.Substitution.Exact
/-!
What the depth limit does to an expansion. Two guards go by it, that of the expander and its copy in
every substitution, and neither does anything but cut off: under a lower limit an expansion comes to
the same in every respect or fails at that limit, with a part of the steps made
(`Expander.expand_withMaxDepth`). An expander with a limit of its own does not look at the limit of
the session.
-/
namespace TypedTrees

/-- A substitution under a lower limit comes to the same or fails at that limit. -/
theorem Node.substituteFrom_alongside {low high : Nat} (limits : low ≤ high) (depth : Nat)
    (s : Substitution) (node : Node) (supply : Supply) :
    Alongside (· = ·) (fun e _ _ => e = .recursionLimit low)
      (node.substituteFrom low depth s supply) (node.substituteFrom high depth s supply) := by
  have sim : Pass.Simulates (· = ·) (fun e _ _ => e = .recursionLimit low) s.replacer
      s.replacer := by
    refine ⟨fun depth node s t states => ?_, fun depth node out s t states => ?_,
      fun {s t} states => ?_, fun _ _ _ _ _ => id, fun _ _ _ _ _ _ => id, id⟩
    · rw [states]
      exact .same rfl
    · rw [states]
    · rw [states]
      exact ⟨rfl, rfl⟩
  rw [substituteFrom, substituteFrom]
  split
  · exact .same rfl
  · simp only [Pass.run_eq_transform]
    exact sim.transform limits (fun _ {_ _} _ => rfl) depth node rfl

theorem expansionPass_simulates (host : Host) (registry : Nat) {low high : Nat}
    (limits : low ≤ high) :
    Pass.Simulates (· = ·) (fun e s t => e = .recursionLimit low ∧ s.steps <:+ t.steps)
      (expansionPass host registry low) (expansionPass host registry high) where
  visit depth node s t states := by
    subst states
    simp only [expansionPass]
    split
    · rename_i receiver callee args ty isCall
      rcases s.session.referenced host registry node callee args with ⟨e | found, session⟩
      · exact .same rfl
      cases found with
      | none => exact .same rfl
      | some l =>
        simp only [Session.drawing, Lambda.inline]
        split
        · have inlined := l.body.substituteFrom_alongside limits depth
            (.zip l.params (callee.passed args)) session.supply
          generalize l.body.substituteFrom low _ _ _ = a at inlined ⊢
          generalize l.body.substituteFrom high _ _ _ = b at inlined ⊢
          cases inlined with
          | same states =>
            subst states
            exact .same rfl
          | cut fails => exact .cut ⟨fails, List.suffix_refl _⟩
        · exact .same rfl
    · exact .same rfl
  replaced depth node out s t states := by
    subst states
    simp only [expansionPass]
  draw states := by
    subst states
    exact ⟨rfl, rfl⟩
  visit_stays depth node e s t cuts := by
    have kept : ((expansionPass host registry high).visit depth node t).2.steps = t.steps := by
      simp only [expansionPass]
      split
      · split <;> rfl
      · rfl
    rw [kept]
    exact cuts
  replaced_stays depth node out e s t cuts := by
    simp only [expansionPass]
    split
    · exact ⟨cuts.1, cuts.2.trans (List.suffix_cons _ _)⟩
    · exact cuts
  draw_stays := id

theorem Session.referenced_ne_recursionLimit (host : Host) (registry : Nat) (call : Node)
    (callee : Callee) (args : List Node) (session : Session) (n : Nat) :
    (session.referenced host registry call callee args).1 ≠ .error (.recursionLimit n) := by
  intro fails
  cases callee with
  | function f => exact lookUpWithin_ne_recursionLimit _ registry f session n fails
  | invoke shape =>
    cases args with
    | nil => cases fails
    | cons holder rest =>
      simp only [referenced] at fails
      split at fails <;> cases fails

/-- If an expansion fails at a limit, it is the one that it goes by. -/
theorem expansionPass_limit {host : Host} {registry limit depth n : Nat} {node : Node}
    {state : ExpansionState}
    (fails : ((expansionPass host registry limit).transform limit depth node state).1 =
      .error (.recursionLimit n)) : n = limit := by
  refine @Pass.transform_eq_error _ _ limit (fun e => e = .recursionLimit n → n = limit)
    (fun same => by cases same; rfl) (fun depth node state e made same => ?_) _ _ _ _ fails rfl
  subst same
  simp only [expansionPass] at made
  split at made
  · rename_i receiver callee args ty isCall
    have refers := state.session.referenced_ne_recursionLimit host registry node callee args n
    rcases found : state.session.referenced host registry node callee args with ⟨e | _ | l, session⟩
    · rw [found] at made refers
      cases made
      exact absurd rfl refers
    · rw [found] at made
      cases made
    · rw [found] at made
      simp only [Session.drawing, Lambda.inline] at made
      split at made
      · rcases inlined : l.body.substituteFrom limit depth (.zip l.params (callee.passed args))
          session.supply with ⟨e | next, supply⟩
        · rw [inlined] at made
          cases made
          have fails := Node.eq_recursionLimit_of_substituteFrom (congrArg Prod.fst inlined)
          exact Error.recursionLimit.inj fails
        · rw [inlined] at made
          cases made
      · cases made
  · cases made

theorem Session.referenced_setLimit (host : Host) (registry : Nat) (call : Node) (callee : Callee)
    (args : List Node) (limit : Nat) (session : Session) :
    (session.setLimit limit).referenced host registry call callee args =
      ((session.referenced host registry call callee args).1,
        (session.referenced host registry call callee args).2.setLimit limit) := by
  cases callee with
  | function f => exact lookUpWithin_setLimit limit _ registry f session
  | invoke shape =>
    cases args with
    | nil => rfl
    | cons holder rest =>
      simp only [referenced, setLimit]
      split <;> rfl

/-- An expansion does not look at the limit of the session. -/
theorem expansionPass_setLimit (host : Host) (registry limit sessionLimit depth : Nat) (node : Node)
    (state : ExpansionState) :
    (expansionPass host registry limit).transform limit depth node
        { state with session := state.session.setLimit sessionLimit } =
      (((expansionPass host registry limit).transform limit depth node state).1,
        { ((expansionPass host registry limit).transform limit depth node state).2 with
          session := ((expansionPass host registry limit).transform limit depth node
            state).2.session.setLimit sessionLimit }) := by
  refine @Pass.transform_map _ _ (expansionPass host registry limit)
    (expansionPass host registry limit)
    (fun state => { state with session := state.session.setLimit sessionLimit }) ?_ ?_ ?_ limit
    depth node state
  · intro depth node state
    simp only [expansionPass]
    split
    · simp only [Session.referenced_setLimit]
      generalize state.session.referenced host registry node _ _ = result
      obtain ⟨e | _ | l, session⟩ := result <;> rfl
    · rfl
  · intro depth node out state
    simp only [expansionPass]
    split <;> rfl
  · exact fun state => rfl

namespace Expander

/-- A limit does nothing but cut off. Of two expansions of one tree that start from the same session
with limits of their own, the one under the lower limit fails at this limit, and has made a part of
the steps of the other, or comes to the same in every respect. Neither depends on the limit of the
session. So a success stands under every higher limit, and a failure at the limit under every lower
one. -/
theorem expand_withMaxDepth (expander : Expander) (host : Host) (tree : Node) (session : Session)
    {low high : Nat} (limits : low ≤ high) :
    let short := (expander.withMaxDepth low).expand host tree session
    let long := (expander.withMaxDepth high).expand host tree session
    (short.1 = .error (.recursionLimit low) ∧ short.2.1.trace <+: long.2.1.trace ∨
      short.1 = long.1 ∧ short.2.1.trace = long.2.1.trace ∧ short.2.2 = long.2.2) ∧
    (∀ limit sessionLimit,
      let own := (expander.withMaxDepth limit).expand host tree session
      (expander.withMaxDepth limit).expand host tree (session.setLimit sessionLimit) =
        (own.1, own.2.1, own.2.2.setLimit sessionLimit)) ∧
    (∀ out, short.1 = .ok out → long.1 = .ok out ∧ long.2.1.trace = short.2.1.trace) ∧
    (∀ n, long.1 = .error (.recursionLimit n) →
      n = high ∧ short.1 = .error (.recursionLimit low)) := by
  intro short long
  have together := (expansionPass_simulates host expander.registry limits).transform limits
    (fun _ {s t} states => ⟨rfl, states ▸ List.suffix_refl _⟩) 0 tree
    (rfl : ({ session } : ExpansionState) = { session })
  have dichotomy : short.1 = .error (.recursionLimit low) ∧ short.2.1.trace <+: long.2.1.trace ∨
      short.1 = long.1 ∧ short.2.1.trace = long.2.1.trace ∧ short.2.2 = long.2.2 := by
    simp only [short, long, expand, withMaxDepth, DepthGuard.bound, Option.getD_some,
      Pass.run_eq_transform]
    generalize (expansionPass host expander.registry low).transform low 0 tree { session } = a
      at together ⊢
    generalize (expansionPass host expander.registry high).transform high 0 tree { session } = b
      at together ⊢
    cases together with
    | same states =>
      subst states
      exact .inr ⟨rfl, rfl, rfl⟩
    | cut cuts =>
      obtain ⟨rfl, suffix⟩ := cuts
      exact .inl ⟨rfl, (List.prefix_append_right_inj _).mpr (List.reverse_prefix.mpr suffix)⟩
  refine ⟨dichotomy, fun limit sessionLimit => ?_, fun out succeeds => ?_, fun n fails => ?_⟩
  · simp only [expand, withMaxDepth, DepthGuard.bound, Option.getD_some, Pass.run_eq_transform]
    rw [expansionPass_setLimit host expander.registry limit sessionLimit 0 tree { session }]
  · rcases dichotomy with ⟨fails, -⟩ | ⟨outcome, trace, -⟩
    · cases succeeds.symm.trans fails
    · exact ⟨outcome ▸ succeeds, trace.symm⟩
  · have limitOf : ∀ {limit n},
        ((expander.withMaxDepth limit).expand host tree session).1 = .error (.recursionLimit n) →
          n = limit := by
      intro limit n fails
      simp only [expand, withMaxDepth, DepthGuard.bound, Option.getD_some,
        Pass.run_eq_transform] at fails
      exact expansionPass_limit fails
    refine ⟨limitOf fails, ?_⟩
    rcases dichotomy with ⟨cut, -⟩ | ⟨outcome, -⟩
    · exact cut
    · have same : n = low := limitOf (outcome.trans fails)
      rw [outcome, fails, same]

/-- The body takes the second level, so a limit of one cuts the expansion off and one of two does
not. -/
theorem expand_withMaxDepth_identityCall :
    let out : Node := ⟨2, .constant (.int 7) .int⟩
    let short := (({} : Expander).withMaxDepth 1).expand .basic identityCall {}
    let long := (({} : Expander).withMaxDepth 2).expand .basic identityCall {}
    short.1 = .error (.recursionLimit 1) ∧ long.1 = .ok out ∧ short.2.1.trace <+: long.2.1.trace ∧
      ((({} : Expander).withMaxDepth 3).expand .basic identityCall {}).1 = .ok out := by
  intro out short long
  have fails : short.1 = .error (.recursionLimit 1) := by
    simp only [short, expand, expansionPass, Pass.run_eq_transform]
    cbv
  have succeeds : long.1 = .ok out := by
    simp only [long, expand, expansionPass, Pass.run_eq_transform]
    cbv
  obtain ⟨cut | ⟨same, -⟩, -⟩ :=
    expand_withMaxDepth {} .basic identityCall {} (by decide : 1 ≤ 2)
  · obtain ⟨-, -, stands, -⟩ := expand_withMaxDepth {} .basic identityCall {} (by decide : 2 ≤ 3)
    exact ⟨fails, succeeds, cut.2, (stands out succeeds).1⟩
  · cases fails.symm.trans (same.trans succeeds)

end Expander

end TypedTrees
