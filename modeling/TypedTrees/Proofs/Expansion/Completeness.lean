import Mathlib
import TypedTrees.Eval.BasicHost
import TypedTrees.Proofs.Expansion.Visit
import TypedTrees.Proofs.Pass.Outcome
import TypedTrees.Proofs.Pass.Refinement
import TypedTrees.Proofs.Tree.Parts
/-!
Expansion is complete and idempotent. No call that it replaces is left in what it makes, inside
lambdas neither, and a tree without such calls comes back as it is. What it makes is no higher than
the levels that it has entered, so expanding it again stays under the same limit
(`Expander.expand_complete`).
-/
namespace TypedTrees

/-- No call in the tree is one that an expansion replaces. The payloads of constants are not part
of the tree, the bodies of lambda nodes are. -/
def Node.Plain (registered : Function → Bool) (tree : Node) : Prop :=
  ∀ part, Subtree part tree → part.expr.isExpandable registered = false

theorem Node.plain_iff {registered : Function → Bool} {tree : Node} :
    tree.Plain registered ↔
      tree.expr.isExpandable registered = false ∧
        ∀ child ∈ tree.expr.children, child.Plain registered :=
  @Node.all_iff (fun expr => expr.isExpandable registered = false) tree

section Transform

variable {host : Host} {registry limit depth : Nat} {registered : Function → Bool}
  {node out : Node} {state after : ExpansionState}

/-- The functions with an entry are those that `registered` tells. -/
abbrev ExpansionState.Registers (state : ExpansionState) (registry : Nat)
    (registered : Function → Bool) : Prop :=
  (state.session.registry registry).contains = registered

theorem Session.SameEntries.registers {before after : Session} (same : SameEntries before after)
    {registry : Nat} (registers : (before.registry registry).contains = registered) :
    (after.registry registry).contains = registered := by
  funext f
  rw [same.contains registry f, registers]

theorem expansionPass_descend
    (decides : (expansionPass host registry limit).visit depth node state = (.ok .descend, after))
    (registers : state.Registers registry registered) :
    node.expr.isExpandable registered = false ∧ after = state := by
  have decided := ExpansionVisit.of host registry limit depth node state
  rw [decides] at decided
  cases decided with
  | descends kept => exact ⟨registers ▸ kept, rfl⟩

theorem expansionPass_replace {next : Node}
    (decides : (expansionPass host registry limit).visit depth node state =
      (.ok (.replace next), after))
    (registers : state.Registers registry registered) :
    node.expr.isExpandable registered = true ∧ after.Registers registry registered := by
  have decided := ExpansionVisit.of host registry limit depth node state
  have same := expansionPass_visit_grows host registry limit depth node state
  rw [decides] at decided same
  refine ⟨?_, same.registers registers⟩
  cases decided with
  | @inlines _ callee args _ _ _ _ _ isCall refers _ _ =>
    rw [isCall]
    cases callee with
    | invoke _ => rfl
    | function f =>
      -- a function without an entry would stand for nothing
      cases known : registered f with
      | true => exact known
      | false =>
        have unknown : (state.session.registry registry).contains f = false := registers ▸ known
        rw [Session.referenced, Session.quotedBody_of_not_contains unknown] at refers
        cases refers

theorem expansionPass_not_done {result : Node} :
    (expansionPass host registry limit).visit depth node state ≠ (.ok (.done result), after) := by
  intro decides
  have decided := ExpansionVisit.of host registry limit depth node state
  rw [decides] at decided
  cases decided

/-- An expansion leaves no call to expand, and what is without one it leaves as it is. -/
theorem expansionPass_complete
    (run : (expansionPass host registry limit).transform limit depth node state = (.ok out, after))
    (registers : state.Registers registry registered) :
    after.Registers registry registered ∧
      out.Plain registered ∧ (node.Plain registered → out = node) := by
  refine Pass.transform_ok (motive := fun _ node state out after =>
    state.Registers registry registered → after.Registers registry registered ∧
      out.Plain registered ∧ (node.Plain registered → out = node)) ?_ ?_ ?_ run registers
  · intro depth node state out after _ decides
    exact absurd decides expansionPass_not_done
  · intro depth node state next middle out after _ decides below registers
    obtain ⟨expandable, registers⟩ := expansionPass_replace decides registers
    obtain ⟨registers, plain, _⟩ := below registers
    have noted := expansionPass_replaced_session host registry limit depth node out after
    refine ⟨by rw [ExpansionState.Registers, noted]; exact registers, plain, fun none => ?_⟩
    rw [none node (.refl node)] at expandable
    cases expandable
  · intro depth node state middle kids after _ decides chain registers
    obtain ⟨here, rfl⟩ := expansionPass_descend decides registers
    have lengths := chain.length_eq
    obtain ⟨registers, each⟩ : after.Registers registry registered ∧
        List.Forall₂ (fun node kid => kid.Plain registered ∧ (node.Plain registered → kid = node))
          node.expr.children kids := chain.keeps registers
    have rebuilt := expansionPass_rebuild_grows host registry limit node kids after
    refine ⟨rebuilt.registers registers, Node.plain_iff.mpr ?_, fun plain => ?_⟩
    · rw [Pass.rebuild_expr, Expr.isExpandable_withChildren, Expr.children_withChildren lengths]
      refine ⟨here, fun kid member => ?_⟩
      obtain ⟨place, bound, rfl⟩ := List.mem_iff_getElem.mp member
      exact (each.get (by rwa [← lengths]) bound).1
    · have kept : kids = node.expr.children := by
        refine List.ext_getElem lengths fun place bound within => ?_
        exact (each.get within bound).2
          ((Node.plain_iff.mp plain).2 _ (List.getElem_mem within))
      rw [kept, Pass.rebuild_children]

end Transform

/-- A tree without a call to expand, and no higher than the levels left, comes back from a pass of
any limit as the very same node, with nothing changed and nothing recorded. -/
theorem expansionPass_eq_self {host : Host} {registry limit depth : Nat}
    {registered : Function → Bool} {tree : Node} {state : ExpansionState}
    (registers : state.Registers registry registered) (plain : tree.Plain registered)
    (low : depth + tree.height ≤ limit) :
    (expansionPass host registry limit).transform limit depth tree state = (.ok tree, state) := by
  refine Pass.transform_eq_self (fun part inTree depth => ?_) low
  exact expansionPass_visit_descends (registers ▸ plain part inTree)

namespace Expander

/-- Of an expansion that succeeds: the functions with an entry are the same as before, and

* no reference call and no call of a registered function is left in the outcome;
* expanding the outcome again, with an expander of the same registry and limit that has entered no
  level yet, succeeds with the very same node in any session where the same functions have an entry,
  records nothing, and changes neither the expander nor the session;
* the outcome is the very same node as the tree exactly if the tree has no such call. -/
theorem expand_complete {expander after : Expander} {host : Host} {tree out : Node}
    {session final : Session}
    (run : expander.expand host tree session = (.ok out, after, final)) :
    (final.registry expander.registry).contains = (session.registry expander.registry).contains ∧
      out.Plain (session.registry expander.registry).contains ∧
      (∀ (again : Expander) (later : Session), again.registry = expander.registry →
        again.guard.current = 0 →
        again.guard.bound later.limit = expander.guard.bound session.limit →
        (later.registry expander.registry).contains =
          (session.registry expander.registry).contains →
        again.expand host out later = (.ok out, again, later)) ∧
      (out = tree ↔ tree.Plain (session.registry expander.registry).contains) := by
  simp only [expand, Pass.run_eq_transform, Prod.mk.injEq] at run
  obtain ⟨outcome, -, rfl⟩ := run
  generalize bound : expander.guard.bound session.limit = limit at outcome ⊢
  rcases whole : (expansionPass host expander.registry limit).transform limit
    expander.guard.current tree { session } with ⟨result, last⟩
  rw [whole] at outcome
  cases outcome
  obtain ⟨registers, plain, unchanged⟩ := expansionPass_complete whole rfl
  refine ⟨registers, plain, ?_, fun same => same ▸ plain, unchanged⟩
  intro again later sameRegistry fresh sameLimit sameEntries
  -- every level of the outcome was entered in the first run, so there is room for it in the second
  have low := Pass.height_le_of_transform
    (fun _ _ _ _ _ => expansionPass_not_done) whole
  have start : ({ session := later } : ExpansionState).Registers expander.registry
      (session.registry expander.registry).contains := sameEntries
  have kept : ∀ depth, depth = 0 → (expansionPass host expander.registry limit).transform limit
      depth out { session := later } = (.ok out, { session := later }) :=
    fun depth zero => expansionPass_eq_self start plain (by omega)
  simp only [expand, Pass.run_eq_transform, sameRegistry, sameLimit, kept _ fresh,
    List.reverse_nil, List.append_nil]
  rw [← sameRegistry]

end Expander

/-- A reference call of `x => x` on seven. -/
def identityCall : Node :=
  ⟨3, .call none (.invoke .one)
    [⟨1, .constant (.tree ⟨[⟨16, "x", .int⟩], ⟨0, .parameter ⟨16, "x", .int⟩⟩, .int⟩) .any⟩,
      ⟨2, .constant (.int 7) .int⟩] .int⟩

theorem Expander.expand_complete_identityCall :
    ∃ after final, ({} : Expander).expand .basic identityCall {} =
        (.ok ⟨2, .constant (.int 7) .int⟩, after, final) ∧
      ({} : Expander).expand .basic ⟨2, .constant (.int 7) .int⟩ final =
        (.ok ⟨2, .constant (.int 7) .int⟩, {}, final) ∧
      ¬identityCall.Plain (({} : Session).registry 0).contains := by
  have outcome : (({} : Expander).expand .basic identityCall {}).1 =
      .ok ⟨2, .constant (.int 7) .int⟩ := by
    simp only [expand, expansionPass, Pass.run_eq_transform]
    cbv
  have limit : (({} : Expander).expand .basic identityCall {}).2.2.limit = 1500 := by
    simp only [expand, expansionPass, Pass.run_eq_transform]
    cbv
  generalize ran : ({} : Expander).expand .basic identityCall {} = result at outcome limit
  obtain ⟨out, after, final⟩ := result
  cases outcome
  obtain ⟨registers, -, again, unchanged⟩ := expand_complete ran
  refine ⟨after, final, rfl, again {} final rfl rfl limit registers, fun plain => ?_⟩
  cases unchanged.mpr plain

end TypedTrees
