import TypedTrees.Pass.Recursive
import TypedTrees.Pass.WorkList
import TypedTrees.Proofs.Pass.Simulation
import TypedTrees.Tree.Children
/-!
The driver of passes against plain recursion. The driver's two lists stand for the recursion that
is under way: taking up the visit of a node leads to the same driver with the node's result on top
of the results, or to the end of the run with the same error (`WorkList.Leads.visit`). So a run and
the recursion come to the same thing, and they make the same calls of the pass at the same depths
(`Pass.run_refines_recursion`).
-/
namespace TypedTrees

variable {σ : Type}

theorem Pass.rebuild_leaf (pass : Pass σ) {node : Node} (leaf : node.expr.children = [])
    (state : σ) : pass.rebuild node [] state = (node, state) := by
  obtain ⟨mark, expr⟩ := node
  change expr.children = [] at leaf
  simp only [rebuild, Node.expr, leaf, sameNodes, if_true, Node.mark, Expr.withChildren_nil]

namespace WorkList

variable {pass : Pass σ} {limit : Nat} {root : Node}

theorem run_running {c c' : Config σ} (moves : step pass limit root c = .running c') :
    run pass limit root c = run pass limit root c' := by
  rw [run]
  split
  · rename_i stops
    cases moves.symm.trans stops
  · rename_i next goes
    cases goes.symm.trans moves
    rfl

theorem run_finished {c : Config σ} {result : PassResult σ}
    (stops : step pass limit root c = .finished result) : run pass limit root c = result := by
  rw [run]
  split
  · rename_i other halts
    cases halts.symm.trans stops
    rfl
  · rename_i goes
    cases stops.symm.trans goes

/-- From `c` the driver goes on as the recursion says: with the new results on top of the old ones
at the depth it had before, or with the error, at no lesser depth, as the end of the run. -/
def Leads (pass : Pass σ) (limit : Nat) (root : Node) (c : Config σ) (depth : Nat)
    (rest : List Task) (results : List Node) : Except Error (List Node) × σ → Prop
  | (.ok outs, state) =>
    run pass limit root c = run pass limit root ⟨rest, outs.reverse ++ results, depth, state⟩
  | (.error e, state) => ∃ deep, depth ≤ deep ∧ run pass limit root c = ⟨.error e, deep, state⟩

def single : Except Error Node × σ → Except Error (List Node) × σ
  | (.ok out, state) => (.ok [out], state)
  | (.error e, state) => (.error e, state)

theorem Leads.visits {depth : Nat}
    (one : ∀ node rest results state,
      Leads pass limit root ⟨.visit node :: rest, results, depth, state⟩ depth rest results
        (single (pass.transform limit depth node state)))
    (nodes : List Node) (rest : List Task) (results : List Node) (state : σ) :
    Leads pass limit root ⟨nodes.map .visit ++ rest, results, depth, state⟩ depth rest results
      (pass.transformAll limit depth nodes state) := by
  induction nodes generalizing results state with
  | nil => simp [Leads, Pass.transformAll]
  | cons node nodes ih =>
    have first := one node (nodes.map .visit ++ rest) results state
    rw [Pass.transformAll]
    rcases here : pass.transform limit depth node state with ⟨e | out, after⟩
    · rw [here] at first
      exact first
    · rw [here] at first
      have others := ih (out :: results) after
      simp only
      rcases there : pass.transformAll limit depth nodes after with ⟨e | outs, final⟩
      · rw [there] at others
        obtain ⟨deep, below, ends⟩ := others
        exact ⟨deep, below, first.trans ends⟩
      · rw [there] at others
        have joined := first.trans others
        simpa only [Leads, List.map_cons, List.cons_append, List.reverse_cons, List.append_assoc,
          List.nil_append] using joined

theorem transformAll_length {depth : Nat} {nodes outs : List Node} {state after : σ}
    (all : pass.transformAll limit depth nodes state = (.ok outs, after)) :
    outs.length = nodes.length := by
  have chain : Pass.Chain (fun _ _ _ _ => True) nodes state outs after :=
    Pass.transformAll_ok (fun _ => trivial) all
  exact chain.length_eq

/-- Taking up the visit of a node leads where the recursion leads. -/
theorem Leads.visit (room depth : Nat) (levels : limit - depth = room) (node : Node)
    (rest : List Task) (results : List Node) (state : σ) :
    Leads pass limit root ⟨.visit node :: rest, results, depth, state⟩ depth rest results
      (single (pass.transform limit depth node state)) := by
  -- whatever a visit leaves to be visited lies one level deeper
  induction room generalizing depth node rest results state with
  | zero =>
    have full : limit ≤ depth := by omega
    rw [Pass.transform, if_pos full]
    exact ⟨depth, Nat.le_refl depth, run_finished (by simp only [step, visitStep, if_pos full])⟩
  | succ room ih =>
    have entered : ¬ limit ≤ depth := by omega
    have deeper := ih (depth + 1) (by omega)
    have moves : step pass limit root ⟨.visit node :: rest, results, depth, state⟩ =
        visitStep pass limit node rest results depth state := rfl
    rw [visitStep, if_neg entered] at moves
    rw [Pass.transform, if_neg entered]
    rcases decides : pass.visit (depth + 1) node state with ⟨e | visit, after⟩
    · rw [decides] at moves
      exact ⟨depth + 1, by omega, run_finished moves⟩
    rw [decides] at moves
    cases visit with
    | done out => exact run_running moves
    | replace next =>
      have below := deeper next (.replaced node :: rest) results after
      simp only at moves ⊢
      rcases result : pass.transform limit (depth + 1) next after with ⟨e | out, final⟩
      · rw [result] at below
        obtain ⟨deep, bound, ends⟩ := below
        exact ⟨deep, by omega, (run_running moves).trans ends⟩
      · rw [result] at below
        exact (run_running moves).trans (below.trans (run_running rfl))
    | descend =>
      simp only at moves ⊢
      rcases kids : node.expr.children with _ | ⟨first, others⟩
      · rw [kids] at moves
        rw [Pass.transformAll]
        simp only [pass.rebuild_leaf kids]
        exact run_running moves
      · rw [kids] at moves
        have below :=
          Leads.visits deeper (first :: others) (.rebuild node (others.length + 1) :: rest) results
            after
        rcases all : pass.transformAll limit (depth + 1) (first :: others) after with
          ⟨e | outs, final⟩
        · rw [all] at below
          obtain ⟨deep, bound, ends⟩ := below
          exact ⟨deep, by omega, (run_running moves).trans ends⟩
        · rw [all] at below
          have length : others.length + 1 = outs.reverse.length := by
            rw [List.length_reverse, transformAll_length all, List.length_cons]
          -- the results of the children are the ones that the rebuilding takes off the top
          have rebuilds : step pass limit root ⟨.rebuild node (others.length + 1) :: rest,
              outs.reverse ++ results, depth + 1, final⟩ =
                .running ⟨rest, (pass.rebuild node outs final).1 :: results, depth,
                  (pass.rebuild node outs final).2⟩ := by
            simp only [step, length, List.take_left, List.drop_left, List.reverse_reverse,
              Nat.add_sub_cancel]
          exact (run_running moves).trans (below.trans (run_running rebuilds))

end WorkList

namespace Pass

/-- A run comes to what the recursion comes to, and ends at the depth it started from. -/
theorem run_eq_transform (pass : Pass σ) (limit depth : Nat) (root : Node) (state : σ) :
    pass.run limit depth root state =
      ⟨(pass.transform limit depth root state).1, depth,
        (pass.transform limit depth root state).2⟩ := by
  have leads : WorkList.Leads pass limit root ⟨[.visit root], [], depth, state⟩ depth [] []
      (WorkList.single (pass.transform limit depth root state)) :=
    WorkList.Leads.visit _ depth rfl root [] [] state
  rw [run]
  rcases result : pass.transform limit depth root state with ⟨e | out, after⟩
  · rw [result] at leads
    obtain ⟨deep, bound, ends⟩ := leads
    simp only [ends, Nat.min_eq_right bound]
  · rw [result] at leads
    have ends : WorkList.run pass limit root ⟨[], [out], depth, after⟩ = ⟨.ok out, depth, after⟩ :=
      WorkList.run_finished rfl
    have whole : WorkList.run pass limit root ⟨[.visit root], [], depth, state⟩ =
        ⟨.ok out, depth, after⟩ := leads.trans ends
    simp only [whole]

end Pass

/-- A call that is made of a pass: what it is given, the depth it is made at, and the state of the
pass at that time. -/
inductive PassCall (σ : Type) where
  | visit (depth : Nat) (node : Node) (state : σ)
  | replaced (depth : Nat) (node output : Node) (state : σ)

namespace Pass

/-- The pass that notes the calls made of it, latest first, and does as it did before. -/
def recording (pass : Pass σ) : Pass (σ × List (PassCall σ)) where
  visit := fun depth node (state, calls) =>
    let (decision, after) := pass.visit depth node state
    (decision, after, .visit depth node state :: calls)
  replaced := fun depth node output (state, calls) =>
    (pass.replaced depth node output state, .replaced depth node output state :: calls)
  draw := fun (state, calls) =>
    let (mark, after) := pass.draw state
    (mark, after, calls)

theorem rebuild_recording (pass : Pass σ) (node : Node) (kids : List Node) (state : σ)
    (calls : List (PassCall σ)) :
    pass.recording.rebuild node kids (state, calls) =
      ((pass.rebuild node kids state).1, (pass.rebuild node kids state).2, calls) := by
  simp only [rebuild, recording]
  split <;> rfl

/-- Taking notes changes neither what becomes of a node nor the state. -/
theorem transform_recording (pass : Pass σ) (limit depth : Nat) (node : Node) (state : σ)
    (calls : List (PassCall σ)) :
    ∃ noted, pass.recording.transform limit depth node (state, calls) =
      ((pass.transform limit depth node state).1, (pass.transform limit depth node state).2,
        noted) := by
  have same : pass.transform limit depth node state =
      ((pass.recording.transform limit depth node (state, calls)).1,
        (pass.recording.transform limit depth node (state, calls)).2.1) :=
    @transform_map _ _ pass.recording pass Prod.fst (fun _ _ _ => rfl) (fun _ _ _ _ => rfl)
      (fun _ => rfl) limit depth node (state, calls)
  exact ⟨_, by rw [same]⟩

/-- The driver and the plain recursion come to the same node or error and leave the pass in the
same state; they make the same calls of the pass, in one order, each at one depth and in one state;
and a run ends at the depth it started from, whether it succeeds or fails. -/
theorem run_refines_recursion (pass : Pass σ) (limit depth : Nat) (root : Node) (state : σ) :
    ∃ outcome after calls,
      pass.transform limit depth root state = (outcome, after) ∧
      pass.recording.transform limit depth root (state, []) = (outcome, after, calls) ∧
      pass.run limit depth root state = ⟨outcome, depth, after⟩ ∧
      pass.recording.run limit depth root (state, []) = ⟨outcome, depth, after, calls⟩ := by
  obtain ⟨calls, noted⟩ := transform_recording pass limit depth root state []
  refine ⟨_, _, calls, rfl, noted, run_eq_transform .., ?_⟩
  rw [run_eq_transform, noted]

end Pass

end TypedTrees
