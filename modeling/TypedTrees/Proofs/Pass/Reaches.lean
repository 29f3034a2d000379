import TypedTrees.Proofs.Pass.Outcome
import TypedTrees.Proofs.Pass.Refinement
/-!
The visits of a pass and where they stand. `Pass.Reaches` tells every node that a run takes up, with
its depth, the state it is taken up in, and the lambdas it stands inside. Every call that a run
makes of its pass is about such a node (`Pass.isReached_of_run`), and what the operations of the
pass respect relates the first state to the state of a visit and that to the last state
(`Pass.Reaches.between`).
-/
namespace TypedTrees

/-- The parameters that a node binds in its children, as one list for each lambda. -/
def Expr.opened : Expr → List (List Parameter)
  | .lambda l => [l.params]
  | _ => []

namespace Pass

variable {σ : Type}

/-- The nodes that a run from `root` takes up one level below `depth`. `scope` lists the parameters
of the lambdas that the node stands inside, innermost first. -/
inductive Reaches (pass : Pass σ) (limit start : Nat) (root : Node) (first : σ) :
    Nat → List (List Parameter) → Node → σ → Prop
  | root : Reaches pass limit start root first start [] root first
  | replaced {depth : Nat} {scope : List (List Parameter)} {node next : Node} {state after : σ}
      (reach : Reaches pass limit start root first depth scope node state) (entered : depth < limit)
      (decides : pass.visit (depth + 1) node state = (.ok (.replace next), after)) :
      Reaches pass limit start root first (depth + 1) scope next after
  | child {depth : Nat} {scope : List (List Parameter)} {node child : Node} {state middle after : σ}
      {before rest outs : List Node}
      (reach : Reaches pass limit start root first depth scope node state) (entered : depth < limit)
      (decides : pass.visit (depth + 1) node state = (.ok .descend, middle))
      (children : node.expr.children = before ++ child :: rest)
      (earlier : pass.transformAll limit (depth + 1) before middle = (.ok outs, after)) :
      Reaches pass limit start root first (depth + 1) (node.expr.opened ++ scope) child after

/-- The call is about a node that the run takes up: at a visit in the very state, and when a node is
noted as replaced in some earlier state. -/
def IsReached (pass : Pass σ) (limit start : Nat) (root : Node) (first : σ) : PassCall σ → Prop
  | .visit depth node state =>
    ∃ above scope, depth = above + 1 ∧ Reaches pass limit start root first above scope node state
  | .replaced depth node _ _ =>
    ∃ scope state, Reaches pass limit start root first depth scope node state

variable {pass : Pass σ} {limit start : Nat} {root : Node} {first : σ}

theorem transformAll_append (depth : Nat) (before rest : List Node) (state : σ) :
    pass.transformAll limit depth (before ++ rest) state =
      match pass.transformAll limit depth before state with
      | (.error e, after) => (.error e, after)
      | (.ok outs, after) =>
        match pass.transformAll limit depth rest after with
        | (.error e, last) => (.error e, last)
        | (.ok more, last) => (.ok (outs ++ more), last) := by
  induction before generalizing state with
  | nil =>
    simp only [List.nil_append, transformAll]
    rcases pass.transformAll limit depth rest state with ⟨e | outs, after⟩ <;> rfl
  | cons node before ih =>
    rw [List.cons_append, transformAll, transformAll]
    rcases pass.transform limit depth node state with ⟨e | out, middle⟩
    · rfl
    · simp only [ih middle]
      rcases pass.transformAll limit depth before middle with ⟨e | outs, after⟩
      · rfl
      · simp only
        rcases pass.transformAll limit depth rest after with ⟨e | more, last⟩ <;> rfl

theorem transformAll_isReached {depth : Nat} {scope : List (List Parameter)} {node : Node}
    {state middle : σ} (reach : Reaches pass limit start root first depth scope node state)
    (entered : depth < limit)
    (decides : pass.visit (depth + 1) node state = (.ok .descend, middle))
    (one : ∀ {scope node state calls call},
      Reaches pass limit start root first (depth + 1) scope node state →
      call ∈ (pass.recording.transform limit (depth + 1) node (state, calls)).2.2 →
      call ∈ calls ∨ IsReached pass limit start root first call)
    {before rest outs : List Node} {after : σ}
    (children : node.expr.children = before ++ rest)
    (earlier : pass.transformAll limit (depth + 1) before middle = (.ok outs, after))
    {calls : List (PassCall σ)} {call : PassCall σ}
    (made : call ∈ (pass.recording.transformAll limit (depth + 1) rest (after, calls)).2.2) :
    call ∈ calls ∨ IsReached pass limit start root first call := by
  -- `before` are the children that are done, from the first on
  induction rest generalizing before outs after calls with
  | nil =>
    rw [transformAll] at made
    exact .inl made
  | cons child rest ih =>
    have here : Reaches pass limit start root first (depth + 1) (node.expr.opened ++ scope) child
        after := .child reach entered decides children earlier
    obtain ⟨noted, same⟩ := transform_recording pass limit (depth + 1) child after calls
    have atChild := @one _ child after calls call here
    rw [transformAll, same] at made
    rw [same] at atChild
    rcases kid : pass.transform limit (depth + 1) child after with ⟨e | out, next⟩
    · rw [kid] at made
      exact atChild made
    · rw [kid] at made
      have onward : pass.transformAll limit (depth + 1) (before ++ [child]) middle =
          (.ok (outs ++ [out]), next) := by
        rw [transformAll_append, earlier]
        simp only [transformAll, kid]
      have later := @ih (before ++ [child]) (outs ++ [out]) next (by simp [children]) onward noted
      simp only at made
      rcases others : pass.recording.transformAll limit (depth + 1) rest (next, noted) with
        ⟨e | outs, last⟩
      all_goals
        rw [others] at made later
        rcases later made with inNoted | reached
        · exact atChild inNoted
        · exact .inr reached

/-- The calls made for a node that is reached are about nodes that are reached. -/
theorem transform_isReached {depth : Nat} {scope : List (List Parameter)} {node : Node} {state : σ}
    (reach : Reaches pass limit start root first depth scope node state)
    {calls : List (PassCall σ)} {call : PassCall σ}
    (made : call ∈ (pass.recording.transform limit depth node (state, calls)).2.2) :
    call ∈ calls ∨ IsReached pass limit start root first call := by
  induction levels : limit - depth generalizing depth scope node state calls call with
  | zero =>
    rw [transform, if_pos (by omega)] at made
    exact .inl made
  | succ room ih =>
    have entered : depth < limit := by omega
    have here : IsReached pass limit start root first (.visit (depth + 1) node state) :=
      ⟨depth, scope, rfl, reach⟩
    have onward : call ∈ PassCall.visit (depth + 1) node state :: calls ∨
        IsReached pass limit start root first call →
          call ∈ calls ∨ IsReached pass limit start root first call := by
      rintro (member | reached)
      · rcases List.mem_cons.mp member with rfl | before
        · exact .inr here
        · exact .inl before
      · exact .inr reached
    have same : pass.recording.visit (depth + 1) node (state, calls) =
        ((pass.visit (depth + 1) node state).1, (pass.visit (depth + 1) node state).2,
          .visit (depth + 1) node state :: calls) := rfl
    rw [transform, if_neg (by omega), same] at made
    rcases decides : pass.visit (depth + 1) node state with ⟨e | decision, after⟩
    · rw [decides] at made
      exact onward (.inl made)
    rw [decides] at made
    cases decision with
    | done out => exact onward (.inl made)
    | replace next =>
      have below := @ih (depth + 1) scope next after (.replaced reach entered decides)
        (.visit (depth + 1) node state :: calls) call
      simp only at made
      rcases result : pass.recording.transform limit (depth + 1) next
        (after, .visit (depth + 1) node state :: calls) with ⟨e | out, last, noted⟩
      · rw [result] at made below
        exact onward (below made (by omega))
      · rw [result] at made below
        rcases List.mem_cons.mp made with rfl | made
        · exact .inr ⟨scope, state, reach⟩
        · exact onward (below made (by omega))
    | descend =>
      have none : pass.transformAll limit (depth + 1) [] after = (.ok [], after) := by
        rw [transformAll]
      have below := @transformAll_isReached _ pass limit start root first depth scope node state
        after reach entered decides (fun reach made => ih reach made (by omega)) []
        node.expr.children [] after rfl none (.visit (depth + 1) node state :: calls) call
      simp only at made
      rcases all : pass.recording.transformAll limit (depth + 1) node.expr.children
        (after, .visit (depth + 1) node state :: calls) with ⟨e | kids, last, noted⟩
      · rw [all] at made below
        exact onward (below made)
      · rw [all] at made below
        simp only [rebuild_recording] at made
        exact onward (below made)

/-- Every call that the driver makes in a run is about a node that is reached. -/
theorem isReached_of_run {call : PassCall σ}
    (made : call ∈ (pass.recording.run limit start root (first, [])).state.2) :
    IsReached pass limit start root first call := by
  rw [run_eq_transform] at made
  rcases transform_isReached .root made with none | reached
  · cases none
  · exact reached

section Respects

variable {respects : σ → σ → Prop} (refl : ∀ state, respects state state)
  (trans : ∀ {a b c}, respects a b → respects b c → respects a c)
  (visit : ∀ depth node state, respects state (pass.visit depth node state).2)
  (replaced : ∀ depth node out state, respects state (pass.replaced depth node out state))
  (draw : ∀ state, respects state (pass.draw state).2)

include refl trans visit replaced draw

/-- What all operations of a pass respect relates the first state to the state in which a node is
reached, and the state in which that node is done to the last state. -/
theorem Reaches.between {depth : Nat} {scope : List (List Parameter)} {node : Node} {state : σ}
    (reach : Reaches pass limit start root first depth scope node state) :
    respects first state ∧
      respects (pass.transform limit depth node state).2
        (pass.transform limit start root first).2 := by
  have one : ∀ depth node state, respects state (pass.transform limit depth node state).2 :=
    fun depth => transform_respects refl trans visit replaced draw depth
  have all : ∀ depth nodes state, respects state (pass.transformAll limit depth nodes state).2 :=
    fun depth => transformAll_respects refl trans (one depth)
  induction reach with
  | root => exact ⟨refl _, refl _⟩
  | @replaced depth scope node next state after reach entered decides ih =>
    have visited := visit (depth + 1) node state
    rw [decides] at visited
    refine ⟨trans ih.1 visited, trans ?_ ih.2⟩
    rw [transform.eq_def pass limit depth node state, if_neg (by omega), decides]
    simp only
    rcases pass.transform limit (depth + 1) next after with ⟨e | out, last⟩
    · exact refl _
    · exact replaced _ _ _ _
  | @child depth scope node child state middle after before rest outs reach entered decides children
      earlier ih =>
    have visited := visit (depth + 1) node state
    have passed := all (depth + 1) before middle
    rw [decides] at visited
    rw [earlier] at passed
    refine ⟨trans ih.1 (trans visited passed), trans ?_ ih.2⟩
    have onward : respects (pass.transform limit (depth + 1) child after).2
        (pass.transformAll limit (depth + 1) node.expr.children middle).2 := by
      rw [children, transformAll_append, earlier]
      simp only
      rw [transformAll]
      rcases pass.transform limit (depth + 1) child after with ⟨e | out, next⟩
      · exact refl _
      · have others := all (depth + 1) rest next
        simp only
        rcases there : pass.transformAll limit (depth + 1) rest next with ⟨e | outs, last⟩
        all_goals
          rw [there] at others
          exact others
    rw [transform.eq_def pass limit depth node state, if_neg (by omega), decides]
    simp only
    rcases whole : pass.transformAll limit (depth + 1) node.expr.children middle with
      ⟨e | kids, last⟩
    all_goals rw [whole] at onward
    · exact onward
    · exact trans onward (rebuild_respects refl draw node kids last)

end Respects

end Pass

end TypedTrees
