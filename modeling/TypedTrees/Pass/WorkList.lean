import TypedTrees.Pass.Basic
/-!
The driver of passes. Pending work and partial results are lists of their own, so the depth that a
pass can reach is bounded by its limit alone. Every run ends, whatever the pass decides, and even if
the limit changes on the way but stays under some bound: a visit at some depth leaves behind only
finitely many visits, all one level deeper, and none goes deeper than the bound
(`WorkList.wellFounded_follows`).
-/
namespace TypedTrees

namespace WorkList

variable {σ : Type}

inductive Task where
  | visit (node : Node)
  /-- Take this many results off the top and put the node together from them. -/
  | rebuild (node : Node) (count : Nat)
  /-- What came of the tree given in place of this node is on top of the results. -/
  | replaced (node : Node)

/-- The pending work, next task first; the results, latest first; the depth; the pass's state. -/
structure Config (σ : Type) where
  tasks : List Task
  results : List Node
  depth : Nat
  state : σ

inductive Progress (σ : Type) where
  | running (config : Config σ)
  | finished (result : PassResult σ)

/-- A visit: one level is entered, and the pass decides what happens to the node. A node without
children is left again at once. -/
def visitStep (pass : Pass σ) (limit : Nat) (node : Node) (rest : List Task) (results : List Node)
    (depth : Nat) (state : σ) : Progress σ :=
  if limit ≤ depth then .finished ⟨.error (.recursionLimit limit), depth, state⟩
  else
    match pass.visit (depth + 1) node state with
    | (.error e, state) => .finished ⟨.error e, depth + 1, state⟩
    | (.ok (.done out), state) => .running ⟨rest, out :: results, depth, state⟩
    | (.ok (.replace next), state) =>
      .running ⟨.visit next :: .replaced node :: rest, results, depth + 1, state⟩
    | (.ok .descend, state) =>
      match node.expr.children with
      | [] => .running ⟨rest, node :: results, depth, state⟩
      | kid :: kids =>
        .running ⟨(kid :: kids).map .visit ++ .rebuild node (kids.length + 1) :: rest, results,
          depth + 1, state⟩

/-- One step: the next task is done. `root` is the tree that the run started from. -/
def step (pass : Pass σ) (limit : Nat) (root : Node) (c : Config σ) : Progress σ :=
  match c.tasks with
  | [] => .finished ⟨.ok (c.results.headD root), c.depth, c.state⟩
  | .visit node :: rest => visitStep pass limit node rest c.results c.depth c.state
  | .rebuild node count :: rest =>
    let (out, state) := pass.rebuild node (c.results.take count).reverse c.state
    .running ⟨rest, out :: c.results.drop count, c.depth - 1, state⟩
  | .replaced node :: rest =>
    match c.results with
    | [] => .running ⟨rest, [], c.depth - 1, c.state⟩
    | out :: results =>
      .running ⟨rest, out :: results, c.depth - 1, pass.replaced (c.depth - 1) node out c.state⟩

/-- `Follows pass bound root c' c` when `c'` is the configuration one step after `c`, under any
limit up to `bound`. -/
def Follows (pass : Pass σ) (bound : Nat) (root : Node) (c' c : Config σ) : Prop :=
  ∃ limit ≤ bound, step pass limit root c = .running c'

/-- These tasks, taken up at this depth, come to an end with any results and in any state. -/
def Halts (pass : Pass σ) (bound : Nat) (root : Node) (tasks : List Task) (depth : Nat) : Prop :=
  ∀ results state, Acc (Follows pass bound root) ⟨tasks, results, depth, state⟩

variable {pass : Pass σ} {bound : Nat} {root : Node}

theorem Halts.nil (depth : Nat) : Halts pass bound root [] depth := fun _ _ =>
  .intro _ fun _ ⟨_, _, moves⟩ => nomatch moves

theorem Halts.rebuild {node : Node} {count depth : Nat} {rest : List Task}
    (h : Halts pass bound root rest (depth - 1)) :
    Halts pass bound root (.rebuild node count :: rest) depth := fun _ _ =>
  .intro _ fun _ ⟨_, _, moves⟩ => by
    simp only [step, Progress.running.injEq] at moves
    subst moves
    exact h _ _

theorem Halts.replaced {node : Node} {depth : Nat} {rest : List Task}
    (h : Halts pass bound root rest (depth - 1)) :
    Halts pass bound root (.replaced node :: rest) depth := fun results _ =>
  .intro _ fun _ ⟨_, _, moves⟩ => by
    cases results <;>
    · simp only [step, Progress.running.injEq] at moves
      subst moves
      exact h _ _

theorem Halts.visits {depth : Nat} {rest : List Task}
    (one : ∀ node rest, Halts pass bound root rest depth →
      Halts pass bound root (.visit node :: rest) depth)
    (h : Halts pass bound root rest depth) (nodes : List Node) :
    Halts pass bound root (nodes.map .visit ++ rest) depth := by
  induction nodes with
  | nil => exact h
  | cons node nodes ih => exact one node _ ih

theorem Halts.visit (room : Nat) : ∀ {depth : Nat}, bound - depth = room → ∀ node rest,
    Halts pass bound root rest depth → Halts pass bound root (.visit node :: rest) depth := by
  induction room with
  | zero =>
    intro depth eq node rest _ results state
    refine .intro _ fun c' ⟨limit, under, moves⟩ => ?_
    simp only [step, visitStep] at moves
    rw [if_pos (by omega)] at moves
    cases moves
  | succ room ih =>
    intro depth eq node rest h results state
    have deeper := @ih (depth + 1) (by omega)
    refine .intro _ fun c' ⟨limit, under, moves⟩ => ?_
    simp only [step, visitStep] at moves
    split at moves
    · cases moves
    · split at moves
      · cases moves
      · cases moves
        exact h _ _
      · cases moves
        exact deeper _ _ (.replaced h) _ _
      · split at moves
        · cases moves
          exact h _ _
        · cases moves
          exact Halts.visits deeper (.rebuild h) (_ :: _) _ _

/-- Any work comes to an end. -/
theorem Halts.all (tasks : List Task) : ∀ depth, Halts pass bound root tasks depth := by
  induction tasks with
  | nil => exact .nil
  | cons task rest ih =>
    intro depth
    cases task with
    | visit node => exact .visit _ rfl node rest (ih depth)
    | rebuild node count => exact .rebuild (ih _)
    | replaced node => exact .replaced (ih _)

/-- The driver never runs forever: not even a pass that replaces every node it sees has an infinite
run. -/
theorem wellFounded_follows (pass : Pass σ) (bound : Nat) (root : Node) :
    WellFounded (Follows pass bound root) :=
  ⟨fun c => Halts.all c.tasks c.depth c.results c.state⟩

/-- Steps until the work is done. -/
def run (pass : Pass σ) (limit : Nat) (root : Node) (c : Config σ) : PassResult σ :=
  match _moves : step pass limit root c with
  | .finished result => result
  | .running c' => run pass limit root c'
termination_by (wellFounded_follows pass limit root).wrap c
decreasing_by exact ⟨limit, Nat.le_refl limit, _moves⟩

end WorkList

/-- Carries out a pass on `root`, one level deeper than `depth`. After an error the depth is back
where the pass started. -/
def Pass.run {σ : Type} (pass : Pass σ) (limit depth : Nat) (root : Node) (state : σ) :
    PassResult σ :=
  let result := WorkList.run pass limit root ⟨[.visit root], [], depth, state⟩
  match result.outcome with
  | .ok _ => result
  | .error _ => { result with depth := min result.depth depth }

end TypedTrees
