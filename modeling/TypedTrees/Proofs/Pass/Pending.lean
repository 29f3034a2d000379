import Mathlib.Logic.Relation
import TypedTrees.Proofs.Pass.Reaches
/-!
What the driver's two lists hold between two steps. Every task that is pending waits for a node that
has been taken up, and what has been finished for it lies on top of the results
(`WorkList.Awaits`). So a task finds what it takes off the results, and a run is never in want of
a default (`WorkList.Orderly.not_fallsBack`).
-/
namespace TypedTrees

namespace WorkList

variable {σ : Type}

/-- Every task but a visit closes a level that has been entered. -/
def Task.closes : Task → Bool
  | .visit _ => false
  | _ => true

/-- How many levels the tasks are still to close. -/
def openLevels (tasks : List Task) : Nat := tasks.countP Task.closes

theorem openLevels_visits (nodes : List Node) (rest : List Task) :
    openLevels (nodes.map .visit ++ rest) = openLevels rest := by
  induction nodes with
  | nil => rfl
  | cons node nodes ih => exact ih

theorem openLevels_closing {task : Task} (closes : task.closes = true) (rest : List Task) :
    openLevels (task :: rest) = openLevels rest + 1 :=
  List.countP_cons_of_pos closes

/-- The next step would have to make up for something that is missing: results to put a node
together from, a tree for one of its children, the result of a replacement, a level to leave, or the
result of the run. -/
inductive FallsBack : Config σ → Prop
  | results {node : Node} {count : Nat} {rest : List Task} {results : List Node} {depth : Nat}
      {state : σ} (few : results.length < count) :
      FallsBack ⟨.rebuild node count :: rest, results, depth, state⟩
  | child {node : Node} {count : Nat} {rest : List Task} {results : List Node} {depth : Nat}
      {state : σ} (few : (results.take count).length < node.expr.children.length) :
      FallsBack ⟨.rebuild node count :: rest, results, depth, state⟩
  | replacement {node : Node} {rest : List Task} {depth : Nat} {state : σ} :
      FallsBack ⟨.replaced node :: rest, [], depth, state⟩
  | level {task : Task} {rest : List Task} {results : List Node} {state : σ}
      (closes : task.closes = true) : FallsBack ⟨task :: rest, results, 0, state⟩
  | result {depth : Nat} {state : σ} : FallsBack ⟨[], [], depth, state⟩

/-- `Awaits pass bound start root first node state rest results depth` when the run takes up a node
at this depth in this state, with this rest of its tasks and these results below. What has been done
before is told by the recursion under `bound`. -/
inductive Awaits (pass : Pass σ) (bound start : Nat) (root : Node) (first : σ) :
    Node → σ → List Task → List Node → Nat → Prop
  | root : Awaits pass bound start root first root first [] [] start
  | child {node kid : Node} {before others outs : List Node} {state middle after : σ}
      {rest : List Task} {results : List Node} {depth : Nat}
      (parent : Awaits pass bound start root first node state rest results depth)
      (entered : depth < bound)
      (decides : pass.visit (depth + 1) node state = (.ok .descend, middle))
      (children : node.expr.children = before ++ kid :: others)
      (earlier : pass.transformAll bound (depth + 1) before middle = (.ok outs, after)) :
      Awaits pass bound start root first kid after
        (others.map .visit ++ .rebuild node node.expr.children.length :: rest)
        (outs.reverse ++ results) (depth + 1)
  | replacement {node next : Node} {state after : σ} {rest : List Task} {results : List Node}
      {depth : Nat} (parent : Awaits pass bound start root first node state rest results depth)
      (entered : depth < bound)
      (decides : pass.visit (depth + 1) node state = (.ok (.replace next), after)) :
      Awaits pass bound start root first next after (.replaced node :: rest) results (depth + 1)

/-- Where a run stands: it is about to visit a node, or to put one together from what has become of
its children, or to note what has become of the tree given in place of one, or it is over. -/
inductive Stage (pass : Pass σ) (bound start : Nat) (root : Node) (first : σ) : Config σ → Prop
  | visit {node : Node} {state : σ} {rest : List Task} {results : List Node} {depth : Nat}
      (awaits : Awaits pass bound start root first node state rest results depth) :
      Stage pass bound start root first ⟨.visit node :: rest, results, depth, state⟩
  | rebuild {node : Node} {kids : List Node} {state middle after : σ} {rest : List Task}
      {results : List Node} {depth : Nat}
      (awaits : Awaits pass bound start root first node state rest results depth)
      (entered : depth < bound)
      (decides : pass.visit (depth + 1) node state = (.ok .descend, middle))
      (all : pass.transformAll bound (depth + 1) node.expr.children middle = (.ok kids, after)) :
      Stage pass bound start root first
        ⟨.rebuild node node.expr.children.length :: rest, kids.reverse ++ results, depth + 1, after⟩
  | replaced {node next out : Node} {state middle after : σ} {rest : List Task}
      {results : List Node} {depth : Nat}
      (awaits : Awaits pass bound start root first node state rest results depth)
      (entered : depth < bound)
      (decides : pass.visit (depth + 1) node state = (.ok (.replace next), middle))
      (done : pass.transform bound (depth + 1) next middle = (.ok out, after)) :
      Stage pass bound start root first
        ⟨.replaced node :: rest, out :: results, depth + 1, after⟩
  | ended {out : Node} {after : σ}
      (done : pass.transform bound start root first = (.ok out, after)) :
      Stage pass bound start root first ⟨[], [out], start, after⟩

section

variable {pass : Pass σ} {bound start : Nat} {root : Node} {first : σ}

/-- Once the node that the run has taken up is done, the next of its siblings is taken up, or the
task that has waited for it is next. -/
theorem Awaits.done {node out : Node} {state after : σ} {rest : List Task} {results : List Node}
    {depth : Nat} (awaits : Awaits pass bound start root first node state rest results depth)
    (done : pass.transform bound depth node state = (.ok out, after)) :
    Stage pass bound start root first ⟨rest, out :: results, depth, after⟩ := by
  cases awaits with
  | root => exact .ended done
  | replacement parent entered decides => exact .replaced parent entered decides done
  | @child parentNode _ before others outs _ middle _ rest results depth parent entered decides
      children earlier =>
    have onward : pass.transformAll bound (depth + 1) (before ++ [node]) middle =
        (.ok (outs ++ [out]), after) := by
      rw [Pass.transformAll_append, earlier]
      simp only [Pass.transformAll, done]
    have stacked : out :: (outs.reverse ++ results) = (outs ++ [out]).reverse ++ results := by
      rw [List.reverse_append, List.reverse_singleton, List.singleton_append, List.cons_append]
    rw [stacked]
    cases others with
    | nil => exact .rebuild parent entered decides (children ▸ onward)
    | cons next others =>
      refine .visit (.child parent entered decides ?_ onward)
      rw [children, List.append_assoc, List.singleton_append]

/-- A step leads from one stage to another, under any limit up to `bound`. -/
theorem Stage.follows {c c' : Config σ} (stage : Stage pass bound start root first c)
    (moves : Follows pass bound root c' c) : Stage pass bound start root first c' := by
  obtain ⟨limit, under, moves⟩ := moves
  cases stage with
  | ended done => cases moves
  | @visit node state rest results depth awaits =>
    simp only [step, visitStep] at moves
    by_cases full : limit ≤ depth
    · rw [if_pos full] at moves
      cases moves
    rw [if_neg full] at moves
    have entered : depth < bound := by omega
    have transformed := pass.transform_entered entered node state
    rcases decides : pass.visit (depth + 1) node state with ⟨e | decision, middle⟩
    · rw [decides] at moves
      cases moves
    rw [decides] at moves transformed
    cases decision with
    | done out =>
      cases moves
      exact awaits.done transformed
    | replace next =>
      cases moves
      exact .visit (.replacement awaits entered decides)
    | descend =>
      simp only at moves
      rcases kids : node.expr.children with _ | ⟨kid, others⟩
      · rw [kids] at moves
        cases moves
        refine awaits.done (transformed.trans ?_)
        simp only [onward, Pass.carryOut, kids, Pass.transformAll, pass.rebuild_leaf kids]
      · rw [kids] at moves
        cases moves
        have count : others.length + 1 = node.expr.children.length := by
          rw [kids, List.length_cons]
        have none : pass.transformAll bound (depth + 1) [] middle = (.ok [], middle) := by
          rw [Pass.transformAll]
        rw [count]
        exact .visit (.child awaits entered decides kids none)
  | @rebuild node kids state middle after rest results depth awaits entered decides all =>
    have count : node.expr.children.length = kids.reverse.length := by
      rw [List.length_reverse, transformAll_length all]
    simp only [step, count, List.take_left, List.drop_left, List.reverse_reverse] at moves
    cases moves
    refine awaits.done ?_
    simp only [pass.transform_entered entered, decides, onward, Pass.carryOut, all]
  | @replaced node next out state middle after rest results depth awaits entered decides done =>
    cases moves
    refine awaits.done ?_
    simp only [pass.transform_entered entered, decides, onward, Pass.carryOut, done]
    rfl

theorem Awaits.level {node : Node} {state : σ} {rest : List Task} {results : List Node}
    {depth : Nat} (awaits : Awaits pass bound start root first node state rest results depth) :
    depth = start + openLevels rest := by
  induction awaits with
  | root => rfl
  | child _ _ _ _ _ ih =>
    rw [openLevels_visits, openLevels_closing rfl, ih]
    rfl
  | replacement _ _ _ ih =>
    rw [openLevels_closing rfl, ih]
    rfl

end

/-- What a run from `root` may count on at each step. The depth is above where it has started by one
for each task that closes a level. What is taken off the results to put a node together is what has
become of its children, one for each, in order; what is on top when a replacement is noted has
become of the tree that was given; and at the end there is the one result. -/
structure Orderly (pass : Pass σ) (bound start : Nat) (root : Node) (first : σ) (c : Config σ) :
    Prop where
  level : c.depth = start + openLevels c.tasks
  rebuild : ∀ node count rest, c.tasks = .rebuild node count :: rest →
    ∃ kids below before middle, c.results = kids.reverse ++ below ∧ kids.length = count ∧
      count = node.expr.children.length ∧
      pass.visit c.depth node before = (.ok .descend, middle) ∧
      pass.transformAll bound c.depth node.expr.children middle = (.ok kids, c.state)
  replaced : ∀ node rest, c.tasks = .replaced node :: rest →
    ∃ out below before middle next, c.results = out :: below ∧
      pass.visit c.depth node before = (.ok (.replace next), middle) ∧
      pass.transform bound c.depth next middle = (.ok out, c.state)
  ended : c.tasks = [] → ∃ out, c.results = [out] ∧
    pass.transform bound start root first = (.ok out, c.state)

variable {pass : Pass σ} {bound start : Nat} {root : Node} {first : σ} {c : Config σ}

theorem Stage.orderly (stage : Stage pass bound start root first c) :
    Orderly pass bound start root first c := by
  cases stage with
  | visit awaits => exact ⟨awaits.level, nofun, nofun, nofun⟩
  | @rebuild node kids state middle after rest results depth awaits entered decides all =>
    refine ⟨?_, ?_, nofun, nofun⟩
    · rw [openLevels_closing rfl, ← Nat.add_assoc, ← awaits.level]
    · rintro _ _ _ ⟨⟩
      exact ⟨kids, results, state, middle, rfl, transformAll_length all, rfl, decides, all⟩
  | @replaced node next out state middle after rest results depth awaits entered decides done =>
    refine ⟨?_, nofun, ?_, nofun⟩
    · rw [openLevels_closing rfl, ← Nat.add_assoc, ← awaits.level]
    · rintro _ _ ⟨⟩
      exact ⟨out, results, state, middle, next, rfl, decides, done⟩
  | @ended out after done => exact ⟨rfl, nofun, nofun, fun _ => ⟨out, rfl, done⟩⟩

theorem Orderly.not_fallsBack (orderly : Orderly pass bound start root first c) : ¬FallsBack c := by
  intro falls
  cases falls with
  | results few =>
    obtain ⟨kids, below, _, _, stacked, count, -⟩ := orderly.rebuild _ _ _ rfl
    simp only at stacked
    rw [stacked, List.length_append, List.length_reverse, count] at few
    omega
  | child few =>
    obtain ⟨kids, below, _, _, stacked, count, children, -⟩ := orderly.rebuild _ _ _ rfl
    simp only at stacked
    rw [stacked, List.length_take, List.length_append, List.length_reverse, count, children] at few
    omega
  | replacement =>
    obtain ⟨out, below, _, _, _, stacked, -⟩ := orderly.replaced _ _ rfl
    cases stacked
  | level closes =>
    have level := orderly.level
    rw [openLevels_closing closes] at level
    cases level
  | result =>
    obtain ⟨out, stacked, -⟩ := orderly.ended rfl
    cases stacked

/-- Every configuration that a run comes through is orderly, even if the limit changes on the way
but stays under `bound`. -/
theorem orderly_of_reached
    (reaches : Relation.ReflTransGen (fun c c' => Follows pass bound root c' c)
      ⟨[.visit root], [], start, first⟩ c) :
    Orderly pass bound start root first c := by
  have stage : Stage pass bound start root first c := by
    induction reaches with
    | refl => exact .visit .root
    | tail _ moves ih => exact ih.follows moves
  exact stage.orderly

end WorkList

end TypedTrees
