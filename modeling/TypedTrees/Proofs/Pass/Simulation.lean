import TypedTrees.Proofs.Pass.Outcome
/-!
Two passes side by side. If each operation of one pass comes to the same as that of another, or cuts
the first pass off, then so does a whole run, and a lower limit does nothing but cut off
(`Pass.Simulates.transform`). A pass that is never cut off does the same in all the states that
stand for one state (`Pass.transform_map`).
-/
namespace TypedTrees

variable {α β σ τ : Type}

/-- Of two computations the second comes to the same as the first and leaves a related state, or the
first has failed in a way that cuts it off. -/
inductive Alongside (related : σ → τ → Prop) (cut : Error → σ → τ → Prop) :
    Except Error α × σ → Except Error α × τ → Prop
  | same {outcome : Except Error α} {s : σ} {t : τ} (states : related s t) :
      Alongside related cut (outcome, s) (outcome, t)
  | cut {e : Error} {outcome : Except Error α} {s : σ} {t : τ} (cuts : cut e s t) :
      Alongside related cut (.error e, s) (outcome, t)

theorem Alongside.onward {related : σ → τ → Prop} {cut : Error → σ → τ → Prop}
    {a : Except Error α × σ} {b : Except Error α × τ} {f : α → σ → Except Error β × σ}
    {g : α → τ → Except Error β × τ} (first : Alongside related cut a b)
    (same : ∀ x {s t}, related s t → Alongside related cut (f x s) (g x t))
    (stays : ∀ x {e s t}, cut e s t → cut e s (g x t).2) :
    Alongside related cut (onward a f) (onward b g) := by
  cases first with
  | @same outcome s t states =>
    cases outcome with
    | error e => exact .same states
    | ok x => exact same x states
  | @cut e outcome s t cuts =>
    cases outcome with
    | error _ => exact .cut cuts
    | ok x =>
      have stayed := stays x cuts
      simp only [TypedTrees.onward]
      generalize g x t = result at stayed ⊢
      exact .cut stayed

namespace Pass

/-- The second pass does what the first does, as long as the first is not cut off; and whatever the
second goes on to do then, the first counts as cut off. -/
structure Simulates (related : σ → τ → Prop) (cut : Error → σ → τ → Prop) (short : Pass σ)
    (long : Pass τ) : Prop where
  visit : ∀ depth node {s t}, related s t →
    Alongside related cut (short.visit depth node s) (long.visit depth node t)
  replaced : ∀ depth node out {s t}, related s t →
    related (short.replaced depth node out s) (long.replaced depth node out t)
  draw : ∀ {s t}, related s t →
    (short.draw s).1 = (long.draw t).1 ∧ related (short.draw s).2 (long.draw t).2
  visit_stays : ∀ depth node {e s t}, cut e s t → cut e s (long.visit depth node t).2
  replaced_stays : ∀ depth node out {e s t}, cut e s t → cut e s (long.replaced depth node out t)
  draw_stays : ∀ {e s t}, cut e s t → cut e s (long.draw t).2

namespace Simulates

variable {related : σ → τ → Prop} {cut : Error → σ → τ → Prop} {short : Pass σ} {long : Pass τ}
  {low high : Nat}

theorem transform_stays (sim : Simulates related cut short long) (depth : Nat) (node : Node)
    {e : Error} {s : σ} {t : τ} : cut e s t → cut e s (long.transform high depth node t).2 :=
  @transform_respects τ long high (fun t t' => cut e s t → cut e s t') (fun _ => id)
    (fun first second => second ∘ first) (fun depth node _ => sim.visit_stays depth node)
    (fun depth node out _ => sim.replaced_stays depth node out) (fun _ => sim.draw_stays) depth node
    t

theorem transformAll_stays (sim : Simulates related cut short long) (depth : Nat)
    (nodes : List Node) {e : Error} {s : σ} {t : τ} :
    cut e s t → cut e s (long.transformAll high depth nodes t).2 :=
  @transformAll_respects τ long high (fun t t' => cut e s t → cut e s t') (fun _ => id)
    (fun first second => second ∘ first) depth (fun node _ => sim.transform_stays depth node) nodes
    t

theorem rebuild_stays (sim : Simulates related cut short long) (node : Node) (kids : List Node)
    {e : Error} {s : σ} {t : τ} : cut e s t → cut e s (long.rebuild node kids t).2 :=
  @rebuild_respects τ long (fun t t' => cut e s t → cut e s t') (fun _ => id)
    (fun _ => sim.draw_stays) node kids t

theorem rebuild (sim : Simulates related cut short long) (node : Node) (kids : List Node) {s : σ}
    {t : τ} (states : related s t) :
    (short.rebuild node kids s).1 = (long.rebuild node kids t).1 ∧
      related (short.rebuild node kids s).2 (long.rebuild node kids t).2 := by
  obtain ⟨mark, after⟩ := sim.draw states
  simp only [Pass.rebuild]
  split
  · exact ⟨rfl, states⟩
  · exact ⟨by rw [mark], after⟩

theorem transformAll {depth : Nat} (sim : Simulates related cut short long)
    (one : ∀ node {s t}, related s t → Alongside related cut (short.transform low depth node s)
      (long.transform high depth node t)) (nodes : List Node) {s : σ} {t : τ}
    (states : related s t) :
    Alongside related cut (short.transformAll low depth nodes s)
      (long.transformAll high depth nodes t) := by
  induction nodes generalizing s t with
  | nil =>
    rw [Pass.transformAll, Pass.transformAll]
    exact .same states
  | cons node nodes ih =>
    rw [transformAll_cons, transformAll_cons]
    refine (one node states).onward (fun out s t states => ?_) fun out e s t cuts => ?_
    · exact (ih states).onward (fun _ _ _ => .same) fun _ _ _ _ => id
    · exact onward_keeps (sim.transformAll_stays depth nodes cuts) fun _ _ => id

/-- A run of the second pass comes to the same as a run of the first under a lower limit, unless the
first is cut off. -/
theorem transform (sim : Simulates related cut short long) (limits : low ≤ high)
    (trips : low < high → ∀ {s t}, related s t → cut (.recursionLimit low) s t) (depth : Nat)
    (node : Node) {s : σ} {t : τ} (states : related s t) :
    Alongside related cut (short.transform low depth node s)
      (long.transform high depth node t) := by
  induction levels : low - depth generalizing depth node s t with
  | zero =>
    rw [Pass.transform, if_pos (by omega)]
    rcases Nat.eq_or_lt_of_le limits with equal | lower
    · rw [Pass.transform, if_pos (by omega), equal]
      exact .same states
    · have stays : cut (.recursionLimit low) s (long.transform high depth node t).2 :=
        sim.transform_stays depth node (trips lower states)
      generalize long.transform high depth node t = result at stays ⊢
      exact .cut stays
  | succ room ih =>
    rw [transform_entered short (by omega), transform_entered long (by omega)]
    refine (sim.visit (depth + 1) node states).onward (fun decision s t states => ?_)
      fun decision e s t cuts => ?_
    · cases decision with
      | done out => exact .same states
      | replace next =>
        refine (ih (depth + 1) next states (by omega)).onward (fun out s t states => ?_)
          fun out e s t cuts => sim.replaced_stays depth node out cuts
        exact .same (sim.replaced depth node out states)
      | descend =>
        refine (sim.transformAll (fun node _ _ states => ih (depth + 1) node states (by omega))
          node.expr.children states).onward (fun kids s t states => ?_)
          fun kids e s t cuts => sim.rebuild_stays node kids cuts
        obtain ⟨out, after⟩ := sim.rebuild node kids states
        rw [out]
        exact .same after
    · cases decision with
      | done out => exact cuts
      | replace next =>
        exact onward_keeps (sim.transform_stays (depth + 1) next cuts)
          fun out _ => sim.replaced_stays depth node out
      | descend =>
        exact onward_keeps (sim.transformAll_stays (depth + 1) node.expr.children cuts)
          fun kids _ => sim.rebuild_stays node kids

end Simulates

/-- A pass that does in the states `f` makes what another does in its own comes to the same in them,
and ends in the state that `f` makes of where the other ends. -/
theorem transform_map {p : Pass σ} {q : Pass τ} {f : σ → τ}
    (visit : ∀ depth node s,
      q.visit depth node (f s) = ((p.visit depth node s).1, f (p.visit depth node s).2))
    (replaced : ∀ depth node out s,
      q.replaced depth node out (f s) = f (p.replaced depth node out s))
    (draw : ∀ s, q.draw (f s) = ((p.draw s).1, f (p.draw s).2)) (limit depth : Nat) (node : Node)
    (s : σ) :
    q.transform limit depth node (f s) =
      ((p.transform limit depth node s).1, f (p.transform limit depth node s).2) := by
  have sim : Simulates (fun s t => t = f s) (fun _ _ _ => False) p q := by
    refine ⟨fun depth node s t states => ?_, fun depth node out s t states => ?_,
      fun {s t} states => ?_, fun _ _ _ _ _ => id, fun _ _ _ _ _ _ => id, id⟩
    · rw [states, visit]
      exact .same rfl
    · rw [states, replaced]
    · rw [states, draw]
      exact ⟨rfl, rfl⟩
  have together := sim.transform (Nat.le_refl limit)
    (fun lower => absurd lower (Nat.lt_irrefl limit)) depth node (rfl : f s = f s)
  generalize p.transform limit depth node s = a at together ⊢
  generalize q.transform limit depth node (f s) = b at together ⊢
  cases together with
  | same states => rw [states]
  | cut cuts => exact cuts.elim

end Pass

end TypedTrees
