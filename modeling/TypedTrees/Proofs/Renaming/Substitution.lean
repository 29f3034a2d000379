import TypedTrees.Proofs.Pass.Refinement
import TypedTrees.Proofs.Renaming.Tree
import TypedTrees.Proofs.Substitution.Exact
/-!
Passes over renamed trees, and substitution in them. If a pass decides at renamed nodes as another
does at the nodes themselves, then it makes the renamed tree of what the other makes, and fails
where the other fails (`Pass.Renamed.transform`). Since identities that differ still differ under a
renaming, a renamed parameter is mapped to the renamed tree that the parameter is mapped to, and to
no other (`Substitution.Renamed.ofPairs`), so that a substitution is carried out in the same way
(`Node.substituteFrom_rename`).
-/
namespace TypedTrees

variable {α β γ δ σ τ : Type}

/-- Both outcomes are results, the second what `f` makes of the first, or both are errors, and these
are related. -/
inductive SameOutcome (errors : Error → Error → Prop) (f : α → β) :
    Except Error α → Except Error β → Prop
  | ok (x : α) : SameOutcome errors f (.ok x) (.ok (f x))
  | error {e e' : Error} (both : errors e e') : SameOutcome errors f (.error e) (.error e')

theorem SameOutcome.map {errors : Error → Error → Prop} {f : α → β} {g : γ → δ} {h : α → γ}
    {k : β → δ} {a : Except Error α} {b : Except Error β} (same : SameOutcome errors f a b)
    (commutes : ∀ x, k (f x) = g (h x)) : SameOutcome errors g (a.map h) (b.map k) := by
  cases same with
  | ok x =>
    simp only [Except.map, commutes]
    exact .ok (h x)
  | error both => exact .error both

/-- Two computations come to the same outcome and leave related states. -/
structure InStep (errors : Error → Error → Prop) (f : α → β) (related : σ → τ → Prop)
    (a : Except Error α × σ) (b : Except Error β × τ) : Prop where
  outcomes : SameOutcome errors f a.1 b.1
  states : related a.2 b.2

variable {errors : Error → Error → Prop} {related : σ → τ → Prop}

namespace InStep

theorem ok {f : α → β} (x : α) {s : σ} {t : τ} (states : related s t) :
    InStep errors f related (.ok x, s) (.ok (f x), t) := ⟨.ok x, states⟩

theorem error {f : α → β} {e e' : Error} {s : σ} {t : τ} (both : errors e e')
    (states : related s t) : InStep errors f related (.error e, s) (.error e', t) :=
  ⟨.error both, states⟩

theorem onward {f : α → β} {g : γ → δ} {a : Except Error α × σ} {b : Except Error β × τ}
    {next : α → σ → Except Error γ × σ} {next' : β → τ → Except Error δ × τ}
    (first : InStep errors f related a b)
    (rest : ∀ x {s t}, related s t → InStep errors g related (next x s) (next' (f x) t)) :
    InStep errors g related (onward a next) (onward b next') := by
  obtain ⟨outcome, s⟩ := a
  obtain ⟨outcome', t⟩ := b
  obtain ⟨outcomes, states⟩ := first
  cases outcomes with
  | ok x => exact rest x states
  | error both => exact .error both states

end InStep

def Visit.rename (r : Renaming) : Visit → Visit
  | descend => descend
  | done out => done (out.rename r)
  | replace next => replace (next.rename r)

theorem sameNodes_rename (r : Renaming) (nodes others : List Node) :
    sameNodes (nodes.map (Node.rename r)) (others.map (Node.rename r)) =
      sameNodes nodes others := by
  induction nodes generalizing others with
  | nil => cases others <;> rfl
  | cons node nodes ih =>
    cases others with
    | nil => rfl
    | cons other others => simp only [List.map_cons, sameNodes, ih, Node.same, Node.mark_rename]

namespace Pass

/-- The second pass does at renamed nodes what the first does at the nodes themselves. -/
structure Renamed (r : Renaming) (errors : Error → Error → Prop) (related : σ → τ → Prop)
    (pass : Pass σ) (renamed : Pass τ) : Prop where
  limits : ∀ limit, errors (.recursionLimit limit) (.recursionLimit limit)
  visit : ∀ depth node {s t}, related s t → InStep errors (Visit.rename r) related
    (pass.visit depth node s) (renamed.visit depth (node.rename r) t)
  replaced : ∀ depth node out {s t}, related s t →
    related (pass.replaced depth node out s)
      (renamed.replaced depth (node.rename r) (out.rename r) t)
  draw : ∀ {s t}, related s t →
    (renamed.draw t).1 = (pass.draw s).1 ∧ related (pass.draw s).2 (renamed.draw t).2

namespace Renamed

variable {r : Renaming} {pass : Pass σ} {renamed : Pass τ}

theorem rebuild (both : Renamed r errors related pass renamed) (node : Node) (kids : List Node)
    {s : σ} {t : τ} (states : related s t) :
    (renamed.rebuild (node.rename r) (kids.map (Node.rename r)) t).1 =
        (pass.rebuild node kids s).1.rename r ∧
      related (pass.rebuild node kids s).2
        (renamed.rebuild (node.rename r) (kids.map (Node.rename r)) t).2 := by
  obtain ⟨mark, after⟩ := both.draw states
  simp only [Pass.rebuild, Node.expr_rename, Expr.children_rename, sameNodes_rename,
    ← Expr.rename_withChildren, Node.mark_rename]
  split
  · exact ⟨rfl, states⟩
  · exact ⟨by rw [mark, Node.rename], after⟩

theorem transformAll {limit depth : Nat} (one : ∀ node {s t}, related s t →
      InStep errors (Node.rename r) related (pass.transform limit depth node s)
        (renamed.transform limit depth (node.rename r) t))
    (nodes : List Node) {s : σ} {t : τ} (states : related s t) :
    InStep errors (List.map (Node.rename r)) related (pass.transformAll limit depth nodes s)
      (renamed.transformAll limit depth (nodes.map (Node.rename r)) t) := by
  induction nodes generalizing s t with
  | nil =>
    rw [List.map_nil, Pass.transformAll, Pass.transformAll]
    exact .ok [] states
  | cons node nodes ih =>
    rw [List.map_cons, transformAll_cons, transformAll_cons]
    refine (one node states).onward fun out s t states => ?_
    exact (ih states).onward fun outs s t states => .ok (out :: outs) states

/-- On a renamed tree a pass makes the renamed tree, or fails, as it does on the tree itself. -/
theorem transform (both : Renamed r errors related pass renamed) (limit depth : Nat) (node : Node)
    {s : σ} {t : τ} (states : related s t) :
    InStep errors (Node.rename r) related (pass.transform limit depth node s)
      (renamed.transform limit depth (node.rename r) t) := by
  induction levels : limit - depth generalizing depth node s t with
  | zero =>
    rw [Pass.transform, if_pos (by omega), Pass.transform, if_pos (by omega)]
    exact .error (both.limits limit) states
  | succ room ih =>
    rw [transform_entered pass (by omega), transform_entered renamed (by omega)]
    refine (both.visit (depth + 1) node states).onward fun decision s t states => ?_
    cases decision with
    | done out => exact .ok out states
    | replace next =>
      refine (ih (depth + 1) next states (by omega)).onward fun out s t states => ?_
      exact .ok out (both.replaced depth node out states)
    | descend =>
      simp only [Visit.rename, carryOut, Node.expr_rename, Expr.children_rename]
      refine (transformAll (fun node _ _ states => ih (depth + 1) node states (by omega))
        node.expr.children states).onward fun kids s t states => ?_
      obtain ⟨out, after⟩ := both.rebuild node kids states
      rw [out]
      exact .ok _ after

end Renamed

end Pass

namespace Substitution

variable {r : Renaming}

/-- The second substitution maps the renamed parameters to the renamed trees, and it is empty
exactly when the first is. -/
structure Renamed (r : Renaming) (s renamed : Substitution) : Prop where
  at? : ∀ id, renamed.at? (r.id id) = (s.at? id).map (Node.rename r)
  isEmpty : renamed.isEmpty = s.isEmpty

theorem lastPaired_rename (r : Renaming) (pairs : List (Parameter × Node)) (id : Nat) :
    lastPaired (pairs.map (Prod.map (Parameter.rename r) (Node.rename r))) (r.id id) =
      (lastPaired pairs id).map (Node.rename r) := by
  -- no other parameter has come to have the identity looked for
  have same : ∀ pair : Parameter × Node, (r.id pair.1.id == r.id id) = (pair.1.id == id) := by
    intro pair
    rw [Bool.eq_iff_iff, beq_iff_eq, beq_iff_eq, r.injective.eq_iff]
  simp only [lastPaired, ← List.map_reverse, List.find?_map, Function.comp_def, Prod.map_fst,
    Parameter.rename, same, Option.map_map, Prod.map_snd]

theorem Renamed.ofPairs (r : Renaming) (pairs : List (Parameter × Node)) :
    Renamed r (.ofPairs pairs)
      (.ofPairs (pairs.map (Prod.map (Parameter.rename r) (Node.rename r)))) := by
  refine ⟨fun id => ?_, ?_⟩
  · rw [ofPairs_at?, ofPairs_at?, lastPaired_rename]
  · rw [ofPairs_isEmpty, ofPairs_isEmpty, List.isEmpty_map]

theorem Renamed.replacer {s renamed : Substitution} (both : Renamed r s renamed) :
    Pass.Renamed r Eq Eq s.replacer renamed.replacer where
  limits _ := rfl
  visit depth node supply _ := by
    rintro rfl
    obtain ⟨mark, expr⟩ := node
    cases expr with
    | parameter param =>
      have found : (renamed.get? (param.rename r)).getD (Node.rename r ⟨mark, .parameter param⟩) =
          ((s.get? param).getD ⟨mark, .parameter param⟩).rename r := by
        have mapped : renamed.get? (param.rename r) = (s.get? param).map (Node.rename r) :=
          both.at? param.id
        rw [mapped, Option.getD_map]
      change InStep _ _ _ _ (.ok (Visit.done ((renamed.get? (param.rename r)).getD _)), supply)
      rw [found]
      exact .ok (Visit.done _) rfl
    | member target m =>
      rw [Node.rename, Expr.rename_member]
      exact .ok Visit.descend rfl
    | call receiver callee args ty =>
      rw [Node.rename, Expr.rename_call]
      exact .ok Visit.descend rfl
    | _ => exact .ok Visit.descend rfl
  replaced _ _ _ := id
  draw := by
    rintro supply _ rfl
    exact ⟨rfl, rfl⟩

end Substitution

/-- Substituting renamed trees for renamed parameters in a renamed tree makes the renamed tree,
draws as much, and fails where the substitution does. -/
theorem Node.substituteFrom_rename {r : Renaming} {s renamed : Substitution}
    (both : s.Renamed r renamed) (limit depth : Nat) (node : Node) (supply : Supply) :
    (node.rename r).substituteFrom limit depth renamed supply =
      ((node.substituteFrom limit depth s supply).1.map (Node.rename r),
        (node.substituteFrom limit depth s supply).2) := by
  rw [substituteFrom, substituteFrom, both.isEmpty]
  split
  · rfl
  · rw [Pass.run_eq_transform, Pass.run_eq_transform]
    have together := both.replacer.transform limit depth node (rfl : supply = supply)
    obtain ⟨outcomes, states⟩ := together
    simp only [← states]
    generalize (s.replacer.transform limit depth node supply).1 = outcome at outcomes ⊢
    generalize (renamed.replacer.transform limit depth (node.rename r) supply).1 = outcome'
      at outcomes ⊢
    cases outcomes with
    | ok out => rfl
    | error same => rw [same]; rfl

end TypedTrees
