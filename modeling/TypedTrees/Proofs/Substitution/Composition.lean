import Mathlib
import TypedTrees.Proofs.Substitution.Exact
/-!
Two substitutions in a row. The trees that the first one puts in are walked by the second, and both
go under every binder, so together they are the one substitution that maps what the first maps to
what the second makes of it, and all else as the second does (`Node.substitute_substitute`). If
neither touches what the other maps or puts in, their order makes no difference.
-/
namespace TypedTrees

namespace Substitution

/-- The substitution `q` is `s` followed by `r`: it maps what `s` maps to what `r` makes of it, and
all else as `r` does. -/
structure Composes (s r q : Substitution) : Prop where
  mapped : ∀ {id tree}, s.at? id = some tree → ∃ out, q.at? id = some out ∧ tree.SubstitutesTo r out
  unmapped : ∀ {id}, s.at? id = none → q.at? id = r.at? id

/-- What `s` maps is not mapped by `r`, and no parameter that `r` maps occurs in what `s` puts
in. -/
def Avoids (s r : Substitution) : Prop :=
  ∀ id tree, s.at? id = some tree →
    r.at? id = none ∧ ∀ other, tree.Mentions other → r.at? other = none

end Substitution

namespace Node

theorem height_unmarked (tree : Node) : tree.unmarked.height = tree.height := by
  induction tree using Node.induction with
  | node tree ih =>
    rw [unmarked_eq, height_eq, height_eq tree, expr_mk,
      Expr.children_withChildren (List.length_map _), List.map_map]
    congr 2
    exact List.map_congr_left ih

theorem unmarked_unmarked (tree : Node) : tree.unmarked.unmarked = tree.unmarked :=
  unmarked_filled _ tree

variable {s r q : Substitution} {tree u v w : Node}

/-- What comes of one substitution after the other, filled in at once. -/
theorem SubstitutesTo.unmarked_trans (first : tree.SubstitutesTo s u)
    (second : u.SubstitutesTo r v) :
    v.unmarked =
      tree.filled fun id => (((s.at? id).map (filled r.at?)).or (r.at? id)).map Node.unmarked := by
  have filledFirst : u.filled r.at? = (tree.filled s.at?).filled r.at? :=
    filled_of_unmarked first.unmarked r.at?
  rw [second.unmarked, filledFirst, filled_filled, filled_unmarked]

theorem SubstitutesTo.unmarked_of_composes (composes : s.Composes r q)
    (first : tree.SubstitutesTo s u) (second : u.SubstitutesTo r v)
    (once : tree.SubstitutesTo q w) : v.unmarked = w.unmarked := by
  rw [first.unmarked_trans second, once.unmarked, filled_unmarked]
  congr 1
  funext id
  cases found : s.at? id with
  | none => rw [composes.unmapped found, Option.map_none, Option.none_or]
  | some image =>
    obtain ⟨out, atId, substitutes⟩ := composes.mapped found
    rw [atId, Option.map_some, Option.some_or, Option.map_some, Option.map_some,
      substitutes.unmarked]

/-- What `s` maps is put in unchanged, whether it is put in before `r` or after it. -/
theorem unmarked_image_of_avoids (avoids : s.Avoids r) {id : Nat} {image : Node}
    (found : s.at? id = some image) :
    (((s.at? id).map (filled r.at?)).or (r.at? id)).map Node.unmarked = some image.unmarked ∧
      (((r.at? id).map (filled s.at?)).or (s.at? id)).map Node.unmarked = some image.unmarked := by
  obtain ⟨free, absent⟩ := avoids id image found
  have kept : image.filled r.at? = image.unmarked := filled_congr absent
  rw [found, free]
  simp only [Option.map_none, Option.none_or, Option.map_some, Option.some_or, kept,
    unmarked_unmarked, and_self]

theorem SubstitutesTo.unmarked_comm (avoids : s.Avoids r) (avoids' : r.Avoids s) {u' v' : Node}
    (first : tree.SubstitutesTo s u) (second : u.SubstitutesTo r v)
    (first' : tree.SubstitutesTo r u') (second' : u'.SubstitutesTo s v') :
    v.unmarked = v'.unmarked := by
  rw [first.unmarked_trans second, first'.unmarked_trans second']
  congr 1
  funext id
  cases found : s.at? id with
  | some image =>
    obtain ⟨here, there⟩ := unmarked_image_of_avoids avoids found
    rw [found] at here there
    rw [here, there]
  | none =>
    cases found' : r.at? id with
    | none => rfl
    | some image =>
      obtain ⟨there, here⟩ := unmarked_image_of_avoids avoids' found'
      rw [found, found'] at here there
      rw [here, there]

end Node

theorem Substitution.exists_composes (s r : Substitution) : ∃ q, s.Composes r q := by
  obtain ⟨made, makes⟩ := Classical.skolem.mp (Node.exists_substitutesTo r)
  obtain ⟨q, found⟩ : ∃ q : Substitution, ∀ id,
      q.at? id = ((s.at? id).map made).or (r.at? id) := by
    refine ⟨⟨s.entries.map (fun entry => (entry.1, made entry.2)) ++ r.entries⟩, fun id => ?_⟩
    rw [at?, List.lookup_append, at?]
    congr 1
    induction s.entries with
    | nil => rfl
    | cons entry rest ih =>
      rw [List.map_cons, List.lookup_cons, List.lookup_cons, ih]
      cases id == entry.1 <;> rfl
  refine ⟨q, fun {id tree} atId => ⟨made tree, ?_, makes tree⟩, fun {id} atId => ?_⟩
  · rw [found, atId, Option.map_some, Option.some_or]
  · rw [found, atId, Option.map_none, Option.none_or]

/-- Substitutions compose. For any two there is one that maps what the first maps to what the
second makes of it, and all else as the second does. With enough levels left it succeeds, and so do
the two in a row; and whatever limits they succeed under, what they make is the same up to marks. So
the two are structurally equal, as far as a tree with a NaN in it is equal to itself. Two
substitutions with nothing in common, neither of which puts in what the other maps, commute. -/
theorem Node.substitute_substitute (s r : Substitution) (tree : Node) :
    (∃ q, s.Composes r q) ∧
    (∀ q, s.Composes r q → ∃ enough,
      (∀ limit depth supply, depth + enough ≤ limit →
        (∃ u, (tree.substituteFrom limit depth s supply).1 = .ok u) ∧
        (∃ w, (tree.substituteFrom limit depth q supply).1 = .ok w) ∧
        ∀ u, tree.SubstitutesTo s u → ∃ v, (u.substituteFrom limit depth r supply).1 = .ok v) ∧
      ∀ u v w, tree.SubstitutesTo s u → u.SubstitutesTo r v → tree.SubstitutesTo q w →
        v.unmarked = w.unmarked ∧ (v == w) = (w == w)) ∧
    (s.Avoids r → r.Avoids s → ∀ u v u' v', tree.SubstitutesTo s u → u.SubstitutesTo r v →
      tree.SubstitutesTo r u' → u'.SubstitutesTo s v' →
        v.unmarked = v'.unmarked ∧ (v == v') = (v' == v')) := by
  refine ⟨s.exists_composes r, fun q composes => ?_, ?_⟩
  · refine ⟨max tree.height (tree.filled s.at?).height, fun limit depth supply room => ?_, ?_⟩
    · have succeeds : ∀ (put : Substitution) (node : Node), depth + node.height ≤ limit →
          ∃ out, (node.substituteFrom limit depth put supply).1 = .ok out := by
        intro put node low
        obtain ⟨out, after, run⟩ := node.substituteFrom_succeeds put low supply
        exact ⟨out, by rw [run]⟩
      refine ⟨succeeds s tree (by omega), succeeds q tree (by omega), fun u first => ?_⟩
      have high : u.height = (tree.filled s.at?).height := by
        rw [← u.height_unmarked, first.unmarked, height_unmarked]
      exact succeeds r u (by omega)
    · intro u v w first second once
      have same := SubstitutesTo.unmarked_of_composes composes first second once
      exact ⟨same, beq_of_unmarked same w⟩
  · intro avoids avoids' u v u' v' first second first' second'
    have same := SubstitutesTo.unmarked_comm avoids avoids' first second first' second'
    exact ⟨same, beq_of_unmarked same v'⟩

namespace BoundTwice

/-- The bound `x` becomes `y`. -/
def xToY : Substitution := ⟨[(16, ⟨23, .parameter y⟩)]⟩

/-- The free `y` becomes seven, and `x` a tree of two levels. -/
def yToSeven : Substitution := ⟨[(17, seven), (16, high)]⟩

/-- Both become seven. -/
def bothToSeven : Substitution := ⟨[(16, seven), (17, seven)]⟩

theorem composes : xToY.Composes yToSeven bothToSeven := by
  constructor
  · intro id image found
    simp only [Substitution.at?, xToY, bothToSeven, List.lookup_cons, List.lookup_nil] at found ⊢
    split at found
    · cases found
      refine ⟨seven, rfl, 9, 0, ⟨25⟩, ?_⟩
      simp only [Node.substituteFrom, Pass.run_eq_transform]
      cbv
    · cases found
  · intro id absent
    simp only [Substitution.at?, xToY, yToSeven, bothToSeven, List.lookup_cons, List.lookup_nil]
      at absent ⊢
    split at absent
    · cases absent
    · rfl

def onlyTo (id : Nat) : Substitution := ⟨[(id, seven)]⟩

theorem seven_mentions {id : Nat} : ¬seven.Mentions id := by
  rintro ⟨part, param, inTree, isParam, -⟩
  cases inTree with
  | refl => cases isParam
  | child member _ => cases member

theorem avoids {id other : Nat} (differ : id ≠ other) : (onlyTo id).Avoids (onlyTo other) := by
  intro third image found
  simp only [Substitution.at?, onlyTo, List.lookup_cons, List.lookup_nil] at found ⊢
  split at found
  · rename_i atId
    cases found
    cases beq_iff_eq.mp atId
    exact ⟨by rw [beq_false_of_ne differ], fun _ mentions => absurd mentions seven_mentions⟩
  · cases found

end BoundTwice

open BoundTwice in
/-- In `x => x + y`, first `x` becomes `y` and then `y` seven. So both do, and not the bound `x`
what the second substitution maps it to. And `x` and `y` can become seven in either order. -/
theorem Node.substitute_substitute_boundTwice :
    xToY.Composes yToSeven bothToSeven ∧
    (∃ u v w, tree.SubstitutesTo xToY u ∧ u.SubstitutesTo yToSeven v ∧
      tree.SubstitutesTo bothToSeven w ∧ v.unmarked = w.unmarked ∧ (v == w) = true) ∧
    (onlyTo 16).Avoids (onlyTo 17) ∧ (onlyTo 17).Avoids (onlyTo 16) ∧
    ∃ u v u' v', tree.SubstitutesTo (onlyTo 16) u ∧ u.SubstitutesTo (onlyTo 17) v ∧
      tree.SubstitutesTo (onlyTo 17) u' ∧ u'.SubstitutesTo (onlyTo 16) v' ∧
        v.unmarked = v'.unmarked := by
  obtain ⟨u, first⟩ := tree.exists_substitutesTo xToY
  obtain ⟨v, second⟩ := u.exists_substitutesTo yToSeven
  have once : tree.SubstitutesTo bothToSeven
      ⟨26, .lambda ⟨[x], ⟨25, .binary .add seven seven .int⟩, .int⟩⟩ := by
    refine ⟨9, 0, ⟨25⟩, ?_⟩
    simp only [substituteFrom, Pass.run_eq_transform]
    cbv
  obtain ⟨-, same, -⟩ := substitute_substitute xToY yToSeven tree
  obtain ⟨-, -, same⟩ := same bothToSeven composes
  obtain ⟨form, equal⟩ := same u v _ first second once
  obtain ⟨a, atX⟩ := tree.exists_substitutesTo (onlyTo 16)
  obtain ⟨b, thenY⟩ := a.exists_substitutesTo (onlyTo 17)
  obtain ⟨c, atY⟩ := tree.exists_substitutesTo (onlyTo 17)
  obtain ⟨d, thenX⟩ := c.exists_substitutesTo (onlyTo 16)
  obtain ⟨-, -, commute⟩ := substitute_substitute (onlyTo 16) (onlyTo 17) tree
  obtain ⟨swapped, -⟩ :=
    commute (avoids (by decide)) (avoids (by decide)) a b c d atX thenY atY thenX
  exact ⟨composes, ⟨u, v, _, first, second, once, form, equal.trans (by decide)⟩,
    avoids (by decide), avoids (by decide), a, b, c, d, atX, thenY, atY, thenX, swapped⟩

end TypedTrees
