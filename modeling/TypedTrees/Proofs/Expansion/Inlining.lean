import TypedTrees.Proofs.Expansion.Reference
/-!
What a decision of an expansion does to the meaning of a node. Putting the body of a lambda in place
of a call comes to applying the lambda (`Preserves.inline`), and putting a node together from what
its children have become leaves it what it means (`Preserves.exchange`). Lambda nodes stay where the
builtin `any` calls them.
-/
namespace TypedTrees

/-- The trees in play read members by their names and have lambda nodes only where the builtin `any`
calls them, in lambdas that can be reached none at all. -/
structure Sources.Suited (sources : Sources) (registered : Function → Bool)
    (naming : Nat → Reader) : Prop where
  named : sources.tree.All (·.NamedBy naming)
  inPlace : sources.tree.All (·.LambdasInPlace registered)
  root : ¬sources.tree.IsLambda
  bodyNamed : ∀ l, sources.Reached l → l.body.All (·.NamedBy naming)
  bodyFree : ∀ l, sources.Reached l → l.body.LambdaFree registered

/-- A node of the trees in play. -/
structure Expr.Fits (sources : Sources) (registered : Function → Bool) (naming : Nat → Reader)
    (expr : Expr) : Prop where
  sound : expr.Sound sources.host sources.slots naming sources.Reached
  inPlace : expr.LambdasInPlace registered

namespace Node

section

variable {registered : Function → Bool} {put : Nat → Option Node} {node out : Node}

theorem Substituted.inPlace (related : Substituted put node out)
    (here : node.All (·.LambdasInPlace registered))
    (puts : ∀ id tree, put id = some tree → tree.All (·.LambdasInPlace registered))
    (noLambda : ∀ id tree, put id = some tree → ¬tree.IsLambda) :
    out.All (·.LambdasInPlace registered) :=
  related.all_of_lambdas (fun _ _ lengths each inPlace => inPlace.withChildren lengths each) here
    puts noLambda

end

end Node

section

variable {sources : Sources} {subs : Substitutes} {naming : Nat → Reader} {node out : Node}

/-- What comes of a tree in play is again one, is a lambda only if the tree is one, and stands for
the same. -/
structure Preserves (sources : Sources) (subs : Substitutes) (naming : Nat → Reader)
    (node out : Node) : Prop where
  fits : out.All (·.Fits sources subs.registered naming)
  isLambda_iff : out.IsLambda ↔ node.IsLambda
  stands : ∀ env, Stands sources.host sources.slots subs env env node out

/-- The body of a lambda with the arguments of a call put in is a tree in play, and it has the value
of the call. -/
theorem Preserves.inline {l : Lambda} {args : List Node}
    (suited : sources.Suited subs.registered naming) (reached : sources.Reached l)
    (fits : ∀ arg ∈ args, arg.All (·.Fits sources subs.registered naming))
    (noLambda : ∀ arg ∈ args, ¬arg.IsLambda) (isLambda : ¬node.IsLambda)
    (related : l.body.Substituted (Substitution.zip l.params args).at? out)
    (applies : ∀ env w, Evaluates sources.host sources.slots subs node env w →
      ∃ vs, Applies sources.host sources.slots subs env l args vs w) :
    Preserves sources subs naming node out := by
  have puts : ∀ id tree, (Substitution.zip l.params args).at? id = some tree → tree ∈ args :=
    fun _ _ => Substitution.mem_of_zip
  have free := suited.bodyFree l reached
  have bodySound : l.body.All (·.Sound sources.host sources.slots naming sources.Reached) :=
    fun part inBody => ⟨suited.bodyNamed l reached part inBody,
      fun k offers => .nested reached inBody offers⟩
  have sound : out.All (·.Sound sources.host sources.slots naming sources.Reached) :=
    related.all (fun _ trees sound => sound.withChildren trees) bodySound
      fun id tree found part inTree => (fits tree (puts id tree found) part inTree).sound
  have inPlace := related.inPlace (fun part inBody => (free part inBody).2)
    (fun id tree found part inTree => (fits tree (puts id tree found) part inTree).inPlace)
    (fun id tree found => noLambda tree (puts id tree found))
  have noLambdaOut : ¬out.IsLambda := by
    rw [related.isLambda_iff fun id tree found => noLambda tree (puts id tree found)]
    exact free.here
  refine ⟨fun part inOut => ⟨sound part inOut, inPlace part inOut⟩, ?_, fun env => ?_⟩
  · exact ⟨fun is => absurd is noLambdaOut, fun is => absurd is isLambda⟩
  · refine .value isLambda fun w evaluates => ?_
    obtain ⟨vs, applies⟩ := applies env w evaluates
    exact .inlined free applies.lengths applies.each related applies.body

theorem Preserves.trans {next : Node} (first : Preserves sources subs naming node next)
    (noLambda : ¬node.IsLambda) (second : Preserves sources subs naming next out) :
    Preserves sources subs naming node out := by
  refine ⟨second.fits, second.isLambda_iff.trans first.isLambda_iff, fun env => ?_⟩
  refine .value noLambda fun w evaluates => ?_
  refine (second.stands env).evaluates (fun is => noLambda (first.isLambda_iff.mp is)) ?_
  exact (first.stands env).evaluates noLambda evaluates

/-- A node stands for the same with its children exchanged for what they expand to. -/
theorem Preserves.exchange {kids : List Node}
    (fits : node.All (·.Fits sources subs.registered naming))
    (each : List.Forall₂ (Preserves sources subs naming) node.expr.children kids)
    (made : out.expr = node.expr.withChildren kids) : Preserves sources subs naming node out := by
  have lengths := each.length_eq.symm
  have at' : ∀ (place : Nat) (child kid : Node), node.expr.children[place]? = some child →
      kids[place]? = some kid → Preserves sources subs naming child kid := by
    intro place child kid atChild atKid
    obtain ⟨within, rfl⟩ := List.getElem?_eq_some_iff.mp atChild
    obtain ⟨bound, rfl⟩ := List.getElem?_eq_some_iff.mp atKid
    exact each.get within bound
  refine ⟨Node.all_iff.mpr ⟨?_, fun kid member => ?_⟩, ?_, fun env => ?_⟩
  · rw [made]
    refine ⟨fits.here.sound.withChildren kids, fits.here.inPlace.withChildren lengths ?_⟩
    exact fun place child kid atChild atKid => (at' place child kid atChild atKid).isLambda_iff
  · rw [made, Expr.children_withChildren lengths] at member
    obtain ⟨place, bound, rfl⟩ := List.mem_iff_getElem.mp member
    exact (each.get (by rwa [← lengths]) bound).fits
  · exact Node.isLambda_of_withChildren made
  · by_cases isLambda : node.IsLambda
    · obtain ⟨l, is⟩ := isLambda
      rw [is] at lengths made at'
      obtain ⟨body, rfl⟩ := List.length_eq_one_iff.mp lengths
      have below := at' 0 l.body body rfl rfl
      -- the body of a lambda node is no lambda, since the node is no call of `any`
      have bodyNoLambda : ¬l.body.IsLambda := by
        have only := fits.here.inPlace
        rw [is] at only
        intro bodyIs
        cases ((only 0 l.body rfl).mp bodyIs).1
      refine .lambda is made rfl fun args w evaluates => ?_
      exact (below.stands _).evaluates bodyNoLambda evaluates
    refine .value isLambda fun w evaluates => ?_
    rcases node.parameter_or_inner with ⟨param, is⟩ | noParam
    · rw [is] at made
      exact .parameter made (evaluates.lookup is)
    · refine .congr made lengths fits.here.inPlace ?_ noParam isLambda evaluates
      exact fun place child kid atChild atKid => (at' place child kid atChild atKid).stands env

end

end TypedTrees
