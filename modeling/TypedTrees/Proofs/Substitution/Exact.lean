import Mathlib.Data.List.Induction
import TypedTrees.Proofs.Substitution.Substituted
/-!
The exact outcome of a substitution. However a mapping has been built, it maps a parameter to the
last tree paired with it. If it maps anything at all, every level of the tree is entered and none of
a tree that is put in, so the height of the tree alone decides whether the limit is reached
(`Node.substituteFrom_eq_error_iff`). A node is put together anew exactly when something below it
has been replaced by another node, and a new node is none of those made before
(`Node.same_substituteFrom_iff`).
-/
namespace TypedTrees

namespace Substitution

/-- The last tree that a parameter of this identity is paired with. -/
def lastPaired (pairs : List (Parameter × Node)) (id : Nat) : Option Node :=
  (pairs.reverse.find? fun pair => pair.1.id == id).map Prod.snd

/-- The substitution has been built from these pairs, in this order: by binding one parameter after
another, in place or in a copy, from the pairs all at once, or from two lists by position. -/
inductive BuiltFrom : List (Parameter × Node) → Substitution → Prop
  | empty : BuiltFrom [] .empty
  | bind {pairs : List (Parameter × Node)} {s : Substitution} (before : BuiltFrom pairs s)
      (param : Parameter) (tree : Node) : BuiltFrom (pairs ++ [(param, tree)]) (s.bind param tree)
  | ofPairs (pairs : List (Parameter × Node)) : BuiltFrom pairs (.ofPairs pairs)
  | zip (params : List Parameter) (args : List Node) :
      BuiltFrom (params.zip args) (.zip params args)

variable {pairs : List (Parameter × Node)} {s : Substitution}

theorem ofPairs_concat (pairs : List (Parameter × Node)) (param : Parameter) (tree : Node) :
    ofPairs (pairs ++ [(param, tree)]) = (ofPairs pairs).bind param tree := by
  simp only [ofPairs, List.foldl_append, List.foldl_cons, List.foldl_nil]

/-- All ways to build a substitution from the same pairs come to the same one. -/
theorem BuiltFrom.eq_ofPairs (built : BuiltFrom pairs s) : s = .ofPairs pairs := by
  induction built with
  | empty => rfl
  | bind _ param tree ih => rw [ofPairs_concat, ih]
  | ofPairs _ => rfl
  | zip _ _ => rfl

theorem ofPairs_at? (pairs : List (Parameter × Node)) (id : Nat) :
    (ofPairs pairs).at? id = lastPaired pairs id := by
  induction pairs using List.reverseRecOn with
  | nil => rfl
  | append_singleton pairs pair ih =>
    obtain ⟨param, tree⟩ := pair
    have last : lastPaired (pairs ++ [(param, tree)]) id =
        if param.id == id then some tree else lastPaired pairs id := by
      rw [lastPaired, List.reverse_append, List.reverse_singleton, List.singleton_append,
        List.find?_cons]
      cases param.id == id <;> rfl
    rw [ofPairs_concat, bind_at?, ih, last, Bool.beq_comm]

theorem ofPairs_isEmpty (pairs : List (Parameter × Node)) :
    (ofPairs pairs).isEmpty = pairs.isEmpty := by
  induction pairs using List.reverseRecOn with
  | nil => rfl
  | append_singleton pairs pair ih =>
    obtain ⟨param, tree⟩ := pair
    -- the pair that was bound last is found
    have found := ofPairs_at? (pairs ++ [(param, tree)]) param.id
    rw [lastPaired, List.reverse_append, List.reverse_singleton, List.singleton_append,
      List.find?_cons_of_pos (by simp), Option.map_some, at?] at found
    have some : (ofPairs (pairs ++ [(param, tree)])).entries ≠ [] := by
      intro none
      rw [none] at found
      cases found
    rw [isEmpty, List.isEmpty_eq_false_iff.mpr some]
    simp

end Substitution

namespace Node

section Failure

variable {limit depth : Nat} {s : Substitution} {node : Node} {supply : Supply}

/-- A substitution fails at the limit that it goes by and nowhere else. -/
theorem eq_recursionLimit_of_substituteFrom {e : Error}
    (fails : (node.substituteFrom limit depth s supply).1 = .error e) :
    e = .recursionLimit limit := by
  rw [substituteFrom] at fails
  split at fails
  · cases fails
  · rw [Pass.run_eq_transform] at fails
    refine @Pass.transform_eq_error _ s.replacer limit (· = .recursionLimit limit) rfl
      (fun depth node state e made => ?_) _ _ _ _ fails
    simp only [Substitution.replacer] at made
    split at made <;> cases made

/-- A substitution fails exactly where it puts something in and the tree has more levels than are
left, no matter what it puts in. -/
theorem substituteFrom_eq_error_iff {e : Error} :
    (node.substituteFrom limit depth s supply).1 = .error e ↔
      e = .recursionLimit limit ∧ s.isEmpty = false ∧ limit < depth + node.height := by
  constructor
  · intro fails
    have some : s.isEmpty = false := by
      by_contra empty
      rw [substituteFrom, if_pos (by simpa using empty)] at fails
      cases fails
    refine ⟨eq_recursionLimit_of_substituteFrom fails, some, ?_⟩
    by_contra low
    obtain ⟨out, after, run⟩ :=
      node.substituteFrom_succeeds s (by omega : depth + node.height ≤ limit) supply
    rw [run] at fails
    cases fails
  · rintro ⟨rfl, some, high⟩
    rcases run : node.substituteFrom limit depth s supply with ⟨e | out, after⟩
    · have fails := congrArg Prod.fst run
      rw [eq_recursionLimit_of_substituteFrom fails]
    · have low := height_le_of_substituteFrom some run
      omega

end Failure

/-- All nodes of the tree have been drawn from the supply. -/
def MadeBy (supply : Supply) (tree : Node) : Prop :=
  ∀ part : Node, part.Subtree tree → part.mark < supply.next

/-- Every parameter in the tree that is mapped is mapped to the very node that it stands at. -/
def Keeps (put : Nat → Option Node) (tree : Node) : Prop :=
  ∀ (part : Node) param image, part.Subtree tree → part.expr = .parameter param →
    put param.id = some image → image.same part = true

variable {put : Nat → Option Node}

theorem keeps_parameter {node : Node} {param : Parameter} (isParam : node.expr = .parameter param) :
    node.Keeps put ↔ ((put param.id).getD node).same node = true := by
  constructor
  · intro keeps
    cases found : put param.id with
    | none => simp [same]
    | some image => exact keeps node param image (.refl node) isParam found
  · intro same part other image inTree isOther found
    cases inTree with
    | refl =>
      cases isParam.symm.trans isOther
      rwa [found] at same
    | child member _ =>
      rw [isParam] at member
      cases member

theorem keeps_inner {node : Node} (noParam : ∀ param, node.expr ≠ .parameter param) :
    node.Keeps put ↔ ∀ child ∈ node.expr.children, child.Keeps put := by
  constructor
  · exact fun keeps child member part param image inChild =>
      keeps part param image (.child member inChild)
  · intro each part param image inTree isParam found
    cases inTree with
    | refl => exact absurd isParam (noParam param)
    | child member rest => exact each _ member part param image rest isParam found

/-- Nodes are the same place by place if that holds of each which is said of the nodes it stands
for. -/
theorem sameNodes_iff {holds : Node → Prop} {nodes outs : List Node}
    (each : List.Forall₂ (fun node out => out.same node = true ↔ holds node) nodes outs) :
    sameNodes nodes outs = true ↔ ∀ node ∈ nodes, holds node := by
  induction each with
  | nil => simp [sameNodes]
  | @cons node out nodes outs first _ ih =>
    have turned : node.same out = out.same node := by
      rw [same, same, Bool.beq_comm]
    rw [sameNodes, turned, Bool.and_eq_true, first, ih, List.forall_mem_cons]

/-- What a substitution makes is the very node that it was given exactly when every parameter that
it maps is mapped to the node it stands at. -/
theorem same_substituteFrom_iff {limit depth : Nat} {s : Substitution} {node out : Node}
    {supply after : Supply} (made : node.MadeBy supply)
    (run : node.substituteFrom limit depth s supply = (.ok out, after)) :
    out.same node = true ↔ node.Keeps s.at? := by
  rw [substituteFrom] at run
  split at run
  · rename_i empty
    cases run
    have nothing : ∀ id, s.at? id = none := by
      intro id
      rw [Substitution.at?, List.isEmpty_iff.mp empty, List.lookup_nil]
    refine ⟨fun _ part param image _ _ found => ?_, fun _ => by simp [same]⟩
    rw [nothing] at found
    cases found
  · rw [Pass.run_eq_transform] at run
    simp only [Prod.mk.injEq] at run
    -- marks drawn on the way stay above those of the tree, since the supply only goes up
    refine (Pass.transform_ok (motive := fun _ node state out after => supply.next ≤ state.next →
      supply.next ≤ after.next ∧ (node.MadeBy supply →
        (out.same node = true ↔ node.Keeps s.at?))) ?_ ?_ ?_
      (Prod.ext run.1 rfl : s.replacer.transform limit depth node supply = (.ok out, _))
      (Nat.le_refl _)).2 made
    · intro depth node state out after _ decides start
      simp only [Substitution.replacer] at decides
      split at decides
      · rename_i param isParam
        cases decides
        exact ⟨start, fun _ => (keeps_parameter isParam : node.Keeps s.at? ↔ _).symm⟩
      · cases decides
    · intro depth node state next middle out after _ decides _
      simp only [Substitution.replacer] at decides
      split at decides <;> cases decides
    · intro depth node state middle kids after _ decides chain start
      simp only [Substitution.replacer] at decides
      split at decides
      · cases decides
      · rename_i noParam
        cases decides
        obtain ⟨last, each⟩ := chain.keeps start
        refine ⟨?_, fun made => ?_⟩
        · simp only [Pass.rebuild, Substitution.replacer]
          split
          · exact last
          · exact Nat.le_succ_of_le last
        · have below : List.Forall₂ (fun child kid : Node => kid.same child = true ↔
              child.Keeps s.at?) node.expr.children kids := by
            refine List.forall₂_iff_get.mpr ⟨each.length_eq, fun place within bound => ?_⟩
            have inTree := List.get_mem node.expr.children ⟨place, within⟩
            exact each.get within bound fun part inChild => made part (.child inTree inChild)
          have kept := (sameNodes_iff below).trans (keeps_inner noParam).symm
          rw [← kept]
          simp only [Pass.rebuild]
          split
          · rename_i unchanged
            exact ⟨fun _ => unchanged, fun _ => by simp [same, mark]⟩
          · rename_i changed
            have old : node.mark < supply.next := made node (.refl node)
            have new : after.next ≠ node.mark := by omega
            exact ⟨fun is => absurd (beq_iff_eq.mp is : after.next = node.mark) new,
              fun is => absurd is changed⟩

/-- A substitution with a guard, in every respect. It fails where something is mapped and the tree
reaches below the limit, whatever the height of what would be put in. Elsewhere it gives the tree
with every mapped parameter replaced by the last tree that it was paired with, and it gives the very
tree back exactly when each of these was the node that it should replace. -/
theorem substituteUnder_exact {pairs : List (Parameter × Node)} {s : Substitution}
    (built : s.BuiltFrom pairs) (node : Node) (guard : DepthGuard) (sessionLimit : Nat)
    {supply : Supply} (made : node.MadeBy supply) :
    let limit := guard.bound sessionLimit
    let result := node.substituteUnder guard sessionLimit s supply
    (∀ e, result.1 = .error e ↔
      e = .recursionLimit limit ∧ pairs ≠ [] ∧ limit < guard.current + node.height) ∧
    (¬(pairs ≠ [] ∧ limit < guard.current + node.height) →
      ∃ out, result.1 = .ok out ∧ node.Substituted (Substitution.lastPaired pairs) out ∧
        (out.same node = true ↔ node.Keeps (Substitution.lastPaired pairs))) := by
  intro limit result
  cases built.eq_ofPairs
  have found : (Substitution.ofPairs pairs).at? = Substitution.lastPaired pairs :=
    funext (Substitution.ofPairs_at? pairs)
  have some : (Substitution.ofPairs pairs).isEmpty = false ↔ pairs ≠ [] := by
    rw [Substitution.ofPairs_isEmpty, List.isEmpty_eq_false_iff]
  have failure : ∀ e, result.1 = .error e ↔
      e = .recursionLimit limit ∧ pairs ≠ [] ∧ limit < guard.current + node.height := by
    intro e
    rw [← some]
    exact substituteFrom_eq_error_iff
  refine ⟨failure, fun fits => ?_⟩
  rcases run : result with ⟨e | out, after⟩
  · have fails := (failure e).mp (congrArg Prod.fst run)
    exact absurd fails.2 fits
  · rw [← found]
    exact ⟨out, rfl, substituted_of_substituteFrom run, same_substituteFrom_iff made run⟩

end Node

namespace BoundTwice

def x : Parameter := ⟨16, "x", .int⟩

def y : Parameter := ⟨17, "y", .int⟩

/-- The tree `x => x + y`, which has three levels. -/
def tree : Node :=
  ⟨18, .lambda ⟨[x], ⟨19, .binary .add ⟨20, .parameter x⟩ ⟨21, .parameter y⟩ .int⟩, .int⟩⟩

def seven : Node := ⟨22, .constant (.int 7) .int⟩

/-- The tree `not not 7`, which has three levels of its own. -/
def high : Node := ⟨24, .unary .not ⟨23, .unary .not seven .bool⟩ .bool⟩

/-- The bound `x` is paired first with a tree and then with another, `y` in between. -/
def pairs : List (Parameter × Node) := [(x, seven), (y, ⟨21, .parameter y⟩), (x, high)]

/-- Bound one after the other, with the last pair on top of a mapping made at once. -/
def s : Substitution := (Substitution.ofPairs [(x, seven), (y, ⟨21, .parameter y⟩)]).bind x high

theorem built : s.BuiltFrom pairs :=
  .bind (.ofPairs [(x, seven), (y, ⟨21, .parameter y⟩)]) x high

theorem madeBy : tree.MadeBy ⟨25⟩ := by
  have parts : tree.parts.map Node.mark = [18, 19, 20, 21] := by cbv
  intro part inTree
  have among : part.mark ∈ tree.parts.map Node.mark :=
    List.mem_map_of_mem (Node.mem_parts_iff.mpr inTree)
  rw [parts] at among
  have below : ∀ mark ∈ [18, 19, 20, 21], mark < 25 := by decide
  exact below part.mark among

theorem tree_height : tree.height = 3 := by cbv

theorem not_keeps : ¬tree.Keeps (Substitution.lastPaired pairs) := by
  intro keeps
  have atX : (⟨20, .parameter x⟩ : Node).Subtree tree :=
    .child (.head _) (.child (.head _) (.refl _))
  exact absurd (keeps _ x high atX rfl rfl) (by decide)

end BoundTwice

namespace Node

open BoundTwice in
/-- With two levels entered out of five the three levels of the tree fit, though the tree put in
for the bound parameter is as high again; with three levels entered they do not. -/
theorem substituteUnder_exact_boundTwice :
    s.BuiltFrom pairs ∧ tree.MadeBy ⟨25⟩ ∧
    (tree.substituteUnder { current := 3, limit := some 5 } 1500 s ⟨25⟩).1 =
      .error (.recursionLimit 5) ∧
    ∃ out, (tree.substituteUnder { current := 2, limit := some 5 } 1500 s ⟨25⟩).1 = .ok out ∧
      tree.Substituted (Substitution.lastPaired pairs) out ∧ out.same tree = false := by
  have mapped : pairs ≠ [] := by simp [pairs]
  obtain ⟨fails, -⟩ :=
    substituteUnder_exact built tree { current := 3, limit := some 5 } 1500 madeBy
  obtain ⟨-, succeeds⟩ :=
    substituteUnder_exact built tree { current := 2, limit := some 5 } 1500 madeBy
  rw [tree_height] at fails succeeds
  obtain ⟨out, made, substituted, shared⟩ := succeeds (by decide)
  refine ⟨built, madeBy, (fails _).mpr ⟨rfl, mapped, by decide⟩, out, made, substituted, ?_⟩
  exact Bool.eq_false_iff.mpr fun same => not_keeps (shared.mp same)

end Node

end TypedTrees
