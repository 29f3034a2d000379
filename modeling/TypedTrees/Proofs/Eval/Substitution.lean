import TypedTrees.Proofs.Eval.Mirrored
import TypedTrees.Proofs.Eval.Storage
/-!
The substitution lemma of the evaluator. Putting trees in for parameters comes to the same as
binding the parameters to the values of these trees (`Node.evaluateFrom_substituted`): the same
value up to the storage of records, or an error of the same kind. A record that is put in is built
at every use, where a look-up finds one and the same, so the values may not be told apart by an
equality test that depends on storage.
-/
namespace TypedTrees

/-- Some evaluation has come to this value, in a store with these slots, and has refused nothing on
the way. -/
def Node.HasValue (declines : Expr → List Value → Bool) (host : Host) (naming : Nat → Reader)
    (slots : List (Nat × Value)) (tree : Node) (env : Env) (v : Value) : Prop :=
  ∃ limit depth store, store.Holds naming slots ∧
    Evaluation.Unrefused declines host limit (limit - depth) tree env store ∧
      (evaluateFrom host limit depth tree env store).outcome = .ok v

section

variable {host : Host} {declines : Expr → List Value → Bool} {naming : Nat → Reader}
  {slots : List (Nat × Value)} (ignores : host.IgnoresStorage) (wary : Wary declines)
  (named : ∀ expr vs, declines expr vs = false → expr.NamedBy naming)

include ignores wary named

/-- What becomes of a tree that has a value comes to that value, if the trees put in provide what
the tree has bound. -/
theorem Node.HasValue.comes_substituted {put : Nat → Option Node} {tree out : Node}
    {env env' : Env} {v : Value} {more : Nat}
    (hasValue : tree.HasValue declines host naming slots env v)
    (related : tree.Substituted put out) (inAny : tree.LambdasInAny)
    (spares : tree.All (·.Spares put))
    (provides : ∀ id, tree.Free id →
      (Likeness.unpaged slots ignores wary named).Provides more put env env' id) :
    ∃ enough, (Likeness.unpaged slots ignores wary named).Comes enough out env' v := by
  obtain ⟨limit, depth, start, holds, unrefused, value⟩ := hasValue
  rw [evaluateFrom_eq_within] at value
  refine ⟨limit - depth + more, .of_run related inAny.1 inAny.2 spares provides unrefused
    (Prod.ext value rfl) ?_⟩
  exact fun _ _ kept => ⟨⟨holds, kept.2⟩, fun _ later => ⟨kept.1, later.2⟩⟩

theorem Node.HasValue.comes {tree : Node} {env : Env} {v : Value}
    (hasValue : tree.HasValue declines host naming slots env v) (inAny : tree.LambdasInAny) :
    ∃ more, (Likeness.unpaged slots ignores wary named).Comes more tree env v := by
  have own : ∀ id, tree.Free id → (Likeness.unpaged slots ignores wary named).Provides 0
      (fun _ => none) env env id := fun _ _ => .own rfl (Likeness.rel_refl _ _)
  exact hasValue.comes_substituted ignores wary named (.refl (fun _ => rfl) tree) inAny
    (fun part _ => part.expr.spares_of_nothing) own

/-- Trees that are put in and have values need some number of levels, which is enough for all of
them. -/
theorem Substitution.exists_more (s : Substitution) {tree : Node} {env extended : Env}
    (each : ∀ id image, tree.Free id → s.at? id = some image → image.LambdasInAny ∧
      ∃ v, extended.lookup id = some v ∧ image.HasValue declines host naming slots env v) :
    ∃ more, ∀ id image, tree.Free id → s.at? id = some image → ∃ v, extended.lookup id = some v ∧
      (Likeness.unpaged slots ignores wary named).Comes more image env v := by
  obtain ⟨more, enough⟩ := exists_common
    (fun (entry : Nat × Node) more => tree.Free entry.1 → s.at? entry.1 = some entry.2 →
      ∃ v, extended.lookup entry.1 = some v ∧
        (Likeness.unpaged slots ignores wary named).Comes more entry.2 env v)
    (fun le enough free found => by
      obtain ⟨v, bound, comes⟩ := enough free found
      exact ⟨v, bound, comes.mono le⟩)
    (fun entry (_ : entry ∈ s.entries) => by
      by_cases put : tree.Free entry.1 ∧ s.at? entry.1 = some entry.2
      · obtain ⟨inAny, v, bound, hasValue⟩ := each entry.1 entry.2 put.1 put.2
        obtain ⟨more, comes⟩ := hasValue.comes ignores wary named inAny
        exact ⟨more, fun _ _ => ⟨v, bound, comes⟩⟩
      · exact ⟨0, fun free found => absurd ⟨free, found⟩ put⟩)
  exact ⟨more, fun id image free found =>
    enough (id, image) (Keyed.mem_of_lookup found) free found⟩

/-- The substitution lemma. Let each tree that is put in have a value, let the tree be evaluated
with the parameters bound to these values, and let no lambda in it bind a parameter that is mapped
or one that is free in a tree put in. If it makes no equality test that depends on storage and runs
no native of the host, then the tree with the others put in comes to the same value, up to storage,
or to an error of the same kind. So it does under all limits, unless one of the two trips over its
own, which the second does only if it has fewer levels than the first has left and the trees put in
need in addition. -/
theorem Node.evaluateFrom_substituted {s : Substitution} {tree : Node} {env extended : Env}
    (each : ∀ id image, tree.Free id → s.at? id = some image → image.LambdasInAny ∧
      ∃ v, extended.lookup id = some v ∧ image.HasValue declines host naming slots env v)
    (others : ∀ id, tree.Free id → s.at? id = none → extended.lookup id = env.lookup id)
    (inAny : tree.LambdasInAny) (spares : tree.All (·.Spares s.at?)) :
    ∃ more, ∀ out, tree.SubstitutesTo s out → ∀ limit depth limit' depth' store store',
      store.Holds naming slots → store'.Holds naming slots →
      Evaluation.Unrefused declines host limit (limit - depth) tree extended store →
      let plain := (evaluateFrom host limit depth tree extended store).outcome
      let substituted := (evaluateFrom host limit' depth' out env store').outcome
      plain = .error (.recursionLimit limit) ∨
        (limit' - depth' < limit - depth + more ∧ substituted = .error (.recursionLimit limit')) ∨
        Outcomes (fun v w => v.unpaged = w.unpaged) plain substituted := by
  obtain ⟨more, comes⟩ := s.exists_more ignores wary named each
  refine ⟨more, fun out substitutes limit depth limit' depth' store store' holds holds' unrefused =>
    ?_⟩
  have mirrored : (Likeness.unpaged slots ignores wary named).Mirrored more s.at? tree extended out
      env := by
    refine .filled substitutes.substituted inAny.1 inAny.2 spares
      fun id free => ?_
    cases found : s.at? id with
    | some image =>
      obtain ⟨v, bound, comes⟩ := comes id image free found
      exact .image found bound comes
    | none =>
      refine .own found ?_
      rw [others id free found]
      exact Likeness.rel_refl _ _
  simp only [evaluateFrom_eq_within]
  exact (mirrored.likewise_within ⟨holds, holds'⟩ unrefused).outcomes

end

namespace AnyAbove

def q : Parameter := ⟨16, "q", .int⟩

def x : Parameter := ⟨17, "x", .int⟩

def y : Parameter := ⟨18, "y", .int⟩

/-- The call `any([1, 4], q => q > bound)`. -/
def anyOver (bound : Node) : Node :=
  ⟨20, .call none (.function .seqAny)
    [⟨21, .constant (.seq [.int 1, .int 4]) (.seq .int)⟩,
      ⟨22, .lambda ⟨[q], ⟨23, .binary .greaterThan ⟨24, .parameter q⟩ bound .bool⟩, .bool⟩⟩] .bool⟩

def tree : Node := anyOver ⟨25, .parameter x⟩

/-- The sum `y + 1`. -/
def sum : Node :=
  ⟨26, .binary .add ⟨27, .parameter y⟩ ⟨28, .constant (.int 1) .int⟩ .int⟩

def s : Substitution := ⟨[(17, sum)]⟩

def env : Env := [(18, .int 2)]

def extended : Env := [(17, .int 3), (18, .int 2)]

abbrev declines : Expr → List Value → Bool := Expr.cautious fun _ => .slot 0

theorem parts : tree.parts = [tree, ⟨21, .constant (.seq [.int 1, .int 4]) (.seq .int)⟩,
    ⟨22, .lambda ⟨[q], ⟨23, .binary .greaterThan ⟨24, .parameter q⟩ ⟨25, .parameter x⟩ .bool⟩,
      .bool⟩⟩,
    ⟨23, .binary .greaterThan ⟨24, .parameter q⟩ ⟨25, .parameter x⟩ .bool⟩,
    ⟨24, .parameter q⟩, ⟨25, .parameter x⟩] := by cbv

theorem inAny : tree.LambdasInAny ∧ sum.LambdasInAny := by
  have ofSum : sum.parts = [sum, ⟨27, .parameter y⟩, ⟨28, .constant (.int 1) .int⟩] := by cbv
  refine ⟨⟨by decide, ?_⟩, by decide, ?_⟩
  · rw [Node.all_iff_parts, parts]
    decide
  · rw [Node.all_iff_parts, ofSum]
    decide

theorem found {id : Nat} {image : Node} (found : s.at? id = some image) :
    id = 17 ∧ image = sum := by
  simp only [s, Substitution.at?, List.lookup_cons, List.lookup_nil] at found
  split at found
  · rename_i atX
    cases found
    exact ⟨eq_of_beq atX, rfl⟩
  · cases found

theorem spares : tree.All (·.Spares s.at?) := by
  have ofTree : tree.lambdas =
      [⟨[q], ⟨23, .binary .greaterThan ⟨24, .parameter q⟩ ⟨25, .parameter x⟩ .bool⟩, .bool⟩] := by
    cbv
  refine Node.all_spares ?_
  rw [ofTree, List.forall_mem_singleton]
  refine List.forall_mem_singleton.mpr ⟨by decide, fun other image atOther free => ?_⟩
  obtain ⟨-, rfl⟩ := found atOther
  simp [sum, Node.free_mk, Expr.children, Expr.binders, y, q] at free

theorem unrefused : Evaluation.Unrefused declines .basic 5 (5 - 0) tree extended {} := by
  intro e
  rfl

theorem sum_hasValue : sum.HasValue declines .basic (fun _ => .slot 0) [] env (.int 3) := by
  refine ⟨5, 0, {}, ⟨Store.named_of_unread rfl _, rfl⟩, fun e => rfl, ?_⟩
  rw [evaluateFrom_eq_within]
  rfl

end AnyAbove

open AnyAbove in
/-- In `any([1, 4], q => q > x)` the sum `y + 1` is put in for `x`, and evaluated for each item. -/
theorem Node.evaluateFrom_substituted_anyAbove :
    ∃ out enough, tree.SubstitutesTo s out ∧ ∀ limit, enough ≤ limit →
      (evaluateFrom .basic limit 0 out env {}).outcome = .ok (.bool true) := by
  obtain ⟨out, substitutes⟩ := tree.exists_substitutesTo s
  have unread : Store.Holds (fun _ => .slot 0) [] {} := ⟨Store.named_of_unread rfl _, rfl⟩
  have each : ∀ id image, tree.Free id → s.at? id = some image → image.LambdasInAny ∧
      ∃ v, extended.lookup id = some v ∧
        image.HasValue declines .basic (fun _ => .slot 0) [] env v := by
    intro id image _ atId
    obtain ⟨rfl, rfl⟩ := found atId
    exact ⟨inAny.2, .int 3, rfl, sum_hasValue⟩
  have others : ∀ id, tree.Free id → s.at? id = none → extended.lookup id = env.lookup id := by
    intro id _ absent
    simp only [s, Substitution.at?, List.lookup_cons, List.lookup_nil] at absent
    split at absent
    · cases absent
    · rename_i elsewhere
      rw [extended, List.lookup_cons, elsewhere, env]
  have plain : (evaluateFrom .basic 5 0 tree extended {}).outcome = .ok (.bool true) := by
    rw [evaluateFrom_eq_within]
    rfl
  obtain ⟨more, agrees⟩ := evaluateFrom_substituted Host.basic_ignoresStorage
    (Expr.wary_cautious _) Expr.namedBy_of_cautious each others inAny.1 spares
  refine ⟨out, 5 + more, substitutes, fun limit enough => ?_⟩
  rcases agrees out substitutes 5 0 limit 0 {} {} unread unread unrefused with
    trips | ⟨short, -⟩ | outcomes
  · cases plain.symm.trans trips
  · omega
  · rw [plain] at outcomes
    exact outcomes.eq_bool

namespace TwiceBuilt

def r : Parameter := ⟨16, "r", .any⟩

/-- The lambda `r => r == r`. -/
def same : Lambda :=
  ⟨[r], ⟨30, .binary .equal ⟨31, .parameter r⟩ ⟨32, .parameter r⟩ .bool⟩, .bool⟩

/-- The construction `new R { L = x }`. -/
def made (x : Float) : Node := ⟨34, .record "R" [("L", ⟨35, .constant (.float x) .float⟩)]⟩

/-- The construction twice, in the comparison `new R { L = x } == new R { L = x }`. -/
def out (x : Float) : Node := ⟨100, .binary .equal (made x) (made x) .bool⟩

/-- The substitution of the construction for `r`. -/
def building (x : Float) : Substitution := ⟨[(16, made x)]⟩

theorem same_substitutesTo (x : Float) : same.body.SubstitutesTo (building x) (out x) := by
  refine ⟨9, 0, ⟨100⟩, ?_⟩
  simp only [Node.substituteFrom, Pass.run_eq_transform]
  cbv

theorem made_value (x : Float) (env : Env) (store : Store) :
    (evaluateFrom .basic 5 0 (made x) env store).outcome =
      .ok (value x (store.supply.next + 1)) := by
  rw [evaluateFrom_eq_within]
  rfl

/-- A record that is bound is compared with itself. -/
theorem same_value {x : Float} {mark : Nat} {env : Env}
    (bound : env.lookup 16 = some (value x mark)) (store : Store) :
    (evaluateFrom .basic 5 0 same.body env store).outcome = .ok (.bool true) := by
  have applied : (evaluateFrom .basic 5 0 same.body env store).outcome =
      BinaryOp.equal.apply (value x mark) (value x mark) := by
    rw [evaluateFrom_eq_within]
    simp [Evaluation.within, Evaluation.ofNode, same, Lambda.body, Node.expr, r, bound]
  rw [applied, BinaryOp.apply, value_equals_self]

/-- Two records are built and compared. -/
theorem evaluated {x : Float} (nan : (x == x) = false) (env : Env) (store : Store) :
    (evaluateFrom .basic 5 0 (out x) env store).outcome = .ok (.bool false) := by
  have applied : (evaluateFrom .basic 5 0 (out x) env store).outcome =
      BinaryOp.equal.apply (value x (store.supply.next + 1))
        (value x (store.supply.next + 3)) := by
    rw [evaluateFrom_eq_within]
    rfl
  rw [applied, BinaryOp.apply, value_not_equals nan (by omega)]

/-- Whether the node is a lambda or a call. -/
def isLambdaOrCall : Expr → Bool
  | .lambda _ | .call .. => true
  | _ => false

theorem plain (x : Float) : ∀ part ∈ same.body.parts ++ (made x).parts,
    isLambdaOrCall part.expr = false := by
  have parts : same.body.parts ++ (made x).parts = [same.body, ⟨31, .parameter r⟩,
      ⟨32, .parameter r⟩, made x, ⟨35, .constant (.float x) .float⟩] := by cbv
  rw [parts]
  simp [isLambdaOrCall, same, made, Lambda.body, Node.expr]

end TwiceBuilt

open TwiceBuilt in
/-- Neither `r == r` nor `new R { L = NaN }` has a lambda node or a call in it, and yet the
comparison is true with `r` bound to the value of the record, and false with the record put in for
`r`. -/
theorem Node.evaluateFrom_substituted_alters_twiceBuilt :
    (∀ part ∈ TwiceBuilt.same.body.parts ++ (made nan).parts, isLambdaOrCall part.expr = false) ∧
    TwiceBuilt.same.body.SubstitutesTo (building nan) (out nan) ∧
    ∃ v, (evaluateFrom .basic 5 0 (made nan) [] {}).outcome = .ok v ∧
      (evaluateFrom .basic 5 0 TwiceBuilt.same.body [(16, v)] {}).outcome = .ok (.bool true) ∧
      (evaluateFrom .basic 5 0 (out nan) [] {}).outcome = .ok (.bool false) := by
  exact ⟨plain nan, same_substitutesTo nan, _, made_value nan [] {}, same_value rfl {},
    evaluated nan_unequal [] {}⟩

end TypedTrees
