import Mathlib.Order.Bounds.Basic
import TypedTrees.Proofs.Combinators.Fold
import TypedTrees.Proofs.Tree.Built
/-!
Membership in a list as a tree. The comparisons with the items are joined from the left, so each
further item is one more comparison and one more level, and it adds its own answer to the others
(`Node.Asks`). The padding repeats the last item, which has been asked about already. So the tree
answers whether its input equals one of the items, and its depth depends on their number alone
(`Lambda.invoke_equalToAny`).
-/
namespace TypedTrees

/-! ### Shapes -/

/-- The node without what it holds. Its kind, its operator and its children stay. -/
def Expr.blank : Expr → Expr
  | .parameter _ => .parameter ⟨0, "", .any⟩
  | .constant _ _ => .constant .null .any
  | .call receiver callee args _ => .call receiver callee args .any
  | .unary op operand _ => .unary op operand .any
  | .binary op left right _ => .binary op left right .any
  | .condition test ifTrue ifFalse _ => .condition test ifTrue ifFalse .any
  | other => other

/-- Whether the node compares its operands for equality. -/
def Expr.isComparison : Expr → Bool
  | .binary .equal _ _ _ => true
  | _ => false

namespace Node

/-- The tree with all its nodes blank and unmarked. -/
def shape (tree : Node) : Node :=
  ⟨0, tree.expr.blank.withChildren (tree.expr.children.attach.map fun child => child.val.shape)⟩
termination_by sizeOf tree
decreasing_by exact sizeOf_lt_of_child child.property

theorem shape_mk (mark : Nat) (expr : Expr) :
    shape ⟨mark, expr⟩ = ⟨0, expr.blank.withChildren (expr.children.map shape)⟩ := by
  rw [shape]
  simp only [expr_mk, List.attach_map_val]

/-- How many comparisons the tree has. -/
def comparisons (tree : Node) : Nat := tree.parts.countP (·.expr.isComparison)

theorem comparisons_mk (mark : Nat) (expr : Expr) :
    comparisons ⟨mark, expr⟩ = (expr.children.map comparisons).sum + expr.isComparison.toNat := by
  have here : (if expr.isComparison then 1 else 0) = expr.isComparison.toNat := by
    cases expr.isComparison <;> rfl
  rw [comparisons, parts_eq, List.countP_cons, List.countP_flatMap, expr_mk, here]
  rfl

/-- The shape of a comparison of a parameter with a constant. -/
def comparingOne : Node :=
  ⟨0, .binary .equal ⟨0, .parameter ⟨0, "", .any⟩⟩ ⟨0, .constant .null .any⟩ .any⟩

/-- The shape of `n` comparisons of a parameter with constants, joined from the left. Without any
it is that of a constant. -/
def comparing : Nat → Node
  | 0 => ⟨0, .constant .null .any⟩
  | 1 => comparingOne
  | n + 2 => ⟨0, .binary .or (comparing (n + 1)) comparingOne .any⟩

/-- With the input bound, the tree asks whether it equals one of the items. It compares the input
with each of them, and needs a level for each and one more. -/
structure Asks (input : Parameter) (tree : Node) (items : List Value) : Prop where
  shape : tree.shape = comparing items.length
  comparisons : tree.comparisons = items.length
  within : ∀ host limit room env store v, env.lookup input.id = some v →
    Evaluation.within host limit room tree env store =
      (if room < items.length + 1 then .error (.recursionLimit limit)
        else .ok (.bool (items.any (v.equals ·))), store)

end Node

namespace Lambda

variable {input : Parameter} {ty : Ty}

theorem asks_comparison (mark : Nat) (item : Value) (supply : Supply) :
    (comparison ⟨mark, .parameter input⟩ ty item supply).1.Asks input [item] where
  shape := by
    simp only [comparison, joined, Node.new, Expr.binaryOf]
    simp [Node.shape_mk, Expr.blank, Expr.children, Expr.withChildren, Node.comparing,
      Node.comparingOne]
  comparisons := by
    simp only [comparison, joined, Node.new, Expr.binaryOf]
    simp [Node.comparisons_mk, Expr.children, Expr.isComparison]
  within := by
    intro host limit room env store v bound
    simp only [comparison, joined, Node.new, Expr.binaryOf]
    rcases room with _ | _ | room
    · rfl
    · rfl
    · have enough : ¬room + 2 < [item].length + 1 := by simp
      rw [Evaluation.within, Evaluation.ofNode_eager rfl (by decide), if_neg enough]
      simp [Evaluation.within, Evaluation.ofNode, Node.expr_mk, bound, Evaluation.andThen,
        BinaryOp.apply]

/-- One more comparison asks about one more item. -/
theorem asks_joined {acc next : Node} {seen : List Value} {item : Value} (some : seen ≠ [])
    (asks : acc.Asks input seen) (asksNext : next.Asks input [item]) (supply : Supply) :
    (joined .or acc next supply).1.Asks input (seen ++ [item]) where
  shape := by
    obtain ⟨first, rest, rfl⟩ := List.exists_cons_of_ne_nil some
    simp only [joined, Node.new, Expr.binaryOf]
    rw [Node.shape_mk]
    simp [Expr.blank, Expr.children, Expr.withChildren, asks.shape, asksNext.shape, Node.comparing]
  comparisons := by
    simp only [joined, Node.new, Expr.binaryOf]
    rw [Node.comparisons_mk]
    simp [Expr.children, Expr.isComparison, asks.comparisons, asksNext.comparisons]
  within := by
    intro host limit room env store v bound
    simp only [joined, Node.new, Expr.binaryOf, List.length_append]
    cases room with
    | zero => rfl
    | succ room =>
      rw [Evaluation.within, Evaluation.ofNode_eager rfl (by decide),
        asks.within host limit room env store v bound]
      -- the comparisons so far need all levels but the one of the new node
      by_cases short : room < seen.length + 1
      · rw [if_pos short, if_pos (by simpa using short)]
        rfl
      · have positive := List.length_pos_iff.mpr some
        rw [if_neg short, if_neg (by simpa using short)]
        simp only [Evaluation.andThen, asksNext.within host limit room env store v bound]
        rw [if_neg (by simp only [List.length_singleton]; omega), List.any_append]
        rfl

theorem asks_orComparisons {mark : Nat} {acc : Node} {seen : List Value} (some : seen ≠ [])
    (asks : acc.Asks input seen) (items : List Value) (supply : Supply) :
    (orComparisons ⟨mark, .parameter input⟩ ty acc items supply).1.Asks input (seen ++ items) := by
  induction items generalizing acc seen supply with
  | nil =>
    rw [List.append_nil]
    exact asks
  | cons item items ih =>
    have asksNext : (comparison ⟨mark, .parameter input⟩ ty item supply).1.Asks input [item] :=
      asks_comparison mark item supply
    rw [List.append_cons]
    exact ih (by simp) (asks_joined some asks asksNext _) _

/-! ### Padding -/

/-- The number of items is rounded up to the next multiple. -/
theorem length_padded (granularity : Nat) (items : List Value) :
    IsLeast {n | max granularity 1 ∣ n ∧ items.length ≤ n} (padded granularity items).length := by
  have positive : 0 < max granularity 1 := by omega
  have rounds : IsLeast {n | max granularity 1 ∣ n ∧ items.length ≤ n}
      ((items.length + max granularity 1 - 1) / max granularity 1 * max granularity 1) := by
    rw [← Nat.ceilDiv_eq_add_pred_div]
    constructor
    · refine ⟨Nat.dvd_mul_left _ _, ?_⟩
      rw [mul_comm]
      exact (ceilDiv_le_iff_le_mul positive).mp le_rfl
    · rintro m ⟨⟨k, rfl⟩, bound⟩
      rw [mul_comm]
      exact Nat.mul_le_mul_left _ ((ceilDiv_le_iff_le_mul positive).mpr bound)
  rw [padded]
  cases last : items.getLast? with
  | none =>
    rw [List.getLast?_eq_none_iff.mp last]
    exact ⟨⟨Nat.dvd_zero _, Nat.le_refl _⟩, fun n _ => Nat.zero_le n⟩
  | some item =>
    have enough := rounds.1.2
    simpa only [List.length_append, List.length_replicate, Nat.add_sub_cancel' enough] using rounds

/-- The last item is among the items already. -/
theorem any_padded (granularity : Nat) (items : List Value) (test : Value → Bool) :
    (padded granularity items).any test = items.any test := by
  rw [padded]
  cases last : items.getLast? with
  | none =>
    rw [List.getLast?_eq_none_iff.mp last]
  | some item =>
    have member := List.mem_of_getLast? last
    simp only [List.any_append, List.any_replicate]
    by_cases holds : test item = true
    · rw [List.any_eq_true.mpr ⟨item, member, holds⟩, Bool.true_or]
    · rw [Bool.not_eq_true] at holds
      rw [holds, ite_self, Bool.or_false]

/-! ### Membership -/

/-- With no items the tree is a constant, and with some it asks about them padded. -/
theorem equalToAny_cases (items : List Value) (ty : Ty) (granularity : Nat) (supply : Supply) :
    (∃ param mark, padded granularity items = [] ∧ (equalToAny items ty granularity supply).1 =
        .of [param] ⟨mark, .constant (.bool false) .bool⟩) ∨
      ∃ param body, items ≠ [] ∧ body.Asks param (padded granularity items) ∧
        (equalToAny items ty granularity supply).1 = .of [param] body := by
  rw [equalToAny]
  cases pads : padded granularity items with
  | nil => exact .inl ⟨_, _, rfl, rfl⟩
  | cons first rest =>
    refine .inr ⟨_, _, ?_, asks_orComparisons (List.cons_ne_nil first []) ?_ rest _, rfl⟩
    · rintro rfl
      cases pads
    · exact asks_comparison _ first _

/-- Whether the input equals one of the items, as a tree. With the number of items rounded up to
`n`, a multiple of the granularity, the tree has `n` comparisons and its shape depends on `n` alone.
Under a limit of less than `n + 1` levels its invocation fails, and under any other it tells whether
the value equals an item. No value equals one of no items, which the tree says with a constant. -/
theorem invoke_equalToAny (items : List Value) (ty : Ty) (granularity : Nat) (supply : Supply) :
    ∃ n, IsLeast {m | max granularity 1 ∣ m ∧ items.length ≤ m} n ∧
      (equalToAny items ty granularity supply).1.body.shape = .comparing n ∧
      (equalToAny items ty granularity supply).1.body.comparisons = n ∧
      (∀ host limit x store,
        (equalToAny items ty granularity supply).1.invoke host limit [x] store =
        (if limit < n + 1 then .error (.recursionLimit limit)
          else .ok (.bool (items.any (x.equals ·))), store)) ∧
      (items = [] → (equalToAny items ty granularity supply).1.body.expr =
        .constant (.bool false) .bool) := by
  refine ⟨_, length_padded granularity items, ?_⟩
  simp only [← any_padded granularity items]
  rcases equalToAny_cases items ty granularity supply with
    ⟨param, mark, none, is⟩ | ⟨param, body, some, asks, is⟩
  · rw [is, none]
    refine ⟨Node.shape_mk .., Node.comparisons_mk .., fun host limit x store => ?_, fun _ => rfl⟩
    rw [invoke_eq rfl]
    cases limit <;> rfl
  · rw [is]
    refine ⟨asks.shape, asks.comparisons, fun host limit x store => ?_,
      fun none => absurd none some⟩
    have bound : ((Lambda.of [param] body).scope [] [x]).lookup param.id = .some x := by
      rw [lookup_scope_one rfl, BEq.rfl, if_pos rfl]
    rw [invoke_eq rfl]
    exact asks.within host limit limit _ store x bound

end Lambda

end TypedTrees
