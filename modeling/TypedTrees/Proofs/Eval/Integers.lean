import Mathlib
import TypedTrees.Proofs.Eval.Refinement
import TypedTrees.Proofs.Tree.Filled
import TypedTrees.Proofs.Tree.Parts
/-!
Integer arithmetic in trees. A tree of integer constants, negations and the four arithmetic
operations stands for a number, and its evaluation comes to this number or fails. It has a value
just if every part of it stands for a 64-bit number and no divisor for zero, and where it fails the
error tells what became of some part (`Evaluator.evaluate_integer`).
-/
namespace TypedTrees

/-- The number is that of a signed 64-bit integer. -/
def FitsWord (n : Int) : Prop := -2 ^ 63 ≤ n ∧ n < 2 ^ 63

/-- Whether the node is an integer constant, a negation or an arithmetic operation. -/
def Expr.isInteger : Expr → Bool
  | .constant (.int _) _ => true
  | .unary .negate _ _ => true
  | .binary op _ _ _ => !op.isPredicate
  | _ => false

theorem Expr.isInteger_iff {expr : Expr} : expr.isInteger = true ↔
    (∃ n ty, expr = .constant (.int n) ty) ∨ (∃ operand ty, expr = .unary .negate operand ty) ∨
      ∃ op left right ty, expr = .binary op left right ty ∧ op.isPredicate = false := by
  constructor
  · intro integer
    rw [isInteger.eq_def] at integer
    split at integer
    · exact .inl ⟨_, _, rfl⟩
    · exact .inr (.inl ⟨_, _, rfl⟩)
    · exact .inr (.inr ⟨_, _, _, _, rfl, by simpa using integer⟩)
    · cases integer
  · rintro (⟨n, ty, rfl⟩ | ⟨operand, ty, rfl⟩ | ⟨op, left, right, ty, rfl, arithmetic⟩)
    · rfl
    · rfl
    · rw [isInteger, arithmetic]
      rfl

mutual

/-- The number that a tree of integers stands for. A quotient is truncated toward zero. -/
def Node.number : Node → Int
  | .mk _ expr => expr.number

def Expr.number : Expr → Int
  | .constant (.int n) _ => n.toInt
  | .unary .negate operand _ => -operand.number
  | .binary .add left right _ => left.number + right.number
  | .binary .subtract left right _ => left.number - right.number
  | .binary .multiply left right _ => left.number * right.number
  | .binary .divide left right _ => left.number.tdiv right.number
  | _ => 0

end

/-- The node stands for a 64-bit number, and if it is a division, then not by zero. -/
structure Expr.Exact (expr : Expr) : Prop where
  fits : FitsWord expr.number
  divisor : ∀ left right ty, expr = .binary .divide left right ty → right.number ≠ 0

/-- The node has no value for this reason, which tells its operands. -/
inductive Expr.Fails : Expr → EvalFault → Prop
  | zero {left right : Node} {ty : Ty} (zero : right.number = 0) :
      Fails (.binary .divide left right ty) .divisionByZero
  | overflow {op : BinaryOp} {left right : Node} {ty : Ty} {a b : Int64}
      (first : a.toInt = left.number) (second : b.toInt = right.number)
      (divisor : op = .divide → right.number ≠ 0)
      (high : ¬FitsWord (Expr.binary op left right ty).number) :
      Fails (.binary op left right ty) (.overflow a op b)
  | negation {operand : Node} {ty : Ty} {n : Int64} (is : n.toInt = operand.number)
      (high : ¬FitsWord (-operand.number)) : Fails (.unary .negate operand ty) (.negationOverflow n)

theorem Expr.Fails.not_exact {expr : Expr} {fault : EvalFault} (fails : expr.Fails fault) :
    ¬expr.Exact := by
  intro exact
  cases fails with
  | zero zero => exact exact.divisor _ _ _ rfl zero
  | overflow _ _ _ high => exact high exact.fits
  | negation _ high =>
    have fits := exact.fits
    rw [Expr.number] at fits
    exact high fits

theorem Node.number_eq (node : Node) : node.number = node.expr.number := by
  cases node
  rw [number]
  rfl

/-! ### Words -/

theorem fitsWord_toInt (n : Int64) : FitsWord n.toInt :=
  ⟨n.le_toInt, n.toInt_lt⟩

/-- A number that fits is turned into the word of this number, and no other is turned into one. -/
theorem int64?_cases (n : Int) :
    (∃ m, int64? n = some m ∧ m.toInt = n) ∨ int64? n = none ∧ ¬FitsWord n := by
  have least : Int64.minValue.toInt = -2 ^ 63 := by decide
  have most : Int64.maxValue.toInt = 2 ^ 63 - 1 := by decide
  rw [int64?]
  split
  · rename_i fits
    exact .inl ⟨_, rfl, Int64.toInt_ofInt_of_le (by omega) (by omega)⟩
  · rename_i unfit
    refine .inr ⟨rfl, fun fits => unfit ?_⟩
    rw [FitsWord] at fits
    omega

/-- An arithmetic operation comes to the exact result, unless it divides by zero or the result does
not fit. -/
theorem BinaryOp.apply_cases {op : BinaryOp} (arithmetic : op.isPredicate = false) (a b : Int64) :
    op = .divide ∧ b.toInt = 0 ∧ op.apply (.int a) (.int b) = .error (.eval .divisionByZero) ∨
      (op = .divide → b.toInt ≠ 0) ∧
        ((∃ n, op.apply (.int a) (.int b) = .ok (.int n) ∧ n.toInt = op.onInts a.toInt b.toInt) ∨
          ¬FitsWord (op.onInts a.toInt b.toInt) ∧
            op.apply (.int a) (.int b) = .error (.eval (.overflow a op b))) := by
  have computes : op.apply (.int a) (.int b) = op.intArithmetic a b := by
    cases op with
    | add | subtract | multiply | divide => rfl
    | _ => cases arithmetic
  have isZero : b = 0 ↔ b.toInt = 0 := by rw [← Int64.toInt_inj, Int64.toInt_zero]
  rw [computes, intArithmetic]
  split
  · rename_i byZero
    exact .inl ⟨byZero.1, isZero.mp byZero.2, rfl⟩
  · rename_i divisor
    refine .inr ⟨fun divides zero => divisor ⟨divides, isZero.mpr zero⟩, ?_⟩
    rcases int64?_cases (op.onInts a.toInt b.toInt) with ⟨n, fits, is⟩ | ⟨none, high⟩
    · rw [fits]
      exact .inl ⟨n, rfl, is⟩
    · rw [none]
      exact .inr ⟨high, rfl⟩

theorem UnaryOp.negate_cases (n : Int64) :
    (∃ m, negate.apply (.int n) = .ok (.int m) ∧ m.toInt = -n.toInt) ∨
      ¬FitsWord (-n.toInt) ∧
        negate.apply (.int n) = .error (.eval (.negationOverflow n)) := by
  rw [apply]
  rcases int64?_cases (-n.toInt) with ⟨m, fits, is⟩ | ⟨none, high⟩
  · rw [fits]
    exact .inl ⟨m, rfl, is⟩
  · rw [none]
    exact .inr ⟨high, rfl⟩

/-! ### Trees -/

/-- The outcome is the number that the tree stands for, if all its parts are exact, or it tells why
a part with exact operands has no value. -/
inductive Node.Computes (tree : Node) : Except Error Value → Prop
  | exact {n : Int64} (exact : tree.All Expr.Exact) (is : n.toInt = tree.number) :
      Computes tree (.ok (.int n))
  | fails {part : Node} {fault : EvalFault} (inTree : part.Subtree tree)
      (operands : ∀ operand ∈ part.expr.children, operand.All Expr.Exact)
      (fails : part.expr.Fails fault) : Computes tree (.error (.eval fault))

theorem Node.Computes.value {tree : Node} {n : Int64} (computes : tree.Computes (.ok (.int n))) :
    tree.All Expr.Exact ∧ n.toInt = tree.number := by
  cases computes with
  | exact exact is => exact ⟨exact, is⟩

/-- A node with exact operands comes to its number, if a word has this number. -/
theorem Node.Computes.of_operands {mark : Nat} {expr : Expr} {n : Int64}
    (operands : ∀ operand ∈ expr.children, operand.All Expr.Exact) (number : expr.number = n.toInt)
    (divisor : ∀ left right ty, expr = .binary .divide left right ty → right.number ≠ 0) :
    Computes ⟨mark, expr⟩ (.ok (.int n)) := by
  have fits : FitsWord expr.number := by
    rw [number]
    exact fitsWord_toInt n
  exact .exact (all_iff.mpr ⟨⟨fits, divisor⟩, operands⟩) (by rw [number_eq, expr_mk, number])

/-- A failure of a child is one of the node. -/
theorem Node.Computes.of_child {tree child : Node} {e : Error}
    (member : child ∈ tree.expr.children) (computes : child.Computes (.error e)) :
    tree.Computes (.error e) := by
  cases computes with
  | fails inTree operands fails => exact .fails (.child member inTree) operands fails

theorem Node.Computes.leaf {mark : Nat} {n : Int64} {ty : Ty} :
    Computes ⟨mark, .constant (.int n) ty⟩ (.ok (.int n)) := by
  refine .of_operands (fun child member => by cases member) (by rw [Expr.number]) ?_
  rintro left right ty ⟨⟩

theorem Node.Computes.negate {mark : Nat} {operand : Node} {ty : Ty} {n : Int64}
    (computes : operand.Computes (.ok (.int n))) :
    Computes ⟨mark, .unary .negate operand ty⟩ (UnaryOp.negate.apply (.int n)) := by
  obtain ⟨exact, is⟩ := computes.value
  have operands : ∀ child ∈ (Expr.unary .negate operand ty).children, child.All Expr.Exact := by
    simpa [Expr.children] using exact
  rcases UnaryOp.negate_cases n with ⟨m, value, isNegated⟩ | ⟨high, overflows⟩
  · rw [value]
    refine .of_operands operands (by rw [Expr.number, ← is, isNegated]) ?_
    rintro left right ty ⟨⟩
  · rw [overflows]
    exact .fails (.refl _) operands (.negation is (is ▸ high))

theorem Node.Computes.arithmetic {mark : Nat} {op : BinaryOp} {left right : Node} {ty : Ty}
    {a b : Int64} (isArithmetic : op.isPredicate = false)
    (first : left.Computes (.ok (.int a))) (second : right.Computes (.ok (.int b))) :
    Computes ⟨mark, .binary op left right ty⟩ (op.apply (.int a) (.int b)) := by
  obtain ⟨exactLeft, isLeft⟩ := first.value
  obtain ⟨exactRight, isRight⟩ := second.value
  have operands : ∀ child ∈ (Expr.binary op left right ty).children, child.All Expr.Exact := by
    simpa [Expr.children] using ⟨exactLeft, exactRight⟩
  have number : (Expr.binary op left right ty).number = op.onInts a.toInt b.toInt := by
    rw [isLeft, isRight]
    cases op with
    | add | subtract | multiply | divide => simp only [Expr.number, BinaryOp.onInts]
    | _ => cases isArithmetic
  rcases BinaryOp.apply_cases isArithmetic a b with
    ⟨rfl, zero, fails⟩ | ⟨divisor, ⟨n, value, is⟩ | ⟨high, fails⟩⟩
  · rw [fails]
    exact .fails (.refl _) operands (.zero (isRight ▸ zero))
  · rw [value]
    refine .of_operands operands (number.trans is.symm) ?_
    rintro left right ty ⟨⟩
    exact isRight ▸ divisor rfl
  · rw [fails]
    exact .fails (.refl _) operands (.overflow isLeft isRight (isRight ▸ divisor) (number ▸ high))

/-- Evaluation of a tree of integers, with a level for each of the tree. -/
theorem Evaluation.within_integer {host : Host} {limit room : Nat} {tree : Node}
    (integer : tree.All (·.isInteger = true)) (levels : tree.height ≤ room) (env : Env)
    (store : Store) : ∃ outcome,
      within host limit room tree env store = (outcome, store) ∧ tree.Computes outcome := by
  induction tree using Node.induction generalizing room with
  | node tree ih =>
    obtain ⟨room, rfl⟩ : ∃ below, room = below + 1 :=
      Nat.exists_eq_add_one.mpr (by have := tree.height_pos; omega)
    have below : ∀ child ∈ tree.expr.children, ∃ outcome,
        within host limit room child env store = (outcome, store) ∧ child.Computes outcome := by
      intro child member
      have lower := Node.height_lt_of_child member
      exact ih child member (integer.child member) (by omega)
    have here := integer.here
    -- operands are evaluated from left to right, and the first failure is that of the node
    obtain ⟨mark, expr⟩ := tree
    rw [within]
    rw [Node.expr_mk] at here below
    rcases Expr.isInteger_iff.mp here with
      ⟨n, ty, rfl⟩ | ⟨operand, ty, rfl⟩ | ⟨op, left, right, ty, rfl, arithmetic⟩
    · exact ⟨_, rfl, .leaf⟩
    · obtain ⟨outcome, value, computes⟩ := below operand (.head _)
      simp only [ofNode, Node.expr_mk, value]
      cases computes with
      | exact exact is => exact ⟨_, rfl, .negate (.exact exact is)⟩
      | fails inTree operands fails =>
        exact ⟨_, rfl, .of_child (.head _) (.fails inTree operands fails)⟩
    · have eager : ¬(op = .andAlso ∨ op = .orElse) := by
        rintro (rfl | rfl) <;> cases arithmetic
      obtain ⟨first, value, computes⟩ := below left (.head _)
      obtain ⟨second, value', computes'⟩ := below right (.tail _ (.head _))
      simp only [ofNode, Node.expr_mk, if_neg eager, value]
      cases computes with
      | fails inTree operands fails =>
        exact ⟨_, rfl, .of_child (.head _) (.fails inTree operands fails)⟩
      | exact exact is =>
        simp only [value']
        cases computes' with
        | fails inTree operands fails =>
          exact ⟨_, rfl, .of_child (.tail _ (.head _)) (.fails inTree operands fails)⟩
        | exact exact' is' =>
          exact ⟨_, rfl, .arithmetic arithmetic (.exact exact is) (.exact exact' is')⟩

/-- Integer evaluation is exact or fails. Under a limit that leaves as many levels as the tree is
high, a tree of integers has a value just if all its parts stand for 64-bit numbers and none is
divided by zero, and the value is the number that the tree stands for. Otherwise the evaluation
fails, and the error tells why a part has no value though its operands have. -/
theorem Evaluator.evaluate_integer (evaluator : Evaluator) (host : Host) (sessionLimit : Nat)
    {tree : Node} (integer : tree.All (·.isInteger = true))
    (levels : evaluator.guard.current + tree.height ≤ evaluator.guard.bound sessionLimit)
    (env : Env) (store : Store) : ∃ outcome,
      evaluator.evaluate host sessionLimit tree env store = (outcome, evaluator, store) ∧
      ((∃ n, outcome = .ok (.int n)) ↔ tree.All Expr.Exact) ∧
      (∀ n, outcome = .ok (.int n) → n.toInt = tree.number) ∧
      (¬tree.All Expr.Exact → ∃ (fault : EvalFault) (part : Node),
        outcome = .error (.eval fault) ∧ part.Subtree tree ∧
        (∀ operand ∈ part.expr.children, operand.All Expr.Exact) ∧ part.expr.Fails fault) := by
  obtain ⟨outcome, after, value, run⟩ :=
    evaluator.evaluate_refines_recursion host sessionLimit tree env store
  obtain ⟨_, value', computes⟩ := @Evaluation.within_integer host
    (evaluator.guard.bound sessionLimit) _ tree integer (Nat.le_sub_of_add_le' levels) env store
  cases value.symm.trans value'
  refine ⟨outcome, run, ?_⟩
  cases computes with
  | exact exact is =>
    refine ⟨⟨fun _ => exact, fun _ => ⟨_, rfl⟩⟩, ?_, fun inexact => absurd exact inexact⟩
    rintro n ⟨⟩
    exact is
  | fails inTree operands fails =>
    have inexact : ¬tree.All Expr.Exact := fun exact => fails.not_exact (exact _ inTree)
    refine ⟨⟨?_, fun exact => absurd exact inexact⟩, ?_,
      fun _ => ⟨_, _, rfl, inTree, operands, fails⟩⟩
    · rintro ⟨n, ⟨⟩⟩
    · rintro n ⟨⟩

namespace Divided

/-- The tree `7 / -2`. -/
def truncated : Node :=
  ⟨1, .binary .divide ⟨2, .constant (.int 7) .int⟩
    ⟨3, .unary .negate ⟨4, .constant (.int 2) .int⟩ .int⟩ .int⟩

/-- The least integer divided by `-1`. -/
def outOfRange : Node :=
  ⟨1, .binary .divide ⟨2, .constant (.int Int64.minValue) .int⟩
    ⟨3, .unary .negate ⟨4, .constant (.int 1) .int⟩ .int⟩ .int⟩

theorem parts :
    truncated.parts = [truncated, ⟨2, .constant (.int 7) .int⟩,
      ⟨3, .unary .negate ⟨4, .constant (.int 2) .int⟩ .int⟩, ⟨4, .constant (.int 2) .int⟩] ∧
    outOfRange.parts = [outOfRange, ⟨2, .constant (.int Int64.minValue) .int⟩,
      ⟨3, .unary .negate ⟨4, .constant (.int 1) .int⟩ .int⟩, ⟨4, .constant (.int 1) .int⟩] := by
  constructor <;> cbv

theorem integer : truncated.All (·.isInteger = true) ∧ outOfRange.All (·.isInteger = true) := by
  rw [Node.all_iff_parts, Node.all_iff_parts, parts.1, parts.2]
  decide

theorem truncated_exact : truncated.All Expr.Exact := by
  rw [Node.all_iff_parts, parts.1]
  simp only [List.forall_mem_cons]
  refine ⟨⟨by constructor <;> decide, ?_⟩, ⟨by constructor <;> decide, ?_⟩,
    ⟨by constructor <;> decide, ?_⟩, ⟨by constructor <;> decide, ?_⟩,
    fun part is => by cases is⟩
  · rintro left right ty ⟨⟩
    decide
  all_goals rintro left right ty ⟨⟩

theorem outOfRange_inexact : ¬outOfRange.All Expr.Exact :=
  fun exact => absurd exact.here.fits.2 (by decide)

end Divided

open Divided in
/-- Seven divided by minus two is minus three, and the least integer has no quotient by
minus one. -/
theorem Evaluator.evaluate_integer_divided :
    ((Evaluator.withMaxDepth 3).evaluate .basic 9 truncated [] {}).1 = .ok (.int (-3)) ∧
    ∃ fault, ((Evaluator.withMaxDepth 3).evaluate .basic 9 outOfRange [] {}).1 =
      .error (.eval fault) := by
  have heights : truncated.height = 3 ∧ outOfRange.height = 3 := by constructor <;> cbv
  constructor
  · obtain ⟨outcome, run, value, is, -⟩ := evaluate_integer (.withMaxDepth 3) .basic 9 integer.1
      (by rw [heights.1]; decide) [] {}
    obtain ⟨n, rfl⟩ := value.mpr truncated_exact
    have number : n.toInt = -3 := is n rfl
    rw [run, ← Int64.toInt_inj.mp (number.trans (by decide : -3 = (-3 : Int64).toInt))]
  · obtain ⟨outcome, run, -, -, fails⟩ := evaluate_integer (.withMaxDepth 3) .basic 9 integer.2
      (by rw [heights.2]; decide) [] {}
    obtain ⟨fault, _, rfl, -⟩ := fails outOfRange_inexact
    exact ⟨fault, by rw [run]⟩

end TypedTrees
