import TypedTrees.Error
import TypedTrees.Eval.Procedure
import TypedTrees.Tree.Text
/-!
The operators on values. Integer arithmetic is exact or fails: the result is computed on unbounded
integers and must lie in the 64-bit range. A division truncates toward zero.
-/
namespace TypedTrees

/-- The 64-bit integer of this value, if there is one. -/
def int64? (n : Int) : Option Int64 :=
  if Int64.minValue.toInt ≤ n ∧ n ≤ Int64.maxValue.toInt then some (Int64.ofInt n) else none

namespace Value

/-- The value as a floating point number, if it is a number. -/
def asFloat? : Value → Option Float
  | int n => some n.toFloat
  | float x => some x
  | _ => none

/-- The text of a value in a string concatenation: that of a string is the string itself. -/
def plainText : Value → String
  | str s => s
  | v => v.text

/-- Conversion to a type. Numbers and booleans turn into each other's kinds where they can; any
other value passes unchanged if the type accepts it, and null always does. -/
def convert (target : Ty) (v : Value) : Except Error Value :=
  match target, v with
  | .float, int n => .ok (float n.toFloat)
  | .int, float x =>
    if x.isFinite then .ok (int x.toInt64) else pass
  | .str, int n => .ok (str (toString n.toInt))
  | .str, float x => .ok (str (FloatLayout.conversion.text x))
  | .str, bool b => .ok (str (if b then "true" else "false"))
  | _, _ => pass
where
  /-- The value unchanged, if the type accepts it. -/
  pass : Except Error Value :=
    if target.accepts v.ty || v.isNull then .ok v
    else .error (.eval (.notConvertible v.kindName target.text))

end Value

namespace UnaryOp

def apply : UnaryOp → Value → Except Error Value
  | not, .bool b => .ok (.bool !b)
  | negate, .int n =>
    match int64? (-n.toInt) with
    | some m => .ok (.int m)
    | none => .error (.eval (.negationOverflow n))
  | negate, .float x => .ok (.float (-x))
  | convert target, v => v.convert target
  | op, v => .error (.eval (.unaryOperand op v.kindName))

end UnaryOp

namespace BinaryOp

/-- The operands are of kinds that the operator does not take. -/
def mismatch (op : BinaryOp) (l r : Value) : Except Error Value :=
  .error (.eval (.binaryOperands op l.kindName r.kindName))

/-- The exact result of integer arithmetic. The divisor is not zero. -/
def onInts : BinaryOp → Int → Int → Int
  | add, a, b => a + b
  | subtract, a, b => a - b
  | multiply, a, b => a * b
  | _, a, b => Int.tdiv a b

def onFloats : BinaryOp → Float → Float → Float
  | add, x, y => x + y
  | subtract, x, y => x - y
  | multiply, x, y => x * y
  | _, x, y => x / y

/-- Integer arithmetic: a division by zero and a result out of range fail. -/
def intArithmetic (op : BinaryOp) (a b : Int64) : Except Error Value :=
  if op = divide ∧ b = 0 then .error (.eval .divisionByZero)
  else
    match int64? (op.onInts a.toInt b.toInt) with
    | some n => .ok (.int n)
    | none => .error (.eval (.overflow a op b))

/-- Arithmetic. Addition with a string on either side puts texts together, two integers are
computed exactly, and any other numbers as floating point numbers. -/
def arithmetic (op : BinaryOp) (l r : Value) : Except Error Value :=
  match op, l, r with
  | add, .str s, v => .ok (.str (s ++ v.plainText))
  | add, v, .str s => .ok (.str (v.plainText ++ s))
  | op, .int a, .int b => op.intArithmetic a b
  | op, l, r =>
    match l.asFloat?, r.asFloat? with
    | some x, some y => .ok (.float (op.onFloats x y))
    | _, _ => op.mismatch l r

/-- The order of two floating point numbers. A NaN has none. -/
def floatOrder? (x y : Float) : Option Ordering :=
  if x < y then some .lt
  else if x == y then some .eq
  else if y < x then some .gt
  else none

/-- What an order means for a comparison operator. -/
def holds : BinaryOp → Ordering → Bool
  | lessThan, o => o.isLT
  | lessThanOrEqual, o => o.isLE
  | greaterThan, o => o.isGT
  | _, o => o.isGE

/-- Comparison of two numbers or two strings. Strings are ordered by code point. -/
def comparison (op : BinaryOp) (l r : Value) : Except Error Value :=
  match l, r with
  | .int a, .int b => .ok (.bool (op.holds (compare a.toInt b.toInt)))
  | .str s, .str t => .ok (.bool (op.holds (compare s t)))
  | l, r =>
    match l.asFloat?, r.asFloat? with
    | some x, some y =>
      .ok (.bool (match floatOrder? x y with
        | some order => op.holds order
        | none => false))
    | _, _ => op.mismatch l r

/-- Conjunction and disjunction, of booleans or bit by bit of integers. -/
def logical (op : BinaryOp) (l r : Value) : Except Error Value :=
  let conjunction := op = and ∨ op = andAlso
  match l, r with
  | .bool a, .bool b => .ok (.bool (if conjunction then a && b else a || b))
  | .int a, .int b => .ok (.int (if conjunction then a &&& b else a ||| b))
  | l, r => op.mismatch l r

/-- The value of a binary node whose operands have both been evaluated. -/
def apply (op : BinaryOp) (l r : Value) : Except Error Value :=
  match op with
  | equal => .ok (.bool (l.equals r))
  | notEqual => .ok (.bool !(l.equals r))
  | lessThan | lessThanOrEqual | greaterThan | greaterThanOrEqual => op.comparison l r
  | and | or | andAlso | orElse => op.logical l r
  | add | subtract | multiply | divide => op.arithmetic l r

end BinaryOp

end TypedTrees
