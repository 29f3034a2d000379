import TypedTrees.Error
import TypedTrees.Keyed
import TypedTrees.Tree.Equality
/-!
Native functions. What a native does is a `Procedure`: it answers at once, or it has a callable
applied or a tree evaluated and goes on with the outcome, good or bad. Evaluation carries these
steps out; a native has no other access to it. Beside that a native may draw identities and change
the static slots, one that no tree reads included, where it can keep a state of its own.
-/
namespace TypedTrees

/-- What a native does once it has its operands. -/
inductive Procedure where
  | answer (outcome : Except Error Value)
  /-- Apply a callable value, then go on with the outcome. -/
  | apply (callee : Value) (args : List Value) (next : Except Error Value → Procedure)
  /-- Evaluate a tree under bindings, then go on with the outcome. -/
  | evaluate (node : Node) (env : Env) (next : Except Error Value → Procedure)
  /-- Draw identities from the supply, then go on with what was made of them. -/
  | draw (rest : Supply → Supply) (next : Supply → Procedure)
  /-- Change the contents of the static slots, then go on with what they were. -/
  | change (slots : List (Nat × Value) → List (Nat × Value))
    (next : List (Nat × Value) → Procedure)

/-- What the program around the library supplies: computed properties and native functions, by
name. -/
structure Host where
  property : String → Value → Option Value
  native : String → List Value → Procedure

/-- Equality as trees compute it: integers and floating point numbers compare as numbers, all else
structurally. -/
def Value.equals : Value → Value → Bool
  | .int n, .float x => n.toFloat == x
  | .float x, .int n => n.toFloat == x
  | v, w => v == w

namespace Builtin

/-- Applies the predicate to each item until one passes. -/
def anyOf (predicate : Value) : List Value → Procedure
  | [] => .answer (.ok (.bool false))
  | item :: rest => .apply predicate [item] fun
    | .error e => .answer (.error e)
    | .ok (.bool true) => .answer (.ok (.bool true))
    | .ok (.bool false) => anyOf predicate rest
    | .ok other => .answer (.error (.eval (.anyVerdict other.kindName)))

def procedure : Builtin → List Value → Procedure
  | concat, [.str l, .str r] => .answer (.ok (.str (l ++ r)))
  | concat, _ => .answer (.error (.eval .concatOperands))
  | contains, [.seq items, item] =>
    .answer (.ok (.bool (items.any fun candidate => candidate.equals item)))
  | contains, _ => .answer (.error (.eval .containsOperands))
  | any, [.seq items, predicate] => anyOf predicate items
  | any, _ => .answer (.error (.eval .anyOperands))
  | count, [.seq items] => .answer (.ok (.int (Int64.ofNat items.length)))
  | count, _ => .answer (.error (.eval .countOperands))

end Builtin

def Native.procedure (host : Host) : Native → List Value → Procedure
  | .builtin which, args => which.procedure args
  | .host name, args => host.native name args

/-- The value of a computed property, where the target has it. -/
def Getter.read (host : Host) : Getter → Value → Option Value
  | .length, .str s => some (.int (Int64.ofNat s.length))
  | .length, _ => none
  | .host name, target => host.property name target

namespace Lambda

/-- The bindings that the body of a lambda runs under when it is called on `args` where `env` is
in force. -/
def scope (l : Lambda) (env : Env) (args : List Value) : Env :=
  Keyed.insertAll (l.params.map Parameter.id |>.zip args) env

end Lambda

end TypedTrees
