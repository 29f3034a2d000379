import TypedTrees.Eval.Procedure
/-!
A small host, whose natives and properties need nothing but their operands.
-/
namespace TypedTrees

namespace Host

/-- Properties that any value has: itself and its kind. -/
def basicProperty : String → Value → Option Value
  | "self", target => some target
  | "kind", target => some (.str target.kindName)
  | _, _ => none

/-- Natives that collect their operands, fail, or apply the first operand to the others, letting
errors through or answering null for them. -/
def basicNative : String → List Value → Procedure
  | "args", args => .answer (.ok (.seq args))
  | "apply", [] => .answer (.error (.eval (.other "apply needs a callee")))
  | "apply", callee :: args => .apply callee args .answer
  | "try_apply", [] => .answer (.ok .null)
  | "try_apply", callee :: args => .apply callee args fun
    | .ok v => .answer (.ok v)
    | .error _ => .answer (.ok .null)
  | _, args =>
    .answer (.error (.eval (.other ("native failed on " ++ toString args.length ++ " arguments"))))

def basic : Host := ⟨basicProperty, basicNative⟩

end Host

end TypedTrees
