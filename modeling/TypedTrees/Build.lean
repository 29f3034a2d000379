import TypedTrees.Error
import TypedTrees.Tree.Text
/-!
Construction of nodes with the checks that can be made on the spot: the number and the types of
arguments, and what may be written. Each function gives what the node is to be; `Node.new` then
makes the node. The type of a built node is computed here once and stored with it.
-/
namespace TypedTrees

namespace Lambda

/-- A lambda whose result type is the type of its body. -/
def of (params : List Parameter) (body : Node) : Lambda := ⟨params, body, body.ty⟩

end Lambda

namespace Expr

/-- A constant typed by its value. -/
def constantOf (value : Value) : Expr := .constant value value.ty

/-- A constant that holds a lambda tree, ready to be the holder of a reference call. -/
def treeOf (l : Lambda) : Expr := constantOf (.tree l)

/-- The first argument, counted from `index`, whose type its parameter does not accept. -/
def checkTypes (context : Nat → String → String) :
    Nat → List (String × Ty) → List Node → Except Error Unit
  | index, (name, ty) :: params, arg :: args =>
    if ty.accepts arg.ty then checkTypes context (index + 1) params args
    else .error (.ofTypes ty arg.ty (context index name))
  | _, _, _ => .ok ()

/-- The checks on the arguments of a call: first their number, then their types in order. -/
def checkArgs (f : Function) (args : List Node) : Except Error Unit :=
  if f.params.length = args.length then
    checkTypes (fun _ name => "argument '" ++ name ++ "' of '" ++ f.name ++ "'") 1
      (f.params.map fun p => (p.name, p.ty)) args
  else .error (.arityMismatch f.params.length args.length f.text)

def callOf (f : Function) (args : List Node) : Except Error Expr :=
  if f.isMethod then .error (.invalidArgument (.needsReceiver f.text))
  else (checkArgs f args).map fun _ => .call none (.function f) args f.ret

def methodCallOf (receiver : Node) (f : Function) (args : List Node) : Except Error Expr :=
  match f.receiver with
  | none => .error (.invalidArgument (.notAMethod f.text))
  | some expected =>
    if expected.accepts receiver.ty then
      (checkArgs f args).map fun _ => .call (some receiver) (.function f) args f.ret
    else .error (.ofTypes expected receiver.ty ("receiver of '" ++ f.name ++ "'"))

/-- The type of a reference call, if its holder and arguments pass the checks. A holder of the
wildcard type is left for expansion to check. -/
def invokeType (holder : Node) (args : List Node) : Except Error Ty :=
  match holder.ty with
  | .any => .ok .any
  | .quoted inner =>
    match inner.functionParts with
    | none => .ok .any
    | some (params, ret) =>
      if params.length = args.length then
        (checkTypes (fun i _ => "argument " ++ toString i ++ " of '" ++ holder.text ++ ".invoke'") 1
          (params.map fun ty => ("", ty)) args).map fun _ => ret
      else .error (.arityMismatch params.length args.length holder.text)
  | other =>
    .error (.typeMismatch "a tree holder" other.text ("reference call on '" ++ holder.text ++ "'"))

/-- A reference call: the lambda tree that `holder` holds, called on `args`. -/
def invokeOf (holder : Node) (args : List Node) : Except Error Expr :=
  match InvokeShape.ofArity? args.length with
  | none => .error (.invalidArgument (.referenceArity args.length holder.text))
  | some shape =>
    (invokeType holder args).map fun ty => .call none (.invoke shape) (holder :: args) ty

def unaryType (op : UnaryOp) (operand : Ty) : Ty :=
  match op with
  | .not => .bool
  | .negate => operand
  | .convert target => target

def unaryOf (op : UnaryOp) (operand : Node) : Expr :=
  .unary op operand (unaryType op operand.ty)

/-- The type of a binary node. Addition with a string is a string, other arithmetic with a
floating point number is one, and all other arithmetic follows its left operand. -/
def binaryType (op : BinaryOp) (left right : Ty) : Ty :=
  if op.isPredicate then .bool
  else if op = .add ∧ (left = .str ∨ right = .str) then .str
  else if left = .float ∨ right = .float then .float
  else left

def binaryOf (op : BinaryOp) (left right : Node) : Expr :=
  .binary op left right (binaryType op left.ty right.ty)

/-- A conditional, typed by its first branch. -/
def conditionOf (test ifTrue ifFalse : Node) : Expr :=
  .condition test ifTrue ifFalse ifTrue.ty

/-- A write of `value` into a field of `target`. -/
def setMemberOf (target : Node) (m : Member) (value : Node) : Except Error Expr :=
  if !m.isWritable then .error (.invalidArgument (.memberNotWritable m.path))
  else if m.ty.accepts value.ty then .ok (.setMember target m value)
  else .error (.ofTypes m.ty value.ty ("value written to '" ++ m.name ++ "'"))

end Expr

end TypedTrees
