import TypedTrees.Keyed
import TypedTrees.Tree
/-!
The dump of a tree for programs that process trees further. It is structured data: a node is an
object tagged with its kind under `node`, and a type, value, operator or callee is tagged by its
only key. Symbols are dumped with their identities. Objects list their keys in order.
-/
namespace TypedTrees

/-- Structured data: what a dump is made of. -/
inductive Dump where
  | null
  | bool (b : Bool)
  | int (n : Int)
  | float (x : Float)
  | str (s : String)
  | list (items : List Dump)
  | object (fields : List (String × Dump))

namespace Dump

/-- A value under the one key that says what it is. -/
def tagged (tag : String) (payload : Dump) : Dump := object [(tag, payload)]

def nat (n : Nat) : Dump := int n

end Dump

mutual

def Ty.dump : Ty → Dump
  | .any => .str "Any"
  | .unit => .str "Unit"
  | .bool => .str "Bool"
  | .int => .str "Int"
  | .float => .str "Float"
  | .str => .str "Str"
  | .seq element => .tagged "Seq" element.dump
  | .object name => .tagged "Object" (.str name)
  | .function params ret => .tagged "Function" (.list [.list (Ty.dumps params), ret.dump])
  | .quoted inner => .tagged "Quoted" inner.dump

def Ty.dumps : List Ty → List Dump
  | [] => []
  | t :: ts => t.dump :: Ty.dumps ts

end

def Parameter.dumpParts (param : Parameter) : Dump × Dump × Dump :=
  (.nat param.id, .str param.name, param.ty.dump)

/-- The dump of a parameter where a lambda declares it. -/
def Parameter.dump (param : Parameter) : Dump :=
  let (id, name, ty) := param.dumpParts
  .object [("id", id), ("name", name), ("ty", ty)]

def MemberKind.tag : MemberKind → String
  | .field => "field"
  | .property _ => "property"
  | .slot => "static"

def Member.dump (m : Member) : Dump :=
  .object [("declaring", .str m.declaring), ("id", .nat m.id), ("kind", .str m.kind.tag),
    ("name", .str m.name), ("ty", m.ty.dump)]

def FunctionParam.dump (p : FunctionParam) : Dump :=
  .object [("mode", .str p.mode.tag), ("name", .str p.name), ("ty", p.ty.dump)]

/-- The dump of a function. Of its implementation only its presence is told. -/
def Function.dump (f : Function) : Dump :=
  .object [("id", .nat f.id), ("name", .str f.name), ("native", .bool f.native.isSome),
    ("params", .list (f.params.map FunctionParam.dump)),
    ("receiver", (f.receiver.map Ty.dump).getD .null), ("ret", f.ret.dump)]

def Callee.dump : Callee → Dump
  | .function f => .tagged "function" f.dump
  | .invoke shape => .tagged "invoke" (.str shape.tag)

def UnaryOp.dump : UnaryOp → Dump
  | .not => .str "not"
  | .negate => .str "negate"
  | .convert target => .tagged "convert" target.dump

mutual

/-- The dump of a value. The bindings of a closure are keyed by the identity of their parameter,
written in decimal digits. -/
def Value.dump : Value → Dump
  | .null => .str "Null"
  | .unit => .str "Unit"
  | .bool b => .tagged "Bool" (.bool b)
  | .int n => .tagged "Int" (.int n.toInt)
  | .float x => .tagged "Float" (if x.isFinite then .float x else .null)
  | .str s => .tagged "Str" (.str s)
  | .seq items => .tagged "Seq" (.list (Value.dumps items))
  | .record typeName ⟨_, fields⟩ =>
    .tagged "Record" <|
      .object [("fields", .object (Value.fieldDumps fields)), ("type_name", .str typeName)]
  | .tree lambda => .tagged "Tree" lambda.dump
  | .closure lambda env =>
    .tagged "Closure" <|
      .object [("env", .object (Keyed.insertAll (Value.bindingDumps env) [])),
        ("lambda", lambda.dump)]

def Value.dumps : List Value → List Dump
  | [] => []
  | v :: vs => v.dump :: Value.dumps vs

def Value.fieldDumps : List (String × Value) → List (String × Dump)
  | [] => []
  | (name, v) :: rest => (name, v.dump) :: Value.fieldDumps rest

def Value.bindingDumps : List (Nat × Value) → List (String × Dump)
  | [] => []
  | (id, v) :: rest => (toString id, v.dump) :: Value.bindingDumps rest

def Lambda.dump : Lambda → Dump
  | .mk params body ret =>
    .object [("body", body.dump), ("params", .list (params.map Parameter.dump)),
      ("ret", ret.dump)]

def Node.dump : Node → Dump
  | .mk _ expr => expr.dump

def Expr.dump : Expr → Dump
  | .parameter param =>
    let (id, name, ty) := param.dumpParts
    .object [("id", id), ("name", name), ("node", .str "parameter"), ("ty", ty)]
  | .constant value ty =>
    .object [("node", .str "constant"), ("ty", ty.dump), ("value", value.dump)]
  | .member none m =>
    .object [("member", m.dump), ("node", .str "member"), ("target", .null)]
  | .member (some target) m =>
    .object [("member", m.dump), ("node", .str "member"), ("target", target.dump)]
  | .call none callee args ty =>
    .object [("args", .list (Node.dumps args)), ("callee", callee.dump), ("node", .str "call"),
      ("receiver", .null), ("ty", ty.dump)]
  | .call (some receiver) callee args ty =>
    .object [("args", .list (Node.dumps args)), ("callee", callee.dump), ("node", .str "call"),
      ("receiver", receiver.dump), ("ty", ty.dump)]
  | .lambda (.mk params body ret) =>
    .object [("body", body.dump), ("node", .str "lambda"),
      ("params", .list (params.map Parameter.dump)), ("ret", ret.dump)]
  | .unary op operand ty =>
    .object [("node", .str "unary"), ("op", op.dump), ("operand", operand.dump), ("ty", ty.dump)]
  | .binary op left right ty =>
    .object [("left", left.dump), ("node", .str "binary"), ("op", .str op.tag),
      ("right", right.dump), ("ty", ty.dump)]
  | .condition test ifTrue ifFalse ty =>
    .object [("if_false", ifFalse.dump), ("if_true", ifTrue.dump), ("node", .str "condition"),
      ("test", test.dump), ("ty", ty.dump)]
  | .record typeName fields =>
    .object [("fields", .list (Node.fieldDumps fields)), ("node", .str "record"),
      ("type_name", .str typeName)]
  | .setMember target m value =>
    .object [("member", m.dump), ("node", .str "set_member"), ("target", target.dump),
      ("value", value.dump)]

def Node.dumps : List Node → List Dump
  | [] => []
  | n :: ns => n.dump :: Node.dumps ns

/-- The dumps of the fields of a record construction, in the order they are written. -/
def Node.fieldDumps : List (String × Node) → List Dump
  | [] => []
  | (name, n) :: rest => .list [.str name, n.dump] :: Node.fieldDumps rest

end

end TypedTrees
