import TypedTrees.FieldTable
/-!
Trees and values. A tree node carries a mark, its identity: every construction makes a node with a
mark of its own, and a pass that replaces nothing below a node keeps the node's mark. Constants
hold values, and a value may hold a lambda tree, so trees and values are defined together.
-/
namespace TypedTrees

inductive Callee where
  | function (f : Function)
  /-- A reference call: the first argument holds the lambda tree to call, the others are passed
  to it. -/
  | invoke (shape : InvokeShape)
  deriving DecidableEq

mutual

/-- A runtime value, and the payload of a constant node. -/
inductive Value where
  | null
  | unit
  | bool (b : Bool)
  | int (n : Int64)
  | float (x : Float)
  | str (s : String)
  | seq (items : List Value)
  /-- A record: its type's name and its fields. A copy of a record shares the whole table, and the
  record that a field write makes shares the pages off the way to that field. -/
  | record (typeName : String) (table : FieldTable Value)
  /-- A lambda tree held as data. -/
  | tree (lambda : Lambda)
  /-- A lambda with the bindings in force where it was evaluated, by parameter identity. -/
  | closure (lambda : Lambda) (env : List (Nat × Value))

/-- Parameters, a body over them, and a result type. -/
inductive Lambda where
  | mk (params : List Parameter) (body : Node) (ret : Ty)

/-- A tree node: its mark and what it is. -/
inductive Node where
  | mk (mark : Nat) (expr : Expr)

inductive Expr where
  | parameter (param : Parameter)
  | constant (value : Value) (ty : Ty)
  /-- A member read. A static member needs no target. -/
  | member (target : Option Node) (member : Member)
  | call (receiver : Option Node) (callee : Callee) (args : List Node) (ty : Ty)
  | lambda (lambda : Lambda)
  | unary (op : UnaryOp) (operand : Node) (ty : Ty)
  | binary (op : BinaryOp) (left right : Node) (ty : Ty)
  | condition (test ifTrue ifFalse : Node) (ty : Ty)
  /-- Record construction, such as `new B { L = 1 }`. -/
  | record (typeName : String) (fields : List (String × Node))
  /-- A field write. Records are values, so the result is the changed record. -/
  | setMember (target : Node) (member : Member) (value : Node)

end

/-- Bindings of parameters, by identity and in order of identity. -/
abbrev Env : Type := List (Nat × Value)

instance : Inhabited Value := ⟨.null⟩

instance : Inhabited Node := ⟨⟨0, .constant .null .any⟩⟩

instance : Inhabited Lambda := ⟨⟨[], default, .any⟩⟩

namespace Lambda

def params : Lambda → List Parameter
  | mk params _ _ => params

def body : Lambda → Node
  | mk _ body _ => body

/-- The declared result type, which need not be that of the body. -/
def ret : Lambda → Ty
  | mk _ _ ret => ret

def arity (l : Lambda) : Nat := l.params.length

/-- The lambda's own type: those of its parameters, and its declared result type. -/
def fnType (l : Lambda) : Ty := .function (l.params.map Parameter.ty) l.ret

end Lambda

namespace Node

def mark : Node → Nat
  | mk mark _ => mark

def expr : Node → Expr
  | mk _ expr => expr

def new (expr : Expr) : Fresh Node := fun supply =>
  let (mark, rest) := supply.draw
  (⟨mark, expr⟩, rest)

/-- Whether two nodes are one and the same, not only alike. -/
def same (a b : Node) : Bool := a.mark == b.mark

end Node

namespace Value

def kindName : Value → String
  | null => "null"
  | unit => "unit"
  | bool _ => "bool"
  | int _ => "int"
  | float _ => "float"
  | str _ => "str"
  | seq _ => "seq"
  | record .. => "record"
  | tree _ => "tree"
  | closure .. => "closure"

/-- The static type of a constant that holds the value. A sequence is typed by its first item. -/
def ty : Value → Ty
  | null => .any
  | unit => .unit
  | bool _ => .bool
  | int _ => .int
  | float _ => .float
  | str _ => .str
  | seq [] => .seq .any
  | seq (item :: _) => .seq item.ty
  | record typeName _ => .object typeName
  | tree lambda => .quoted lambda.fnType
  | closure lambda _ => lambda.fnType

def isNull : Value → Bool
  | null => true
  | _ => false

def asBool? : Value → Option Bool
  | bool b => some b
  | _ => none

def asInt? : Value → Option Int64
  | int n => some n
  | _ => none

def asStr? : Value → Option String
  | str s => some s
  | _ => none

def asTree? : Value → Option Lambda
  | tree lambda => some lambda
  | _ => none

def asRecord? : Value → Option (String × List (String × Value))
  | record typeName table => some (typeName, table.fields)
  | _ => none

end Value

mutual

/-- The static type of a node. A field write has the type of its target, every other inner node
the type that was fixed when it was built. -/
def Expr.ty : Expr → Ty
  | .parameter param => param.ty
  | .constant _ ty => ty
  | .member _ member => member.ty
  | .call _ _ _ ty => ty
  | .lambda lambda => lambda.fnType
  | .unary _ _ ty => ty
  | .binary _ _ _ ty => ty
  | .condition _ _ _ ty => ty
  | .record typeName _ => .object typeName
  | .setMember target _ _ => target.ty

def Node.ty : Node → Ty
  | .mk _ expr => expr.ty

end

namespace Expr

/-- The direct sub-trees, in order of evaluation. -/
def children : Expr → List Node
  | parameter _ => []
  | constant .. => []
  | member target _ => target.toList
  | call receiver _ args _ => receiver.toList ++ args
  | lambda l => [l.body]
  | unary _ operand _ => [operand]
  | binary _ left right _ => [left, right]
  | condition test ifTrue ifFalse _ => [test, ifTrue, ifFalse]
  | record _ fields => fields.map Prod.snd
  | setMember target _ value => [target, value]

def isInvoke : Expr → Bool
  | call _ (.invoke _) _ _ => true
  | _ => false

def asLambda? : Expr → Option Lambda
  | lambda l => some l
  | _ => none

/-- The node kind with its children replaced by the given trees, in the order of `children`.
Everything else is kept: operators, callees, members, binders, field names and types. A child with
no tree given for it stays. -/
def withChildren : Expr → List Node → Expr
  | parameter param, _ => parameter param
  | constant value ty, _ => constant value ty
  | member none m, _ => member none m
  | member (some target) m, trees => member (some (trees.headD target)) m
  | call none callee args ty, trees => call none callee (overlay args trees) ty
  | call (some receiver) callee args ty, trees =>
    call (some (trees.headD receiver)) callee (overlay args trees.tail) ty
  | lambda l, trees => lambda ⟨l.params, trees.headD l.body, l.ret⟩
  | unary op operand ty, trees => unary op (trees.headD operand) ty
  | binary op left right ty, trees =>
    binary op (trees.headD left) (trees.tail.headD right) ty
  | condition test ifTrue ifFalse ty, trees =>
    condition (trees.headD test) (trees.tail.headD ifTrue) (trees.tail.tail.headD ifFalse) ty
  | record typeName fields, trees => record typeName (overlayFields fields trees)
  | setMember target m value, trees =>
    setMember (trees.headD target) m (trees.tail.headD value)
where
  /-- Each old tree gives way to the tree at its place, as far as there is one. -/
  overlay : List Node → List Node → List Node
    | old, [] => old
    | [], _ => []
    | _ :: old, tree :: trees => tree :: overlay old trees
  /-- Each field keeps its name and takes the tree at its place, as far as there is one. -/
  overlayFields : List (String × Node) → List Node → List (String × Node)
    | old, [] => old
    | [], _ => []
    | (name, _) :: old, tree :: trees => (name, tree) :: overlayFields old trees

end Expr

end TypedTrees
