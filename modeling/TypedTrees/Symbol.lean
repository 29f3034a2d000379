import TypedTrees.Operator
/-!
Symbols: parameters, members and functions. Each carries an identity drawn from one supply, and it
is the identity that tells two symbols apart, never the name. The builtin members and functions
have fixed identities below `Supply.first`, where the supply starts.
-/
namespace TypedTrees

/-- The identities handed out so far: everything below `next`. Symbols, tree nodes and pages of
field tables draw from one supply, so no two of them share an identity. -/
structure Supply where
  next : Nat
  deriving DecidableEq

namespace Supply

/-- The first identity that is not reserved for a builtin. -/
def first : Nat := 16

def initial : Supply := ⟨first⟩

/-- The next identity, and the supply without it. -/
def draw (supply : Supply) : Nat × Supply := (supply.next, ⟨supply.next + 1⟩)

end Supply

/-- A computation that may draw identities and cannot fail. -/
abbrev Fresh (α : Type) : Type := Supply → α × Supply

/-- A lambda parameter. Two parameters are the same when their identities are. -/
structure Parameter where
  id : Nat
  name : String
  ty : Ty
  deriving DecidableEq

namespace Parameter

/-- A new parameter, different from every parameter before it. -/
def new (name : String) (ty : Ty) : Fresh Parameter := fun supply =>
  let (id, rest) := supply.draw
  (⟨id, name, ty⟩, rest)

/-- A new parameter of the same name and type. -/
def fresh (param : Parameter) : Fresh Parameter := new param.name param.ty

def same (a b : Parameter) : Bool := a.id == b.id

end Parameter

/-- How a computed property is read off its target. -/
inductive Getter where
  /-- The number of characters of a string. -/
  | length
  /-- A property that the host program supplies under this name. -/
  | host (name : String)
  deriving DecidableEq

/-- The property of this name, a builtin one before one of the host program. -/
def Getter.named : String → Getter
  | "len" => length
  | name => host name

/-- Where a member's value comes from. -/
inductive MemberKind where
  /-- A record field, read by name. -/
  | field
  /-- A value computed from the target. -/
  | property (getter : Getter)
  /-- A storage slot that belongs to the member itself and needs no target. -/
  | slot
  deriving DecidableEq

/-- A readable member. Two members are the same when their identities are. -/
structure Member where
  id : Nat
  name : String
  declaring : String
  ty : Ty
  kind : MemberKind
  deriving DecidableEq

namespace Member

def new (declaring name : String) (ty : Ty) (kind : MemberKind) : Fresh Member := fun supply =>
  let (id, rest) := supply.draw
  (⟨id, name, declaring, ty, kind⟩, rest)

def same (a b : Member) : Bool := a.id == b.id

/-- Whether the member is read without a target. -/
def isStatic (member : Member) : Bool := member.kind == .slot

/-- Whether a tree can write the member. Only record fields can be written. -/
def isWritable (member : Member) : Bool := member.kind == .field

/-- The member's name with the type that declares it. -/
def path (member : Member) : String := member.declaring ++ "." ++ member.name

/-- The number of characters of a string, `s.len`. -/
def stringLength : Member := ⟨1, "len", "str", .int, .property .length⟩

end Member

/-- How an argument reaches its function. -/
inductive ParamMode where
  | value
  | out
  | ref
  deriving DecidableEq

namespace ParamMode

def tag : ParamMode → String
  | value => "value"
  | out => "out"
  | ref => "ref"

/-- What stands before the parameter's name in a signature. -/
def lead : ParamMode → String
  | value => ""
  | out => "out "
  | ref => "ref "

end ParamMode

structure FunctionParam where
  name : String
  ty : Ty
  mode : ParamMode
  deriving DecidableEq

/-- The functions that every session has. -/
inductive Builtin where
  | concat
  | contains
  | any
  | count
  deriving DecidableEq

/-- What runs when a function is called during evaluation. -/
inductive Native where
  | builtin (which : Builtin)
  /-- An implementation that the host program supplies under this name. -/
  | host (name : String)
  deriving DecidableEq

/-- The implementation of this name, a builtin one before one of the host program. -/
def Native.named : String → Native
  | "concat" => builtin .concat
  | "contains" => builtin .contains
  | "any" => builtin .any
  | "count" => builtin .count
  | name => host name

/-- A named callable signature. A function without a native implementation only has a meaning as
a substitute, whose calls expansion replaces. Two functions are the same when their identities
are. -/
structure Function where
  id : Nat
  name : String
  receiver : Option Ty
  params : List FunctionParam
  ret : Ty
  native : Option Native
  deriving DecidableEq

namespace Function

def new (name : String) (receiver : Option Ty) (params : List FunctionParam) (ret : Ty)
    (native : Option Native) : Fresh Function := fun supply =>
  let (id, rest) := supply.draw
  (⟨id, name, receiver, params, ret, native⟩, rest)

def same (a b : Function) : Bool := a.id == b.id

def isMethod (f : Function) : Bool := f.receiver.isSome

def paramTypes (f : Function) : List Ty := f.params.map FunctionParam.ty

/-- The signature as a function type, without the receiver. -/
def signature (f : Function) : Ty := .function f.paramTypes f.ret

def paramText (p : FunctionParam) : String := p.mode.lead ++ p.name ++ ": " ++ p.ty.text

/-- The written form of the whole signature, such as `A::size(out n: int) -> bool`. -/
def text (f : Function) : String :=
  let owner := match f.receiver with
    | some ty => ty.text ++ "::"
    | none => ""
  owner ++ f.name ++ "(" ++ ", ".intercalate (f.params.map paramText) ++ ") -> " ++ f.ret.text

/-- A builtin function, whose parameters are all passed by value. -/
def ofBuiltin (id : Nat) (name : String) (params : List (String × Ty)) (ret : Ty)
    (which : Builtin) : Function :=
  ⟨id, name, none, params.map fun p => ⟨p.1, p.2, .value⟩, ret, some (.builtin which)⟩

/-- `concat(left, right)`: two strings in a row. -/
def concat : Function := ofBuiltin 2 "concat" [("left", .str), ("right", .str)] .str .concat

/-- `contains(items, item)`: whether an item equals some element of a sequence. -/
def seqContains : Function :=
  ofBuiltin 3 "contains" [("items", .seq .any), ("item", .any)] .bool .contains

/-- `any(items, predicate)`: whether a predicate holds of some element of a sequence. -/
def seqAny : Function :=
  ofBuiltin 4 "any" [("items", .seq .any), ("predicate", .function [.any] .bool)] .bool .any

/-- `count(items)`: the number of elements of a sequence. -/
def seqCount : Function := ofBuiltin 5 "count" [("items", .seq .any)] .int .count

end Function

end TypedTrees
