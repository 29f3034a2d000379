import TypedTrees.Tree
import TypedTrees.Decimal.Layout
import TypedTrees.Text.Quoted
/-!
The written form of trees and values, as error texts embed it: lambda notation such as
`a => new B { L = a.S.len }`, with every binary node in parentheses.
-/
namespace TypedTrees

mutual

def Value.text : Value → String
  | .null => "null"
  | .unit => "()"
  | .bool b => if b then "true" else "false"
  | .int n => toString n.toInt
  | .float x => FloatLayout.display.text x
  | .str s => Quoting.value.quote s
  | .seq items => "[" ++ ", ".intercalate (Value.texts items) ++ "]"
  | .record typeName ⟨_, fields⟩ =>
    typeName ++ " \x7b" ++ ",".intercalate (Value.fieldTexts fields) ++ " \x7d"
  | .tree lambda => "quote(" ++ lambda.text ++ ")"
  | .closure lambda _ => "closure(" ++ lambda.text ++ ")"

def Value.texts : List Value → List String
  | [] => []
  | v :: vs => v.text :: Value.texts vs

def Value.fieldTexts : List (String × Value) → List String
  | [] => []
  | (name, v) :: rest => (" " ++ name ++ " = " ++ v.text) :: Value.fieldTexts rest

/-- The written form of a lambda. A single parameter stands without parentheses. -/
def Lambda.text : Lambda → String
  | .mk params body _ =>
    let head := match params with
      | [single] => single.name
      | params => "(" ++ ", ".intercalate (params.map Parameter.name) ++ ")"
    head ++ " => " ++ body.text

def Node.text : Node → String
  | .mk _ expr => expr.text

def Expr.text : Expr → String
  | .parameter param => param.name
  | .constant value _ => value.text
  | .member none member => member.path
  | .member (some target) member => target.text ++ "." ++ member.name
  | .call _ (.invoke _) [] _ => "<missing holder>.invoke()"
  | .call _ (.invoke _) (holder :: args) _ =>
    holder.text ++ ".invoke(" ++ ", ".intercalate (Node.texts args) ++ ")"
  | .call none (.function f) args _ =>
    f.name ++ "(" ++ ", ".intercalate (Node.texts args) ++ ")"
  | .call (some receiver) (.function f) args _ =>
    receiver.text ++ "." ++ f.name ++ "(" ++ ", ".intercalate (Node.texts args) ++ ")"
  | .lambda lambda => lambda.text
  | .unary .not operand _ => "!" ++ operand.text
  | .unary .negate operand _ => "-" ++ operand.text
  | .unary (.convert ty) operand _ => "convert(" ++ operand.text ++ ", " ++ ty.text ++ ")"
  | .binary op left right _ =>
    "(" ++ left.text ++ " " ++ op.symbol ++ " " ++ right.text ++ ")"
  | .condition test ifTrue ifFalse _ =>
    "if(" ++ test.text ++ ", " ++ ifTrue.text ++ ", " ++ ifFalse.text ++ ")"
  | .record typeName fields =>
    "new " ++ typeName ++ " \x7b" ++ ",".intercalate (Node.fieldTexts fields) ++ " \x7d"
  | .setMember target member value =>
    "(" ++ target.text ++ "." ++ member.name ++ " = " ++ value.text ++ ")"

def Node.texts : List Node → List String
  | [] => []
  | n :: ns => n.text :: Node.texts ns

def Node.fieldTexts : List (String × Node) → List String
  | [] => []
  | (name, n) :: rest => (" " ++ name ++ " = " ++ n.text) :: Node.fieldTexts rest

end

end TypedTrees
