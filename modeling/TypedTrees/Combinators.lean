import TypedTrees.Build
import TypedTrees.Eval.Evaluator
import TypedTrees.Substitution
/-!
Combinators over lambda trees. Each builds its result from its inputs by substitution, so the
result refers to no other tree unless an input does.
-/
namespace TypedTrees

namespace Lambda

/-- The one parameter of a lambda that has exactly one. -/
def singleInput (combinator : String) (l : Lambda) : Except Error Parameter :=
  match l.params with
  | [param] => .ok param
  | params => .error (.invalidArgument (.notSingleInput combinator l.text params.length))

end Lambda

/-- A value of type `actual` is to be passed where `expected` is declared. -/
def checkFeeds (combinator : String) (expected actual : Ty) : Except Error Unit :=
  if expected.accepts actual then .ok () else .error (.ofTypes expected actual combinator)

namespace Lambda

/-- The lambda with another body, of result type `ret`, once the body has been made. -/
def withBody (l : Lambda) (ret : Ty) (made : Except Error Node × Supply) :
    Except Error Lambda × Supply :=
  (made.1.map fun body => ⟨l.params, body, ret⟩, made.2)

/-- The parameter of `second` that takes the result of `first`, if the two can be composed. -/
def composeInput (first second : Lambda) : Except Error Parameter := do
  let _ ← first.singleInput "compose"
  let input ← second.singleInput "compose"
  checkFeeds "compose" input.ty first.ret
  return input

/-- First `first`, then `second` on its result. -/
def compose (limit : Nat) (first second : Lambda) : Making Lambda := fun supply =>
  match composeInput first second with
  | .error e => (.error e, supply)
  | .ok input =>
    first.withBody second.ret (second.body.replaceParameter limit input first.body supply)

/-- The input of `first` and the two parameters of `second`, if the two can be composed. -/
def composeInputs (first second : Lambda) : Except Error (Parameter × Parameter × Parameter) := do
  let input ← first.singleInput "compose_with_input"
  match second.params with
  | [source, intermediate] =>
    checkFeeds "compose_with_input" source.ty input.ty
    checkFeeds "compose_with_input" intermediate.ty first.ret
    return (input, source, intermediate)
  | _ => throw (.invalidArgument (.notTwoInputs second.text))

/-- First `first`, then `second` on the same input and the result. -/
def composeWithInput (limit : Nat) (first second : Lambda) : Making Lambda := fun supply =>
  match composeInputs first second with
  | .error e => (.error e, supply)
  | .ok (input, source, intermediate) =>
    let (inputNode, supply) := Node.new (.parameter input) supply
    let substitution :=
      (Substitution.empty.bind source inputNode).bind intermediate first.body
    first.withBody second.ret (second.body.substitute limit substitution supply)

/-- First `first`, then each step on the same input and the result so far. -/
def composeSequence (limit : Nat) : Lambda → List Lambda → Making Lambda
  | first, [], supply => (.ok first, supply)
  | first, next :: steps, supply =>
    match composeWithInput limit first next supply with
    | (.error e, supply) => (.error e, supply)
    | (.ok l, supply) => composeSequence limit l steps supply

/-- The body of a lambda with its only parameter replaced by `input`. -/
def rebind (limit : Nat) (l : Lambda) (param : Parameter) (input : Node) : Making Node :=
  l.body.replaceParameter limit param input

/-- The parameter of a lambda that is to be folded over inputs of type `ty`. -/
def foldParameter (ty : Ty) (l : Lambda) : Except Error Parameter := do
  let param ← l.singleInput "fold"
  if param.ty = ty then return param
  else throw (.invalidArgument (.foldInput l.text param.ty.text ty.text))

def foldOnto (limit : Nat) (combine : Node → Node → Fresh Node) (ty : Ty) (input : Node) :
    Node → List Lambda → Making Node
  | acc, [], supply => (.ok acc, supply)
  | acc, l :: ls, supply =>
    match foldParameter ty l with
    | .error e => (.error e, supply)
    | .ok param =>
      match l.rebind limit param input supply with
      | (.error e, supply) => (.error e, supply)
      | (.ok node, supply) =>
        let (acc, supply) := combine acc node supply
        foldOnto limit combine ty input acc ls supply

/-- Lambdas over one shared input, combined from the left. The input is a new parameter. -/
def fold (limit : Nat) (combine : Node → Node → Fresh Node) : List Lambda → Making Lambda
  | [], supply => (.error (.invalidArgument .nothingToFold), supply)
  | first :: rest, supply =>
    match first.singleInput "fold" with
    | .error e => (.error e, supply)
    | .ok param =>
      let (shared, supply) := Parameter.new "t" param.ty supply
      let (input, supply) := Node.new (.parameter shared) supply
      match first.rebind limit param input supply with
      | (.error e, supply) => (.error e, supply)
      | (.ok node, supply) =>
        let (outcome, supply) := foldOnto limit combine param.ty input node rest supply
        (outcome.map fun body => Lambda.of [shared] body, supply)

def joined (op : BinaryOp) (left right : Node) : Fresh Node :=
  Node.new (Expr.binaryOf op left right)

/-- Two predicates over one shared input, joined by an operator. -/
def joinPredicates (limit : Nat) (combinator : String) (op : BinaryOp) (a b : Lambda) :
    Making Lambda := fun supply =>
  match checkFeeds combinator .bool a.ret, checkFeeds combinator .bool b.ret with
  | .error e, _ => (.error e, supply)
  | .ok _, .error e => (.error e, supply)
  | .ok _, .ok _ => fold limit (joined op) [a, b] supply

/-- Both of two predicates; the second is asked only if the first holds. -/
def and (limit : Nat) (a b : Lambda) : Making Lambda := joinPredicates limit "and" .andAlso a b

/-- Either of two predicates; the second is asked only if the first does not hold. -/
def or (limit : Nat) (a b : Lambda) : Making Lambda := joinPredicates limit "or" .orElse a b

def negationInput : Parameter := ⟨6, "x", .bool⟩

/-- The tree `x => !x`, the same one each time. -/
def negation : Lambda := .of [negationInput] ⟨8, Expr.unaryOf .not ⟨7, .parameter negationInput⟩⟩

def cast (l : Lambda) (ty : Ty) : Fresh Lambda := fun supply =>
  let (body, supply) := Node.new (Expr.unaryOf (.convert ty) l.body) supply
  (⟨l.params, body, ty⟩, supply)

def comparison (input : Node) (ty : Ty) (item : Value) : Fresh Node := fun supply =>
  let (constant, supply) := Node.new (.constant item ty) supply
  joined .equal input constant supply

def orComparisons (input : Node) (ty : Ty) : Node → List Value → Fresh Node
  | acc, [], supply => (acc, supply)
  | acc, item :: items, supply =>
    let (next, supply) := comparison input ty item supply
    let (acc, supply) := joined .or acc next supply
    orComparisons input ty acc items supply

/-- The items with the last one repeated up to the next multiple of `granularity`, which counts as
one if it is zero. -/
def padded (granularity : Nat) (items : List Value) : List Value :=
  match items.getLast? with
  | none => []
  | some last =>
    let step := max granularity 1
    let wanted := (items.length + step - 1) / step * step
    items ++ List.replicate (wanted - items.length) last

/-- How far `equalToAny` pads its items if nothing else is asked for. -/
def defaultGranularity : Nat := 10

/-- Whether the input equals one of the items. The items are padded, so that lists of similar
length give trees of one shape. -/
def equalToAny (items : List Value) (ty : Ty) (granularity : Nat) : Fresh Lambda := fun supply =>
  let (x, supply) := Parameter.new "x" ty supply
  match padded granularity items with
  | [] =>
    let (body, supply) := Node.new (Expr.constantOf (.bool false)) supply
    (.of [x] body, supply)
  | first :: rest =>
    let (input, supply) := Node.new (.parameter x) supply
    let (node, supply) := comparison input ty first supply
    let (body, supply) := orComparisons input ty node rest supply
    (.of [x] body, supply)

/-- The parameter and the member of a lambda that reads a field straight off its parameter. -/
def getterParts? (getter : Lambda) : Option (Parameter × Member) :=
  match getter.params, getter.body.expr with
  | [target], .member (some ⟨_, .parameter read⟩) m =>
    if read.same target && m.isWritable then some (target, m) else none
  | _, _ => none

/-- The setter `(t, value) => (t.F = value)` that belongs to a getter `t => t.F`. -/
def setterFromGetter (getter : Lambda) : Making Lambda := fun supply =>
  match getter.getterParts? with
  | none => (.error (.invalidArgument (.notAGetter getter.text)), supply)
  | some (target, m) =>
    let (value, supply) := Parameter.new "value" m.ty supply
    let (targetNode, supply) := Node.new (.parameter target) supply
    let (valueNode, supply) := Node.new (.parameter value) supply
    match Expr.setMemberOf targetNode m valueNode with
    | .error e => (.error e, supply)
    | .ok expr =>
      let (body, supply) := Node.new expr supply
      (.ok (.of [target, value] body), supply)

end Lambda

mutual

/-- The name of the member or function that a tree reads, looking through lambdas and
conversions. -/
def Node.memberName? : Node → Option String
  | .mk _ expr => expr.memberName?

def Expr.memberName? : Expr → Option String
  | .member _ m => some m.name
  | .call _ (.function f) _ _ => some f.name
  | .unary (.convert _) operand _ => operand.memberName?
  | .lambda (.mk _ body _) => body.memberName?
  | _ => none

end

mutual

/-- The function call that a tree comes down to below lambdas and conversions: the function's
parameters and the call's arguments. Otherwise the node that is no call. -/
def Node.calledWith : Node → Except Expr (List FunctionParam × List Node)
  | .mk _ expr => expr.calledWith

def Expr.calledWith : Expr → Except Expr (List FunctionParam × List Node)
  | .lambda (.mk _ body _) => body.calledWith
  | .unary (.convert _) operand _ => operand.calledWith
  | .call _ (.function f) args _ => .ok (f.params, args)
  | other => .error other

end

/-- The values of arguments under the names of their parameters, each evaluated on its own. The
first failure ends it. -/
def evaluateNamed (host : Host) (limit : Nat) :
    List (String × Node) → List (String × Value) → Store →
      Except Error (List (String × Value)) × Store
  | [], found, store => (.ok found, store)
  | (name, arg) :: rest, found, store =>
    match arg.evaluate host limit store with
    | (.error e, store) => (.error e, store)
    | (.ok v, store) => evaluateNamed host limit rest (Keyed.insert name v found) store

/-- The values that a function call would receive, by parameter name. An argument without a
parameter is left out, and of two parameters with one name the later one counts. -/
def Node.callParameters (host : Host) (limit : Nat) (node : Node) (store : Store) :
    Except Error (List (String × Value)) × Store :=
  match node.calledWith with
  | .error other => (.error (.invalidArgument (.notACall other.text)), store)
  | .ok (params, args) =>
    evaluateNamed host limit ((params.map FunctionParam.name).zip args) [] store

end TypedTrees
