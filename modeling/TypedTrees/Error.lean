import TypedTrees.Symbol
/-!
The ways in which building, transforming, expanding, capturing and evaluating a tree can fail. Each
error states its cause; `Error.message` is the one place that words it. Trees and types that an
error speaks of are held in their written form.
-/
namespace TypedTrees

/-- Why an argument of a construction, a combinator or a registration cannot be used. -/
inductive ArgumentFault where
  /-- An instance method was called like a free function. -/
  | needsReceiver (signature : String)
  /-- A free function was called like an instance method. -/
  | notAMethod (signature : String)
  /-- A reference call has too few or too many arguments. -/
  | referenceArity (count : Nat) (holder : String)
  /-- A reference call has no arguments at all, not even its holder. -/
  | missingHolder
  | memberNotWritable (path : String)
  | memberNotStatic (path : String)
  | alreadyRegistered (function : String)
  /-- A combinator was given a lambda that does not have exactly one parameter. -/
  | notSingleInput (combinator tree : String) (count : Nat)
  /-- The second lambda of a composition that also sees the input has not two parameters. -/
  | notTwoInputs (tree : String)
  | nothingToFold
  | foldInput (tree actual expected : String)
  | notAGetter (tree : String)
  | notACall (tree : String)
  /-- A fault in the words of the host program. -/
  | other (message : String)
  deriving DecidableEq

namespace ArgumentFault

def message : ArgumentFault → String
  | needsReceiver signature => "'" ++ signature ++ "' is an instance method and needs a receiver"
  | notAMethod signature => "'" ++ signature ++ "' is not an instance method"
  | referenceArity count holder =>
    "reference calls take 1 to 3 arguments, got " ++ toString count ++ " for '" ++ holder ++ "'"
  | missingHolder => "reference call without a holder"
  | memberNotWritable path => "'" ++ path ++ "' is not a writable member"
  | memberNotStatic path => "Member '" ++ path ++ "' is not static"
  | alreadyRegistered function => "'" ++ function ++ "' is already registered as a substitute"
  | notSingleInput combinator tree count =>
    combinator ++ " needs single-input trees, '" ++ tree ++ "' takes " ++ toString count
  | notTwoInputs tree =>
    "compose_with_input needs a two-parameter second tree, got '" ++ tree ++ "'"
  | nothingToFold => "fold needs at least one tree"
  | foldInput tree actual expected =>
    "fold needs trees over one input type; '" ++ tree ++ "' takes " ++ actual ++ " instead of "
      ++ expected
  | notAGetter tree => "'" ++ tree ++ "' is not a reference to a writable member of its parameter"
  | notACall tree => "Unsupported expression type: '" ++ tree ++ "' is not a function call"
  | other message => message

end ArgumentFault

/-- Why a substitute function has no usable quoted lambda. -/
inductive SubstituteFault where
  | receiver
  | byReference (param : String)
  /-- The body's own report of its second quote. -/
  | quotedAgain
  | quotedTwice
  | nothingQuoted
  | other (message : String)
  deriving DecidableEq

namespace SubstituteFault

def message : SubstituteFault → String
  | receiver => "only free functions (without a receiver) can be substitutes"
  | byReference param =>
    "parameter '" ++ param ++ "' is passed by reference; substitutes cannot have 'out' or 'ref' "
      ++ "parameters"
  | quotedAgain => "the body quotes more than once"
  | quotedTwice => "the body must quote exactly once, but quoted more than once"
  | nothingQuoted => "the body must consist of a single quote, but nothing was quoted"
  | other message => message

end SubstituteFault

/-- Why an evaluation has no value. -/
inductive EvalFault where
  | unbound (param : String)
  | notBool (node value : String)
  | nullRead (member : String)
  | unavailable (path target : String)
  | nullWrite (member : String)
  | notWritten (path target : String)
  | negationOverflow (n : Int64)
  | overflow (a : Int64) (op : BinaryOp) (b : Int64)
  | divisionByZero
  | unaryOperand (op : UnaryOp) (operand : String)
  | binaryOperands (op : BinaryOp) (left right : String)
  | notConvertible (value target : String)
  | notCallable (callee : String)
  | concatOperands
  | containsOperands
  | anyOperands
  | anyVerdict (verdict : String)
  | countOperands
  | noValue (node : String)
  /-- A node without operands was to be combined from operands. -/
  | nothingToCombine (node : String)
  /-- A fault in the words of the host program. -/
  | other (message : String)
  deriving DecidableEq

namespace EvalFault

def message : EvalFault → String
  | unbound param => "Parameter '" ++ param ++ "' is not bound"
  | notBool node value => "Expected bool from '" ++ node ++ "', got " ++ value
  | nullRead member => "Null reference while reading '" ++ member ++ "'"
  | unavailable path target => "Member '" ++ path ++ "' is not available on " ++ target
  | nullWrite member => "Null reference while writing '" ++ member ++ "'"
  | notWritten path target => "Member '" ++ path ++ "' cannot be written on " ++ target
  | negationOverflow n => "Integer overflow negating " ++ toString n.toInt
  | overflow a op b =>
    "Integer overflow in " ++ toString a.toInt ++ " " ++ op.symbol ++ " " ++ toString b.toInt
  | divisionByZero => "Division by zero"
  | unaryOperand op operand => "Operator " ++ op.name ++ " does not apply to " ++ operand
  | binaryOperands op left right =>
    "Operator '" ++ op.symbol ++ "' does not apply to " ++ left ++ " and " ++ right
  | notConvertible value target => "Cannot convert " ++ value ++ " to " ++ target
  | notCallable callee => "Cannot call a value of type " ++ callee
  | concatOperands => "concat expects two strings"
  | containsOperands => "contains expects a sequence and an item"
  | anyOperands => "any expects a sequence and a predicate"
  | anyVerdict verdict => "any predicate returned " ++ verdict ++ " instead of bool"
  | countOperands => "count expects a sequence"
  | noValue node => "'" ++ node ++ "' produced no value"
  | nothingToCombine node => "Nothing to combine for '" ++ node ++ "'"
  | other message => message

end EvalFault

/-- The kinds of error, without their particulars. -/
inductive ErrorKind where
  | recursionLimit
  | unresolvableReference
  | arityMismatch
  | malformedSubstitute
  | typeMismatch
  | invalidArgument
  | substituteFailed
  | directInvocation
  | eval
  deriving DecidableEq

namespace ErrorKind

def name : ErrorKind → String
  | recursionLimit => "RecursionLimitExceeded"
  | unresolvableReference => "UnresolvableReference"
  | arityMismatch => "ArityMismatch"
  | malformedSubstitute => "MalformedSubstitute"
  | typeMismatch => "TypeMismatch"
  | invalidArgument => "InvalidArgument"
  | substituteFailed => "SubstituteFailed"
  | directInvocation => "DirectInvocation"
  | eval => "Eval"

/-- What a user can do about an error of this kind, where there is something to say. -/
def help : ErrorKind → Option String
  | recursionLimit => some <|
    "Reduce the nesting of the tree, or raise the limit with "
      ++ "config::set_max_recursion_depth."
  | unresolvableReference => some <|
    "Store the referenced tree in a constant, a record field of a constant, or a static member "
      ++ "before building the call."
  | malformedSubstitute => some <|
    "A substitute body must call Quoter::quote exactly once with a lambda matching the "
      ++ "function's signature."
  | directInvocation => some "Run macros::expand on the tree before executing it."
  | _ => none

def code (kind : ErrorKind) : String := "exprnest::" ++ kind.name

end ErrorKind

inductive Error where
  /-- A traversal nested deeper than its limit. -/
  | recursionLimit (limit : Nat)
  /-- A reference call whose holder is not a constant lambda tree. -/
  | unresolvableReference (call : String)
  /-- A lambda or function was given another number of arguments than it has parameters. -/
  | arityMismatch (expected actual : Nat) (expression : String)
  | malformedSubstitute (function : String) (fault : SubstituteFault)
  | typeMismatch (expected actual context : String)
  | invalidArgument (fault : ArgumentFault)
  /-- A substitute body failed with an error of its own. -/
  | substituteFailed (function : String) (source : Error)
  /-- A call that only expansion can give a meaning was evaluated. -/
  | directInvocation (call : String)
  | eval (fault : EvalFault)
  deriving DecidableEq

namespace Error

def kind : Error → ErrorKind
  | recursionLimit _ => .recursionLimit
  | unresolvableReference _ => .unresolvableReference
  | arityMismatch .. => .arityMismatch
  | malformedSubstitute .. => .malformedSubstitute
  | typeMismatch .. => .typeMismatch
  | invalidArgument _ => .invalidArgument
  | substituteFailed .. => .substituteFailed
  | directInvocation _ => .directInvocation
  | eval _ => .eval

/-- The error that a substitute body failed with, for an error that reports such a failure. -/
def source? : Error → Option Error
  | substituteFailed _ source => some source
  | _ => none

def message : Error → String
  | recursionLimit limit =>
    "Maximum recursion depth (" ++ toString limit ++ ") exceeded. This happens when an expression "
      ++ "tree has too many nested nodes."
  | unresolvableReference call =>
    "Cannot expand expression '" ++ call ++ "'. The first (tree holder) argument must be a "
      ++ "constant lambda tree, or a chain of member reads off a constant, and not null."
  | arityMismatch expected actual expression =>
    "Malformed expression tree: sub-expression has " ++ toString expected ++ " parameters, but "
      ++ toString actual ++ " are supplied. The sub-expression is: " ++ expression
  | malformedSubstitute function fault =>
    "Substitute function '" ++ function ++ "' is malformed: " ++ fault.message
  | typeMismatch expected actual context =>
    "Type mismatch in " ++ context ++ ": expected " ++ expected ++ ", found " ++ actual
  | invalidArgument fault => "Invalid argument: " ++ fault.message
  | substituteFailed function _ =>
    "There was an error while trying to substitute function '" ++ function ++ "'"
  | directInvocation call =>
    "'" ++ call ++ "' is not meant to be executed directly. It only has meaning inside a tree "
      ++ "that is expanded before execution."
  | eval fault => "Evaluation error: " ++ fault.message

def ofTypes (expected actual : Ty) (context : String) : Error :=
  typeMismatch expected.text actual.text context

end Error

end TypedTrees
