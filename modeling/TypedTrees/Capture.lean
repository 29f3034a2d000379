import TypedTrees.Build
import TypedTrees.Store
/-!
Capture of a substitute's lambda. A substitute function stands for a lambda tree, which its body
quotes: the body is run once with a fresh quoter, and what it quoted is checked against the
function's signature. A body can quote, draw identities for the trees it builds, capture other
functions, and look up what other functions stand for; nothing else of it can be observed.
-/
namespace TypedTrees

/-- What a substitute body does, step by step. -/
inductive Body where
  | finish (outcome : Except Error Unit)
  /-- Quote a lambda, then go on with the quoter's answer. -/
  | quote (lambda : Lambda) (next : Except Error Unit → Body)
  /-- Draw identities from the supply, then go on with what was made of them. -/
  | draw (rest : Supply → Supply) (next : Supply → Body)
  /-- Capture a function with a body of its own, then go on with the outcome. -/
  | capture (function : Function) (body : Body) (next : Except Error Lambda → Body)
  /-- Ask a registry what a function stands for, then go on with the answer. -/
  | lookUp (registry : Nat) (function : Function) (next : Except Error (Option Lambda) → Body)

instance : Inhabited Body := ⟨.finish (.ok ())⟩

/-- The body that goes on with what `make` makes. -/
def Body.making {α : Type} (make : Supply → α × Supply) (next : α → Body) : Body :=
  .draw (fun supply => (make supply).2) fun supply => next (make supply).1

structure Quoter where
  function : Function
  quoted : Option Lambda := none
  /-- Whether there has been a second quote. -/
  overquoted : Bool := false

namespace Quoter

/-- Takes down a lambda. Only the first quote of a capture succeeds. -/
def quote (quoter : Quoter) (l : Lambda) : Except Error Unit × Quoter :=
  match quoter.quoted with
  | some _ =>
    (.error (.malformedSubstitute quoter.function.name .quotedAgain),
      { quoter with overquoted := true })
  | none => (.ok (), { quoter with quoted := some l })

end Quoter

namespace Function

/-- What rules a function out as a substitute before its body is run. -/
def substituteFault? (f : Function) : Option SubstituteFault :=
  if f.isMethod then some .receiver
  else (f.params.find? fun p => p.mode != .value).map fun p => .byReference p.name

/-- The checks on a quoted lambda: as many parameters as the function has, of the very same types,
and the same result type. -/
def checkQuoted (f : Function) (l : Lambda) : Except Error Unit :=
  let context := "quoted body of '" ++ f.name ++ "'"
  if f.params.length ≠ l.arity then .error (.arityMismatch f.params.length l.arity l.text)
  else if f.paramTypes ≠ l.params.map Parameter.ty then
    .error (.ofTypes f.signature l.fnType context)
  else if f.ret ≠ l.ret then .error (.ofTypes f.ret l.ret context)
  else .ok ()

/-- What a capture comes to, once the body has been run. -/
def captured (f : Function) (outcome : Except Error Unit) (quoter : Quoter) : Except Error Lambda :=
  if quoter.overquoted then .error (.malformedSubstitute f.name .quotedTwice)
  else
    match outcome, quoter.quoted with
    | .error source, _ => .error (.substituteFailed f.name source)
    | .ok _, none => .error (.malformedSubstitute f.name .nothingQuoted)
    | .ok _, some l => (f.checkQuoted l).map fun _ => l

end Function

/-- Runs a body on a session state `σ`. -/
abbrev BodyRun (σ : Type) : Type := Quoter → σ → (Except Error Unit × Quoter) × σ

/-- Captures the lambda that a function's body quotes. The body is not run for a function that
cannot be a substitute. -/
def Function.capture {σ : Type} (f : Function) (run : BodyRun σ) (state : σ) :
    Except Error Lambda × σ :=
  match f.substituteFault? with
  | some fault => (.error (.malformedSubstitute f.name fault), state)
  | none =>
    let ((outcome, quoter), state) := run { function := f } state
    (f.captured outcome quoter, state)

/-- Carries out what a body does, given how functions are looked up and how identities are
drawn. -/
def Body.run {σ : Type} (lookUp : Nat → Function → σ → Except Error (Option Lambda) × σ)
    (supply : σ → Supply) (setSupply : Supply → σ → σ) : Body → BodyRun σ
  | .finish outcome, quoter, state => ((outcome, quoter), state)
  | .quote l next, quoter, state =>
    let (answer, quoter) := quoter.quote l
    (next answer).run lookUp supply setSupply quoter state
  | .draw rest next, quoter, state =>
    (next (supply state)).run lookUp supply setSupply quoter
      (setSupply (rest (supply state)) state)
  | .capture f body next, quoter, state =>
    let (answer, state) := f.capture (body.run lookUp supply setSupply) state
    (next answer).run lookUp supply setSupply quoter state
  | .lookUp registry f next, quoter, state =>
    let (answer, state) := lookUp registry f state
    (next answer).run lookUp supply setSupply quoter state

end TypedTrees
