import TypedTrees.Proofs.Registry.Signature
/-!
What a capture comes to. `Body.attempts` tells what a body does without a quoter: the lambdas that
it attempts to quote and how it ends. A quoter is left with the first of them, and knows whether
there was a second (`Body.run_eq_attempts`), whatever the body does with the answers it gets, and
whatever it captures in between. So a capture gives the lambda that was quoted exactly if the
function can be a substitute, its body has quoted once and succeeded, and the lambda has the
function's signature; otherwise it fails for the first of the reasons that
`Function.CaptureCase` lists (`Function.capture_eq_ok_iff_attempts`).
-/
namespace TypedTrees

variable {σ : Type}

section Attempts

variable (lookUp : Nat → Function → σ → Except Error (Option Lambda) × σ) (supply : σ → Supply)
  (setSupply : Supply → σ → σ)

/-- What a body does for `f`: the lambdas that it attempts to quote, in order, its outcome, and the
state that it ends in. The first attempt is granted. Later ones, and all if there has been one
before (`again`), are refused. What the body of a nested capture quotes is not among them. -/
def Body.attempts (f : Function) : Bool → Body → σ → List Lambda × Except Error Unit × σ
  | _, .finish outcome, state => ([], outcome, state)
  | again, .quote l next, state =>
    let answer : Except Error Unit :=
      if again then .error (.malformedSubstitute f.name .quotedAgain) else .ok ()
    let (others, ended) := attempts f true (next answer) state
    (l :: others, ended)
  | again, .draw rest next, state =>
    attempts f again (next (supply state)) (setSupply (rest (supply state)) state)
  | again, .capture g body next, state =>
    let (answer, state) := g.capture (body.run lookUp supply setSupply) state
    attempts f again (next answer) state
  | again, .lookUp number g next, state =>
    let (answer, state) := lookUp number g state
    attempts f again (next answer) state

/-- A quoter is left as the attempts to quote leave it, one after the other. -/
theorem Body.run_eq_attempts (body : Body) (quoter : Quoter) (state : σ) :
    body.run lookUp supply setSupply quoter state =
      let done := body.attempts lookUp supply setSupply quoter.function quoter.quoted.isSome state
      ((done.2.1, done.1.foldl (fun quoter l => (quoter.quote l).2) quoter), done.2.2) := by
  induction body generalizing quoter state with
  | finish outcome => rfl
  | quote l next ih =>
    rw [run, attempts]
    simp only [ih, List.foldl_cons]
    cases quoted : quoter.quoted <;> simp [Quoter.quote, quoted]
  | draw rest next ih =>
    rw [run, attempts]
    exact ih _ _ _
  | capture g body next _ ih =>
    rw [run, attempts]
    exact ih _ _ _
  | lookUp number g next ih =>
    rw [run, attempts]
    exact ih _ _ _

end Attempts

/-- A quoter that has quoted refuses everything else, and knows of the first refusal. -/
theorem Quoter.foldl_quote_again (quoter : Quoter) {l : Lambda} (quoted : quoter.quoted = some l)
    (others : List Lambda) :
    others.foldl (fun quoter l => (quoter.quote l).2) quoter =
      { quoter with overquoted := quoter.overquoted || !others.isEmpty } := by
  induction others generalizing quoter with
  | nil => simp
  | cons k others ih =>
    rw [List.foldl_cons, ih _ (by simp [quote, quoted])]
    simp [quote, quoted]

namespace Function

/-- The function has no receiver and takes all its parameters by value. -/
def Fit (f : Function) : Prop := f.receiver = none ∧ ∀ p ∈ f.params, p.mode = .value

/-- What a capture comes to, and the state after it, for a function whose body makes these attempts
to quote and ends with this outcome. The reasons for a failure stand in order: each case excludes
those before it. -/
inductive CaptureCase (f : Function) (state : σ) (attempts : List Lambda)
    (outcome : Except Error Unit) (after : σ) : Except Error Lambda × σ → Prop
  | method (isMethod : f.receiver ≠ none) :
      CaptureCase f state attempts outcome after
        (.error (.malformedSubstitute f.name .receiver), state)
  | byReference {before rest : List FunctionParam} {p : FunctionParam} (free : f.receiver = none)
      (params : f.params = before ++ p :: rest) (values : ∀ q ∈ before, q.mode = .value)
      (reference : p.mode ≠ .value) :
      CaptureCase f state attempts outcome after
        (.error (.malformedSubstitute f.name (.byReference p.name)), state)
  | quotedTwice (fit : f.Fit) (twice : 2 ≤ attempts.length) :
      CaptureCase f state attempts outcome after
        (.error (.malformedSubstitute f.name .quotedTwice), after)
  | failed {e : Error} (fit : f.Fit) (notTwice : attempts.length < 2) (fails : outcome = .error e) :
      CaptureCase f state attempts outcome after (.error (.substituteFailed f.name e), after)
  | nothingQuoted (fit : f.Fit) (nothing : attempts = []) (succeeds : outcome = .ok ()) :
      CaptureCase f state attempts outcome after
        (.error (.malformedSubstitute f.name .nothingQuoted), after)
  | arity {l : Lambda} (fit : f.Fit) (once : attempts = [l]) (succeeds : outcome = .ok ())
      (differ : f.params.length ≠ l.arity) :
      CaptureCase f state attempts outcome after
        (.error (.arityMismatch f.params.length l.arity l.text), after)
  | parameters {l : Lambda} (fit : f.Fit) (once : attempts = [l]) (succeeds : outcome = .ok ())
      (same : f.params.length = l.arity) (differ : f.paramTypes ≠ l.params.map Parameter.ty) :
      CaptureCase f state attempts outcome after
        (.error (.ofTypes f.signature l.fnType ("quoted body of '" ++ f.name ++ "'")), after)
  | result {l : Lambda} (fit : f.Fit) (once : attempts = [l]) (succeeds : outcome = .ok ())
      (same : f.paramTypes = l.params.map Parameter.ty) (differ : f.ret ≠ l.ret) :
      CaptureCase f state attempts outcome after
        (.error (.ofTypes f.ret l.ret ("quoted body of '" ++ f.name ++ "'")), after)
  | quoted {l : Lambda} (fit : f.Fit) (once : attempts = [l]) (succeeds : outcome = .ok ())
      (signature : f.SignatureOf l) : CaptureCase f state attempts outcome after (.ok l, after)

theorem substituteFault?_eq_none_iff {f : Function} : f.substituteFault? = none ↔ f.Fit := by
  simp only [substituteFault?, Fit, isMethod]
  by_cases free : f.receiver = none
  · simp [free]
  · simp [Option.isSome_iff_ne_none.mpr free, free]

/-- A function that cannot be a substitute is refused, whatever its body would do. -/
theorem captureCase_of_not_fit {f : Function} (unfit : ¬f.Fit) (run : BodyRun σ) (state : σ)
    (attempts : List Lambda) (outcome : Except Error Unit) (after : σ) :
    f.CaptureCase state attempts outcome after (f.capture run state) := by
  rw [capture]
  cases receiver : f.receiver with
  | some ty =>
    have fault : f.substituteFault? = some .receiver := by
      simp [substituteFault?, isMethod, receiver]
    rw [fault]
    exact .method (by simp [receiver])
  | none =>
    cases found : f.params.find? fun p => p.mode != .value with
    | none =>
      refine absurd (substituteFault?_eq_none_iff.mp ?_) unfit
      simp [substituteFault?, isMethod, receiver, found]
    | some p =>
      have fault : f.substituteFault? = some (.byReference p.name) := by
        simp [substituteFault?, isMethod, receiver, found]
      rw [fault]
      obtain ⟨reference, before, rest, params, values⟩ := List.find?_eq_some_iff_append.mp found
      exact .byReference receiver params (by simpa using values) (by simpa using reference)

/-- The checks on a lambda that was quoted once find the first thing that is wrong with it. -/
theorem captureCase_of_once {f : Function} (fit : f.Fit) (state : σ) (l : Lambda) (after : σ) :
    f.CaptureCase state [l] (.ok ()) after ((f.checkQuoted l).map fun _ => l, after) := by
  by_cases counts : f.params.length = l.arity
  · by_cases types : f.paramTypes = l.params.map Parameter.ty
    · by_cases rets : f.ret = l.ret
      · rw [checkQuoted_eq_ok_iff.mpr ⟨types, rets⟩]
        exact .quoted fit rfl rfl ⟨types, rets⟩
      · rw [checkQuoted, if_neg (not_not.mpr counts), if_neg (not_not.mpr types), if_pos rets]
        exact .result fit rfl rfl types rets
    · rw [checkQuoted, if_neg (not_not.mpr counts), if_pos types]
      exact .parameters fit rfl rfl counts types
  · rw [checkQuoted, if_pos counts]
    exact .arity fit rfl rfl counts

theorem captureCase_of_fit {f : Function} (fit : f.Fit) (state : σ) (attempts : List Lambda)
    (outcome : Except Error Unit) (after : σ) :
    f.CaptureCase state attempts outcome after
      (f.captured outcome
        (attempts.foldl (fun quoter l => (quoter.quote l).2) { function := f }), after) := by
  match attempts, outcome with
  | [], .error e => exact .failed fit Nat.zero_lt_two rfl
  | [], .ok _ => exact .nothingQuoted fit rfl rfl
  | [l], .error e => exact .failed fit Nat.one_lt_two rfl
  | [l], .ok _ => exact captureCase_of_once fit state l after
  | l :: k :: others, outcome =>
    rw [List.foldl_cons, Quoter.foldl_quote_again _ rfl]
    exact .quotedTwice fit (by simp)

/-- The cases exclude each other: only the last one is a success. -/
theorem CaptureCase.eq_ok_iff {f : Function} {state after : σ} {attempts : List Lambda}
    {outcome : Except Error Unit} {result : Except Error Lambda × σ}
    (comes : f.CaptureCase state attempts outcome after result) (l : Lambda) :
    result.1 = .ok l ↔ f.Fit ∧ attempts = [l] ∧ outcome = .ok () ∧ f.SignatureOf l := by
  constructor
  · intro succeeds
    cases comes with
    | quoted fit once ends signature =>
      cases succeeds
      exact ⟨fit, once, ends, signature⟩
    | _ => cases succeeds
  · rintro ⟨fit, rfl, rfl, types, rets⟩
    cases comes with
    | method isMethod => exact absurd fit.1 isMethod
    | @byReference before rest p _ params _ reference =>
      exact absurd (fit.2 p (by simp [params])) reference
    | quotedTwice _ twice => exact absurd twice (by simp)
    | failed _ _ fails => cases fails
    | nothingQuoted _ nothing _ => cases nothing
    | arity _ once _ differ =>
      cases once
      refine absurd ?_ differ
      simpa [paramTypes, Lambda.arity] using congrArg List.length types
    | parameters _ once _ _ differ =>
      cases once
      exact absurd types differ
    | result _ once _ _ differ =>
      cases once
      exact absurd rets differ
    | quoted _ once _ _ =>
      cases once
      rfl

/-- What a capture comes to, for every function and every body. It gives a lambda exactly if the
function has no receiver and only parameters that are passed by value, the body has quoted exactly
once, and that lambda, and has succeeded, and the lambda has parameters of the very types of the
function's and its result type. Otherwise it fails for the first reason that applies in the order of
`CaptureCase`. If the function cannot be a substitute, the outcome and the state after it are the
same for every body: none is run. -/
theorem capture_eq_ok_iff_attempts
    (lookUp : Nat → Function → σ → Except Error (Option Lambda) × σ) (supply : σ → Supply)
    (setSupply : Supply → σ → σ) (f : Function) (body : Body) (state : σ) :
    let (attempts, outcome, after) := body.attempts lookUp supply setSupply f false state
    let capture := f.capture (body.run lookUp supply setSupply) state
    (∀ l, capture.1 = .ok l ↔
      (f.receiver = none ∧ ∀ p ∈ f.params, p.mode = .value) ∧ attempts = [l] ∧ outcome = .ok () ∧
        f.paramTypes = l.params.map Parameter.ty ∧ f.ret = l.ret) ∧
    f.CaptureCase state attempts outcome after capture ∧
    (¬(f.receiver = none ∧ ∀ p ∈ f.params, p.mode = .value) →
      ∀ run : BodyRun σ, f.capture run state = capture ∧ capture.2 = state) := by
  have comes : f.CaptureCase state (body.attempts lookUp supply setSupply f false state).1
      (body.attempts lookUp supply setSupply f false state).2.1
      (body.attempts lookUp supply setSupply f false state).2.2
      (f.capture (body.run lookUp supply setSupply) state) := by
    by_cases fit : f.Fit
    · rw [capture, substituteFault?_eq_none_iff.mpr fit, Body.run_eq_attempts]
      exact captureCase_of_fit fit ..
    · exact captureCase_of_not_fit fit ..
  refine ⟨comes.eq_ok_iff, comes, fun unfit run => ?_⟩
  cases fault : f.substituteFault? with
  | none => exact absurd (substituteFault?_eq_none_iff.mp fault) unfit
  | some _ =>
    rw [capture, capture, fault]
    exact ⟨rfl, rfl⟩

end Function

end TypedTrees
