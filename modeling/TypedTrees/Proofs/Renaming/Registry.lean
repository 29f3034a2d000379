import TypedTrees.Proofs.Registry.LookUp
import TypedTrees.Proofs.Renaming.Substitution
/-!
Look-ups in a session with other parameters. In the renamed session (`Session.Renamed`) the slots
and the registries hold the renamed lambdas, and the bodies of the entries quote the renamed
lambdas. As a capture looks at nothing of a parameter but its type, a look-up finds the renamed
lambda there, or fails with an error that says the same of renamed trees
(`Session.lookUpWithin_renamed`).
-/
namespace TypedTrees

/-- Two errors that say the same, as far as they are not in words. Written forms of trees name
parameters, and they are part of the words. -/
inductive Error.Mirrors : Error → Error → Prop
  | same (e : Error) : Mirrors e e
  | unresolvableReference (call call' : String) :
      Mirrors (.unresolvableReference call) (.unresolvableReference call')
  | arityMismatch (expected actual : Nat) (expression expression' : String) :
      Mirrors (.arityMismatch expected actual expression)
        (.arityMismatch expected actual expression')
  | typeMismatch (expected actual context context' : String) :
      Mirrors (.typeMismatch expected actual context) (.typeMismatch expected actual context')
  | invalidArgument (fault fault' : ArgumentFault) :
      Mirrors (.invalidArgument fault) (.invalidArgument fault')
  | eval (fault fault' : EvalFault) : Mirrors (.eval fault) (.eval fault')
  | substituteFailed (function : String) {source source' : Error}
      (sources : Mirrors source source') :
      Mirrors (.substituteFailed function source) (.substituteFailed function source')

theorem Error.Mirrors.kind_eq {e e' : Error} (mirrors : e.Mirrors e') : e'.kind = e.kind := by
  cases mirrors <;> rfl

namespace Keyed

variable {κ ν μ : Type} {matching : ν → μ → Prop}

/-- The lists have the same keys in the same order, and matching contents. -/
abbrev Matched (matching : ν → μ → Prop) : List (κ × ν) → List (κ × μ) → Prop :=
  List.Forall₂ fun entry other => other.1 = entry.1 ∧ matching entry.2 other.2

variable {entries : List (κ × ν)} {others : List (κ × μ)}

theorem Matched.lookup [BEq κ] (matched : Matched matching entries others) (key : κ) :
    Option.Rel matching (entries.lookup key) (others.lookup key) := by
  induction matched with
  | nil => exact .none
  | @cons entry other _ _ first _ ih =>
    obtain ⟨first, value⟩ := entry
    obtain ⟨second, value'⟩ := other
    obtain ⟨rfl, contents⟩ := first
    simp only [List.lookup_cons]
    cases key == second
    · exact ih
    · exact .some contents

theorem Matched.insert [LT κ] [DecidableLT κ] (matched : Matched matching entries others) (key : κ)
    {value : ν} {value' : μ} (contents : matching value value') :
    Matched matching (insert key value entries) (insert key value' others) := by
  induction matched with
  | nil => exact .cons ⟨rfl, contents⟩ .nil
  | cons first rest ih =>
    simp only [Keyed.insert, first.1]
    split
    · exact .cons ⟨rfl, contents⟩ (.cons first rest)
    · split
      · exact .cons first ih
      · exact .cons ⟨rfl, contents⟩ rest

end Keyed

/-- Both runs end well, or both end with errors that say the same. -/
abbrev Body.SameEnd : Except Error Unit → Except Error Unit → Prop :=
  SameOutcome Error.Mirrors id

/-- The second body goes on as the first does when it is told of renamed lambdas, and quotes the
renamed lambda where the first quotes a lambda. -/
inductive Body.Renamed (r : Renaming) : Body → Body → Prop
  | finish {outcome outcome' : Except Error Unit}
      (same : SameEnd outcome outcome') : Renamed r (.finish outcome) (.finish outcome')
  | quote {l : Lambda} {next next' : Except Error Unit → Body}
      (later : ∀ answer, Renamed r (next answer) (next' answer)) :
      Renamed r (.quote l next) (.quote (l.rename r) next')
  | draw {rest : Supply → Supply} {next next' : Supply → Body}
      (later : ∀ supply, Renamed r (next supply) (next' supply)) :
      Renamed r (.draw rest next) (.draw rest next')
  | capture {f : Function} {body body' : Body} {next next' : Except Error Lambda → Body}
      (inner : Renamed r body body')
      (later : ∀ {answer answer'}, SameOutcome Error.Mirrors (Lambda.rename r) answer answer' →
        Renamed r (next answer) (next' answer')) :
      Renamed r (.capture f body next) (.capture f body' next')
  | lookUp {number : Nat} {f : Function} {next next' : Except Error (Option Lambda) → Body}
      (later : ∀ {answer answer'},
        SameOutcome Error.Mirrors (Option.map (Lambda.rename r)) answer answer' →
          Renamed r (next answer) (next' answer')) :
      Renamed r (.lookUp number f next) (.lookUp number f next')

/-- The second entry is that of the same function, for the renamed lambda. -/
structure Binding.Renamed (r : Renaming) (binding binding' : Binding) : Prop where
  key : binding'.key = binding.key
  function : binding'.function = binding.function
  body : binding.body.Renamed r binding'.body
  quoted : binding'.quoted = binding.quoted.map (Lambda.rename r)

def Registry.Renamed (r : Renaming) (registry registry' : Registry) : Prop :=
  List.Forall₂ (Binding.Renamed r) registry.bindings registry'.bindings

/-- The store with the parameters renamed in the contents of all slots. -/
def Store.rename (r : Renaming) (store : Store) : Store :=
  { store with slots := store.slots.map fun slot => (slot.1, slot.2.rename r) }

/-- The second session is the first one with the parameters renamed in its slots and registries. -/
structure Session.Renamed (r : Renaming) (session session' : Session) : Prop where
  store : session'.store = session.store.rename r
  limit : session'.limit = session.limit
  registries : Keyed.Matched (Registry.Renamed r) session.registries session'.registries
  runs : session'.runs = session.runs
  waits : session'.waits = session.waits

variable {r : Renaming}

namespace Registry.Renamed

variable {registry registry' : Registry}

theorem find? (renamed : registry.Renamed r registry') (f : Function) :
    Option.Rel (Binding.Renamed r) (registry.find? f) (registry'.find? f) := by
  obtain ⟨bindings⟩ := registry
  obtain ⟨bindings'⟩ := registry'
  have each : List.Forall₂ (Binding.Renamed r) bindings bindings' := renamed
  simp only [Registry.find?]
  clear renamed
  induction each with
  | nil => exact .none
  | cons first _ ih =>
    rw [List.find?_cons, List.find?_cons, first.function]
    split
    · exact .some first
    · exact ih

theorem keep (renamed : registry.Renamed r registry') (key : Nat) (l : Lambda) :
    (registry.keep key l).Renamed r (registry'.keep key (l.rename r)) := by
  refine List.forall₂_map_left_iff.mpr (List.forall₂_map_right_iff.mpr (renamed.imp ?_))
  intro binding binding' first
  simp only [first.key]
  split
  · exact ⟨rfl, first.function, first.body, rfl⟩
  · exact first

theorem keys (renamed : registry.Renamed r registry') :
    registry'.bindings.map Binding.key = registry.bindings.map Binding.key := by
  obtain ⟨bindings⟩ := registry
  obtain ⟨bindings'⟩ := registry'
  have each : List.Forall₂ (Binding.Renamed r) bindings bindings' := renamed
  clear renamed
  induction each with
  | nil => rfl
  | cons first _ ih => rw [List.map_cons, List.map_cons, first.key, ih]

end Registry.Renamed

namespace Session.Renamed

variable {session session' : Session}

theorem supply (renamed : session.Renamed r session') : session'.supply = session.supply := by
  rw [Session.supply, renamed.store]
  rfl

theorem setSupply (renamed : session.Renamed r session') (supply : Supply) :
    (session.setSupply supply).Renamed r (session'.setSupply supply) := by
  refine ⟨?_, renamed.limit, renamed.registries, renamed.runs, renamed.waits⟩
  simp only [Session.setSupply, renamed.store]
  rfl

theorem registry (renamed : session.Renamed r session') (number : Nat) :
    (session.registry number).Renamed r (session'.registry number) := by
  have contents := renamed.registries.lookup number
  simp only [Session.registry]
  generalize session.registries.lookup number = found at contents ⊢
  generalize session'.registries.lookup number = found' at contents ⊢
  cases contents with
  | some both => exact both
  | none => exact .nil

theorem setRegistry (renamed : session.Renamed r session') (number : Nat)
    {registry registry' : Registry} (both : registry.Renamed r registry') :
    (session.setRegistry number registry).Renamed r (session'.setRegistry number registry') :=
  ⟨renamed.store, renamed.limit, renamed.registries.insert number both, renamed.runs,
    renamed.waits⟩

theorem count (renamed : session.Renamed r session') (key : Nat) :
    Session.Renamed r { session with runs := key :: session.runs }
      { session' with runs := key :: session'.runs } :=
  ⟨renamed.store, renamed.limit, renamed.registries, by rw [renamed.runs], renamed.waits⟩

theorem wait (renamed : session.Renamed r session') :
    Session.Renamed r { session with waits := true } { session' with waits := true } :=
  ⟨renamed.store, renamed.limit, renamed.registries, renamed.runs, rfl⟩

theorem keys (renamed : session.Renamed r session') : session'.keys = session.keys := by
  have registries := renamed.registries
  rw [Session.keys, Session.keys]
  generalize session.registries = entries at registries ⊢
  generalize session'.registries = entries' at registries ⊢
  induction registries with
  | nil => rfl
  | cons first _ ih => rw [List.flatMap_cons, List.flatMap_cons, first.2.keys, ih]

end Session.Renamed

/-! ### Captures -/

def Quoter.rename (r : Renaming) (quoter : Quoter) : Quoter :=
  { quoter with quoted := quoter.quoted.map (Lambda.rename r) }

theorem Quoter.quote_rename (quoter : Quoter) (l : Lambda) :
    (quoter.rename r).quote (l.rename r) = ((quoter.quote l).1, (quoter.quote l).2.rename r) := by
  obtain ⟨f, quoted, overquoted⟩ := quoter
  cases quoted <;> rfl

theorem Function.checkQuoted_rename (f : Function) (l : Lambda) :
    Body.SameEnd (f.checkQuoted l) (f.checkQuoted (l.rename r)) := by
  simp only [checkQuoted, Lambda.arity_rename, Lambda.paramTypes_rename, Lambda.fnType_rename,
    Lambda.ret_rename]
  split
  · exact .error (.arityMismatch _ _ _ _)
  · split
    · exact .error (.same _)
    · split
      · exact .error (.same _)
      · exact .ok ()

theorem Function.captured_rename (f : Function) {outcome outcome' : Except Error Unit}
    (same : Body.SameEnd outcome outcome') (quoter : Quoter) :
    SameOutcome Error.Mirrors (Lambda.rename r) (f.captured outcome quoter)
      (f.captured outcome' (quoter.rename r)) := by
  obtain ⟨g, quoted, overquoted⟩ := quoter
  cases overquoted with
  | true => exact .error (.same _)
  | false =>
    cases same with
    | error both => exact .error (Error.Mirrors.substituteFailed f.name both)
    | ok _ =>
      cases quoted with
      | none => exact .error (.same _)
      | some l =>
        exact (f.checkQuoted_rename l).map fun _ => rfl

/-- Two runs of a body come to the same outcome, have quoted a lambda and the renamed lambda, and
leave a session and a renamed session. -/
structure SameRun (r : Renaming) (a b : (Except Error Unit × Quoter) × Session) : Prop where
  outcomes : Body.SameEnd a.1.1 b.1.1
  quoters : b.1.2 = a.1.2.rename r
  states : a.2.Renamed r b.2

theorem Function.capture_renamed {run run' : BodyRun Session} {session session' : Session}
    (runs : ∀ quoter {session session'}, session.Renamed r session' →
      SameRun r (run quoter session) (run' (quoter.rename r) session'))
    (renamed : session.Renamed r session') (f : Function) :
    InStep Error.Mirrors (Lambda.rename r) (Session.Renamed r) (f.capture run session)
      (f.capture run' session') := by
  rw [capture, capture]
  split
  · exact .error (.same _) renamed
  · have ran := runs { function := f } renamed
    have blank : Quoter.rename r { function := f } = { function := f } := rfl
    rw [blank] at ran
    generalize run { function := f } session = result at ran ⊢
    generalize run' { function := f } session' = result' at ran ⊢
    obtain ⟨⟨outcome, quoter⟩, after⟩ := result
    obtain ⟨⟨outcome', quoter'⟩, after'⟩ := result'
    obtain ⟨outcomes, rfl, states⟩ := ran
    exact ⟨f.captured_rename outcomes quoter, states⟩

/-- Running a renamed body comes to the same, if looking up does. -/
theorem Body.Renamed.run
    {lookUp : Nat → Function → Session → Except Error (Option Lambda) × Session}
    (asks : ∀ number f {session session'}, session.Renamed r session' →
      InStep Error.Mirrors (Option.map (Lambda.rename r)) (Session.Renamed r)
        (lookUp number f session) (lookUp number f session'))
    {body body' : Body} (both : body.Renamed r body') (quoter : Quoter)
    {session session' : Session} (renamed : session.Renamed r session') :
    SameRun r (body.run lookUp Session.supply Session.setSupply quoter session)
      (body'.run lookUp Session.supply Session.setSupply (quoter.rename r) session') := by
  induction both generalizing quoter session session' with
  | finish same => exact ⟨same, rfl, renamed⟩
  | @quote l next next' _ ih =>
    rw [Body.run, Body.run, Quoter.quote_rename]
    exact ih _ _ renamed
  | @draw rest next next' _ ih =>
    rw [Body.run, Body.run, renamed.supply]
    exact ih _ quoter (renamed.setSupply _)
  | @capture f body body' next next' _ _ inner ih =>
    obtain ⟨outcomes, states⟩ :=
      Function.capture_renamed (fun quoter _ _ renamed => inner quoter renamed) renamed f
    rw [Body.run, Body.run]
    exact ih outcomes quoter states
  | @lookUp number f next next' _ ih =>
    obtain ⟨outcomes, states⟩ := asks number f renamed
    rw [Body.run, Body.run]
    exact ih outcomes quoter states

namespace Session

variable {session session' : Session}

/-- A look-up that finds nothing kept captures the lambda, and keeps it. -/
theorem lookUpWithin_unquoted {idle : List Nat} {number : Nat} {f : Function} {binding : Binding}
    (found : (session.registry number).find? f = some binding) (unquoted : binding.quoted = none)
    (isIdle : binding.key ∈ idle) :
    session.lookUpWithin idle number f =
      onward (binding.function.capture (entryRun idle binding) session) fun l session =>
        (.ok (some l),
          session.setRegistry number ((session.registry number).keep binding.key l)) := by
  rw [lookUpWithin]
  simp only [found, unquoted, dif_pos isIdle]
  unfold entryRun
  generalize binding.function.capture _ session = captured
  rcases captured with ⟨e | l, after⟩ <;> rfl

/-- In the renamed session a function stands for the renamed lambda. -/
theorem lookUpWithin_renamed (idle : List Nat) (number : Nat) (f : Function)
    (renamed : session.Renamed r session') :
    InStep Error.Mirrors (Option.map (Lambda.rename r)) (Renamed r)
      (session.lookUpWithin idle number f) (session'.lookUpWithin idle number f) := by
  induction idle using idle_induction generalizing number f session session' with
  | step idle ih =>
    have entries := (renamed.registry number).find? f
    cases found : (session.registry number).find? f with
    | none =>
      rw [found] at entries
      generalize found' : (session'.registry number).find? f = entry' at entries
      cases entries
      rw [lookUpWithin, lookUpWithin]
      simp only [found, found']
      exact .ok none renamed
    | some binding =>
      rw [found] at entries
      generalize found' : (session'.registry number).find? f = entry' at entries
      cases entries with | @some _ binding' both =>
      cases quoted : binding.quoted with
      | some l =>
        have quoted' : binding'.quoted = some (l.rename r) := by rw [both.quoted, quoted]; rfl
        rw [lookUpWithin, lookUpWithin]
        simp only [found, found', quoted, quoted']
        exact .ok (some l) renamed
      | none =>
        have unquoted' : binding'.quoted = none := by rw [both.quoted, quoted]; rfl
        by_cases isBusy : binding.key ∉ idle
        · rw [lookUpWithin, lookUpWithin]
          simp only [found, found', quoted, unquoted', both.key, dif_neg isBusy]
          exact .error (.same _) renamed.wait
        have isIdle := not_not.mp isBusy
        have runs : ∀ quoter {session session'}, session.Renamed r session' →
            SameRun r (entryRun idle binding quoter session)
              (entryRun idle binding' (quoter.rename r) session') := by
          intro quoter session session' renamed
          simp only [entryRun, both.key]
          exact both.body.run (fun number f _ _ => ih binding.key isIdle number f) quoter
            (renamed.count binding.key)
        rw [lookUpWithin_unquoted found quoted isIdle,
          lookUpWithin_unquoted found' unquoted' (both.key ▸ isIdle), both.function, both.key]
        refine (binding.function.capture_renamed runs renamed).onward
          fun l after after' states => ?_
        exact .ok (some l)
          (states.setRegistry number ((states.registry number).keep binding.key l))

theorem quotedBody_renamed (number : Nat) (f : Function) (renamed : session.Renamed r session') :
    InStep Error.Mirrors (Option.map (Lambda.rename r)) (Renamed r)
      (session.quotedBody number f) (session'.quotedBody number f) := by
  rw [quotedBody, quotedBody, renamed.keys]
  exact lookUpWithin_renamed _ number f renamed

end Session

end TypedTrees
