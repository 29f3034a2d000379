import TypedTrees.Capture
import TypedTrees.Guard
/-!
Registries of substitute functions, and the session that holds them. A registry binds functions, by
identity, to bodies. What a function stands for is captured from its body at the first look-up and
kept with the binding; a capture that fails is not kept.
-/
namespace TypedTrees

/-- A function's entry in a registry. -/
structure Binding where
  /-- Tells this entry apart from every other entry, earlier and later ones of the same function
  included. -/
  key : Nat
  function : Function
  body : Body
  /-- What the function stands for, once it has been captured. -/
  quoted : Option Lambda := none

/-- The entries of a registry, at most one for each function. -/
structure Registry where
  bindings : List Binding := []

namespace Registry

def find? (registry : Registry) (f : Function) : Option Binding :=
  registry.bindings.find? fun binding => binding.function.same f

def contains (registry : Registry) (f : Function) : Bool := (registry.find? f).isSome

/-- The registry without the entry of a function. -/
def erase (registry : Registry) (f : Function) : Registry :=
  ⟨registry.bindings.filter fun binding => !binding.function.same f⟩

/-- The registry with a new entry, in place of any entry of the same function. -/
def insert (registry : Registry) (binding : Binding) : Registry :=
  ⟨(registry.erase binding.function).bindings ++ [binding]⟩

/-- A function that is erased has no entry, and every other function has the one it had. -/
theorem find?_erase (registry : Registry) (f g : Function) :
    (registry.erase f).find? g = if f.same g then none else registry.find? g := by
  by_cases same : f.same g = true
  · have ids : f.id = g.id := by simpa [Function.same] using same
    rw [if_pos same]
    simp [erase, find?, List.find?_filter, Function.same, ids]
  · have ids : f.id ≠ g.id := by simpa [Function.same] using same
    rw [if_neg same]
    simp only [erase, find?, List.find?_filter, Function.same]
    congr 1
    funext binding
    by_cases atG : binding.function.id = g.id
    · simp [atG, Ne.symm ids]
    · simp [atG]

/-- A function has the entry that was made for it last. -/
theorem find?_insert (registry : Registry) (binding : Binding) (f : Function) :
    (registry.insert binding).find? f =
      if binding.function.same f then some binding else registry.find? f := by
  have erased := find?_erase registry binding.function f
  simp only [find?] at erased
  simp only [insert, find?, List.find?_append, erased]
  split
  · rename_i same
    simp [same]
  · rename_i differ
    simp [differ]

def size (registry : Registry) : Nat := registry.bindings.length

/-- The names of all functions with an entry, in order and with repetitions. -/
def names (registry : Registry) : List String :=
  (registry.bindings.map fun binding => binding.function.name).mergeSort fun s t => s ≤ t

/-- The registry with the lambda of an entry kept. -/
def keep (registry : Registry) (key : Nat) (l : Lambda) : Registry :=
  ⟨registry.bindings.map fun binding =>
    if binding.key = key then { binding with quoted := some l } else binding⟩

/-- The written form of a registry, which lists the names. -/
def text (registry : Registry) : String :=
  "SubstituteRegistry \x7b substitutes: ["
    ++ ", ".intercalate (registry.names.map Quoting.listing.quote) ++ "] \x7d"

end Registry

/-- Everything that the trees of one process share. -/
structure Session where
  store : Store := {}
  /-- The depth limit of every guard without one of its own. -/
  limit : Nat := DepthGuard.defaultLimit
  /-- The registries, by number. Number zero is the one that expansion uses by default. -/
  registries : List (Nat × Registry) := [(0, {})]
  /-- The keys of the entries whose bodies were run, once for each run. -/
  runs : List Nat := []
  /-- Whether an entry was looked up in the course of its own capture. Such a look-up waits for the
  capture, which waits for it: the process goes no further, and what a function gives in a session
  that waits is nothing that a process comes to. -/
  waits : Bool := false

namespace Session

/-- The number of the registry that expansion uses by default. -/
def globalRegistry : Nat := 0

/-- A registry of the session. One that was never made is empty. -/
def registry (session : Session) (number : Nat) : Registry :=
  (session.registries.lookup number).getD {}

def setRegistry (number : Nat) (registry : Registry) (session : Session) : Session :=
  { session with registries := Keyed.insert number registry session.registries }

def supply (session : Session) : Supply := session.store.supply

def setSupply (supply : Supply) (session : Session) : Session :=
  { session with store := { session.store with supply } }

/-- The session with another depth limit. -/
def setLimit (limit : Nat) (session : Session) : Session := { session with limit }

/-- A computation that only draws identities, carried out in a session. -/
def drawing {α : Type} (make : Supply → α × Supply) (session : Session) : α × Session :=
  let (result, supply) := make session.supply
  (result, session.setSupply supply)

def newRegistry (session : Session) : Nat × Session :=
  let (number, session) := session.drawing Supply.draw
  (number, session.setRegistry number {})

/-- Enters a function with a body. Gives the entry's key, and whether the function had an entry
before. -/
def register (number : Nat) (f : Function) (body : Body) (session : Session) :
    (Nat × Bool) × Session :=
  let (key, session) := session.drawing Supply.draw
  let registry := session.registry number
  ((key, registry.contains f),
    session.setRegistry number (registry.insert { key, function := f, body }))

/-- Enters a function that has no entry yet. -/
def registerNew (number : Nat) (f : Function) (body : Body) (session : Session) :
    Except Error Nat × Session :=
  if (session.registry number).contains f then
    (.error (.invalidArgument (.alreadyRegistered f.name)), session)
  else
    let ((key, _), session) := session.register number f body
    (.ok key, session)

/-- Removes a function's entry. Says whether there was one. -/
def unregister (number : Nat) (f : Function) (session : Session) : Bool × Session :=
  let registry := session.registry number
  (registry.contains f, session.setRegistry number (registry.erase f))

def runsOf (session : Session) (key : Nat) : Nat := session.runs.count key

/-- The keys of the entries of all registries. -/
def keys (session : Session) : List Nat :=
  session.registries.flatMap fun entry => entry.2.bindings.map Binding.key

/-- Fewer entries are idle while the body of one of them is run. -/
theorem length_removeAll_lt {idle : List Nat} {key : Nat} (isIdle : key ∈ idle) :
    (idle.removeAll [key]).length < idle.length := by
  refine Nat.lt_of_le_of_ne (List.length_filter_le _ _) fun same => ?_
  have none := List.length_filter_eq_length_iff.mp same key isIdle
  simp at none

/-- What a function stands for. Only the bodies of the entries with the keys `idle` can be run;
those of all other entries are being run, and a look-up of such an entry waits. -/
def lookUpWithin (idle : List Nat) (number : Nat) (f : Function) (session : Session) :
    Except Error (Option Lambda) × Session :=
  match (session.registry number).find? f with
  | none => (.ok none, session)
  | some binding =>
    match binding.quoted with
    | some l => (.ok (some l), session)
    | none =>
      if _ : binding.key ∈ idle then
        let run : BodyRun Session := fun quoter session =>
          binding.body.run (lookUpWithin (idle.removeAll [binding.key])) supply setSupply quoter
            { session with runs := binding.key :: session.runs }
        match binding.function.capture run session with
        | (.error e, session) => (.error e, session)
        | (.ok l, session) =>
          (.ok (some l),
            session.setRegistry number ((session.registry number).keep binding.key l))
      else (.error (.malformedSubstitute f.name .nothingQuoted), { session with waits := true })
termination_by idle.length
decreasing_by exact length_removeAll_lt ‹_›

/-- What a function stands for according to a registry, captured at the first look-up. A function
without an entry stands for nothing. -/
def quotedBody (number : Nat) (f : Function) (session : Session) :
    Except Error (Option Lambda) × Session :=
  session.lookUpWithin session.keys number f

/-- Captures the lambda that a body quotes for a function, without entering either in a
registry. -/
def capture (f : Function) (body : Body) (session : Session) : Except Error Lambda × Session :=
  f.capture (body.run (lookUpWithin session.keys) supply setSupply) session

end Session

end TypedTrees
