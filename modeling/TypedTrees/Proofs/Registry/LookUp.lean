import Mathlib.Data.List.Nodup
import TypedTrees.Registry
/-!
What looking up a function does to a session. A look-up may run bodies, and these may draw
identities, capture and look up in turn, but no entry comes or goes: all that changes of the
registries is which lambdas are kept, and where every entry has a key of its own, a lambda that is
kept stays (`Session.lookUpWithin_grows`).
-/
namespace TypedTrees

/-- A relation that looking up and drawing respect is one that running a body respects. -/
theorem Body.run_respects {σ : Type} {respects : σ → σ → Prop}
    (refl : ∀ state, respects state state)
    (trans : ∀ {a b c}, respects a b → respects b c → respects a c)
    {lookUp : Nat → Function → σ → Except Error (Option Lambda) × σ} {supply : σ → Supply}
    {setSupply : Supply → σ → σ} (asks : ∀ number f state, respects state (lookUp number f state).2)
    (draws : ∀ state drawn, respects state (setSupply drawn state)) (body : Body) (quoter : Quoter)
    (state : σ) : respects state (body.run lookUp supply setSupply quoter state).2 := by
  induction body generalizing quoter state with
  | finish outcome => exact refl state
  | quote l next ih =>
    rw [run]
    exact ih _ _ _
  | draw rest next ih =>
    rw [run]
    exact trans (draws _ _) (ih _ _ _)
  | capture f body next inner ih =>
    rw [run]
    have captured : respects state (f.capture (body.run lookUp supply setSupply) state).2 := by
      rw [Function.capture]
      split
      · exact refl state
      · exact inner _ _
    exact trans captured (ih _ _ _)
  | lookUp number f next ih =>
    rw [run]
    exact trans (asks _ _ _) (ih _ _ _)

theorem Function.capture_respects {σ : Type} {respects : σ → σ → Prop} {state : σ}
    (refl : respects state state) {run : BodyRun σ}
    (runs : ∀ quoter, respects state (run quoter state).2) (f : Function) :
    respects state (f.capture run state).2 := by
  rw [capture]
  split
  · exact refl
  · exact runs _

theorem Function.capture_map {σ τ : Type} {g : σ → τ} {run : BodyRun σ} {run' : BodyRun τ}
    {state : σ} (runs : ∀ quoter, run' quoter (g state) =
      ((run quoter state).1, g (run quoter state).2)) (f : Function) :
    f.capture run' (g state) = ((f.capture run state).1, g (f.capture run state).2) := by
  rw [capture, capture]
  split
  · rfl
  · simp only [runs]

/-- What a body does in the states that `g` makes is what it does in the states themselves, if
looking up and drawing do not tell the two apart. -/
theorem Body.run_map {σ τ : Type} {g : σ → τ}
    {lookUp : Nat → Function → σ → Except Error (Option Lambda) × σ}
    {lookUp' : Nat → Function → τ → Except Error (Option Lambda) × τ} {supply : σ → Supply}
    {supply' : τ → Supply} {setSupply : Supply → σ → σ} {setSupply' : Supply → τ → τ}
    (asks : ∀ number f state, lookUp' number f (g state) =
      ((lookUp number f state).1, g (lookUp number f state).2))
    (supplies : ∀ state, supply' (g state) = supply state)
    (draws : ∀ drawn state, setSupply' drawn (g state) = g (setSupply drawn state)) (body : Body)
    (quoter : Quoter) (state : σ) :
    body.run lookUp' supply' setSupply' quoter (g state) =
      ((body.run lookUp supply setSupply quoter state).1,
        g (body.run lookUp supply setSupply quoter state).2) := by
  induction body generalizing quoter state with
  | finish outcome => rfl
  | quote l next ih =>
    rw [run, run]
    exact ih _ _ _
  | draw rest next ih =>
    rw [run, run, supplies, draws]
    exact ih _ _ _
  | capture f body next inner ih =>
    rw [run, run, Function.capture_map (fun quoter => inner quoter state) f]
    exact ih _ _ _
  | lookUp number f next ih =>
    rw [run, run, asks]
    exact ih _ _ _

/-- A capture does not fail at a depth limit. If the body does, the capture says so in other
words. -/
theorem Function.capture_ne_recursionLimit {σ : Type} (f : Function) (run : BodyRun σ) (state : σ)
    (n : Nat) : (f.capture run state).1 ≠ .error (.recursionLimit n) := by
  intro fails
  rw [capture] at fails
  split at fails
  · cases fails
  · simp only [captured] at fails
    split at fails
    · cases fails
    · split at fails
      · cases fails
      · cases fails
      · simp only [checkQuoted] at fails
        split at fails
        · cases fails
        · split at fails
          · cases fails
          · split at fails <;> cases fails

/-- The entry without a lambda that is kept. -/
def Binding.blank (binding : Binding) : Binding := { binding with quoted := none }

theorem Binding.key_eq_of_blank_eq {a b : Binding} (same : a.blank = b.blank) : a.key = b.key :=
  (Binding.mk.inj same).1

namespace Registry

/-- The entries of a registry without the lambdas that are kept. -/
def blank (registry : Registry) : List Binding :=
  registry.bindings.map fun binding => { binding with quoted := none }

/-- The lambda that is kept for a function. -/
def quoted? (registry : Registry) (f : Function) : Option Lambda :=
  (registry.find? f).bind Binding.quoted

theorem contains_eq_blank (registry : Registry) (f : Function) :
    registry.contains f = registry.blank.any fun binding => binding.function.same f := by
  simp only [contains, find?, blank, List.any_map, List.isSome_find?]
  rfl

theorem contains_of_blank_eq {before after : Registry} (same : after.blank = before.blank)
    (f : Function) : after.contains f = before.contains f := by
  rw [contains_eq_blank, contains_eq_blank, same]

theorem keys_eq_blank (registry : Registry) :
    registry.bindings.map Binding.key = registry.blank.map Binding.key := by
  simp only [blank, List.map_map]
  rfl

theorem keep_blank (registry : Registry) (key : Nat) (l : Lambda) :
    (registry.keep key l).blank = registry.blank := by
  simp only [blank, keep, List.map_map]
  refine List.map_congr_left fun binding _ => ?_
  simp only [Function.comp_apply]
  split <;> rfl

theorem find?_keep (registry : Registry) (key : Nat) (l : Lambda) (f : Function) :
    (registry.keep key l).find? f = (registry.find? f).map fun binding =>
      if binding.key = key then { binding with quoted := some l } else binding := by
  simp only [find?, keep, List.find?_map]
  congr 2
  funext binding
  simp only [Function.comp_apply]
  split <;> rfl

theorem find?_of_blank_eq {before after : Registry} (same : after.blank = before.blank)
    {f : Function} {binding : Binding} (found : before.find? f = some binding) :
    ∃ now, after.find? f = some now ∧ now.blank = binding.blank := by
  have blanked : ∀ registry : Registry, (registry.find? f).map Binding.blank =
      registry.blank.find? fun binding => binding.function.same f := by
    intro registry
    simp only [find?, blank, List.find?_map]
    rfl
  have blanks := blanked after
  rw [same, ← blanked before, found] at blanks
  exact Option.map_eq_some_iff.mp blanks

end Registry

namespace Session

theorem registry_setRegistry (session : Session) (number other : Nat) (registry : Registry) :
    (session.setRegistry number registry).registry other =
      if other = number then registry else session.registry other := by
  simp only [Session.registry, setRegistry, Keyed.lookup_insert]
  by_cases same : other = number
  · simp [same]
  · simp [same]

theorem mem_keys {session : Session} {number : Nat} {binding : Binding}
    (member : binding ∈ (session.registry number).bindings) : binding.key ∈ session.keys := by
  rw [registry] at member
  cases found : session.registries.lookup number with
  | none =>
    rw [found] at member
    cases member
  | some registry =>
    rw [found] at member
    refine List.mem_flatMap.mpr ⟨(number, registry), ?_, List.mem_map_of_mem member⟩
    exact Keyed.mem_of_lookup found

/-- The two sessions have the same limit, slots and entries, whatever lambdas are kept with the
entries. -/
structure SameEntries (before after : Session) : Prop where
  limit : after.limit = before.limit
  slots : after.store.slots = before.store.slots
  entries : ∀ number, (after.registry number).blank = (before.registry number).blank

namespace SameEntries

theorem refl (session : Session) : SameEntries session session := ⟨rfl, rfl, fun _ => rfl⟩

theorem trans {a b c : Session} (first : SameEntries a b) (second : SameEntries b c) :
    SameEntries a c :=
  ⟨second.limit.trans first.limit, second.slots.trans first.slots,
    fun number => (second.entries number).trans (first.entries number)⟩

theorem contains {before after : Session} (same : SameEntries before after) (number : Nat)
    (f : Function) : (after.registry number).contains f = (before.registry number).contains f :=
  Registry.contains_of_blank_eq (same.entries number) f

theorem setSupply (session : Session) (supply : Supply) :
    SameEntries session (session.setSupply supply) := ⟨rfl, rfl, fun _ => rfl⟩

theorem keep (session : Session) (number key : Nat) (l : Lambda) :
    SameEntries session (session.setRegistry number ((session.registry number).keep key l)) := by
  refine ⟨rfl, rfl, fun other => ?_⟩
  rw [registry_setRegistry]
  by_cases same : other = number
  · rw [if_pos same, same, Registry.keep_blank]
  · rw [if_neg same]

end SameEntries

/-- A property of lists of idle entries, from the lists that are left while the body of one of their
entries is run. -/
@[elab_as_elim]
theorem idle_induction {motive : List Nat → Prop}
    (step : ∀ idle, (∀ key ∈ idle, motive (idle.removeAll [key])) → motive idle)
    (idle : List Nat) : motive idle :=
  step idle fun key _ => idle_induction step (idle.removeAll [key])
termination_by idle.length
decreasing_by exact length_removeAll_lt ‹_›

theorem mem_removeAll {idle : List Nat} {key other : Nat} :
    other ∈ idle.removeAll [key] ↔ other ∈ idle ∧ other ≠ key := by
  simp [List.removeAll]

theorem not_mem_removeAll {idle : List Nat} {key : Nat} : key ∉ idle.removeAll [key] :=
  fun still => (mem_removeAll.mp still).2 rfl

theorem mem_removeAll_of_ne {idle : List Nat} {key other : Nat} (differ : key ≠ other) :
    other ∈ idle.removeAll [key] ↔ other ∈ idle := by
  rw [mem_removeAll, and_iff_left differ.symm]

/-- Runs the body of an entry, as a look-up does that captures its lambda. -/
def entryRun (idle : List Nat) (binding : Binding) : BodyRun Session := fun quoter session =>
  binding.body.run (lookUpWithin (idle.removeAll [binding.key])) supply setSupply quoter
    { session with runs := binding.key :: session.runs }

/-- What a look-up comes to, case by case. -/
inductive LookUpCase (idle : List Nat) (number : Nat) (f : Function) (session : Session) :
    Except Error (Option Lambda) × Session → Prop
  | unknown (absent : (session.registry number).find? f = none) :
      LookUpCase idle number f session (.ok none, session)
  | kept {binding : Binding} {l : Lambda}
      (found : (session.registry number).find? f = some binding)
      (quoted : binding.quoted = some l) : LookUpCase idle number f session (.ok (some l), session)
  | busy {binding : Binding} (found : (session.registry number).find? f = some binding)
      (unquoted : binding.quoted = none) (isBusy : binding.key ∉ idle) :
      LookUpCase idle number f session
        (.error (.malformedSubstitute f.name .nothingQuoted), { session with waits := true })
  | failed {binding : Binding} {e : Error} {after : Session}
      (found : (session.registry number).find? f = some binding)
      (unquoted : binding.quoted = none) (isIdle : binding.key ∈ idle)
      (capture : binding.function.capture (entryRun idle binding) session = (.error e, after)) :
      LookUpCase idle number f session (.error e, after)
  | captured {binding : Binding} {l : Lambda} {after : Session}
      (found : (session.registry number).find? f = some binding)
      (unquoted : binding.quoted = none) (isIdle : binding.key ∈ idle)
      (capture : binding.function.capture (entryRun idle binding) session = (.ok l, after)) :
      LookUpCase idle number f session
        (.ok (some l), after.setRegistry number ((after.registry number).keep binding.key l))

theorem lookUpWithin_cases (idle : List Nat) (number : Nat) (f : Function) (session : Session) :
    LookUpCase idle number f session (lookUpWithin idle number f session) := by
  rw [lookUpWithin]
  split
  · rename_i absent
    exact .unknown absent
  · rename_i binding found
    split
    · rename_i quoted
      exact .kept found quoted
    · rename_i unquoted
      split
      · rename_i isIdle
        simp only
        split
        · rename_i capture
          exact .failed found unquoted isIdle capture
        · rename_i capture
          exact .captured found unquoted isIdle capture
      · rename_i isBusy
        exact .busy found unquoted isBusy

section Respects

variable {respects : Session → Session → Prop} (refl : ∀ session, respects session session)
  (trans : ∀ {a b c}, respects a b → respects b c → respects a c)
  (draws : ∀ session drawn, respects session (session.setSupply drawn))
  (counts : ∀ (session : Session) key,
    respects session { session with runs := key :: session.runs })

include refl trans draws counts

theorem capture_entryRun_respects {idle : List Nat} {binding : Binding}
    (asks : ∀ number f session,
      respects session (lookUpWithin (idle.removeAll [binding.key]) number f session).2)
    (f : Function) (session : Session) :
    respects session (f.capture (entryRun idle binding) session).2 := by
  refine Function.capture_respects (refl session) (fun quoter => ?_) f
  exact trans (counts session binding.key) (Body.run_respects refl trans asks draws _ _ _)

/-- A relation that drawing, counting a run and waiting respect, and keeping a lambda where it has
been captured for an entry, is one that looking up respects. -/
theorem lookUpWithin_respects
    (waits : ∀ session : Session, respects session { session with waits := true })
    (keeps : ∀ {idle : List Nat} {number : Nat} {f : Function} {session after : Session}
      {binding : Binding} {l : Lambda}, (session.registry number).find? f = some binding →
        binding.quoted = none →
        binding.function.capture (entryRun idle binding) session = (.ok l, after) →
        respects session after →
        respects session
          (after.setRegistry number ((after.registry number).keep binding.key l)))
    (idle : List Nat) (number : Nat) (f : Function) (session : Session) :
    respects session (lookUpWithin idle number f session).2 := by
  induction idle using idle_induction generalizing number f session with
  | step idle ih =>
    have captures : ∀ {binding : Binding} {captured : Except Error Lambda × Session},
        binding.key ∈ idle → binding.function.capture (entryRun idle binding) session = captured →
          respects session captured.2 := by
      rintro binding _ isIdle rfl
      exact capture_entryRun_respects refl trans draws counts (ih binding.key isIdle)
        binding.function session
    have outcome := lookUpWithin_cases idle number f session
    generalize lookUpWithin idle number f session = result at outcome ⊢
    cases outcome with
    | unknown _ => exact refl session
    | kept _ _ => exact refl session
    | busy _ _ _ => exact waits session
    | failed _ _ isIdle capture => exact captures isIdle capture
    | captured found unquoted isIdle capture =>
      exact keeps found unquoted capture (captures isIdle capture)

end Respects

/-- Looking up does not depend on the depth limit of the session. -/
theorem lookUpWithin_setLimit (limit : Nat) (idle : List Nat) (number : Nat) (f : Function)
    (session : Session) :
    lookUpWithin idle number f (session.setLimit limit) =
      ((lookUpWithin idle number f session).1,
        (lookUpWithin idle number f session).2.setLimit limit) := by
  induction idle using idle_induction generalizing number f session with
  | step idle ih =>
    have same : (session.setLimit limit).registry number = session.registry number := rfl
    rw [lookUpWithin, lookUpWithin, same]
    split
    · rfl
    · rename_i binding found
      split
      · rfl
      · split
        · rename_i isIdle
          have ran : ∀ quoter, entryRun idle binding quoter (session.setLimit limit) =
              ((entryRun idle binding quoter session).1,
                (entryRun idle binding quoter session).2.setLimit limit) := fun quoter =>
            @Body.run_map _ _ (setLimit limit) _ _ supply supply setSupply setSupply
              (ih binding.key isIdle) (fun _ => rfl) (fun _ _ => rfl) binding.body quoter
              { session with runs := binding.key :: session.runs }
          have captured := Function.capture_map ran binding.function
          unfold entryRun at captured
          simp only [captured]
          generalize binding.function.capture _ session = result
          obtain ⟨e | l, after⟩ := result <;> rfl
        · rfl

/-- A look-up does not fail at a depth limit. -/
theorem lookUpWithin_ne_recursionLimit (idle : List Nat) (number : Nat) (f : Function)
    (session : Session) (n : Nat) :
    (lookUpWithin idle number f session).1 ≠ .error (.recursionLimit n) := by
  intro fails
  have outcome := lookUpWithin_cases idle number f session
  generalize lookUpWithin idle number f session = result at outcome fails
  cases outcome with
  | @failed binding e after _ _ _ capture =>
    refine binding.function.capture_ne_recursionLimit (entryRun idle binding) session n ?_
    rw [capture]
    cases fails
    rfl
  | _ => cases fails

theorem lookUpWithin_readers (idle : List Nat) (number : Nat) (f : Function) (session : Session) :
    (lookUpWithin idle number f session).2.store.readers = session.store.readers :=
  @lookUpWithin_respects (fun a b => b.store.readers = a.store.readers) (fun _ => rfl)
    (fun first second => second.trans first) (fun _ _ => rfl) (fun _ _ => rfl) (fun _ => rfl)
    (fun _ _ _ readers => readers) idle number f session

/-- A session that waits does so for good. -/
def Lasts (before after : Session) : Prop := before.waits = true → after.waits = true

theorem Lasts.refl (session : Session) : Lasts session session := id

theorem Lasts.trans {a b c : Session} (first : Lasts a b) (second : Lasts b c) : Lasts a c :=
  second ∘ first

theorem Lasts.of_waits_eq {before after : Session} (same : after.waits = before.waits) :
    Lasts before after := fun waits => same.trans waits

theorem Lasts.straight {before after : Session} (lasts : Lasts before after)
    (straight : after.waits = false) : before.waits = false :=
  Bool.eq_false_iff.mpr fun waits => by cases straight.symm.trans (lasts waits)

theorem lookUpWithin_lasts (idle : List Nat) (number : Nat) (f : Function) (session : Session) :
    Lasts session (lookUpWithin idle number f session).2 :=
  lookUpWithin_respects Lasts.refl Lasts.trans (fun _ _ => .of_waits_eq rfl)
    (fun _ _ => .of_waits_eq rfl) (fun _ _ => rfl) (fun _ _ _ lasts => lasts) idle number f session

/-- No two entries of one registry have the same key. Entries are given their keys from the supply,
so this holds of every session that registrations have made. -/
def KeysDistinct (session : Session) : Prop :=
  ∀ number, ((session.registry number).bindings.map Binding.key).Nodup

theorem bindings_of_fresh {session : Session} (fresh : session.registries = [(0, {})])
    (number : Nat) : (session.registry number).bindings = [] := by
  simp only [Session.registry, fresh, List.lookup_cons, List.lookup_nil]
  split <;> rfl

theorem KeysDistinct.of_fresh {session : Session} (fresh : session.registries = [(0, {})]) :
    KeysDistinct session := by
  intro number
  rw [bindings_of_fresh fresh]
  exact .nil

theorem keysDistinct_congr {before after : Session}
    (same : ∀ number, (after.registry number).blank = (before.registry number).blank) :
    KeysDistinct after ↔ KeysDistinct before := by
  simp only [KeysDistinct, Registry.keys_eq_blank, same]

theorem KeysDistinct.mono {before after : Session} (distinct : KeysDistinct before)
    (same : SameEntries before after) : KeysDistinct after :=
  (keysDistinct_congr same.entries).mpr distinct

/-- The lambdas kept before are kept after. -/
def Keeps (before after : Session) : Prop :=
  ∀ number f l, (before.registry number).quoted? f = some l →
    (after.registry number).quoted? f = some l

/-- A lambda that is kept with an entry leaves those alone that have been kept with other
entries. -/
theorem Keeps.keep {before after : Session} {number : Nat} {f : Function} {binding : Binding}
    (distinct : KeysDistinct before) (same : SameEntries before after) (keeps : Keeps before after)
    (found : (before.registry number).find? f = some binding) (unkept : binding.quoted = none)
    (l : Lambda) :
    Keeps before (after.setRegistry number ((after.registry number).keep binding.key l)) := by
  intro other g k kept
  have now := keeps other g k kept
  rw [registry_setRegistry]
  by_cases here : other = number
  · subst here
    rw [if_pos rfl]
    obtain ⟨old, foundOld, quotedOld⟩ := Option.bind_eq_some_iff.mp kept
    obtain ⟨new, foundNew, quotedNew⟩ := Option.bind_eq_some_iff.mp now
    obtain ⟨new', foundNew', blanks⟩ := Registry.find?_of_blank_eq (same.entries other) foundOld
    cases foundNew.symm.trans foundNew'
    have keys := Binding.key_eq_of_blank_eq blanks
    -- an entry of the same key would be the one that had no lambda yet
    have differ : new.key ≠ binding.key := by
      intro equal
      have one : old = binding :=
        List.inj_on_of_nodup_map (distinct other) (List.mem_of_find?_eq_some foundOld)
          (List.mem_of_find?_eq_some found) (keys.symm.trans equal)
      rw [one, unkept] at quotedOld
      cases quotedOld
    rw [Registry.quoted?, Registry.find?_keep, foundNew]
    simp only [Option.map_some, if_neg differ, Option.bind_some, quotedNew]
  · rw [if_neg here]
    exact now

/-- The entries are the same and, where keys are distinct, lambdas kept before are kept after. -/
structure Grows (before after : Session) : Prop extends SameEntries before after where
  keeps : KeysDistinct before → Keeps before after

namespace Grows

theorem refl (session : Session) : Grows session session :=
  ⟨.refl session, fun _ _ _ _ kept => kept⟩

theorem trans {a b c : Session} (first : Grows a b) (second : Grows b c) : Grows a c := by
  refine ⟨first.toSameEntries.trans second.toSameEntries, fun distinct number f l kept => ?_⟩
  exact second.keeps (distinct.mono first.toSameEntries) number f l
    (first.keeps distinct number f l kept)

theorem setSupply (session : Session) (supply : Supply) :
    Grows session (session.setSupply supply) :=
  ⟨.setSupply session supply, fun _ _ _ _ kept => kept⟩

theorem count (session : Session) (key : Nat) :
    Grows session { session with runs := key :: session.runs } :=
  ⟨⟨rfl, rfl, fun _ => rfl⟩, fun _ _ _ _ kept => kept⟩

theorem wait (session : Session) : Grows session { session with waits := true } :=
  ⟨⟨rfl, rfl, fun _ => rfl⟩, fun _ _ _ _ kept => kept⟩

theorem setStore {session : Session} {store : Store} (slots : store.slots = session.store.slots) :
    Grows session { session with store := store } :=
  ⟨⟨rfl, slots, fun _ => rfl⟩, fun _ _ _ _ kept => kept⟩

end Grows

/-- A look-up leaves the entries as they are and keeps the lambdas that are kept. -/
theorem lookUpWithin_grows (idle : List Nat) (number : Nat) (f : Function) (session : Session) :
    Grows session (lookUpWithin idle number f session).2 := by
  refine lookUpWithin_respects Grows.refl Grows.trans Grows.setSupply Grows.count Grows.wait ?_ idle
    number f session
  intro idle number f session after binding l found unquoted _ grows
  refine ⟨grows.toSameEntries.trans (.keep after number binding.key l), fun distinct => ?_⟩
  exact .keep distinct grows.toSameEntries (grows.keeps distinct) found unquoted l

/-- The lambda that a look-up finds is kept from then on. -/
theorem quoted?_of_quotedBody {number : Nat} {f : Function} {session after : Session} {l : Lambda}
    (found : session.quotedBody number f = (.ok (some l), after)) :
    (after.registry number).quoted? f = some l := by
  have outcome := lookUpWithin_cases session.keys number f session
  rw [← quotedBody, found] at outcome
  cases outcome with
  | kept entry quoted =>
    rw [Registry.quoted?, entry]
    exact quoted
  | @captured binding _ middle entry _ _ capture =>
    have grows := capture_entryRun_respects Grows.refl Grows.trans Grows.setSupply Grows.count
      (lookUpWithin_grows (session.keys.removeAll [binding.key])) binding.function session
    rw [capture] at grows
    obtain ⟨now, entryNow, blanks⟩ := Registry.find?_of_blank_eq (grows.entries number) entry
    have keys := Binding.key_eq_of_blank_eq blanks
    rw [registry_setRegistry, if_pos rfl, Registry.quoted?, Registry.find?_keep, entryNow]
    simp only [Option.map_some, if_pos keys, Option.bind_some]

theorem quotedBody_of_not_contains {number : Nat} {f : Function} {session : Session}
    (unknown : (session.registry number).contains f = false) :
    session.quotedBody number f = (.ok none, session) := by
  have absent : (session.registry number).find? f = none := by
    simpa [Registry.contains] using unknown
  rw [quotedBody, lookUpWithin, absent]

theorem contains_of_quotedBody_none {number : Nat} {f : Function} {session after : Session}
    (found : session.quotedBody number f = (.ok none, after)) :
    (session.registry number).contains f = false := by
  have outcome := lookUpWithin_cases session.keys number f session
  rw [← quotedBody, found] at outcome
  cases outcome with
  | unknown absent =>
    rw [Registry.contains, absent]
    rfl

end Session

end TypedTrees
