import TypedTrees.Proofs.Registry.LookUp
/-!
The lambdas that are kept with entries have the signatures of their functions. A lambda is kept once
a capture has checked it (`Function.capture_signature`), and where every entry has a key of its own
it is kept with the very entry it was checked for (`Session.lookUpWithin_signed`).
-/
namespace TypedTrees

namespace Function

/-- The lambda has parameters of the types of the function's, and its result type. -/
def SignatureOf (f : Function) (l : Lambda) : Prop :=
  f.paramTypes = l.params.map Parameter.ty ∧ f.ret = l.ret

theorem checkQuoted_eq_ok_iff {f : Function} {l : Lambda} :
    f.checkQuoted l = .ok () ↔ f.SignatureOf l := by
  have counts : f.paramTypes = l.params.map Parameter.ty → f.params.length = l.arity := by
    intro types
    simpa [paramTypes, Lambda.arity] using congrArg List.length types
  simp only [checkQuoted]
  split
  · rename_i differ
    exact ⟨fun fails => (by cases fails), fun both => absurd (counts both.1) differ⟩
  · split
    · rename_i differ
      exact ⟨fun fails => (by cases fails), fun both => absurd both.1 differ⟩
    · rename_i types
      split
      · rename_i differ
        exact ⟨fun fails => (by cases fails), fun both => absurd both.2 differ⟩
      · rename_i rets
        exact ⟨fun _ => ⟨not_not.mp types, not_not.mp rets⟩, fun _ => rfl⟩

/-- A capture gives no lambda but one of the function's signature. -/
theorem capture_signature {σ : Type} {f : Function} {run : BodyRun σ} {state after : σ} {l : Lambda}
    (captures : f.capture run state = (.ok l, after)) : f.SignatureOf l := by
  rw [capture] at captures
  split at captures
  · cases captures
  · have is : f.captured (run { function := f } state).1.1 (run { function := f } state).1.2 =
        .ok l := congrArg Prod.fst captures
    simp only [captured] at is
    split at is
    · cases is
    · split at is
      · cases is
      · cases is
      · rename_i k _ _
        cases checks : f.checkQuoted k with
        | error e =>
          rw [checks] at is
          cases is
        | ok _ =>
          rw [checks] at is
          cases is
          exact checkQuoted_eq_ok_iff.mp checks

end Function

namespace Session

/-- Every lambda that is kept with an entry has the signature of the entry's function. -/
def Signed (session : Session) : Prop :=
  ∀ number, ∀ binding ∈ (session.registry number).bindings, ∀ l, binding.quoted = some l →
    binding.function.SignatureOf l

theorem Signed.of_fresh {session : Session} (fresh : session.registries = [(0, {})]) :
    Signed session := by
  intro number binding member
  rw [bindings_of_fresh fresh] at member
  cases member

/-- Entries that are exchanged for others leave a session signed if each of the others was there
before or keeps no lambda but one of its function's signature. -/
theorem Signed.setRegistry {session : Session} (signed : Signed session) {number : Nat}
    {registry : Registry} (entries : ∀ binding ∈ registry.bindings,
      binding ∈ (session.registry number).bindings ∨
        ∀ l, binding.quoted = some l → binding.function.SignatureOf l) :
    Signed (session.setRegistry number registry) := by
  intro other binding member
  rw [registry_setRegistry] at member
  split at member
  · exact (entries binding member).elim (signed number binding) id
  · exact signed other binding member

/-- A new entry keeps no lambda yet. -/
theorem Signed.register {session : Session} (signed : Signed session) (number : Nat) (f : Function)
    (body : Body) : Signed (session.register number f body).2 := by
  refine @Signed.setRegistry (session.drawing Supply.draw).2 signed _ _ fun binding member => ?_
  rcases List.mem_append.mp member with old | new
  · exact .inl (List.mem_of_mem_filter old)
  · cases List.mem_singleton.mp new
    exact .inr fun l quoted => by cases quoted

/-- The entries are the same and, where keys are distinct, lambdas that are kept have the signatures
of their functions if those did that were kept before. -/
structure StaysSigned (before after : Session) : Prop extends SameEntries before after where
  signed : KeysDistinct before → Signed before → Signed after

namespace StaysSigned

theorem refl (session : Session) : StaysSigned session session := ⟨.refl session, fun _ is => is⟩

theorem trans {a b c : Session} (first : StaysSigned a b) (second : StaysSigned b c) :
    StaysSigned a c :=
  ⟨first.toSameEntries.trans second.toSameEntries, fun distinct is =>
    second.signed (distinct.mono first.toSameEntries) (first.signed distinct is)⟩

theorem setSupply (session : Session) (supply : Supply) :
    StaysSigned session (session.setSupply supply) :=
  ⟨.setSupply session supply, fun _ is => is⟩

theorem count (session : Session) (key : Nat) :
    StaysSigned session { session with runs := key :: session.runs } :=
  ⟨⟨rfl, rfl, fun _ => rfl⟩, fun _ is => is⟩

theorem wait (session : Session) : StaysSigned session { session with waits := true } :=
  ⟨⟨rfl, rfl, fun _ => rfl⟩, fun _ is => is⟩

theorem setStore {session : Session} {store : Store} (slots : store.slots = session.store.slots) :
    StaysSigned session { session with store := store } :=
  ⟨⟨rfl, slots, fun _ => rfl⟩, fun _ is => is⟩

/-- A lambda of the right signature is kept with an entry that was there before. -/
theorem keep {before after : Session} (stays : StaysSigned before after) {number : Nat}
    {f : Function} {binding : Binding} {l : Lambda}
    (found : (before.registry number).find? f = some binding)
    (signature : binding.function.SignatureOf l) : StaysSigned before
      (after.setRegistry number ((after.registry number).keep binding.key l)) := by
  refine ⟨stays.toSameEntries.trans (.keep after number binding.key l), fun distinct signed => ?_⟩
  refine (stays.signed distinct signed).setRegistry fun kept member => ?_
  obtain ⟨now, inAfter, rfl⟩ := List.mem_map.mp member
  split
  · rename_i sameKey
    -- the entry of this key is the one that the lambda was captured for
    have blanked : ({ now with quoted := none } : Binding) ∈ (before.registry number).blank := by
      rw [← stays.entries]
      exact List.mem_map.mpr ⟨now, inAfter, rfl⟩
    obtain ⟨old, inBefore, same⟩ := List.mem_map.mp blanked
    obtain ⟨keys, functions, -⟩ := Binding.mk.inj same
    have one : old = binding := List.inj_on_of_nodup_map (distinct number) inBefore
      (List.mem_of_find?_eq_some found) (keys.trans sameKey)
    refine .inr fun k quoted => ?_
    cases quoted
    change now.function.SignatureOf l
    rw [← functions, one]
    exact signature
  · exact .inl inAfter

end StaysSigned

/-- A look-up keeps no lambda but ones of their functions' signatures. -/
theorem lookUpWithin_signed (idle : List Nat) (number : Nat) (f : Function) (session : Session) :
    StaysSigned session (lookUpWithin idle number f session).2 :=
  lookUpWithin_respects StaysSigned.refl StaysSigned.trans StaysSigned.setSupply
    StaysSigned.count StaysSigned.wait
    (fun found _ capture stays => stays.keep found (Function.capture_signature capture))
    idle number f session

end Session

end TypedTrees
