import TypedTrees.Proofs.Expansion.Visit
import TypedTrees.Proofs.Pass.Outcome
import TypedTrees.Proofs.Pass.Reaches
/-!
What a call refers to is settled when it is looked for. From then on readers stay what they are and
functions stand for what they stand for, as long as slots and entries are not changed, so the call
refers to the same lambda in every later session, and looking for it again changes nothing
(`Session.referenced_later`). It does not depend on marks, nor on what is put in for parameters
(`Session.referenced_congr`).
-/
namespace TypedTrees

namespace Session

/-- Slots, readers and entries are the same as before, and so is what functions stand for that
stood for something before. -/
structure Precedes (before after : Session) : Prop where
  store : before.store.Precedes after.store
  entries : ∀ number, (after.registry number).blank = (before.registry number).blank
  keeps : Keeps before after

variable {host : Host} {registry : Nat} {session after later : Session} {call other : Node}
  {callee : Callee} {args : List Node} {l : Lambda}

namespace Precedes

theorem refl (session : Session) : Precedes session session :=
  ⟨.refl _, fun _ => rfl, fun _ _ _ kept => kept⟩

theorem trans {a b c : Session} (first : Precedes a b) (second : Precedes b c) : Precedes a c :=
  ⟨first.store.trans second.store,
    fun number => (second.entries number).trans (first.entries number),
    fun number f l kept => second.keeps number f l (first.keeps number f l kept)⟩

theorem setSupply (session : Session) (supply : Supply) :
    Precedes session (session.setSupply supply) :=
  ⟨⟨rfl, fun _ _ found => found⟩, fun _ => rfl, fun _ _ _ kept => kept⟩

theorem contains {before after : Session} (precedes : Precedes before after) (number : Nat) :
    (after.registry number).contains = (before.registry number).contains :=
  funext (Registry.contains_of_blank_eq (precedes.entries number))

end Precedes

theorem KeysDistinct.precedes {before after : Session} (distinct : after.KeysDistinct)
    (precedes : Precedes before after) : before.KeysDistinct :=
  (keysDistinct_congr precedes.entries).mp distinct

theorem KeysDistinct.onward {before after : Session} (distinct : before.KeysDistinct)
    (precedes : Precedes before after) : after.KeysDistinct :=
  (keysDistinct_congr precedes.entries).mpr distinct

theorem quotedBody_of_quoted? {f : Function}
    (kept : (session.registry registry).quoted? f = some l) :
    session.quotedBody registry f = (.ok (some l), session) := by
  obtain ⟨binding, found, quoted⟩ := Option.bind_eq_some_iff.mp kept
  simp only [quotedBody, lookUpWithin, found, quoted]

/-- What a call refers to it refers to in every later session, which is left as it is. -/
theorem referenced_later
    (refers : session.referenced host registry call callee args = (.ok (some l), after))
    (precedes : Precedes after later) :
    later.referenced host registry other callee args = (.ok (some l), later) := by
  cases callee with
  | function f =>
    exact quotedBody_of_quoted? (precedes.keeps _ _ _ (quoted?_of_quotedBody refers))
  | invoke shape =>
    cases args with
    | nil => cases refers
    | cons holder rest =>
      simp only [referenced] at refers ⊢
      rcases denotes : holder.denoted? host session.store with ⟨found, store⟩
      rw [denotes] at refers
      simp only at refers
      split at refers
      · cases refers
        have settled : holder.denoted? host later.store = (some (.tree l), later.store) := by
          have there := @Node.denoted?_later host holder session.store later.store
          rw [denotes] at there
          exact there precedes.store
        rw [settled]
      · cases refers

/-- Only what the holder denotes matters for what a reference call refers to. -/
theorem referenced_congr {others : List Node}
    (holders : ∀ holder rest v, args = holder :: rest →
      (holder.denoted? host session.store).1 = some v → ∃ holder' rest', others = holder' :: rest' ∧
        holder'.denoted? host session.store = holder.denoted? host session.store)
    (refers : session.referenced host registry call callee args = (.ok (some l), after)) :
    session.referenced host registry other callee others = (.ok (some l), after) := by
  cases callee with
  | function f => exact refers
  | invoke shape =>
    cases args with
    | nil => cases refers
    | cons holder rest =>
      simp only [referenced] at refers
      rcases denotes : holder.denoted? host session.store with ⟨_ | v, store⟩
      · rw [denotes] at refers
        cases refers
      · obtain ⟨holder', rest', rfl, same⟩ := holders holder rest v rfl (by rw [denotes])
        simp only [referenced]
        rw [same]
        split at refers
        · exact refers
        · cases refers

/-- What an expansion does to its session: no entry comes or goes, lambdas that are kept stay where
keys are distinct, and so do slots and readers. -/
structure Advances (before after : Session) : Prop extends Grows before after where
  store : before.store.Precedes after.store

namespace Advances

theorem refl (session : Session) : Advances session session := ⟨.refl session, .refl _⟩

theorem trans {a b c : Session} (first : Advances a b) (second : Advances b c) : Advances a c :=
  ⟨first.toGrows.trans second.toGrows, first.store.trans second.store⟩

theorem setSupply (session : Session) (supply : Supply) :
    Advances session (session.setSupply supply) :=
  ⟨.setSupply session supply, (Precedes.setSupply session supply).store⟩

theorem setStore {session : Session} {store : Store} (precedes : session.store.Precedes store) :
    Advances session { session with store } :=
  ⟨.setStore precedes.slots, precedes⟩

theorem quotedBody (session : Session) (registry : Nat) (f : Function) :
    Advances session (session.quotedBody registry f).2 := by
  have grows := lookUpWithin_grows session.keys registry f session
  have readers := lookUpWithin_readers session.keys registry f session
  exact ⟨grows, grows.slots, fun id reader found => by rwa [Session.quotedBody, readers]⟩

theorem precedes {before after : Session} (advances : Advances before after)
    (distinct : before.KeysDistinct) : Precedes before after :=
  ⟨advances.store, advances.entries, advances.keeps distinct⟩

theorem precedes_later {before after : Session} (advances : Advances before after)
    (distinct : later.KeysDistinct) (onward : Precedes after later) : Precedes before later := by
  refine (advances.precedes ?_).trans onward
  exact (keysDistinct_congr advances.entries).mp (distinct.precedes onward)

end Advances

end Session

theorem expansionPass_visit_advances (host : Host) (registry limit depth : Nat) (node : Node)
    (state : ExpansionState) :
    Session.Advances state.session
      ((expansionPass host registry limit).visit depth node state).2.session :=
  expansionPass_visit_respects .refl (fun _ _ => .setStore)
    (fun f session => .quotedBody session registry f) .trans .setSupply host limit depth node state

theorem expansionPass_rebuild_precedes (host : Host) (registry limit : Nat) (node : Node)
    (kids : List Node) (state : ExpansionState) :
    state.session.Precedes
      ((expansionPass host registry limit).rebuild node kids state).2.session := by
  simp only [Pass.rebuild]
  split
  · exact .refl _
  · exact .setSupply state.session _

theorem expansionPass_rebuild_advances (host : Host) (registry limit : Nat) (node : Node)
    (kids : List Node) (state : ExpansionState) :
    Session.Advances state.session
      ((expansionPass host registry limit).rebuild node kids state).2.session :=
  ⟨expansionPass_rebuild_grows host registry limit node kids state,
    (expansionPass_rebuild_precedes host registry limit node kids state).store⟩

/-- A relation between sessions that look-ups, new readers and drawing respect is one that a whole
expansion respects. -/
theorem expansionPass_transform_respects {respects : Session → Session → Prop} {registry : Nat}
    (refl : ∀ session, respects session session)
    (reads : ∀ (session : Session) (store : Store), session.store.Precedes store →
      respects session { session with store })
    (asks : ∀ f session, respects session (session.quotedBody registry f).2)
    (trans : ∀ {a b c}, respects a b → respects b c → respects a c)
    (draws : ∀ session supply, respects session (session.setSupply supply)) (host : Host)
    (limit depth : Nat) (node : Node) (state : ExpansionState) :
    respects state.session
      ((expansionPass host registry limit).transform limit depth node state).2.session :=
  @Pass.transform_respects _ (expansionPass host registry limit) limit
    (fun before after => respects before.session after.session) (fun _ => refl _)
    (fun first second => trans first second)
    (expansionPass_visit_respects refl reads asks trans draws host limit)
    (fun depth call output state => by
      rw [expansionPass_replaced_session]
      exact refl _)
    (fun state => draws state.session _) depth node state

/-- Such a relation relates the first session to that in which a node is reached, and the session in
which this node is done to the last. -/
theorem expansionPass_between {respects : Session → Session → Prop} {registry : Nat}
    (refl : ∀ session, respects session session)
    (reads : ∀ (session : Session) (store : Store), session.store.Precedes store →
      respects session { session with store })
    (asks : ∀ f session, respects session (session.quotedBody registry f).2)
    (trans : ∀ {a b c}, respects a b → respects b c → respects a c)
    (draws : ∀ session supply, respects session (session.setSupply supply)) {host : Host}
    {limit start depth : Nat} {root node : Node} {first state : ExpansionState}
    {scope : List (List Parameter)}
    (reach : Pass.Reaches (expansionPass host registry limit) limit start root first depth scope
      node state) :
    respects first.session state.session ∧
      respects ((expansionPass host registry limit).transform limit depth node state).2.session
        ((expansionPass host registry limit).transform limit start root first).2.session :=
  @Pass.Reaches.between _ (expansionPass host registry limit) limit start root first
    (fun before after => respects before.session after.session) (fun _ => refl _)
    (fun first second => trans first second)
    (expansionPass_visit_respects refl reads asks trans draws host limit)
    (fun depth call output state => by
      rw [expansionPass_replaced_session]
      exact refl _)
    (fun state => draws state.session _) depth scope node state reach

/-- An expansion comes before whatever it leads to. -/
theorem Expander.expand_precedes (expander : Expander) (host : Host) (tree : Node)
    {session : Session} (distinct : session.KeysDistinct) :
    session.Precedes (expander.expand host tree session).2.2 := by
  have advances := expansionPass_transform_respects Session.Advances.refl
    (fun _ _ => Session.Advances.setStore)
    (fun f session => Session.Advances.quotedBody session expander.registry f)
    Session.Advances.trans Session.Advances.setSupply host (expander.guard.bound session.limit)
    expander.guard.current tree { session }
  simp only [expand, Pass.run_eq_transform]
  exact advances.precedes distinct

end TypedTrees
