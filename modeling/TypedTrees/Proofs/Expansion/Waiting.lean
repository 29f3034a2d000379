import Mathlib
import TypedTrees.Eval.BasicHost
import TypedTrees.Proofs.Expansion.Settled
import TypedTrees.Proofs.Pass.Refinement
/-!
How expansions come to their ends. The driver of passes has no endless run, but one of its steps may
be one: an expansion looks functions up, which runs bodies, and a body that leads to a look-up of
the very entry it is run for makes that look-up wait for its own capture. Where no look-up waits,
and only there, the steps of an expansion lead to the end that `Expander.expand` gives
(`Expander.ends_iff`). None waits if the functions of the registries can be ranked so that each body
looks up functions of lower rank only (`Expander.ends_of_ranked`).
-/
namespace TypedTrees

namespace WorkList

variable {σ : Type} {pass : Pass σ} {limit : Nat} {root : Node}

/-- The state after a step. -/
def Progress.state : Progress σ → σ
  | .running c => c.state
  | .finished result => result.state

/-- A relation between states that the operations of a pass respect is one that each step of the
driver respects. -/
theorem step_respects {respects : σ → σ → Prop} (refl : ∀ state, respects state state)
    (visit : ∀ depth node state, respects state (pass.visit depth node state).2)
    (replaced : ∀ depth node out state, respects state (pass.replaced depth node out state))
    (draw : ∀ state, respects state (pass.draw state).2) (c : Config σ) :
    respects c.state (step pass limit root c).state := by
  obtain ⟨tasks, results, depth, state⟩ := c
  rcases tasks with _ | ⟨task, rest⟩
  · exact refl state
  cases task with
  | visit node =>
    have visited := visit (depth + 1) node state
    simp only [step, visitStep]
    split
    · exact refl state
    · generalize pass.visit (depth + 1) node state = result at visited
      rcases result with ⟨e | _ | out | next, after⟩
      · exact visited
      · simp only
        split <;> exact visited
      · exact visited
      · exact visited
  | rebuild node count => exact Pass.rebuild_respects refl draw node _ state
  | replaced node =>
    cases results with
    | nil => exact refl state
    | cons out results => exact replaced _ node out state

/-- The steps of the driver lead to the end of the run. -/
theorem run_reached (pass : Pass σ) (limit : Nat) (root : Node) (c : Config σ) :
    ∃ last, Relation.ReflTransGen (fun c c' => step pass limit root c = .running c') c last ∧
      step pass limit root last = .finished (run pass limit root c) := by
  induction c using (wellFounded_follows pass limit root).induction with
  | _ c ih =>
    rcases moves : step pass limit root c with c' | result
    · obtain ⟨last, onward, stops⟩ := ih c' ⟨limit, Nat.le_refl limit, moves⟩
      rw [run_running moves]
      exact ⟨last, .head moves onward, stops⟩
    · rw [run_finished moves]
      exact ⟨c, .refl, moves⟩

/-- Nothing else comes at the end of a run than what its steps lead to. -/
theorem run_of_reached {c last : Config σ} {result : PassResult σ}
    (reached : Relation.ReflTransGen (fun c c' => step pass limit root c = .running c') c last)
    (stops : step pass limit root last = .finished result) : run pass limit root c = result := by
  induction reached using Relation.ReflTransGen.head_induction_on with
  | refl => exact run_finished stops
  | head moves _ ih => exact (run_running moves).trans ih

end WorkList

namespace Expander

variable (expander : Expander) (host : Host) (tree : Node) (session : Session)

/-- The configuration that the expansion of a tree starts in. -/
def start : WorkList.Config ExpansionState :=
  ⟨[.visit tree], [], expander.guard.current, { session }⟩

/-- One step of the driver in the expansion of a tree. -/
def progress : WorkList.Config ExpansionState → WorkList.Progress ExpansionState :=
  let limit := expander.guard.bound session.limit
  WorkList.step (expansionPass host expander.registry limit) limit tree

/-- A step leads from the one configuration to the other, and no look-up waits. -/
def Steps (c c' : WorkList.Config ExpansionState) : Prop :=
  expander.progress host tree session c = .running c' ∧ c'.state.session.waits = false

/-- The steps of an expansion, with no look-up that waits, lead to its end, to this outcome and in
this session. -/
def Ends (outcome : Except Error Node) (after : Session) : Prop :=
  ∃ last result,
    Relation.ReflTransGen (expander.Steps host tree session) (expander.start tree session) last ∧
      expander.progress host tree session last = .finished result ∧
      result.outcome = outcome ∧ result.state.session = after ∧ after.waits = false

variable {expander host tree session}

theorem progress_lasts (c : WorkList.Config ExpansionState) :
    c.state.session.Lasts (expander.progress host tree session c).state.session :=
  @WorkList.step_respects _ _ _ _
    (fun before after : ExpansionState => before.session.Lasts after.session) (fun _ => .refl _)
    (expansionPass_visit_respects .refl (fun _ _ _ => .of_waits_eq rfl)
      (fun f session => session.lookUpWithin_lasts _ expander.registry f) .trans
      (fun _ _ => .of_waits_eq rfl) host _)
    (fun depth call output state => by
      rw [expansionPass_replaced_session]
      exact .refl _)
    (fun _ => .of_waits_eq rfl) c

/-- If no look-up waits in the last configuration, none has waited on the way. -/
theorem steps_of_reached {c last : WorkList.Config ExpansionState}
    (reached : Relation.ReflTransGen
      (fun c c' => expander.progress host tree session c = .running c') c last)
    (straight : last.state.session.waits = false) :
    Relation.ReflTransGen (expander.Steps host tree session) c last ∧
      c.state.session.waits = false := by
  induction reached using Relation.ReflTransGen.head_induction_on with
  | refl => exact ⟨.refl, straight⟩
  | @head c c' moves _ ih =>
    have lasts : c.state.session.Lasts (expander.progress host tree session c).state.session :=
      progress_lasts c
    rw [moves] at lasts
    exact ⟨.head ⟨moves, ih.2⟩ ih.1, lasts.straight ih.2⟩

/-- The steps of an expansion lead to its end unless a look-up waits, and then they do not: they
lead to the outcome and the session that the expander gives, if no look-up waits in this session,
and to no others. -/
theorem ends_iff {outcome : Except Error Node} {after : Session} :
    expander.Ends host tree session outcome after ↔
      (expander.expand host tree session).1 = outcome ∧
        (expander.expand host tree session).2.2 = after ∧ after.waits = false := by
  have expands : ∀ {result}, WorkList.run (expansionPass host expander.registry
      (expander.guard.bound session.limit)) (expander.guard.bound session.limit) tree
      (expander.start tree session) = result →
        (expander.expand host tree session).1 = result.outcome ∧
          (expander.expand host tree session).2.2 = result.state.session := by
    rintro result rfl
    simp only [expand, Pass.run, start]
    split <;> exact ⟨rfl, rfl⟩
  constructor
  · rintro ⟨last, result, steps, stops, rfl, rfl, straight⟩
    have reached : Relation.ReflTransGen
        (fun c c' => expander.progress host tree session c = .running c') _ last :=
      Relation.ReflTransGen.mono (fun _ _ step => And.left step) _ _ steps
    obtain ⟨outcome, session⟩ := expands (WorkList.run_of_reached reached stops)
    exact ⟨outcome, session, straight⟩
  · rintro ⟨rfl, rfl, straight⟩
    obtain ⟨last, reached, stops⟩ := WorkList.run_reached
      (expansionPass host expander.registry (expander.guard.bound session.limit))
      (expander.guard.bound session.limit) tree (expander.start tree session)
    obtain ⟨outcome, leaves⟩ := expands rfl
    have lasts :
        last.state.session.Lasts (expander.progress host tree session last).state.session :=
      progress_lasts last
    rw [progress, stops, WorkList.Progress.state, ← leaves] at lasts
    refine ⟨last, _, (steps_of_reached reached (lasts.straight straight)).1, stops, outcome.symm,
      leaves.symm, straight⟩

end Expander

namespace SelfLookUp

def f : Function := ⟨20, "f", none, [], .int, none⟩

/-- A body that looks up the function that it is the body of. -/
def body : Body := .lookUp Session.globalRegistry f fun _ => .finish (.ok ())

def session : Session := (({} : Session).register Session.globalRegistry f body).2

def call : Node := ⟨0, .call none (.function f) [] .int⟩

end SelfLookUp

open SelfLookUp in
/-- An expansion does not come to an end on a call of a function whose body looks this function up,
though no look-up waits in the session that it starts in. -/
theorem Expander.never_ends_selfLookUp :
    session.waits = false ∧
      ¬∃ outcome after, ({} : Expander).Ends .basic call session outcome after := by
  refine ⟨rfl, fun ⟨outcome, after, ends⟩ => ?_⟩
  obtain ⟨-, leaves, straight⟩ := ends_iff.mp ends
  have waits : (({} : Expander).expand .basic call session).2.2.waits = true := by
    simp only [expand, Pass.run_eq_transform]
    cbv
  rw [leaves, straight] at waits
  cases waits

/-- The body looks up nothing but functions that may be looked up, each in a registry that allows
it. -/
def Body.Asks (allowed : Nat → Function → Prop) : Body → Prop
  | .finish _ => True
  | .quote _ next => ∀ answer, (next answer).Asks allowed
  | .draw _ next => ∀ supply, (next supply).Asks allowed
  | .capture _ body next => body.Asks allowed ∧ ∀ answer, (next answer).Asks allowed
  | .lookUp number f next => allowed number f ∧ ∀ answer, (next answer).Asks allowed

/-- A relation that the look-ups a body may make and drawing respect is one that running the body
respects. -/
theorem Body.Asks.run_respects {σ : Type} {respects : σ → σ → Prop}
    (refl : ∀ state, respects state state)
    (trans : ∀ {a b c}, respects a b → respects b c → respects a c)
    {lookUp : Nat → Function → σ → Except Error (Option Lambda) × σ} {supply : σ → Supply}
    {setSupply : Supply → σ → σ} {allowed : Nat → Function → Prop}
    (looks : ∀ number f state, allowed number f → respects state (lookUp number f state).2)
    (draws : ∀ state drawn, respects state (setSupply drawn state)) {body : Body}
    (asks : body.Asks allowed) (quoter : Quoter) (state : σ) :
    respects state (body.run lookUp supply setSupply quoter state).2 := by
  induction body generalizing quoter state with
  | finish outcome => exact refl state
  | quote l next ih =>
    rw [run]
    exact ih _ (asks _) _ _
  | draw rest next ih =>
    rw [run]
    exact trans (draws _ _) (ih _ (asks _) _ _)
  | capture f body next inner ih =>
    rw [run]
    have captured := Function.capture_respects (refl state)
      (fun quoter => inner asks.1 quoter state) f
    exact trans captured (ih _ (asks.2 _) _ _)
  | lookUp number f next ih =>
    rw [run]
    exact trans (looks _ _ _ asks.1) (ih _ (asks.2 _) _ _)

namespace Session

/-- Each body looks up functions of lower rank only than that it is entered for. The ranks go by
registry and identity, and entries of one key have one rank. -/
structure Ranked (rank : Nat → Nat → Nat) (session : Session) : Prop where
  asks : ∀ number, ∀ binding ∈ (session.registry number).bindings,
    binding.body.Asks fun other f => rank other f.id < rank number binding.function.id
  keys : ∀ number other, ∀ a ∈ (session.registry number).bindings,
    ∀ b ∈ (session.registry other).bindings, a.key = b.key →
      rank number a.function.id = rank other b.function.id

/-- The entries of lower rank are idle. -/
def IdleBelow (rank : Nat → Nat → Nat) (idle : List Nat) (level : Nat) (session : Session) : Prop :=
  ∀ number, ∀ binding ∈ (session.registry number).bindings,
    rank number binding.function.id < level → binding.key ∈ idle

variable {rank : Nat → Nat → Nat} {before after : Session}

theorem SameEntries.mem (same : SameEntries before after) {number : Nat} {binding : Binding}
    (member : binding ∈ (after.registry number).bindings) :
    ∃ old ∈ (before.registry number).bindings, old.blank = binding.blank := by
  have blank : binding.blank ∈ (after.registry number).blank := List.mem_map_of_mem member
  rw [same.entries] at blank
  exact List.mem_map.mp blank

theorem Ranked.mono (ranked : Ranked rank before) (same : SameEntries before after) :
    Ranked rank after := by
  constructor
  · intro number binding member
    obtain ⟨old, inBefore, blank⟩ := same.mem member
    obtain ⟨-, function, body, -⟩ := Binding.mk.inj blank
    rw [← function, ← body]
    exact ranked.asks number old inBefore
  · intro number other a inA b inB keys
    obtain ⟨a', inBeforeA, blankA⟩ := same.mem inA
    obtain ⟨b', inBeforeB, blankB⟩ := same.mem inB
    obtain ⟨keyA, functionA, -⟩ := Binding.mk.inj blankA
    obtain ⟨keyB, functionB, -⟩ := Binding.mk.inj blankB
    rw [← functionA, ← functionB]
    exact ranked.keys number other a' inBeforeA b' inBeforeB (keyA.trans (keys.trans keyB.symm))

theorem IdleBelow.mono {idle : List Nat} {level : Nat} (below : IdleBelow rank idle level before)
    (same : SameEntries before after) : IdleBelow rank idle level after := by
  intro number binding member lower
  obtain ⟨old, inBefore, blank⟩ := same.mem member
  obtain ⟨key, function, -⟩ := Binding.mk.inj blank
  exact key ▸ below number old inBefore (function ▸ lower)

/-- While the body of an entry is run, the entries of lower rank are idle still. -/
theorem IdleBelow.removeAll {idle : List Nat} {level number : Nat} {session : Session}
    {binding : Binding} (below : IdleBelow rank idle level session) (ranked : Ranked rank session)
    (member : binding ∈ (session.registry number).bindings)
    (lower : rank number binding.function.id < level) :
    IdleBelow rank (idle.removeAll [binding.key]) (rank number binding.function.id) session := by
  intro other entry inOther deeper
  have isIdle : entry.key ∈ idle := below other entry inOther (Nat.lt_trans deeper lower)
  refine mem_removeAll.mpr ⟨isIdle, fun same => ?_⟩
  exact Nat.ne_of_lt deeper (ranked.keys other number entry inOther binding member same)

/-- A stretch of work in which no look-up comes to wait, if this holds of the session it starts
in. -/
structure GoesOn (holds : Session → Prop) (before after : Session) : Prop
    extends SameEntries before after where
  straight : holds before → before.waits = false → after.waits = false

namespace GoesOn

variable {holds : Session → Prop}

theorem refl (session : Session) : GoesOn holds session session := ⟨.refl session, fun _ => id⟩

theorem trans (lasts : ∀ {a b}, SameEntries a b → holds a → holds b) {a b c : Session}
    (first : GoesOn holds a b) (second : GoesOn holds b c) : GoesOn holds a c :=
  ⟨first.toSameEntries.trans second.toSameEntries, fun here straight =>
    second.straight (lasts first.toSameEntries here) (first.straight here straight)⟩

theorem setSupply (session : Session) (supply : Supply) :
    GoesOn holds session (session.setSupply supply) := ⟨.setSupply session supply, fun _ => id⟩

theorem setStore {session : Session} {store : Store} (slots : store.slots = session.store.slots) :
    GoesOn holds session { session with store := store } :=
  ⟨⟨rfl, slots, fun _ => rfl⟩, fun _ => id⟩

theorem count (session : Session) (key : Nat) :
    GoesOn holds session { session with runs := key :: session.runs } :=
  ⟨⟨rfl, rfl, fun _ => rfl⟩, fun _ => id⟩

end GoesOn

/-- A look-up does not wait if the bodies are ranked and all entries of the function's rank and of
lower ones are idle. -/
theorem lookUpWithin_straight (idle : List Nat) {level number : Nat} {f : Function}
    (lower : rank number f.id < level) {session : Session} (ranked : Ranked rank session)
    (below : IdleBelow rank idle level session) (straight : session.waits = false) :
    (lookUpWithin idle number f session).2.waits = false := by
  induction idle using idle_induction generalizing level number f session with
  | step idle ih =>
    have sameRank : ∀ {binding : Binding}, (session.registry number).find? f = some binding →
        rank number binding.function.id < level := by
      intro binding found
      have same : binding.function.id = f.id := by
        simpa [Function.same] using List.find?_some found
      exact same ▸ lower
    have captures : ∀ {binding : Binding} {captured : Except Error Lambda × Session},
        (session.registry number).find? f = some binding → binding.key ∈ idle →
        binding.function.capture (entryRun idle binding) session = captured →
          captured.2.waits = false := by
      rintro binding _ found isIdle rfl
      have member := List.mem_of_find?_eq_some found
      -- what the body may rely on at each of its look-ups
      let holds : Session → Prop := fun session => Ranked rank session ∧
        IdleBelow rank (idle.removeAll [binding.key]) (rank number binding.function.id) session
      have lasts : ∀ {a b}, SameEntries a b → holds a → holds b :=
        fun same both => ⟨both.1.mono same, both.2.mono same⟩
      have looks : ∀ other g state, rank other g.id < rank number binding.function.id →
          GoesOn holds state (lookUpWithin (idle.removeAll [binding.key]) other g state).2 :=
        fun other g state deeper => ⟨(lookUpWithin_grows _ other g state).toSameEntries,
          fun both => ih binding.key isIdle deeper both.1 both.2⟩
      have ran : ∀ quoter, GoesOn holds session (entryRun idle binding quoter session).2 :=
        fun quoter => (GoesOn.count session binding.key).trans lasts
          ((ranked.asks number binding member).run_respects .refl (.trans lasts) looks .setSupply
            quoter _)
      have goes := Function.capture_respects (.refl session) ran binding.function
      exact goes.straight ⟨ranked, below.removeAll ranked member (sameRank found)⟩ straight
    have outcome := lookUpWithin_cases idle number f session
    generalize lookUpWithin idle number f session = result at outcome ⊢
    cases outcome with
    | unknown _ => exact straight
    | kept _ _ => exact straight
    | busy found _ isBusy =>
      exact absurd (below number _ (List.mem_of_find?_eq_some found) (sameRank found)) isBusy
    | failed found _ isIdle capture => exact captures found isIdle capture
    | captured found _ isIdle capture => exact captures found isIdle capture

end Session

/-- An expansion comes to its end if no look-up waits before and every body looks up functions of
lower rank only than the one that it is entered for. -/
theorem Expander.ends_of_ranked {rank : Nat → Nat → Nat} {session : Session}
    (ranked : session.Ranked rank) (straight : session.waits = false) (expander : Expander)
    (host : Host) (tree : Node) :
    expander.Ends host tree session (expander.expand host tree session).1
      (expander.expand host tree session).2.2 := by
  refine ends_iff.mpr ⟨rfl, rfl, ?_⟩
  have asks : ∀ (f : Function) (session : Session), Session.GoesOn (Session.Ranked rank) session
      (session.quotedBody expander.registry f).2 := fun f session =>
    ⟨(session.lookUpWithin_grows _ expander.registry f).toSameEntries, fun ranked =>
      Session.lookUpWithin_straight session.keys (Nat.lt_succ_self _) ranked
        fun _ _ member _ => Session.mem_keys member⟩
  have goes := expansionPass_transform_respects Session.GoesOn.refl
    (fun _ _ precedes => .setStore precedes.slots) asks
    (Session.GoesOn.trans fun same ranked => ranked.mono same) Session.GoesOn.setSupply host
    (expander.guard.bound session.limit) expander.guard.current tree { session }
  simp only [expand, Pass.run_eq_transform]
  exact goes.straight ranked straight

end TypedTrees
