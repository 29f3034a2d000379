import TypedTrees.Proofs.Eval.Attained
import TypedTrees.Proofs.Eval.Refinement
import TypedTrees.Proofs.Eval.Substitution
import TypedTrees.Proofs.Expansion.Completeness
import TypedTrees.Proofs.Expansion.Inlining
/-!
Expansion preserves meaning. Where the calls that an expansion replaces apply lambdas to the values
of their arguments, the tree and what it expands to have the same value: putting the arguments in
for the parameters comes to the same, and so does exchanging the children of a node for what they
expand to. Nothing is left to expand in the outcome, so its value is the one that the evaluator
comes to (`Expander.expand_preserves`).
-/
namespace TypedTrees

/-- A session in which the sources are what they are at the start of the expansion. -/
structure Session.Keeping (sources : Sources) (subs : Substitutes) (naming : Nat → Reader)
    (registry : Nat) (session : Session) : Prop where
  named : session.store.Named naming
  slots : session.store.slots = sources.slots
  distinct : session.KeysDistinct
  registers : (session.registry registry).contains = subs.registered

theorem Session.Keeping.grows {sources : Sources} {subs : Substitutes} {naming : Nat → Reader}
    {registry : Nat} {before after : Session}
    (keeping : before.Keeping sources subs naming registry) (grows : Grows before after)
    (named : after.store.Named naming) :
    after.Keeping sources subs naming registry where
  named := named
  slots := grows.slots.trans keeping.slots
  distinct := keeping.distinct.mono grows.toSameEntries
  registers := grows.registers keeping.registers

section

variable {sources : Sources} {subs : Substitutes} {naming : Nat → Reader} {registry limit : Nat}
  {final : Session}

/-- A step of the expansion that ends in `final`: where the sources are what they were, it makes of
a tree in play one that stands for the same, and the sources stay what they are. -/
def StepPreserves (sources : Sources) (subs : Substitutes) (naming : Nat → Reader) (registry : Nat)
    (final : Session) (node : Node) (state : ExpansionState) (out : Node)
    (after : ExpansionState) : Prop :=
  Session.Grows state.session after.session ∧
    (Session.Grows after.session final → state.session.Keeping sources subs naming registry →
      node.All (·.Fits sources subs.registered naming) →
      after.session.Keeping sources subs naming registry ∧
        Preserves sources subs naming node out)

theorem Pass.Chain.preserves {nodes outs : List Node} {state after : ExpansionState}
    (chain : Chain (StepPreserves sources subs naming registry final) nodes state outs after) :
    Session.Grows state.session after.session ∧
      (Session.Grows after.session final → state.session.Keeping sources subs naming registry →
        (∀ node ∈ nodes, node.All (·.Fits sources subs.registered naming)) →
        after.session.Keeping sources subs naming registry ∧
          List.Forall₂ (Preserves sources subs naming) nodes outs) := by
  induction chain with
  | nil state => exact ⟨.refl _, fun _ keeping _ => ⟨keeping, .nil⟩⟩
  | cons first _ ih =>
    obtain ⟨firstGrows, first⟩ := first
    obtain ⟨othersGrow, others⟩ := ih
    refine ⟨firstGrows.trans othersGrow, fun ends keeping fits => ?_⟩
    rw [List.forall_mem_cons] at fits
    obtain ⟨middle, here⟩ := first (othersGrow.trans ends) keeping fits.1
    obtain ⟨last, each⟩ := others ends middle fits.2
    exact ⟨last, .cons here each⟩

theorem expansionPass_replace_preserves {depth : Nat} {node next : Node}
    {state after : ExpansionState} (ignores : sources.host.IgnoresStorage)
    (suited : sources.Suited subs.registered naming) (quoted : sources.quotes = subs.quoted)
    (quotes : ∀ f l, (final.registry registry).quoted? f = some l → subs.quoted f = some l)
    (decides : (expansionPass sources.host registry limit).visit depth node state =
      (.ok (.replace next), after)) (ends : Session.Grows after.session final)
    (keeping : state.session.Keeping sources subs naming registry)
    (fits : node.All (·.Fits sources subs.registered naming)) :
    after.session.Keeping sources subs naming registry ∧ ¬node.IsLambda ∧
      Preserves sources subs naming node next := by
  obtain ⟨expandable, -⟩ := expansionPass_replace decides keeping.registers
  have grows := expansionPass_visit_grows sources.host registry limit depth node state
  have decided := ExpansionVisit.of sources.host registry limit depth node state
  rw [decides] at decided grows
  cases decided with
  | @inlines receiver callee args ty l session _ supply isCall refers arity substitutes =>
    have children : ∀ arg ∈ callee.passed args, arg ∈ node.expr.children := by
      intro arg member
      rw [isCall]
      cases callee with
      | invoke _ => exact List.mem_append_right _ (List.mem_of_mem_tail member)
      | function _ => exact List.mem_append_right _ member
    have sound : ∀ arg ∈ args,
        arg.All (·.Sound sources.host sources.slots naming sources.Reached) := by
      intro arg member part inArg
      have child : arg ∈ node.expr.children := by
        rw [isCall]
        exact List.mem_append_right _ member
      exact (fits.child child part inArg).sound
    have consistent : ∀ f k, (session.registry registry).quoted? f = some k →
        subs.quoted f = some k := fun f k kept =>
      quotes f k (ends.keeps (keeping.distinct.mono grows.toSameEntries) registry f k kept)
    obtain ⟨named, reached, applies⟩ := Session.referenced_applies ignores isCall sound
      keeping.named keeping.slots expandable consistent
      (fun f k stands => .quoted (quoted ▸ stands)) refers
    have noLambda : ¬node.IsLambda := by
      rintro ⟨k, is⟩
      cases isCall.symm.trans is
    refine ⟨keeping.grows grows named, noLambda, .inline suited reached ?_ ?_ noLambda
      (Node.substituted_of_substituteFrom substitutes) applies⟩
    · exact fun arg member => fits.child (children arg member)
    · intro arg member is
      obtain ⟨place, atArg⟩ := List.mem_iff_getElem?.mp (children arg member)
      rw [((fits.here.inPlace place arg atArg).mp is).2.1] at expandable
      cases expandable

theorem expansionPass_preserves {depth : Nat} {node out : Node} {state after : ExpansionState}
    (ignores : sources.host.IgnoresStorage) (suited : sources.Suited subs.registered naming)
    (quoted : sources.quotes = subs.quoted)
    (quotes : ∀ f l, (final.registry registry).quoted? f = some l → subs.quoted f = some l)
    (run : (expansionPass sources.host registry limit).transform limit depth node state =
      (.ok out, after)) :
    StepPreserves sources subs naming registry final node state out after := by
  -- `final` is the end of the whole run: what a function stands for there it stood for all along
  refine Pass.transform_ok
    (motive := fun _ => StepPreserves sources subs naming registry final) ?_ ?_ ?_ run
  · intro depth node state out after _ decides
    exact absurd decides expansionPass_not_done
  · intro depth node state next middle out after _ decides below
    obtain ⟨belowGrows, below⟩ := below
    have grows := expansionPass_visit_grows sources.host registry limit (depth + 1) node state
    rw [decides] at grows
    have noted := expansionPass_replaced_session sources.host registry limit depth node out after
    rw [StepPreserves, noted]
    refine ⟨grows.trans belowGrows, fun ends keeping fits => ?_⟩
    obtain ⟨middleKeeping, noLambda, first⟩ := expansionPass_replace_preserves ignores suited quoted
      quotes decides (belowGrows.trans ends) keeping fits
    -- the inlined body is expanded in turn, so the two steps are put one after the other
    obtain ⟨last, second⟩ := below ends middleKeeping first.fits
    exact ⟨last, first.trans noLambda second⟩
  · intro depth node state middle kids after _ decides chain
    obtain ⟨chainGrows, each⟩ := chain.preserves
    have stays : middle = state := by
      have decided := ExpansionVisit.of sources.host registry limit (depth + 1) node state
      rw [decides] at decided
      cases decided
      rfl
    subst stays
    have rebuilt := expansionPass_rebuild_grows sources.host registry limit node kids after
    refine ⟨chainGrows.trans rebuilt, fun ends keeping fits => ?_⟩
    obtain ⟨last, preserved⟩ := each (rebuilt.trans ends) keeping
      fun child member => fits.child member
    have readers : ((expansionPass sources.host registry limit).rebuild node kids
        after).2.session.store.readers = after.session.store.readers := by
      simp only [Pass.rebuild]
      split <;> rfl
    refine ⟨last.grows rebuilt fun id reader found => last.named id reader (readers ▸ found), ?_⟩
    exact .exchange fits preserved (Pass.rebuild_expr _ node kids after)

end

namespace Expander

/-- Of an expansion that succeeds, from sources that are suited: if the tree has a value where the
calls to expand apply lambdas to the values of their arguments, no equality test made on the way
depends on storage and no function of the host program is run, then the evaluator gives the outcome
the same value, up to storage, at every limit that leaves enough levels; with fewer levels it does
the same or trips over the limit. -/
theorem expand_preserves {expander after : Expander} {host : Host} {tree out : Node}
    {session final : Session} {subs : Substitutes} {naming : Nat → Reader} {room : Nat} {env : Env}
    {start last : Store} {v : Value} {declines : Expr → List Value → Bool}
    (ignores : host.IgnoresStorage) (wary : Wary declines)
    (distinct : session.KeysDistinct) (named : session.store.Named naming)
    (run : expander.expand host tree session = (.ok out, after, final))
    (registered : (session.registry expander.registry).contains = subs.registered)
    (quotes : ∀ f l, (final.registry expander.registry).quoted? f = some l →
      subs.quoted f = some l)
    (suited : Sources.Suited ⟨host, session.store.slots, subs.quoted, tree⟩ subs.registered naming)
    (slots : start.slots = session.store.slots)
    (meaning : Evaluation.extended declines subs host room tree env start = (.ok v, last)) :
    (final.store.Named naming ∧ final.store.slots = session.store.slots) ∧
      ∃ enough, ∀ (limit depth : Nat) (store : Store), store.Named naming →
        store.slots = session.store.slots →
        (∃ w later, evaluateFrom host limit depth out env store = ⟨.ok w, depth, later⟩ ∧
          w.unpaged = v.unpaged) ∨
        limit - depth < enough ∧ ∃ later, evaluateFrom host limit depth out env store =
          ⟨.error (.recursionLimit limit), depth, later⟩ := by
  simp only [expand, Pass.run_eq_transform, Prod.mk.injEq] at run
  obtain ⟨outcome, -, rfl⟩ := run
  generalize expander.guard.bound session.limit = levels at outcome quotes ⊢
  rcases whole : (expansionPass host expander.registry levels).transform levels
    expander.guard.current tree { session } with ⟨result, state⟩
  rw [whole] at outcome
  cases outcome
  rw [whole] at quotes
  have plain := (expansionPass_complete whole registered).2.1
  have fits : tree.All (·.Fits ⟨host, session.store.slots, subs.quoted, tree⟩ subs.registered
      naming) := fun part inTree =>
    ⟨⟨suited.named part inTree, fun l offers => .tree inTree offers⟩, suited.inPlace part inTree⟩
  obtain ⟨keeping, preserved⟩ := (expansionPass_preserves ignores suited rfl quotes whole).2
    (.refl _) ⟨named, rfl, distinct, registered⟩ fits
  refine ⟨⟨keeping.named, keeping.slots⟩, ?_⟩
  have evaluates := (Evaluates.of_extended ignores wary subs room tree env start v last meaning).2
  rw [slots] at evaluates
  have outcome := (preserved.stands env.unpaged).evaluates suited.root evaluates
  -- nothing is left to expand, so lambda nodes stand only where `any` itself applies them
  have ready : out.All (·.Ready subs.registered naming) := by
    intro part inOut
    have here := preserved.fits part inOut
    refine ⟨plain part inOut, here.sound.named, fun predicate isAny atPlace => ?_⟩
    exact (here.inPlace 1 predicate atPlace).mpr ⟨isAny, plain part inOut, rfl⟩
  obtain ⟨enough, attains⟩ := outcome.attains ignores ready
  refine ⟨enough, fun limit depth store named same => ?_⟩
  have comes := attains limit (limit - depth) env store rfl named same
  rw [evaluateFrom_eq_within]
  generalize Evaluation.within host limit (limit - depth) out env store = result at comes
  cases comes with
  | comes isValue _ _ => exact .inl ⟨_, _, rfl, isValue⟩
  | trips isShort _ _ => exact .inr ⟨isShort, _, rfl⟩

end Expander

/-! ### A reference under a binder

`any` of `q => Trees.f.invoke(q)`, where the slot `Trees.f` holds `x => x > 2`. -/

namespace AnyHeld

def q : Parameter := ⟨16, "q", .int⟩

def x : Parameter := ⟨17, "x", .int⟩

/-- The static member that holds `greater`. -/
def slot : Member := ⟨18, "f", "Trees", .any, .slot⟩

/-- The lambda `x => x > 2`. -/
def greater : Lambda :=
  ⟨[x], ⟨30, .binary .greaterThan ⟨31, .parameter x⟩ ⟨32, .constant (.int 2) .int⟩ .bool⟩, .bool⟩

/-- The call `any([1, 4], q => Trees.f.invoke(q))`. -/
def tree : Node :=
  ⟨36, .call none (.function .seqAny)
    [⟨37, .constant (.seq [.int 1, .int 4]) (.seq .int)⟩,
      ⟨38, .lambda ⟨[q], ⟨33, .call none (.invoke .one)
        [⟨34, .member none slot⟩, ⟨35, .parameter q⟩] .bool⟩, .bool⟩⟩] .bool⟩

/-- What the call expands to, `any([1, 4], q => q > 2)`. -/
def out : Node :=
  ⟨102, .call none (.function .seqAny)
    [⟨37, .constant (.seq [.int 1, .int 4]) (.seq .int)⟩,
      ⟨101, .lambda ⟨[q], ⟨100, .binary .greaterThan ⟨35, .parameter q⟩
        ⟨32, .constant (.int 2) .int⟩ .bool⟩, .bool⟩⟩] .bool⟩

def session : Session := { store := { supply := ⟨100⟩, slots := [(18, .tree greater)] } }

/-- No function is registered. -/
def subs : Substitutes := ⟨fun _ => false, fun _ => none⟩

def sources : Sources := ⟨.basic, session.store.slots, subs.quoted, tree⟩

theorem reached {l : Lambda} (reached : sources.Reached l) : l = greater := by
  have ofTree : tree.payloads = [.seq [.int 1, .int 4]] := by cbv
  have ofGreater : greater.body.payloads = [.int 2] := by cbv
  have none : ∀ f l, sources.quotes f = some l → l = greater :=
    fun _ _ found => by cases found
  refine @Sources.Held.of_payloads sources (· = greater) ?_ ?_ none ?_ l reached.held
  · intro v among l holds
    rw [sources, ofTree, List.mem_singleton] at among
    exact absurd holds.basic (by simp [among])
  · intro id v found l holds
    simp only [sources, session, List.lookup_cons, List.lookup_nil] at found
    split at found
    · cases found
      simpa [eq_comm] using holds.basic
    · cases found
  · rintro k rfl v among l holds
    rw [ofGreater, List.mem_singleton] at among
    exact absurd holds.basic (by simp [among])

theorem suited : sources.Suited subs.registered fun _ => .slot 18 := by
  have ofTree : sources.tree.parts = [tree, ⟨37, .constant (.seq [.int 1, .int 4]) (.seq .int)⟩,
      ⟨38, .lambda ⟨[q], ⟨33, .call none (.invoke .one)
        [⟨34, .member none slot⟩, ⟨35, .parameter q⟩] .bool⟩, .bool⟩⟩,
      ⟨33, .call none (.invoke .one) [⟨34, .member none slot⟩, ⟨35, .parameter q⟩] .bool⟩,
      ⟨34, .member none slot⟩, ⟨35, .parameter q⟩] := by cbv
  have ofGreater : greater.body.parts = [greater.body, ⟨31, .parameter x⟩,
      ⟨32, .constant (.int 2) .int⟩] := by cbv
  refine ⟨?_, ?_, ?_, fun l is => ?_, fun l is => ?_⟩
  · rw [Node.all_iff_parts, ofTree]
    decide
  · rw [Node.all_iff_parts, ofTree]
    decide
  · rintro ⟨_, ⟨⟩⟩
  · rw [reached is, Node.all_iff_parts, ofGreater]
    decide
  · rw [reached is, Node.lambdaFree_iff_parts, ofGreater]
    decide

end AnyHeld

open AnyHeld in
/-- The call and what it expands to are both true. -/
theorem Expander.expand_preserves_anyHeld :
    ∃ after final, ({} : Expander).expand .basic tree session = (.ok out, after, final) ∧
      (Evaluation.extended Expr.unsettled subs .basic 5 tree []
        session.store).1 = .ok (.bool true) ∧
      ∃ enough, ∀ limit, enough ≤ limit →
        (evaluateFrom .basic limit 0 out [] final.store).outcome = .ok (.bool true) := by
  have outcome : (({} : Expander).expand .basic tree session).1 = .ok out := by
    simp only [expand, expansionPass, Pass.run_eq_transform]
    cbv
  have registries : (({} : Expander).expand .basic tree session).2.2.registries = [(0, {})] := by
    simp only [expand, expansionPass, Pass.run_eq_transform]
    cbv
  have meaning : (Evaluation.extended Expr.unsettled subs .basic 5 tree [] session.store).1 =
      .ok (.bool true) := by
    rw [Expr.unsettled_eq]
    cbv
  generalize ran : ({} : Expander).expand .basic tree session = result at outcome registries
  obtain ⟨expanded, after, final⟩ := result
  cases outcome
  refine ⟨after, final, rfl, meaning, ?_⟩
  have quotes : ∀ f l, (final.registry 0).quoted? f = some l → subs.quoted f = some l := by
    intro f l kept
    have fresh : final.registries = [(0, {})] := registries
    rw [Session.registry, fresh] at kept
    cases kept
  rcases means : Evaluation.extended Expr.unsettled subs .basic 5 tree [] session.store
    with ⟨value, last⟩
  rw [means] at meaning
  cases meaning
  have unread : session.store.Named fun _ => .slot 18 := Store.named_of_unread rfl _
  obtain ⟨⟨named, slots⟩, enough, evaluates⟩ := expand_preserves Host.basic_ignoresStorage
    Expr.wary_unsettled (.of_fresh rfl) unread ran rfl quotes suited rfl means
  refine ⟨enough, fun limit le => ?_⟩
  rcases evaluates limit 0 final.store named slots with ⟨w, later, is, same⟩ | ⟨short, -⟩
  · rw [is, Value.eq_bool_of_unpaged same]
  · omega

/-! ### A record built twice

An argument that is put in twice is built twice, so that the record is not compared with itself. -/

namespace TwiceBuilt

/-- The call `quote(same).invoke(new R { L = x })`. -/
def tree (x : Float) : Node :=
  ⟨36, .call none (.invoke .one) [⟨37, .constant (.tree same) .any⟩, made x] .bool⟩

def session : Session := { store := { supply := ⟨100⟩ } }

/-- No function is registered. -/
def subs : Substitutes := ⟨fun _ => false, fun _ => none⟩

def sources (x : Float) : Sources := ⟨.basic, session.store.slots, subs.quoted, tree x⟩

/-- The record is built once and compared with itself. -/
theorem meaning (x : Float) (store : Store) :
    (Evaluation.extended (fun _ _ => false) subs .basic 5 (tree x) [] store).1 =
      .ok (.bool true) := by
  have applied : (Evaluation.extended (fun _ _ => false) subs .basic 5 (tree x) [] store).1 =
      BinaryOp.equal.apply (value x (store.supply.next + 1))
        (value x (store.supply.next + 1)) := rfl
  rw [applied, BinaryOp.apply, value_equals_self]

theorem reached {x : Float} {l : Lambda} (reached : (sources x).Reached l) : l = same := by
  have ofTree : (tree x).payloads = [.tree same, .float x] := by cbv
  have ofSame : same.body.payloads = [] := by cbv
  have slots : ∀ id v, (sources x).slots.lookup id = some v → ∀ l, v.Holds .basic l → l = same :=
    fun _ _ found => by cases found
  have none : ∀ f l, (sources x).quotes f = some l → l = same := fun _ _ found => by cases found
  refine @Sources.Held.of_payloads (sources x) (· = same) ?_ slots none ?_ l reached.held
  · intro v among l holds
    change v ∈ (tree x).payloads at among
    simp only [ofTree, List.mem_cons, List.not_mem_nil, or_false] at among
    rcases among with rfl | rfl
    · simpa [eq_comm] using holds.basic
    · exact absurd holds.basic (by simp)
  · rintro k rfl v among l holds
    rw [ofSame] at among
    cases among

theorem suited : (sources nan).Suited subs.registered fun _ => .slot 0 := by
  have ofTree : ∀ x, (sources x).tree.parts = [tree x, ⟨37, .constant (.tree same) .any⟩, made x,
      ⟨35, .constant (.float x) .float⟩] := by
    intro x
    cbv
  have ofSame : same.body.parts = [same.body, ⟨31, .parameter r⟩, ⟨32, .parameter r⟩] := by cbv
  refine ⟨?_, ?_, ?_, fun l is => ?_, fun l is => ?_⟩
  · rw [Node.all_iff_parts, ofTree]
    decide
  · rw [Node.all_iff_parts, ofTree]
    decide
  · rintro ⟨_, ⟨⟩⟩
  · rw [reached is, Node.all_iff_parts, ofSame]
    decide
  · rw [reached is, Node.lambdaFree_iff_parts, ofSame]
    decide

theorem closed : same.Closed := by
  intro id free
  simp [same, Lambda.body, Node.free_mk, Expr.children, Expr.binders, r] at free
  simp [same, Lambda.params, r, free]

end TwiceBuilt

open TwiceBuilt in
/-- The lambda is closed and has no lambda node in its body, no function of the host program is
called, and yet the call is true and what it expands to is false. -/
theorem Expander.expand_alters_twiceBuilt :
    (TwiceBuilt.sources nan).Suited subs.registered (fun _ => .slot 0) ∧ same.Closed ∧
      ∃ after final, ({} : Expander).expand .basic (tree nan) session =
          (.ok (out nan), after, final) ∧
        (Evaluation.extended (fun _ _ => false) subs .basic 5 (tree nan) [] session.store).1 =
          .ok (.bool true) ∧
        (evaluateFrom .basic 5 0 (out nan) [] final.store).outcome = .ok (.bool false) := by
  have outcome : ∀ x, (({} : Expander).expand .basic (tree x) session).1 = .ok (out x) := by
    intro x
    simp only [expand, expansionPass, Pass.run_eq_transform]
    cbv
  exact ⟨suited, closed, _, _, Prod.ext (outcome nan) rfl, meaning nan _, evaluated nan_unequal _ _⟩

end TypedTrees
