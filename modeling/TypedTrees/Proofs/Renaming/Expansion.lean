import Mathlib
import TypedTrees.Eval.BasicHost
import TypedTrees.Expansion
import TypedTrees.Proofs.Renaming.Registry
/-!
Expansion with other parameters. Where computed properties do not look into lambda trees
(`Host.Renamed`), a renamed holder denotes the renamed value (`Node.denoted?_rename`), so a renamed
call refers to the renamed lambda and is inlined in the same way. Hence an expansion in the renamed
session makes the renamed tree by the renamed steps, or fails with an error that says the same, and
so does a substitution (`Renaming.runs_alike`): nothing of a parameter matters but its identity and
its type.
-/
namespace TypedTrees

/-- The properties that the second host reads off renamed targets are the renamed ones. So they are
for getters that pass lambda trees on without looking into them. -/
def Host.Renamed (r : Renaming) (host host' : Host) : Prop :=
  ∀ name target, host'.property name (target.rename r) =
    (host.property name target).map (Value.rename r)

theorem Host.basic_renamed (r : Renaming) : Host.basic.Renamed r .basic := by
  intro name target
  simp only [basic]
  unfold basicProperty
  split
  · rfl
  · rw [Value.kindName_rename]
    rfl
  · rfl

variable {r : Renaming} {host host' : Host}

/-! ### What a holder denotes -/

theorem Getter.read_rename (hosts : host.Renamed r host') (getter : Getter) (target : Value) :
    getter.read host' (target.rename r) = (getter.read host target).map (Value.rename r) := by
  cases getter with
  | length => cases target <;> rfl
  | host name => exact hosts name target

theorem Reader.read_rename (hosts : host.Renamed r host') (slots : List (Nat × Value))
    (reader : Reader) (target : Option Value) :
    reader.read host' (slots.map fun slot => (slot.1, slot.2.rename r))
        (target.map (Value.rename r)) =
      (reader.read host slots target).map (Value.rename r) := by
  cases reader with
  | field name =>
    cases target with
    | none => rfl
    | some v =>
      cases v with
      | record typeName table =>
        simp only [Option.map_some, Value.rename_record, read, Keyed.lookup_map_snd]
      | _ => rfl
  | property getter =>
    cases target with
    | none => rfl
    | some v => exact getter.read_rename hosts v
  | slot m => exact Keyed.lookup_map_snd _ _ _

namespace Store

theorem readerOf_rename (m : Member) (store : Store) :
    (store.rename r).readerOf m = ((store.readerOf m).1, (store.readerOf m).2.rename r) := by
  simp only [readerOf, rename]
  split <;> rfl

theorem read_rename (hosts : host.Renamed r host') (m : Member) (target : Option Value)
    (store : Store) :
    (store.rename r).read host' m (target.map (Value.rename r)) =
      ((store.read host m target).1.map (Value.rename r),
        (store.read host m target).2.rename r) := by
  simp only [read, readerOf_rename]
  rw [rename, Reader.read_rename hosts]

end Store

/-- A renamed tree denotes the renamed value, in a store with renamed slots. -/
theorem Node.denoted?_rename (hosts : host.Renamed r host') (node : Node) (store : Store) :
    (node.rename r).denoted? host' (store.rename r) =
      ((node.denoted? host store).1.map (Value.rename r),
        (node.denoted? host store).2.rename r) := by
  induction node using Node.induction generalizing store with
  | node node ih =>
    obtain ⟨mark, expr⟩ := node
    cases expr with
    | member target m =>
      rw [Node.rename, Expr.rename_member]
      cases target with
      | none =>
        rw [Option.map_none, denoted?, denoted?]
        split
        · exact Store.read_rename hosts m none store
        · rfl
      | some target =>
        have below := ih target (by simp [Node.expr, Expr.children]) store
        rw [Option.map_some, denoted?, denoted?]
        split
        · exact Store.read_rename hosts m none store
        · rw [below]
          rcases target.denoted? host store with ⟨_ | v, after⟩
          · rfl
          · simp only [Option.map_some, Value.isNull_rename]
            split
            · rfl
            · exact Store.read_rename hosts m (some v) after
    | call receiver callee args ty =>
      simp only [Node.rename, Expr.rename_call, denoted?, Option.map_none]
    | _ => rfl

/-! ### Calls -/

theorem Lambda.inline_rename (limit depth : Nat) (call : Node) (l : Lambda) (args : List Node)
    (supply : Supply) :
    InStep Error.Mirrors (Node.rename r) Eq (l.inline limit depth call args supply)
      ((l.rename r).inline limit depth (call.rename r) (args.map (Node.rename r)) supply) := by
  have pairs : (l.rename r).params.zip (args.map (Node.rename r)) =
      (l.params.zip args).map (Prod.map (Parameter.rename r) (Node.rename r)) := by
    rw [params_rename, List.zip_map]
  simp only [inline, arity_rename, List.length_map, body_rename]
  split
  · rw [Substitution.zip, Substitution.zip, pairs,
      Node.substituteFrom_rename (.ofPairs r (l.params.zip args))]
    rcases l.body.substituteFrom limit depth (.ofPairs (l.params.zip args)) supply with
      ⟨e | out, after⟩
    · exact .error (.same e) rfl
    · exact .ok out rfl
  · exact .error (.arityMismatch _ _ _ _) rfl

theorem Session.Renamed.drawing {α β : Type} {f : α → β} {make : Supply → Except Error α × Supply}
    {make' : Supply → Except Error β × Supply} {session session' : Session}
    (renamed : session.Renamed r session')
    (both : ∀ supply, InStep Error.Mirrors f Eq (make supply) (make' supply)) :
    InStep Error.Mirrors f (Session.Renamed r) (session.drawing make) (session'.drawing make') := by
  obtain ⟨outcomes, states⟩ := both session.supply
  simp only [Session.drawing, renamed.supply]
  refine ⟨outcomes, ?_⟩
  rw [← states]
  exact renamed.setSupply _

theorem Session.referenced_renamed (hosts : host.Renamed r host') {session session' : Session}
    (renamed : session.Renamed r session') (registry : Nat) (call : Node) (callee : Callee)
    (args : List Node) :
    InStep Error.Mirrors (Option.map (Lambda.rename r)) (Session.Renamed r)
      (session.referenced host registry call callee args)
      (session'.referenced host' registry (call.rename r) callee (args.map (Node.rename r))) := by
  cases callee with
  | function f => exact session.quotedBody_renamed registry f renamed
  | invoke shape =>
    cases args with
    | nil => exact .error (.same _) renamed
    | cons holder args =>
      have denotes := holder.denoted?_rename hosts session.store
      simp only [List.map_cons, referenced, renamed.store, denotes]
      generalize holder.denoted? host session.store = found
      obtain ⟨found, store⟩ := found
      have after : Session.Renamed r { session with store }
          { session' with store := store.rename r } :=
        ⟨rfl, renamed.limit, renamed.registries, renamed.runs, renamed.waits⟩
      cases found with
      | none => exact .error (.unresolvableReference _ _) after
      | some v =>
        cases v with
        | tree l => exact .ok (some l) after
        | record typeName table =>
          rw [Option.map_some, Value.rename_record]
          exact .error (.unresolvableReference _ _) after
        | _ => exact .error (.unresolvableReference _ _) after

theorem Callee.passed_rename (callee : Callee) (args : List Node) :
    callee.passed (args.map (Node.rename r)) = (callee.passed args).map (Node.rename r) := by
  cases callee with
  | invoke _ => exact List.map_tail.symm
  | function _ => rfl

/-! ### Expansions -/

def ExpansionStep.rename (r : Renaming) (step : ExpansionStep) : ExpansionStep :=
  ⟨step.kind, step.input.rename r, step.output.rename r⟩

/-- The second state is that of the renamed session, after the renamed steps. -/
structure ExpansionState.Renamed (r : Renaming) (state state' : ExpansionState) : Prop where
  session : state.session.Renamed r state'.session
  steps : state'.steps = state.steps.map (ExpansionStep.rename r)

theorem expansionPass_renamed (hosts : host.Renamed r host') (registry limit : Nat) :
    Pass.Renamed r Error.Mirrors (ExpansionState.Renamed r) (expansionPass host registry limit)
      (expansionPass host' registry limit) where
  limits _ := .same _
  visit depth node state state' states := by
    obtain ⟨mark, expr⟩ := node
    cases expr with
    | call receiver callee args ty =>
      have refers := Session.referenced_renamed hosts states.session registry
        ⟨mark, .call receiver callee args ty⟩ callee args
      have inlines : ∀ (l : Lambda) {session session' : Session}, session.Renamed r session' →
          InStep Error.Mirrors (Node.rename r) (Session.Renamed r)
            (session.drawing (l.inline limit depth ⟨mark, .call receiver callee args ty⟩
              (callee.passed args)))
            (session'.drawing ((l.rename r).inline limit depth
              (Node.rename r ⟨mark, .call receiver callee args ty⟩)
              (callee.passed (args.map (Node.rename r))))) := by
        intro l session session' renamed
        rw [Callee.passed_rename]
        exact renamed.drawing fun supply =>
          l.inline_rename limit depth _ (callee.passed args) supply
      rw [Node.rename, Expr.rename_call] at refers inlines ⊢
      simp only [expansionPass, Node.expr]
      generalize state.session.referenced host registry _ callee args = found at refers ⊢
      generalize state'.session.referenced host' registry _ callee _ = found' at refers ⊢
      obtain ⟨found, session⟩ := found
      obtain ⟨found', session'⟩ := found'
      obtain ⟨outcomes, sessions⟩ := refers
      cases outcomes with
      | error both => exact .error both ⟨sessions, states.steps⟩
      | ok found =>
        cases found with
        | none => exact .ok Visit.descend ⟨sessions, states.steps⟩
        | some l =>
          obtain ⟨outcomes, sessions⟩ := inlines l sessions
          exact ⟨outcomes.map fun _ => rfl, sessions, states.steps⟩
    | member target m =>
      rw [Node.rename, Expr.rename_member]
      exact .ok Visit.descend states
    | record typeName fields =>
      rw [Node.rename, Expr.rename_record]
      exact .ok Visit.descend states
    | _ => exact .ok Visit.descend states
  replaced depth node out state state' states := by
    obtain ⟨mark, expr⟩ := node
    cases expr with
    | call receiver callee args ty =>
      rw [Node.rename, Expr.rename_call]
      refine ⟨states.session, ?_⟩
      simp only [expansionPass, Node.expr, List.map_cons, states.steps, ExpansionStep.rename,
        Node.rename, Expr.rename_call]
    | member target m =>
      rw [Node.rename, Expr.rename_member]
      exact states
    | record typeName fields =>
      rw [Node.rename, Expr.rename_record]
      exact states
    | _ => exact states
  draw {state state'} states := by
    simp only [expansionPass, Session.drawing, states.session.supply, true_and]
    exact ⟨states.session.setSupply _, states.steps⟩

def Expander.rename (r : Renaming) (expander : Expander) : Expander :=
  { expander with trace := expander.trace.map (ExpansionStep.rename r) }

/-- In the renamed session a renamed tree expands to the renamed tree, by the renamed steps. -/
theorem Expander.expand_renamed (hosts : host.Renamed r host') {session session' : Session}
    (renamed : session.Renamed r session') (expander : Expander) (node : Node) :
    let ran := expander.expand host node session
    let ran' := (expander.rename r).expand host' (node.rename r) session'
    SameOutcome Error.Mirrors (Node.rename r) ran.1 ran'.1 ∧ ran'.2.1 = ran.2.1.rename r ∧
      ran.2.2.Renamed r ran'.2.2 := by
  have start : ExpansionState.Renamed r { session } { session := session' } := ⟨renamed, rfl⟩
  obtain ⟨outcomes, session, steps⟩ :=
    (expansionPass_renamed hosts expander.registry (expander.guard.bound session.limit)).transform
      (expander.guard.bound session.limit) expander.guard.current node start
  simp only [expand, rename, Pass.run_eq_transform, renamed.limit]
  refine ⟨outcomes, ?_, session⟩
  rw [steps, List.map_append, List.map_reverse]

/-- Nothing of a parameter matters but its identity. Where parameters are renamed throughout, in the
tree, in the slots and registries of the session, and in the mapping, an expansion and a
substitution come to the renamed tree, or to an error that says the same of renamed trees. The guard
ends at the same depth, the trace tells of the same steps with renamed trees, and the session is
left as the renamed one. Identities may stay as they are, and then all that differs is names. -/
theorem Renaming.runs_alike (r : Renaming) (hosts : host.Renamed r host')
    {session session' : Session} (renamed : session.Renamed r session') (node : Node) :
    (∀ expander : Expander,
      let ran := expander.expand host node session
      let ran' := (expander.rename r).expand host' (node.rename r) session'
      SameOutcome Error.Mirrors (Node.rename r) ran.1 ran'.1 ∧ ran'.2.1 = ran.2.1.rename r ∧
        ran.2.2.Renamed r ran'.2.2) ∧
      ∀ (guard : DepthGuard) (pairs : List (Parameter × Node)) (supply : Supply),
        let s := Substitution.ofPairs pairs
        let s' := Substitution.ofPairs (pairs.map (Prod.map (Parameter.rename r) (Node.rename r)))
        let ran := node.substituteUnder guard session.limit s supply
        (node.rename r).substituteUnder guard session'.limit s' supply =
          (ran.1.map (Node.rename r), ran.2) := by
  refine ⟨fun expander => expander.expand_renamed hosts renamed node, fun guard pairs supply => ?_⟩
  simp only [Node.substituteUnder, renamed.limit]
  exact node.substituteFrom_rename (.ofPairs r pairs) _ _ supply

namespace ExchangedParameters

def x : Parameter := ⟨16, "x", .int⟩

def y : Parameter := ⟨17, "y", .int⟩

/-- The parameters exchange their identities and are both called `z`. -/
def exchange : Renaming where
  id n := if n = 16 then 17 else if n = 17 then 16 else n
  injective a b same := by
    simp only at same
    grind
  name _ := "z"

/-- The function `second` stands for the lambda `x, y => y`. -/
def second : Function :=
  ⟨20, "second", none, [⟨"a", .int, .value⟩, ⟨"b", .int, .value⟩], .int, none⟩

def lambda : Lambda := ⟨[x, y], ⟨1, .parameter y⟩, .int⟩

/-- The session in which `second` stands for the lambda. -/
def session (l : Lambda) : Session :=
  { registries := [(0, { bindings := [⟨21, second, .quote l .finish, none⟩] })] }

/-- The call `second(7, x)`. -/
def call : Node :=
  ⟨4, .call none (.function second) [⟨2, .constant (.int 7) .int⟩, ⟨3, .parameter x⟩] .int⟩

theorem session_renamed (l : Lambda) :
    (session l).Renamed exchange (session (l.rename exchange)) := by
  have body : Body.Renamed exchange (.quote l .finish) (.quote (l.rename exchange) .finish) := by
    refine .quote fun answer => .finish ?_
    cases answer with
    | ok _ => exact .ok ()
    | error e => exact .error (.same e)
  exact ⟨rfl, rfl, .cons ⟨rfl, .cons ⟨rfl, rfl, body, rfl⟩ .nil⟩ .nil, rfl, rfl⟩

end ExchangedParameters

open ExchangedParameters in
/-- A call of `x, y => y` on `7, x` expands to `x`. Once the two have exchanged their identities and
bear one name, the call expands to the parameter that has the identity of `y`. -/
theorem Renaming.runs_alike_exchanged :
    (session lambda).Renamed exchange (session (lambda.rename exchange)) ∧
      Host.basic.Renamed exchange .basic ∧
      (({} : Expander).expand .basic call (session lambda)).1 = .ok ⟨3, .parameter x⟩ ∧
      (({} : Expander).expand .basic (call.rename exchange) (session (lambda.rename exchange))).1 =
        .ok ⟨3, .parameter ⟨17, "z", .int⟩⟩ := by
  have before :
      (({} : Expander).expand .basic call (session lambda)).1 = .ok ⟨3, .parameter x⟩ := by
    simp only [Expander.expand, expansionPass, Pass.run_eq_transform]
    cbv
  have renamed := session_renamed lambda
  refine ⟨renamed, Host.basic_renamed _, before, ?_⟩
  have outcomes := ((runs_alike exchange (Host.basic_renamed _) renamed call).1 {}).1
  rw [before] at outcomes
  have fresh : ({} : Expander).rename exchange = {} := rfl
  rw [fresh] at outcomes
  generalize (({} : Expander).expand .basic (call.rename exchange) _).1 = after at outcomes ⊢
  cases outcomes with
  | ok _ => rfl

end TypedTrees
