import TypedTrees.Proofs.Eval.Strict
import TypedTrees.Proofs.Expansion.Visit
/-!
What a tree means before it is expanded. `Evaluation.extended` is the evaluator with the calls given
a meaning that expansion replaces: a reference call applies the lambda tree that its holder
evaluates to, and a call of a function that is quoted applies the lambda that it stands for, both on
the values of their arguments and where no bindings are in force. `Evaluates` says the same without
stores and storage, as a relation between a tree, its bindings and a value; whatever the extended
evaluator comes to is so related (`Evaluates.of_extended`).
-/
namespace TypedTrees

/-- The arguments of a call. -/
def Expr.args : Expr → List Node
  | .call _ _ args _ => args
  | _ => []

/-- The functions that are registered, and the lambdas that they stand for. -/
structure Substitutes where
  registered : Function → Bool
  quoted : Function → Option Lambda

/-- The lambda that a call applies and what it applies it to, given the values of its arguments. -/
def Expr.applies (subs : Substitutes) : Expr → List Value → Option (Lambda × List Value)
  | .call _ (.invoke _) _ _, .tree l :: passed => some (l, passed)
  | .call _ (.function f) _ _, passed => (subs.quoted f).map fun l => (l, passed)
  | _, _ => none

/-- Whether the node calls the builtin function `any`. -/
def Expr.isAny : Expr → Bool
  | .call _ callee _ _ => callee.native? == some (.builtin .any)
  | _ => false

/-- Whether the node calls a function of the host program. -/
def Expr.runsHost : Expr → Bool
  | .call _ callee _ _ =>
    match callee.native? with
    | some (.host _) => true
    | _ => false
  | _ => false

/-- The store with no reader made yet, so that every member is read afresh. -/
def Store.unread (store : Store) : Store := { store with readers := [] }

namespace Evaluation

/-- Applies a lambda tree where no bindings are in force. -/
def applyTree (below : Evaluation) (l : Lambda) (args : List Value) (store : Store) :
    Except Error Value × Store :=
  match l.bindArgs [] args with
  | .error e => (.error e, store)
  | .ok scope => below l.body scope store

/-- The value of a node of any kind where the calls that expansion replaces have a meaning. It is
the value that `ofNode` gives the nodes of all other kinds, with two provisos: functions of the host
program are not run, and where `declines` says so the node is not finished on its operands. -/
def extend (declines : Expr → List Value → Bool) (subs : Substitutes) (host : Host)
    (below : Evaluation) : Evaluation := fun node env store =>
  if node.expr.isExpandable subs.registered then
    below.allThen env node.expr.args store fun vs store =>
      match node.expr.applies subs vs with
      | some (l, passed) => below.applyTree l passed store
      | none => (.error (.unresolvableReference node.text), store)
  else if node.expr.runsHost then (.error (.directInvocation node.text), store)
  else if node.expr.isStrict then
    below.allThen env node.expr.children store fun vs store =>
      if declines node.expr vs then (.error (.eval (.other "declined")), store)
      else node.expr.finish host vs store.unread
  else ofNode below host node env store

/-- Evaluation with a number of levels left, where the calls that expansion replaces have a
meaning. -/
def extended (declines : Expr → List Value → Bool) (subs : Substitutes) (host : Host) :
    Nat → Evaluation
  | 0 => fun _ _ store => (.error (.recursionLimit 0), store)
  | room + 1 => extend declines subs host (extended declines subs host room)

end Evaluation

/-- In trees where the calls that expansion replaces have a meaning: the tree has this value under
these bindings, whatever the storage of values and the readers made so far. Equality tests that
depend on storage have no value, and calls of functions of the host program neither. -/
inductive Evaluates (host : Host) (slots : List (Nat × Value)) (subs : Substitutes) :
    Node → Env → Value → Prop
  | parameter {node : Node} {env : Env} {param : Parameter} {v : Value}
      (isExpr : node.expr = .parameter param) (found : env.lookup param.id = some v) :
      Evaluates host slots subs node env v
  | lambda {node : Node} {env : Env} {l : Lambda} (isExpr : node.expr = .lambda l) :
      Evaluates host slots subs node env (.closure l env)
  | strict {node : Node} {env : Env} {vs : List Value} {w : Value}
      (kept : node.expr.isExpandable subs.registered = false)
      (strict : node.expr.isStrict = true) (lengths : vs.length = node.expr.children.length)
      (each : ∀ (place : Nat) (child : Node) (v : Value), node.expr.children[place]? = some child →
        vs[place]? = some v → Evaluates host slots subs child env v)
      (settled : node.expr.Settled vs)
      (finished : (node.expr.finish host vs (.bare slots)).1 = .ok w) :
      Evaluates host slots subs node env w.unpaged
  | applied {node : Node} {env : Env} {l : Lambda} {vs passed : List Value} {v : Value}
      (expandable : node.expr.isExpandable subs.registered = true)
      (lengths : vs.length = node.expr.args.length)
      (each : ∀ (place : Nat) (arg : Node) (v : Value), node.expr.args[place]? = some arg →
        vs[place]? = some v → Evaluates host slots subs arg env v)
      (applies : node.expr.applies subs vs = some (l, passed)) (arity : l.arity = passed.length)
      (body : Evaluates host slots subs l.body (l.scope [] passed) v) :
      Evaluates host slots subs node env v
  /-- No item passes. -/
  | anyFails {node items predicate : Node} {env : Env} {vs : List Value} {p : Value}
      (kept : node.expr.isExpandable subs.registered = false)
      (isAny : node.expr.isAny = true) (children : node.expr.children = [items, predicate])
      (sequence : Evaluates host slots subs items env (.seq vs))
      (callable : Evaluates host slots subs predicate env p)
      (targets : ∀ v ∈ vs, ∃ target, p.callTarget [v] = .ok target)
      (fails : ∀ v ∈ vs, ∀ body scope, p.callTarget [v] = .ok (body, scope) →
        Evaluates host slots subs body scope (.bool false)) :
      Evaluates host slots subs node env (.bool false)
  /-- The items before the first that passes have been tried. -/
  | anyPasses {node items predicate body : Node} {env scope : Env} {tried rest : List Value}
      {v p : Value} (kept : node.expr.isExpandable subs.registered = false)
      (isAny : node.expr.isAny = true) (children : node.expr.children = [items, predicate])
      (sequence : Evaluates host slots subs items env (.seq (tried ++ v :: rest)))
      (callable : Evaluates host slots subs predicate env p)
      (targets : ∀ v ∈ tried, ∃ target, p.callTarget [v] = .ok target)
      (fails : ∀ v ∈ tried, ∀ body scope, p.callTarget [v] = .ok (body, scope) →
        Evaluates host slots subs body scope (.bool false))
      (target : p.callTarget [v] = .ok (body, scope))
      (passes : Evaluates host slots subs body scope (.bool true)) :
      Evaluates host slots subs node env (.bool true)
  /-- The left operand settles the answer. -/
  | left {node left right : Node} {env : Env} {op : BinaryOp} {ty : Ty}
      (isExpr : node.expr = .binary op left right ty) (short : op = .andAlso ∨ op = .orElse)
      (first : Evaluates host slots subs left env (.bool (op == .orElse))) :
      Evaluates host slots subs node env (.bool (op == .orElse))
  | right {node left right : Node} {env : Env} {op : BinaryOp} {ty : Ty} {b : Bool}
      (isExpr : node.expr = .binary op left right ty) (short : op = .andAlso ∨ op = .orElse)
      (first : Evaluates host slots subs left env (.bool !(op == .orElse)))
      (second : Evaluates host slots subs right env (.bool b)) :
      Evaluates host slots subs node env (.bool b)
  | condition {node test ifTrue ifFalse : Node} {env : Env} {ty : Ty} {b : Bool} {v : Value}
      (isExpr : node.expr = .condition test ifTrue ifFalse ty)
      (tested : Evaluates host slots subs test env (.bool b))
      (chosen : Evaluates host slots subs (if b then ifTrue else ifFalse) env v) :
      Evaluates host slots subs node env v

/-- Every equality test that depends on storage is declined, and perhaps others. -/
def Wary (declines : Expr → List Value → Bool) : Prop :=
  ∀ expr vs, declines expr vs = false → expr.Settled vs

open Classical in
/-- Whether the node tests operands for equality in a way that depends on storage. -/
noncomputable def Expr.unsettled (expr : Expr) (vs : List Value) : Bool := decide ¬expr.Settled vs

theorem Expr.wary_unsettled : Wary Expr.unsettled := fun expr vs goes => by
  simpa [unsettled] using goes

/-- Whether the node tests operands for equality. -/
def Expr.testsEquality : Expr → Bool
  | .binary op _ _ _ => op == .equal || op == .notEqual
  | .call _ callee _ _ => callee.native? == some (.builtin .contains)
  | _ => false

theorem Expr.wary_testsEquality : Wary fun expr _ => expr.testsEquality := by
  intro expr vs goes
  constructor
  · rintro op left right ty l r rfl rfl (rfl | rfl) <;> cases goes
  · rintro receiver callee args ty items item rfl rfl native
    simp [testsEquality, native] at goes

/-- Only equality tests depend on storage. -/
theorem Expr.unsettled_eq : Expr.unsettled = fun expr vs =>
    if expr.testsEquality then expr.unsettled vs else false := by
  funext expr vs
  cases tests : expr.testsEquality with
  | true => rfl
  | false => simpa [unsettled] using wary_testsEquality expr vs tests

theorem Expr.applies_unpaged {subs : Substitutes} {expr : Expr} {vs passed : List Value}
    {l : Lambda} (applies : expr.applies subs vs = some (l, passed)) :
    expr.applies subs (vs.map Value.unpaged) = some (l, passed.map Value.unpaged) := by
  rw [Expr.applies.eq_def] at applies
  split at applies
  · cases applies
    rfl
  · rename_i f args ty
    obtain ⟨k, found, same⟩ := Option.map_eq_some_iff.mp applies
    cases same
    simp only [Expr.applies, found, Option.map_some]
  · cases applies

/-- The builtin `any` comes to an answer in one of two ways: no item passes, or one passes that has
only failing ones before it. -/
theorem Builtin.carryOut_anyOf {below : Evaluation} {p : Value} {slots : List (Nat × Value)}
    {answers : Value → Bool → Prop}
    (applies : ∀ item body scope store v after, store.slots = slots →
      p.callTarget [item] = .ok (body, scope) → below body scope store = (.ok v, after) →
      after.slots = slots ∧ ∀ b, v = .bool b → answers item b)
    {items : List Value} {store after : Store} {v : Value} (kept : store.slots = slots)
    (answer : (anyOf p items).carryOut below store = (.ok v, after)) :
    after.slots = slots ∧
      ((v = .bool false ∧ ∀ item ∈ items, (∃ t, p.callTarget [item] = .ok t) ∧ answers item false) ∨
        ∃ tried item rest, items = tried ++ item :: rest ∧ v = .bool true ∧
          (∀ item ∈ tried, (∃ t, p.callTarget [item] = .ok t) ∧ answers item false) ∧
          (∃ t, p.callTarget [item] = .ok t) ∧ answers item true) := by
  induction items generalizing store with
  | nil =>
    cases answer
    exact ⟨kept, .inl ⟨rfl, nofun⟩⟩
  | cons item rest ih =>
    rw [anyOf, Procedure.carryOut] at answer
    rcases target : p.callTarget [item] with e | ⟨body, scope⟩
    · rw [target] at answer
      cases answer
    rw [target] at answer
    simp only at answer
    rcases verdict : below body scope store with ⟨e | w, middle⟩
    · rw [verdict] at answer
      cases answer
    rw [verdict] at answer
    obtain ⟨slots, answered⟩ := applies item body scope store w middle kept target verdict
    simp only at answer
    split at answer
    · rename_i isError
      cases isError
    · rename_i isTrue
      cases isTrue
      cases answer
      exact ⟨slots, .inr ⟨[], item, rest, rfl, rfl, nofun, ⟨_, target⟩, answered true rfl⟩⟩
    · rename_i isFalse
      cases isFalse
      have here : (∃ t, p.callTarget [item] = .ok t) ∧ answers item false :=
        ⟨⟨_, target⟩, answered false rfl⟩
      obtain ⟨final, ⟨rfl, all⟩ | ⟨tried, passing, others, rfl, rfl, all, passes⟩⟩ :=
        ih slots answer
      · exact ⟨final, .inl ⟨rfl, List.forall_mem_cons.mpr ⟨here, all⟩⟩⟩
      · exact ⟨final, .inr ⟨item :: tried, passing, others, rfl, rfl,
          List.forall_mem_cons.mpr ⟨here, all⟩, passes⟩⟩
    · cases answer

namespace Evaluation

/-- Whatever the evaluation comes to is what the tree has as its value, and the slots stay. -/
def Sound (host : Host) (subs : Substitutes) (below : Evaluation) : Prop :=
  ∀ node env store v after, below node env store = (.ok v, after) →
    after.slots = store.slots ∧ Evaluates host store.slots subs node env.unpaged v.unpaged

namespace Sound

variable {host : Host} {subs : Substitutes} {below : Evaluation} {env : Env} {store after : Store}

theorem all (sound : Sound host subs below) {nodes : List Node} {vs : List Value}
    (all : below.all env nodes store = (.ok vs, after)) :
    after.slots = store.slots ∧ ∀ (place : Nat) (node : Node) (v : Value),
      nodes[place]? = some node → (vs.map Value.unpaged)[place]? = some v →
        Evaluates host store.slots subs node env.unpaged v := by
  induction nodes generalizing store vs with
  | nil =>
    cases all
    exact ⟨rfl, nofun⟩
  | cons first nodes ih =>
    rw [Evaluation.all] at all
    split at all
    · cases all
    · rename_i v middle here
      split at all
      · cases all
      · rename_i others
        cases all
        obtain ⟨slots, meaning⟩ := sound first env store v middle here
        obtain ⟨final, rest⟩ := ih others
        refine ⟨final.trans slots, fun place node w atNode atValue => ?_⟩
        cases place with
        | zero =>
          cases atNode
          cases atValue
          exact meaning
        | succ place => exact slots ▸ rest place node w atNode atValue

theorem allThen (sound : Sound host subs below) {nodes : List Node}
    {next : List Value → Store → Except Error Value × Store} {v : Value}
    (answer : below.allThen env nodes store next = (.ok v, after)) :
    ∃ vs middle, next vs middle = (.ok v, after) ∧ middle.slots = store.slots ∧
      vs.length = nodes.length ∧ ∀ (place : Nat) (node : Node) (v : Value),
        nodes[place]? = some node → (vs.map Value.unpaged)[place]? = some v →
          Evaluates host store.slots subs node env.unpaged v := by
  rw [Evaluation.allThen] at answer
  split at answer
  · cases answer
  · rename_i vs middle evaluated
    obtain ⟨slots, each⟩ := sound.all evaluated
    exact ⟨vs, middle, answer, slots, all_length evaluated, each⟩

theorem truthThen (sound : Sound host subs below) {node : Node}
    {next : Bool → Store → Except Error Value × Store} {v : Value}
    (answer : below.truthThen env node store next = (.ok v, after)) :
    ∃ b middle, next b middle = (.ok v, after) ∧ middle.slots = store.slots ∧
      Evaluates host store.slots subs node env.unpaged (.bool b) := by
  rw [Evaluation.truthThen, Evaluation.truth] at answer
  rcases here : below node env store with ⟨e | v, middle⟩
  · rw [here] at answer
    cases answer
  rw [here] at answer
  obtain ⟨slots, meaning⟩ := sound node env store v middle here
  cases v with
  | bool b => exact ⟨b, middle, answer, slots, meaning⟩
  | _ => cases answer

theorem applyTree (sound : Sound host subs below) {l : Lambda} {args : List Value} {v : Value}
    (answer : below.applyTree l args store = (.ok v, after)) :
    after.slots = store.slots ∧ l.arity = args.length ∧
      Evaluates host store.slots subs l.body (l.scope [] (args.map Value.unpaged)) v.unpaged := by
  rw [Evaluation.applyTree, Lambda.bindArgs] at answer
  by_cases arity : l.arity = args.length
  · rw [if_pos arity] at answer
    obtain ⟨slots, meaning⟩ := sound _ _ _ _ _ answer
    rw [l.scope_unpaged] at meaning
    exact ⟨slots, arity, meaning⟩
  · rw [if_neg arity] at answer
    cases answer

theorem replaced (sound : Sound host subs below) {node : Node} {v : Value}
    (expandable : node.expr.isExpandable subs.registered = true)
    (answer : (below.allThen env node.expr.args store fun vs store =>
      match node.expr.applies subs vs with
      | some (l, passed) => below.applyTree l passed store
      | none => (.error (.unresolvableReference node.text), store)) = (.ok v, after)) :
    after.slots = store.slots ∧ Evaluates host store.slots subs node env.unpaged v.unpaged := by
  obtain ⟨vs, middle, answer, slots, lengths, each⟩ := sound.allThen answer
  split at answer
  · rename_i l passed applies
    obtain ⟨final, arity, body⟩ := sound.applyTree answer
    refine ⟨final.trans slots, .applied expandable (by rw [List.length_map, lengths]) each
      (Expr.applies_unpaged applies) (by rw [List.length_map, arity]) ?_⟩
    exact slots ▸ body
  · cases answer

theorem strict (sound : Sound host subs below) (ignores : host.IgnoresStorage)
    {declines : Expr → List Value → Bool} (wary : Wary declines) {node : Node} {v : Value}
    (kept : node.expr.isExpandable subs.registered = false)
    (strict : node.expr.isStrict = true)
    (answer : (below.allThen env node.expr.children store fun vs store =>
      if declines node.expr vs then (.error (.eval (.other "declined")), store)
      else node.expr.finish host vs store.unread) = (.ok v, after)) :
    after.slots = store.slots ∧ Evaluates host store.slots subs node env.unpaged v.unpaged := by
  obtain ⟨vs, middle, answer, slots, lengths, each⟩ := sound.allThen answer
  cases goes : declines node.expr vs with
  | true =>
    rw [goes, if_pos rfl] at answer
    cases answer
  | false =>
    have settled := wary node.expr vs goes
    rw [goes, if_neg Bool.false_ne_true] at answer
    -- any naming does for a store without readers, so take the one by the node's own member
    obtain ⟨naming, name⟩ : ∃ naming, node.expr.NamedBy naming := by
      cases isExpr : node.expr with
      | member target m => exact ⟨fun _ => .of m, fun _ _ is => by cases is; rfl⟩
      | _ => exact ⟨fun _ => .slot 0, fun _ _ is => by cases is⟩
    have unread : middle.unread.Named naming := Store.named_of_unread rfl naming
    have finished := Expr.finish_unpaged ignores strict name settled unread
    have stays : after.slots = middle.slots := by
      have stored := (Expr.finish_store host vs name unread).2
      rwa [answer] at stored
    rw [answer, Except.toOption, Option.map_some, eq_comm, Option.map_eq_some_iff] at finished
    obtain ⟨w, isOk, same⟩ := finished
    refine ⟨stays.trans slots, ?_⟩
    rw [← same]
    refine .strict kept strict (by rw [List.length_map, lengths]) each
      (settled.congr (by simp [Value.unpaged_unpaged])) ?_
    have bare : middle.unread.slots = store.slots := slots
    rw [bare] at isOk
    cases done : (node.expr.finish host (vs.map Value.unpaged) (.bare store.slots)).1 with
    | ok u =>
      rw [done] at isOk
      cases isOk
      rfl
    | error e =>
      rw [done] at isOk
      cases isOk

theorem any (sound : Sound host subs below) {node : Node} {receiver : Option Node} {callee : Callee}
    {args : List Node} {ty : Ty} {v : Value} (isExpr : node.expr = .call receiver callee args ty)
    (kept : node.expr.isExpandable subs.registered = false)
    (native : callee.native? = some (.builtin .any))
    (answer : (below.allThen env (receiver.toList ++ args) store fun operands store =>
      (Builtin.any.procedure operands).carryOut below store) = (.ok v, after)) :
    after.slots = store.slots ∧ Evaluates host store.slots subs node env.unpaged v.unpaged := by
  have isAny : node.expr.isAny = true := by
    rw [isExpr, Expr.isAny, native]
    rfl
  obtain ⟨vs, middle, answer, slots, lengths, each⟩ := sound.allThen answer
  obtain ⟨items, p, rfl⟩ : ∃ items p, vs = [.seq items, p] := by
    rcases Builtin.procedure_any vs with is | fails
    · exact is
    · rw [fails] at answer
      cases answer
  obtain ⟨sequence, predicate, children⟩ := List.length_eq_two.mp lengths.symm
  rw [children] at each
  have listed := each 0 sequence _ rfl rfl
  rw [Value.unpaged_seq] at listed
  have callable := each 1 predicate _ rfl rfl
  have verdict : ∀ item body scope (state : Store) w last, state.slots = store.slots →
      p.callTarget [item] = .ok (body, scope) → below body scope state = (.ok w, last) →
      last.slots = store.slots ∧ ∀ b, w = .bool b → ∀ body scope,
        p.unpaged.callTarget [item.unpaged] = .ok (body, scope) →
          Evaluates host store.slots subs body scope (.bool b) := by
    intro item body scope state w last same calls evaluates
    obtain ⟨slots, meaning⟩ := sound _ _ _ _ _ evaluates
    refine ⟨slots.trans same, ?_⟩
    rintro b rfl body' scope' again
    cases (Value.callTarget_unpaged calls).symm.trans again
    exact same ▸ meaning
  obtain ⟨final, verdicts⟩ := Builtin.carryOut_anyOf verdict slots answer
  refine ⟨final, ?_⟩
  have target : ∀ item, (∃ t, p.callTarget [item] = .ok t) →
      ∃ t, p.unpaged.callTarget [item.unpaged] = .ok t :=
    fun item ⟨t, is⟩ => ⟨_, Value.callTarget_unpaged is⟩
  have children : node.expr.children = [sequence, predicate] := by
    rw [isExpr]
    exact children
  rcases verdicts with
    ⟨rfl, fail⟩ | ⟨tried, item, rest, rfl, rfl, fail, ⟨⟨body, scope⟩, calls⟩, passes⟩
  · refine .anyFails kept isAny children listed callable ?_ ?_
    · exact List.forall_mem_map.mpr fun item member => target item (fail item member).1
    · exact List.forall_mem_map.mpr fun item member => (fail item member).2
  · rw [List.map_append, List.map_cons] at listed
    have calls := Value.callTarget_unpaged calls
    refine .anyPasses kept isAny children listed callable ?_ ?_ calls (passes _ _ calls)
    · exact List.forall_mem_map.mpr fun item member => target item (fail item member).1
    · exact List.forall_mem_map.mpr fun item member => (fail item member).2

theorem shortCircuit (sound : Sound host subs below) {node left right : Node} {op : BinaryOp}
    {ty : Ty} {v : Value} (isExpr : node.expr = .binary op left right ty)
    (short : op = .andAlso ∨ op = .orElse)
    (answer : ofNode below host node env store = (.ok v, after)) :
    after.slots = store.slots ∧ Evaluates host store.slots subs node env.unpaged v.unpaged := by
  rw [ofNode_shortCircuit isExpr short] at answer
  obtain ⟨first, middle, answer, slots, leftMeaning⟩ := sound.truthThen answer
  by_cases settles : first = (op == .orElse)
  · rw [if_pos settles] at answer
    cases answer
    subst settles
    exact ⟨slots, .left isExpr short leftMeaning⟩
  · rw [if_neg settles] at answer
    obtain ⟨b, last, answer, final, rightMeaning⟩ := sound.truthThen answer
    cases answer
    cases Bool.eq_not.mpr settles
    exact ⟨final.trans slots, .right isExpr short leftMeaning (slots ▸ rightMeaning)⟩

theorem condition (sound : Sound host subs below) {node test ifTrue ifFalse : Node} {ty : Ty}
    {v : Value} (isExpr : node.expr = .condition test ifTrue ifFalse ty)
    (answer : ofNode below host node env store = (.ok v, after)) :
    after.slots = store.slots ∧ Evaluates host store.slots subs node env.unpaged v.unpaged := by
  rw [ofNode_condition isExpr] at answer
  obtain ⟨b, middle, answer, slots, testMeaning⟩ := sound.truthThen answer
  obtain ⟨final, chosen⟩ := sound _ _ _ _ _ answer
  exact ⟨final.trans slots, .condition isExpr testMeaning (slots ▸ chosen)⟩

/-- What holds one level below holds of a node of any kind. -/
theorem extend (sound : Sound host subs below) (ignores : host.IgnoresStorage)
    {declines : Expr → List Value → Bool} (wary : Wary declines) :
    Sound host subs (below.extend declines subs host) := by
  intro node env store v after answer
  rw [Evaluation.extend] at answer
  split at answer
  · rename_i expandable
    exact sound.replaced expandable answer
  rename_i keeps
  have kept : node.expr.isExpandable subs.registered = false := by simpa using keeps
  split at answer
  · cases answer
  rename_i noHost
  split at answer
  · rename_i strict
    exact sound.strict ignores wary kept strict answer
  rename_i lazy
  cases isExpr : node.expr with
  | parameter param =>
    simp only [ofNode, isExpr] at answer
    split at answer
    · rename_i found
      cases answer
      refine ⟨rfl, .parameter isExpr ?_⟩
      rw [env.lookup_unpaged, found, Option.map_some]
    · cases answer
  | lambda l =>
    simp only [ofNode, isExpr] at answer
    cases answer
    exact ⟨rfl, Value.unpaged_closure l env ▸ .lambda isExpr⟩
  | condition test ifTrue ifFalse ty => exact sound.condition isExpr answer
  | binary op left right ty =>
    have short : op = .andAlso ∨ op = .orElse := by
      simpa [isExpr, Expr.isStrict, imp_iff_not_or] using lazy
    exact sound.shortCircuit isExpr short answer
  | call receiver callee args ty =>
    cases native : callee.native? with
    | none =>
      simp only [ofNode, isExpr, native] at answer
      cases answer
    | some native' =>
      cases native' with
      | host name => simp [isExpr, Expr.runsHost, native] at noHost
      | builtin which =>
        cases which with
        | any =>
          rw [ofNode_native isExpr native] at answer
          exact sound.any isExpr kept native answer
        | _ => simp [isExpr, Expr.isStrict, native, Builtin.answers] at lazy
  | _ => simp [isExpr, Expr.isStrict] at lazy

end Sound

end Evaluation

/-- Whatever the extended evaluator comes to, where it declines the equality tests that depend on
storage, is what the tree has as its value. -/
theorem Evaluates.of_extended {host : Host} (ignores : host.IgnoresStorage)
    {declines : Expr → List Value → Bool} (wary : Wary declines) (subs : Substitutes) (room : Nat) :
    (Evaluation.extended declines subs host room).Sound host subs := by
  induction room with
  | zero => exact fun _ _ _ _ _ answer => nomatch answer
  | succ room ih => exact ih.extend ignores wary

end TypedTrees
