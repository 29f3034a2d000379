import TypedTrees.Eval.Recursive
import TypedTrees.Proofs.Eval.Congruence
/-!
From what a tree means to what the evaluator does. A tree with nothing left to expand has its value
whenever the limit leaves enough levels, in every store with the same slots, and with fewer levels
the evaluation either still comes to that value or trips over the limit (`Evaluates.attains`).
-/
namespace TypedTrees

/-- The evaluation comes to something good, or trips over the limit, which happens only if it is
short of levels. In either case the slots are the same as before and readers belong to their
members. -/
inductive Attained (naming : Nat → Reader) (slots : List (Nat × Value)) (limit : Nat) (short : Prop)
    {α : Type} (good : α → Prop) : Except Error α × Store → Prop
  | comes {v : α} {after : Store} (isGood : good v) (named : after.Named naming)
      (same : after.slots = slots) : Attained naming slots limit short good (.ok v, after)
  | trips {after : Store} (isShort : short) (named : after.Named naming)
      (same : after.slots = slots) :
      Attained naming slots limit short good (.error (.recursionLimit limit), after)

/-- With enough levels the tree has this value, up to storage, under all bindings that are the given
ones up to storage. -/
def Node.Attains (host : Host) (naming : Nat → Reader) (slots : List (Nat × Value)) (node : Node)
    (env : Env) (w : Value) (enough : Nat) : Prop :=
  ∀ (limit room : Nat) (stored : Env) (store : Store), stored.unpaged = env →
    store.Named naming → store.slots = slots →
      Attained naming slots limit (room < enough) (fun v : Value => v.unpaged = w)
        (Evaluation.within host limit room node stored store)

/-- Nothing is left to expand at the node, its member is read as its name says, and lambda nodes
stand where they are called. -/
structure Expr.Ready (registered : Function → Bool) (naming : Nat → Reader) (expr : Expr) :
    Prop where
  kept : expr.isExpandable registered = false
  named : expr.NamedBy naming
  inPlace : ∀ (predicate : Node), expr.isAny = true → expr.children[1]? = some predicate →
    ∃ l, predicate.expr = .lambda l

/-- What holds of every member of a list from some number on holds of all of them from some number
on. -/
theorem exists_common {α : Type} (holds : α → Nat → Prop)
    (mono : ∀ {a m n}, m ≤ n → holds a m → holds a n) {items : List α}
    (each : ∀ a ∈ items, ∃ n, holds a n) : ∃ n, ∀ a ∈ items, holds a n := by
  induction items with
  | nil => exact ⟨0, nofun⟩
  | cons first items ih =>
    obtain ⟨here, first⟩ := each first (.head _)
    obtain ⟨there, others⟩ := ih fun a member => each a (.tail _ member)
    refine ⟨max here there, List.forall_mem_cons.mpr ⟨?_, fun a member => ?_⟩⟩
    · exact mono (Nat.le_max_left _ _) first
    · exact mono (Nat.le_max_right _ _) (others a member)

section

variable {host : Host} {naming : Nat → Reader} {slots : List (Nat × Value)}

theorem Attained.mono {limit : Nat} {short longer : Prop} (weaker : short → longer) {α : Type}
    {good : α → Prop} {result : Except Error α × Store}
    (attained : Attained naming slots limit short good result) :
    Attained naming slots limit longer good result := by
  cases attained with
  | comes isGood named same => exact .comes isGood named same
  | trips isShort named same => exact .trips (weaker isShort) named same

variable {node : Node} {env : Env} {w : Value}

theorem Node.Attains.mono {enough more : Nat} (le : enough ≤ more)
    (attains : node.Attains host naming slots env w enough) :
    node.Attains host naming slots env w more := by
  intro limit room stored store same named slots
  exact (attains limit room stored store same named slots).mono (by omega)

/-- One level more is enough for a node than is enough one level below it. -/
theorem Node.Attains.succ {enough : Nat}
    (below : ∀ (limit room : Nat) (stored : Env) (store : Store), stored.unpaged = env →
      store.Named naming → store.slots = slots →
        Attained naming slots limit (room < enough) (fun v : Value => v.unpaged = w)
          (Evaluation.ofNode (Evaluation.within host limit room) host node stored store)) :
    node.Attains host naming slots env w (enough + 1) := by
  intro limit room stored store same named slots
  cases room with
  | zero => exact .trips (Nat.zero_lt_succ enough) named slots
  | succ room => exact (below limit room stored store same named slots).mono Nat.succ_lt_succ

variable {enough : Nat} {stored : Env} {store : Store} (same : stored.unpaged = env)
  (named : store.Named naming) (slotsSame : store.slots = slots)

include same named slotsSame

theorem Attained.all (limit room : Nat) {nodes : List Node} {vs : List Value}
    (lengths : vs.length = nodes.length)
    (each : ∀ pair ∈ nodes.zip vs, pair.1.Attains host naming slots env pair.2 enough) :
    Attained naming slots limit (room < enough) (fun us : List Value => us.map Value.unpaged = vs)
      ((Evaluation.within host limit room).all stored nodes store) := by
  induction nodes generalizing vs store with
  | nil =>
    cases List.length_eq_zero_iff.mp lengths
    exact .comes rfl named slotsSame
  | cons node nodes ih =>
    cases vs with
    | nil => cases lengths
    | cons v vs =>
      rw [List.zip_cons_cons, List.forall_mem_cons] at each
      have first := each.1 limit room stored store same named slotsSame
      rw [Evaluation.all]
      generalize Evaluation.within host limit room node stored store = result at first
      cases first with
      | trips isShort named slotsSame => exact .trips isShort named slotsSame
      | @comes u middle isValue named slotsSame =>
        have others := ih named slotsSame (Nat.succ.inj lengths) each.2
        simp only
        generalize (Evaluation.within host limit room).all stored nodes middle = result at others
        cases others with
        | trips isShort named slotsSame => exact .trips isShort named slotsSame
        | comes areValues named slotsSame =>
          exact .comes (by rw [List.map_cons, isValue, areValues]) named slotsSame

theorem Attained.allThen (limit room : Nat) {nodes : List Node} {vs : List Value}
    (lengths : vs.length = nodes.length)
    (each : ∀ pair ∈ nodes.zip vs, pair.1.Attains host naming slots env pair.2 enough)
    {next : List Value → Store → Except Error Value × Store} {good : Value → Prop}
    (onward : ∀ (us : List Value) (store : Store), us.map Value.unpaged = vs →
      store.Named naming → store.slots = slots →
        Attained naming slots limit (room < enough) good (next us store)) :
    Attained naming slots limit (room < enough) good
      ((Evaluation.within host limit room).allThen stored nodes store next) := by
  have evaluated := Attained.all same named slotsSame limit room lengths each
  rw [Evaluation.allThen]
  generalize (Evaluation.within host limit room).all stored nodes store = result at evaluated
  cases evaluated with
  | trips isShort named slotsSame => exact .trips isShort named slotsSame
  | comes areValues named slotsSame => exact onward _ _ areValues named slotsSame

theorem Attained.truthThen (limit room : Nat) {node : Node} {b : Bool}
    (attains : node.Attains host naming slots env (.bool b) enough)
    {next : Bool → Store → Except Error Value × Store} {good : Value → Prop}
    (onward : ∀ store : Store, store.Named naming → store.slots = slots →
      Attained naming slots limit (room < enough) good (next b store)) :
    Attained naming slots limit (room < enough) good
      ((Evaluation.within host limit room).truthThen stored node store next) := by
  have tested := attains limit room stored store same named slotsSame
  rw [Evaluation.truthThen, Evaluation.truth]
  generalize Evaluation.within host limit room node stored store = result at tested
  cases tested with
  | trips isShort named slotsSame => exact .trips isShort named slotsSame
  | comes isValue named slotsSame =>
    cases Value.eq_bool_of_unpaged isValue
    exact onward _ named slotsSame

omit same in
theorem Attained.finish (ignores : host.IgnoresStorage) {expr : Expr}
    (strict : expr.isStrict = true) (name : expr.NamedBy naming) {us vs : List Value}
    (areValues : us.map Value.unpaged = vs)
    (settled : expr.Settled vs) {v : Value}
    (finished : (expr.finish host vs (.bare slots)).1 = .ok v) {limit : Nat} {short : Prop} :
    Attained naming slots limit short (fun u : Value => u.unpaged = v.unpaged)
      (expr.finish host us store) := by
  have stored : expr.Settled us := by
    refine settled.congr ?_
    rw [← areValues, List.map_map]
    exact List.map_congr_left fun u _ => u.unpaged_unpaged.symm
  have told := Expr.finish_unpaged ignores strict name stored named
  rw [areValues, slotsSame, finished] at told
  obtain ⟨namedAfter, slotsAfter⟩ := Expr.finish_store host us name named
  generalize expr.finish host us store = result at told namedAfter slotsAfter
  obtain ⟨e | u, after⟩ := result
  · cases told
  · exact .comes (Option.some.inj told) namedAfter (slotsAfter.trans slotsSame)

end

theorem Value.exists_callTarget_of_unpaged {callee : Value} {args : List Value} {body : Node}
    {scope : Env} (target : callee.unpaged.callTarget (args.map unpaged) = .ok (body, scope)) :
    ∃ inner, callee.callTarget args = .ok (body, inner) ∧ inner.unpaged = scope := by
  have binds : ∀ (l : Lambda) (env : Env),
      (l.bindArgs env.unpaged (args.map unpaged)).map (fun scope => (l.body, scope)) =
        .ok (body, scope) →
      ∃ inner, (l.bindArgs env args).map (fun scope => (l.body, scope)) = .ok (body, inner) ∧
        inner.unpaged = scope := by
    intro l env bound
    rw [Lambda.bindArgs, List.length_map] at bound
    rw [Lambda.bindArgs]
    by_cases arity : l.arity = args.length
    · rw [if_pos arity] at bound ⊢
      cases bound
      exact ⟨_, rfl, l.scope_unpaged env args⟩
    · rw [if_neg arity] at bound
      cases bound
  cases callee with
  | closure l env =>
    rw [unpaged_closure] at target
    exact binds l env target
  | tree l => exact binds l [] target
  | record typeName table =>
    rw [unpaged_record] at target
    cases target
  | seq items =>
    rw [unpaged_seq] at target
    cases target
  | _ => cases target

section

variable {host : Host} {naming : Nat → Reader} {slots : List (Nat × Value)} {enough : Nat}
  {store : Store} {p q : Value} (isPredicate : q.unpaged = p)

include isPredicate

theorem Attained.verdict (limit room : Nat) {item : Value} {b : Bool} {body : Node} {scope : Env}
    (target : p.callTarget [item.unpaged] = .ok (body, scope))
    (attains : body.Attains host naming slots scope (.bool b) enough)
    (named : store.Named naming) (same : store.slots = slots) :
    ∃ inner, q.callTarget [item] = .ok (body, inner) ∧
      Attained naming slots limit (room < enough) (fun v : Value => v = .bool b)
        (Evaluation.within host limit room body inner store) := by
  have unpaged : q.unpaged.callTarget ([item].map Value.unpaged) = .ok (body, scope) :=
    isPredicate ▸ target
  obtain ⟨inner, calls, isScope⟩ := Value.exists_callTarget_of_unpaged unpaged
  refine ⟨inner, calls, ?_⟩
  have comes := attains limit room inner store isScope named same
  generalize Evaluation.within host limit room body inner store = result at comes
  cases comes with
  | trips isShort named same => exact .trips isShort named same
  | comes isValue named same => exact .comes (Value.eq_bool_of_unpaged isValue) named same

/-- The builtin `any` gets past items that do not pass. -/
theorem Attained.anyOf_append {limit room : Nat} {items rest : List Value} {good : Value → Prop}
    (targets : ∀ item ∈ items, ∃ t, p.callTarget [item.unpaged] = .ok t)
    (fails : ∀ item ∈ items, ∀ body scope, p.callTarget [item.unpaged] = .ok (body, scope) →
      body.Attains host naming slots scope (.bool false) enough)
    (onward : ∀ store : Store, store.Named naming → store.slots = slots →
      Attained naming slots limit (room < enough) good
        ((Builtin.anyOf q rest).carryOut (Evaluation.within host limit room) store))
    (named : store.Named naming) (same : store.slots = slots) :
    Attained naming slots limit (room < enough) good
      ((Builtin.anyOf q (items ++ rest)).carryOut (Evaluation.within host limit room) store) := by
  induction items generalizing store with
  | nil => exact onward store named same
  | cons item items ih =>
    rw [List.forall_mem_cons] at targets fails
    obtain ⟨⟨body, scope⟩, target⟩ := targets.1
    obtain ⟨inner, calls, verdict⟩ := Attained.verdict isPredicate limit room
      target (fails.1 body scope target) named same
    rw [List.cons_append, Builtin.anyOf, Procedure.carryOut, calls]
    simp only
    generalize Evaluation.within host limit room body inner store = result at verdict
    cases verdict with
    | trips isShort named same => exact .trips isShort named same
    | comes isFalse named same =>
      subst isFalse
      exact ih targets.2 fails.2 named same

end

theorem Expr.call_of_isAny {expr : Expr} (isAny : expr.isAny = true) :
    ∃ receiver callee args ty, expr = .call receiver callee args ty ∧
      callee.native? = some (.builtin .any) := by
  cases expr with
  | call receiver callee args ty => exact ⟨receiver, callee, args, ty, rfl, eq_of_beq isAny⟩
  | _ => cases isAny

section

variable {host : Host} {naming : Nat → Reader} {slots : List (Nat × Value)} {node : Node}
  {env : Env} {enough : Nat}

/-- A call of the builtin `any` has a value if going through the items has it. -/
theorem Node.Attains.any {items predicate : Node} {vs : List Value} {p w : Value}
    (isAny : node.expr.isAny = true) (children : node.expr.children = [items, predicate])
    (sequence : items.Attains host naming slots env (.seq vs) enough)
    (callable : predicate.Attains host naming slots env p enough)
    (onward : ∀ (limit room : Nat) (us : List Value) (q : Value) (store : Store),
      us.map Value.unpaged = vs → q.unpaged = p → store.Named naming → store.slots = slots →
        Attained naming slots limit (room < enough) (fun v : Value => v.unpaged = w)
          ((Builtin.anyOf q us).carryOut (Evaluation.within host limit room) store)) :
    node.Attains host naming slots env w (enough + 1) := by
  refine .succ fun limit room stored store same named slotsSame => ?_
  obtain ⟨receiver, callee, args, ty, isExpr, native⟩ := Expr.call_of_isAny isAny
  have operands : receiver.toList ++ args = [items, predicate] := by
    rw [← children, isExpr]
    rfl
  have each : ∀ pair ∈ [items, predicate].zip [.seq vs, p],
      pair.1.Attains host naming slots env pair.2 enough :=
    List.forall_mem_cons.mpr ⟨sequence, List.forall_mem_cons.mpr ⟨callable, nofun⟩⟩
  rw [Evaluation.ofNode_native isExpr native, operands]
  refine .allThen same named slotsSame limit room rfl each ?_
  intro us after areValues named slotsSame
  obtain ⟨u, rest, rfl, isSequence, others⟩ := List.map_eq_cons_iff.mp areValues
  obtain ⟨q, none, rfl, isPredicate, empty⟩ := List.map_eq_cons_iff.mp others
  cases List.map_eq_nil_iff.mp empty
  obtain ⟨us, rfl, each⟩ := Value.eq_seq_of_unpaged isSequence
  exact onward limit room us q after each isPredicate named slotsSame

theorem Node.Attains.anyFails {items predicate : Node} {vs : List Value} {p : Value}
    (isAny : node.expr.isAny = true) (children : node.expr.children = [items, predicate])
    (sequence : items.Attains host naming slots env (.seq vs) enough)
    (callable : predicate.Attains host naming slots env p enough)
    (targets : ∀ v ∈ vs, ∃ target, p.callTarget [v] = .ok target)
    (fails : ∀ v ∈ vs, ∀ body scope, p.callTarget [v] = .ok (body, scope) →
      body.Attains host naming slots scope (.bool false) enough) :
    node.Attains host naming slots env (.bool false) (enough + 1) := by
  refine .any isAny children sequence callable ?_
  intro limit room us q store each isPredicate named same
  subst each
  rw [List.forall_mem_map] at targets fails
  rw [← List.append_nil us]
  exact .anyOf_append isPredicate targets fails (fun store named same => .comes rfl named same)
    named same

theorem Node.Attains.anyPasses {items predicate body : Node} {scope : Env}
    {tried rest : List Value} {v p : Value}
    (isAny : node.expr.isAny = true) (children : node.expr.children = [items, predicate])
    (sequence : items.Attains host naming slots env (.seq (tried ++ v :: rest)) enough)
    (callable : predicate.Attains host naming slots env p enough)
    (targets : ∀ v ∈ tried, ∃ target, p.callTarget [v] = .ok target)
    (fails : ∀ v ∈ tried, ∀ body scope, p.callTarget [v] = .ok (body, scope) →
      body.Attains host naming slots scope (.bool false) enough)
    (target : p.callTarget [v] = .ok (body, scope))
    (passes : body.Attains host naming slots scope (.bool true) enough) :
    node.Attains host naming slots env (.bool true) (enough + 1) := by
  refine .any isAny children sequence callable ?_
  intro limit room us q store each isPredicate named same
  obtain ⟨before, others, rfl, triedItems, restItems⟩ := List.map_eq_append_iff.mp each
  obtain ⟨item, after, rfl, isItem, -⟩ := List.map_eq_cons_iff.mp restItems
  subst triedItems isItem
  rw [List.forall_mem_map] at targets fails
  refine .anyOf_append isPredicate targets fails ?_ named same
  intro store named same
  obtain ⟨inner, calls, verdict⟩ := Attained.verdict isPredicate limit room target passes named same
  rw [Builtin.anyOf, Procedure.carryOut, calls]
  simp only
  generalize Evaluation.within host limit room body inner store = result at verdict
  cases verdict with
  | trips isShort named same => exact .trips isShort named same
  | comes isTrue named same =>
    subst isTrue
    exact .comes rfl named same

theorem Node.Attains.left {left right : Node} {op : BinaryOp} {ty : Ty}
    (isExpr : node.expr = .binary op left right ty) (short : op = .andAlso ∨ op = .orElse)
    (first : left.Attains host naming slots env (.bool (op == .orElse)) enough) :
    node.Attains host naming slots env (.bool (op == .orElse)) (enough + 1) := by
  refine .succ fun limit room stored store same named slotsSame => ?_
  rw [Evaluation.ofNode_shortCircuit isExpr short]
  refine .truthThen same named slotsSame limit room first fun store named slotsSame => ?_
  rw [if_pos rfl]
  exact .comes rfl named slotsSame

theorem Node.Attains.right {left right : Node} {op : BinaryOp} {ty : Ty} {b : Bool}
    (isExpr : node.expr = .binary op left right ty) (short : op = .andAlso ∨ op = .orElse)
    (first : left.Attains host naming slots env (.bool !(op == .orElse)) enough)
    (second : right.Attains host naming slots env (.bool b) enough) :
    node.Attains host naming slots env (.bool b) (enough + 1) := by
  refine .succ fun limit room stored store same named slotsSame => ?_
  rw [Evaluation.ofNode_shortCircuit isExpr short]
  refine .truthThen same named slotsSame limit room first fun store named slotsSame => ?_
  rw [if_neg (by simp)]
  refine .truthThen same named slotsSame limit room second fun store named slotsSame => ?_
  exact .comes rfl named slotsSame

theorem Node.Attains.condition {test ifTrue ifFalse : Node} {ty : Ty} {b : Bool} {v : Value}
    (isExpr : node.expr = .condition test ifTrue ifFalse ty)
    (tested : test.Attains host naming slots env (.bool b) enough)
    (chosen : (if b then ifTrue else ifFalse).Attains host naming slots env v enough) :
    node.Attains host naming slots env v (enough + 1) := by
  refine .succ fun limit room stored store same named slotsSame => ?_
  rw [Evaluation.ofNode_condition isExpr]
  refine .truthThen same named slotsSame limit room tested fun store named slotsSame => ?_
  exact chosen limit room stored store same named slotsSame

/-- One bound is enough for the operands of `any` and for its predicate on every item. -/
theorem exists_common_any {items predicate : Node} {vs : List Value} {sequence p : Value}
    (listed : ∃ enough, items.Attains host naming slots env sequence enough)
    (callable : ∃ enough, predicate.Attains host naming slots env p enough)
    (each : ∀ v ∈ vs, ∀ body scope, p.callTarget [v] = .ok (body, scope) →
      ∃ enough, body.Attains host naming slots scope (.bool false) enough) :
    ∃ enough, items.Attains host naming slots env sequence enough ∧
      predicate.Attains host naming slots env p enough ∧
      ∀ v ∈ vs, ∀ body scope, p.callTarget [v] = .ok (body, scope) →
        body.Attains host naming slots scope (.bool false) enough := by
  obtain ⟨enoughItems, listed⟩ := listed
  obtain ⟨enoughPredicate, callable⟩ := callable
  obtain ⟨enoughBodies, bodies⟩ : ∃ enough, ∀ v ∈ vs, ∀ body scope,
      p.callTarget [v] = .ok (body, scope) →
        body.Attains host naming slots scope (.bool false) enough := by
    refine exists_common (fun v enough => ∀ body scope, p.callTarget [v] = .ok (body, scope) →
      body.Attains host naming slots scope (.bool false) enough)
        (fun le attains body scope calls => (attains body scope calls).mono le) ?_
    intro v member
    rcases calls : p.callTarget [v] with e | ⟨body, scope⟩
    · exact ⟨0, nofun⟩
    · obtain ⟨enough, attains⟩ := each v member body scope calls
      refine ⟨enough, fun body' scope' again => ?_⟩
      cases again
      exact attains
  refine ⟨max (max enoughItems enoughPredicate) enoughBodies, listed.mono (by omega),
    callable.mono (by omega), fun v member body scope calls => ?_⟩
  exact (bodies v member body scope calls).mono (by omega)

end

/-- The body that the predicate of `any` applies is part of the tree. -/
theorem Expr.Ready.body {host : Host} {naming : Nat → Reader} {slots : List (Nat × Value)}
    {subs : Substitutes} {node items predicate body : Node} {env scope : Env} {args : List Value}
    {p : Value} (ready : node.All (·.Ready subs.registered naming)) (isAny : node.expr.isAny = true)
    (children : node.expr.children = [items, predicate])
    (callable : Evaluates host slots subs predicate env p)
    (calls : p.callTarget args = .ok (body, scope)) :
    body.All (·.Ready subs.registered naming) := by
  obtain ⟨l, isLambda⟩ := ready.here.inPlace predicate isAny (by rw [children]; rfl)
  cases callable.eq_closure isLambda
  obtain ⟨-, rfl, -⟩ := Value.callTarget_closure.mp calls
  have member : predicate ∈ node.expr.children := by
    rw [children]
    exact .tail _ (.head _)
  have below := ready.child member
  exact below.child (by rw [isLambda]; exact .head _)

/-- A tree has the value that it means whenever there are enough levels for it. -/
theorem Evaluates.attains {host : Host} (ignores : host.IgnoresStorage) {naming : Nat → Reader}
    {slots : List (Nat × Value)} {subs : Substitutes} {node : Node} {env : Env} {w : Value}
    (evaluates : Evaluates host slots subs node env w)
    (ready : node.All (·.Ready subs.registered naming)) :
    ∃ enough, node.Attains host naming slots env w enough := by
  -- one level more is enough for a node than is enough for all that it has evaluated
  induction evaluates with
  | @parameter node env param v isExpr found =>
    refine ⟨1, .succ fun limit room stored store same named slotsSame => ?_⟩
    subst same
    rw [Env.lookup_unpaged] at found
    obtain ⟨u, bound, isValue⟩ := Option.map_eq_some_iff.mp found
    simp only [Evaluation.ofNode, isExpr, bound]
    exact .comes isValue named slotsSame
  | @lambda node env l isExpr =>
    refine ⟨1, .succ fun limit room stored store same named slotsSame => ?_⟩
    simp only [Evaluation.ofNode, isExpr]
    exact .comes (by rw [Value.unpaged_closure, same]) named slotsSame
  | @strict node env vs w _ strict lengths _ settled finished ih =>
    obtain ⟨enough, each⟩ : ∃ enough, ∀ pair ∈ node.expr.children.zip vs,
        pair.1.Attains host naming slots env pair.2 enough := by
      refine exists_common (fun (pair : Node × Value) enough =>
        pair.1.Attains host naming slots env pair.2 enough) Node.Attains.mono ?_
      rintro ⟨child, v⟩ member
      obtain ⟨place, atPair⟩ := List.mem_iff_getElem?.mp member
      obtain ⟨atChild, atValue⟩ := List.getElem?_zip_eq_some.mp atPair
      exact ih place child v atChild atValue (ready.child (List.mem_of_getElem? atChild))
    refine ⟨enough + 1, .succ fun limit room stored store same named slotsSame => ?_⟩
    rw [Evaluation.ofNode_strict strict]
    refine .allThen same named slotsSame limit room lengths each ?_
    intro us after areValues named slotsSame
    exact .finish named slotsSame ignores strict ready.here.named areValues settled finished
  | applied expandable _ _ _ _ _ _ =>
    rw [ready.here.kept] at expandable
    cases expandable
  | @anyFails node items predicate env vs p _ isAny children _ callable targets _ ihItems
      ihPredicate ihFails =>
    obtain ⟨enough, sequence, predicate, fails⟩ := exists_common_any
      (ihItems (ready.child (by rw [children]; exact .head _)))
      (ihPredicate (ready.child (by rw [children]; exact .tail _ (.head _))))
      fun v member body scope calls =>
        ihFails v member body scope calls (.body ready isAny children callable calls)
    exact ⟨enough + 1, .anyFails isAny children sequence predicate targets fails⟩
  | @anyPasses node items predicate body env scope tried rest v p _ isAny children _ callable
      targets _ target _ ihItems ihPredicate ihFails ihPasses =>
    obtain ⟨enough, sequence, predicate, fails⟩ := exists_common_any
      (ihItems (ready.child (by rw [children]; exact .head _)))
      (ihPredicate (ready.child (by rw [children]; exact .tail _ (.head _))))
      fun v member body scope calls =>
        ihFails v member body scope calls (.body ready isAny children callable calls)
    obtain ⟨enoughLast, last⟩ := ihPasses (.body ready isAny children callable target)
    have before := Nat.le_max_left enough enoughLast
    refine ⟨max enough enoughLast + 1, .anyPasses isAny children (sequence.mono before)
      (predicate.mono before) targets ?_ target (last.mono (Nat.le_max_right _ _))⟩
    exact fun v member body scope calls => (fails v member body scope calls).mono before
  | @left node left right env op ty isExpr short _ ihLeft =>
    obtain ⟨enough, first⟩ := ihLeft (ready.child (by rw [isExpr]; exact .head _))
    exact ⟨enough + 1, .left isExpr short first⟩
  | @right node left right env op ty b isExpr short _ _ ihLeft ihRight =>
    obtain ⟨enoughLeft, first⟩ := ihLeft (ready.child (by rw [isExpr]; exact .head _))
    obtain ⟨enoughRight, second⟩ := ihRight (ready.child (by rw [isExpr]; exact .tail _ (.head _)))
    exact ⟨max enoughLeft enoughRight + 1, .right isExpr short (first.mono (Nat.le_max_left _ _))
      (second.mono (Nat.le_max_right _ _))⟩
  | @condition node test ifTrue ifFalse env ty b v isExpr _ _ ihTest ihChosen =>
    obtain ⟨enoughTest, tested⟩ := ihTest (ready.child (by rw [isExpr]; exact .head _))
    obtain ⟨enoughChosen, chosen⟩ := ihChosen (ready.child (by
      rw [isExpr]
      cases b with
      | true => exact .tail _ (.head _)
      | false => exact .tail _ (.tail _ (.head _))))
    exact ⟨max enoughTest enoughChosen + 1, .condition isExpr
      (tested.mono (Nat.le_max_left _ _)) (chosen.mono (Nat.le_max_right _ _))⟩

end TypedTrees
