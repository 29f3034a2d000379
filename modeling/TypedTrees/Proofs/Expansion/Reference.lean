import TypedTrees.Proofs.Eval.Congruence
import TypedTrees.Proofs.Expansion.Sources
/-!
What a call to expand refers to, and what it means. The value that a holder denotes without being
evaluated is the one that it has when it is evaluated (`Node.denoted_evaluates`), so the lambda that
an expansion puts in place of a call is the lambda that the call applies
(`Session.referenced_applies`). It is among those that the trees in play reach.
-/
namespace TypedTrees

/-- The node gives access to the lambda: as a constant that holds it, or as a read of a static
member whose slot holds it. -/
inductive Expr.Offers (host : Host) (slots : List (Nat × Value)) (l : Lambda) : Expr → Prop
  | constant {v : Value} {ty : Ty} (holds : v.Holds host l) : Offers host slots l (.constant v ty)
  | slot {target : Option Node} {m : Member} {v : Value} (isStatic : m.isStatic = true)
      (found : slots.lookup m.id = some v) (holds : v.Holds host l) :
      Offers host slots l (.member target m)

/-- The lambda trees that can be reached from the tree: those that it gives access to, those that
functions stand for, and those that the bodies of such lambdas give access to. -/
inductive Sources.Reached (sources : Sources) : Lambda → Prop
  | tree {l : Lambda} {part : Node} (inTree : part.Subtree sources.tree)
      (offers : part.expr.Offers sources.host sources.slots l) : Reached sources l
  | quoted {l : Lambda} {f : Function} (found : sources.quotes f = some l) : Reached sources l
  | nested {l k : Lambda} {part : Node} (reached : Reached sources k) (inBody : part.Subtree k.body)
      (offers : part.expr.Offers sources.host sources.slots l) : Reached sources l

theorem Sources.Reached.held {sources : Sources} {l : Lambda} (reached : sources.Reached l) :
    sources.Held l := by
  induction reached with
  | @tree l part inTree offers =>
    generalize isExpr : part.expr = expr at offers
    cases offers with
    | constant holds => exact .constant inTree isExpr holds
    | slot _ found holds => exact .slot found holds
  | quoted found => exact .quoted found
  | @nested l k part _ inBody offers ih =>
    generalize isExpr : part.expr = expr at offers
    cases offers with
    | constant holds => exact .nested ih inBody isExpr holds
    | slot _ found holds => exact .slot found holds

/-- The node gives access to good lambdas only, and its member is read as its name says. -/
structure Expr.Sound (host : Host) (slots : List (Nat × Value)) (naming : Nat → Reader)
    (good : Lambda → Prop) (expr : Expr) : Prop where
  named : expr.NamedBy naming
  offers : ∀ l, expr.Offers host slots l → good l

theorem Expr.Sound.withChildren {host : Host} {slots : List (Nat × Value)} {naming : Nat → Reader}
    {good : Lambda → Prop} {expr : Expr} (sound : expr.Sound host slots naming good)
    (trees : List Node) : (expr.withChildren trees).Sound host slots naming good where
  named := Expr.namedBy_withChildren sound.named trees
  offers := by
    intro l offers
    refine sound.offers l ?_
    cases expr with
    | constant v ty => exact offers
    | member target m =>
      cases target with
      | none => exact offers
      | some target =>
        cases offers with
        | slot isStatic found holds => exact .slot isStatic found holds
    | call receiver callee args ty => cases receiver <;> cases offers
    | _ => cases offers

namespace Store

variable {host : Host} {naming : Nat → Reader} {store : Store} {m : Member} {target : Option Value}

theorem readMember_ok (named : store.Named naming) (name : naming m.id = .of m) {v : Value}
    (reads : (store.readMember host m target).1 = .ok v) :
    (Reader.of m).read host store.slots target = some v := by
  rw [← (read_named named name).1]
  rw [readMember.eq_def] at reads
  split at reads
  · cases reads
  · simp only at reads
    split at reads
    · rename_i found
      rw [found]
      cases reads
      rfl
    · cases reads

end Store

section

variable {host : Host} {slots : List (Nat × Value)} {subs : Substitutes} {node : Node} {env : Env}
  {w : Value}

theorem Evaluates.strict_inv (strict : node.expr.isStrict = true)
    (kept : node.expr.isExpandable subs.registered = false)
    (evaluates : Evaluates host slots subs node env w) :
    ∃ vs u, vs.length = node.expr.children.length ∧
      (∀ (place : Nat) (child : Node) (v : Value), node.expr.children[place]? = some child →
        vs[place]? = some v → Evaluates host slots subs child env v) ∧
      (node.expr.finish host vs (.bare slots)).1 = .ok u ∧ w = u.unpaged := by
  have noAny := Expr.isAny_of_isStrict strict
  cases evaluates with
  | @strict _ _ vs u _ _ lengths each _ finished => exact ⟨vs, u, lengths, each, finished, rfl⟩
  | parameter is _ => cases is ▸ strict
  | lambda is => cases is ▸ strict
  | applied expandable _ _ _ _ _ => cases kept.symm.trans expandable
  | anyFails _ isAny _ _ _ _ _ => cases noAny.symm.trans isAny
  | anyPasses _ isAny _ _ _ _ _ _ _ => cases noAny.symm.trans isAny
  | left is short _ =>
    rw [is] at strict
    rcases short with rfl | rfl <;> cases strict
  | right is short _ _ =>
    rw [is] at strict
    rcases short with rfl | rfl <;> cases strict
  | condition is _ _ => cases is ▸ strict

theorem Evaluates.applied_inv (expandable : node.expr.isExpandable subs.registered = true)
    (evaluates : Evaluates host slots subs node env w) :
    ∃ vs l passed, vs.length = node.expr.args.length ∧
      (∀ (place : Nat) (arg : Node) (v : Value), node.expr.args[place]? = some arg →
        vs[place]? = some v → Evaluates host slots subs arg env v) ∧
      node.expr.applies subs vs = some (l, passed) ∧
      Evaluates host slots subs l.body (l.scope [] passed) w := by
  cases evaluates with
  | @applied _ _ l vs passed _ _ lengths each applies _ body =>
    exact ⟨vs, l, passed, lengths, each, applies, body⟩
  | strict kept _ _ _ _ _ => cases kept.symm.trans expandable
  | anyFails kept _ _ _ _ _ _ => cases kept.symm.trans expandable
  | anyPasses kept _ _ _ _ _ _ _ _ => cases kept.symm.trans expandable
  | parameter is _ => cases is ▸ expandable
  | lambda is => cases is ▸ expandable
  | left is _ _ => cases is ▸ expandable
  | right is _ _ _ => cases is ▸ expandable
  | condition is _ _ => cases is ▸ expandable

/-- The value holds good lambdas only, and the node has it when it is evaluated. -/
structure Denotes (host : Host) (slots : List (Nat × Value)) (subs : Substitutes)
    (good : Lambda → Prop) (env : Env) (node : Node) (v : Value) : Prop where
  holds : ∀ l, v.Holds host l → good l
  evaluates : ∀ w, Evaluates host slots subs node env w → w = v.unpaged

section Member

variable {naming : Nat → Reader} {good : Lambda → Prop} {store : Store} {m : Member} {v : Value}
  (named : store.Named naming) (same : store.slots = slots)

include named same

/-- A static member is read off its slot, whatever its target. -/
theorem Denotes.static {target : Option Node} (isExpr : node.expr = .member target m)
    (sound : node.expr.Sound host slots naming good) (isStatic : m.isStatic = true)
    (found : (store.read host m none).1 = some v) : Denotes host slots subs good env node v := by
  rw [isExpr] at sound
  have slot : Reader.of m = .slot m.id := by
    have kind : m.kind = .slot := eq_of_beq isStatic
    rw [Reader.of, kind]
  rw [(Store.read_named named (sound.named target m rfl)).1, slot, same] at found
  refine ⟨fun l holds => sound.offers l (.slot isStatic found holds), fun w evaluates => ?_⟩
  obtain ⟨vs, u, lengths, -, finished, rfl⟩ :=
    evaluates.strict_inv (by rw [isExpr]; rfl) (by rw [isExpr]; rfl)
  rw [isExpr] at lengths finished
  have reads : ∀ target, ((Store.bare slots).readMember host m target).1 = .ok u → u = v := by
    intro target reads
    have comes := Store.readMember_ok (Store.bare_named (fun _ => .of m) slots) rfl reads
    rw [slot] at comes
    exact Option.some.inj (comes.symm.trans found)
  cases target with
  | none => rw [reads none finished]
  | some target =>
    obtain ⟨t, rfl⟩ := List.length_eq_one_iff.mp lengths
    rw [reads (some t) finished]

/-- A member is read off what its target denotes. -/
theorem Denotes.member {target : Node} {t : Value} (ignores : host.IgnoresStorage)
    (isExpr : node.expr = .member (some target) m) (name : naming m.id = .of m)
    (noSlot : ¬m.isStatic = true) (onTarget : Denotes host slots subs good env target t)
    (found : (store.read host m (some t)).1 = some v) :
    Denotes host slots subs good env node v := by
  rw [(Store.read_named named name).1, same] at found
  constructor
  · intro l holds
    refine onTarget.holds l ?_
    cases kind : m.kind with
    | slot => exact absurd (beq_iff_eq.mpr kind) noSlot
    | property getter =>
      simp only [Reader.of, kind] at found
      exact .property found holds
    | field =>
      simp only [Reader.of, kind] at found
      cases t with
      | record typeName table => exact .field found holds
      | _ => cases found
  · intro w evaluates
    obtain ⟨vs, u, lengths, each, finished, rfl⟩ :=
      evaluates.strict_inv (by rw [isExpr]; rfl) (by rw [isExpr]; rfl)
    rw [isExpr] at lengths each finished
    obtain ⟨t', rfl⟩ := List.length_eq_one_iff.mp lengths
    cases onTarget.evaluates t' (each 0 target t' rfl rfl)
    have comes : (Reader.of m).read host slots (some t.unpaged) = some u :=
      Store.readMember_ok (Store.bare_named (fun _ => .of m) slots) rfl finished
    have told := Reader.read_unpaged ignores (Reader.of m) slots (some t)
    rw [Option.map_some, comes, found] at told
    exact Option.some.inj told

end Member

/-- What a tree denotes it has as its value when it is evaluated. -/
theorem Node.denoted_evaluates {naming : Nat → Reader} {good : Lambda → Prop} {store : Store}
    (ignores : host.IgnoresStorage) (sound : node.All (·.Sound host slots naming good))
    (named : store.Named naming) (same : store.slots = slots) :
    (node.denoted? host store).2.Named naming ∧ ∀ v, (node.denoted? host store).1 = some v →
      Denotes host slots subs good env node v := by
  induction node using Node.induction with
  | node node ih =>
    obtain ⟨mark, expr⟩ := node
    cases expr with
    | constant u ty =>
      rw [denoted?]
      refine ⟨named, fun v is => ?_⟩
      cases is
      refine ⟨fun l holds => sound.here.offers l (.constant holds), fun w evaluates => ?_⟩
      obtain ⟨vs, v, -, -, finished, rfl⟩ := evaluates.strict_inv rfl rfl
      cases finished
      rfl
    | member target m =>
      have name := sound.here.named target m rfl
      by_cases isStatic : m.isStatic = true
      · have read : (mk mark (.member target m)).denoted? host store = store.read host m none := by
          rw [denoted?.eq_def]
          simp only [if_pos isStatic]
        rw [read]
        exact ⟨(Store.read_named named name).2,
          fun v found => .static named same rfl sound.here isStatic found⟩
      · cases target with
        | none =>
          rw [denoted?, if_neg isStatic]
          exact ⟨named, fun _ found => by cases found⟩
        | some target =>
          have child : target ∈ (mk mark (.member (some target) m)).expr.children := by
            simp [Node.expr, Expr.children]
          obtain ⟨below, onTarget⟩ := ih target child (sound.child child)
          have kept := (target.precedes_denoted? host store).slots
          rw [denoted?, if_neg isStatic]
          generalize target.denoted? host store = result at below onTarget kept
          obtain ⟨_ | t, middle⟩ := result
          · exact ⟨below, fun _ found => by cases found⟩
          · simp only
            split
            · exact ⟨below, fun _ found => by cases found⟩
            · refine ⟨(Store.read_named below name).2, fun v found => ?_⟩
              exact .member below (kept.trans same) ignores rfl name isStatic (onTarget t rfl) found
    | _ =>
      simp only [denoted?]
      exact ⟨named, fun _ found => by cases found⟩

/-- A call to expand applies the lambda that an expansion puts in its place to the values of the
arguments that it puts in for the parameters. -/
structure Applies (host : Host) (slots : List (Nat × Value)) (subs : Substitutes) (env : Env)
    (l : Lambda) (args : List Node) (vs : List Value) (w : Value) : Prop where
  lengths : vs.length = args.length
  each : ∀ (place : Nat) (arg : Node) (v : Value), args[place]? = some arg → vs[place]? = some v →
    Evaluates host slots subs arg env v
  body : Evaluates host slots subs l.body (l.scope [] vs) w

/-- The lambda that a call refers to is good, and it is the one that the call applies. -/
theorem Session.referenced_applies {naming : Nat → Reader} {good : Lambda → Prop} {registry : Nat}
    {session after : Session} {call : Node} {receiver : Option Node} {callee : Callee}
    {args : List Node} {ty : Ty} {l : Lambda} (ignores : host.IgnoresStorage)
    (isCall : call.expr = .call receiver callee args ty)
    (sound : ∀ arg ∈ args, arg.All (·.Sound host slots naming good))
    (named : session.store.Named naming) (same : session.store.slots = slots)
    (expandable : call.expr.isExpandable subs.registered = true)
    (quotes : ∀ f l, (after.registry registry).quoted? f = some l → subs.quoted f = some l)
    (quoted : ∀ f l, subs.quoted f = some l → good l)
    (refers : session.referenced host registry call callee args = (.ok (some l), after)) :
    after.store.Named naming ∧ good l ∧ ∀ env w, Evaluates host slots subs call env w →
      ∃ vs, Applies host slots subs env l (callee.passed args) vs w := by
  cases callee with
  | function f =>
    rw [Session.referenced, quotedBody] at refers
    have readers := lookUpWithin_readers session.keys registry f session
    rw [refers] at readers
    have stands := quotes f l (quoted?_of_quotedBody refers)
    refine ⟨fun id reader found => named id reader (readers ▸ found), quoted f l stands, ?_⟩
    intro env w evaluates
    obtain ⟨vs, k, passed, lengths, each, applies, body⟩ := evaluates.applied_inv expandable
    rw [isCall] at lengths each applies
    simp only [Expr.applies, stands, Option.map_some, Option.some.injEq, Prod.mk.injEq] at applies
    obtain ⟨rfl, rfl⟩ := applies
    exact ⟨vs, lengths, each, body⟩
  | invoke shape =>
    cases args with
    | nil => cases refers
    | cons holder rest =>
      have denotes : ∀ env, (holder.denoted? host session.store).2.Named naming ∧
          ∀ v, (holder.denoted? host session.store).1 = some v →
            Denotes host slots subs good env holder v :=
        fun env => Node.denoted_evaluates ignores (sound holder (.head _)) named same
      simp only [Session.referenced] at refers
      generalize holder.denoted? host session.store = result at denotes refers
      obtain ⟨found, store⟩ := result
      simp only at refers
      split at refers
      · cases refers
        refine ⟨(denotes []).1, ((denotes []).2 _ rfl).holds l .here, fun env w evaluates => ?_⟩
        obtain ⟨vs, k, passed, lengths, each, applies, body⟩ := evaluates.applied_inv expandable
        rw [isCall] at lengths each applies
        cases vs with
        | nil => cases lengths
        | cons v vs =>
          -- the holder has the value that it denotes
          cases ((denotes env).2 _ rfl).evaluates v (each 0 holder v rfl rfl)
          simp only [Value.unpaged_tree, Expr.applies, Option.some.injEq, Prod.mk.injEq] at applies
          obtain ⟨rfl, rfl⟩ := applies
          refine ⟨vs, Nat.succ.inj lengths, fun place arg u atArg atValue => ?_, body⟩
          exact each (place + 1) arg u atArg atValue
      · cases refers

end

end TypedTrees
