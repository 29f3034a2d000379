import TypedTrees.Eval.BasicHost
import TypedTrees.Proofs.Expansion.Settled
import TypedTrees.Proofs.Tree.Parts
/-!
The lambdas that an expansion can come upon. A lambda tree reaches a tree through the constants in
it, through static slots or through the registry, and from there through the constants in lambdas
that have been reached. What a tree denotes holds no other lambdas than its nodes give access to
(`Node.good_of_settled`), so whatever an expansion puts in place of a call is among those reached
(`Sources.held_of_referenced`).
-/
namespace TypedTrees

/-- The lambda is the value itself, held as data, or can be read off it through fields and computed
properties. -/
inductive Value.Holds (host : Host) (l : Lambda) : Value → Prop
  | here : Holds host l (.tree l)
  | field {typeName name : String} {table : FieldTable Value} {v : Value}
      (member : table.fields.lookup name = some v) (rest : Holds host l v) :
      Holds host l (.record typeName table)
  | property {getter : Getter} {v w : Value} (has : getter.read host v = some w)
      (rest : Holds host l w) : Holds host l v

/-- With the basic host only a lambda tree and a record hold lambdas, and a lambda tree holds none
but itself. -/
theorem Value.Holds.basic {l : Lambda} {v : Value} (holds : v.Holds .basic l) :
    v = .tree l ∨ ∃ typeName table, v = .record typeName table := by
  induction holds with
  | here => exact .inl rfl
  | field _ _ _ => exact .inr ⟨_, _, rfl⟩
  | @property getter v w has _ ih =>
    cases getter with
    | length =>
      cases v with
      | str s =>
        cases has
        rcases ih with is | ⟨_, _, is⟩ <;> cases is
      | _ => cases has
    | host name =>
      simp only [Getter.read, Host.basic, Host.basicProperty] at has
      split at has
      · cases has
        exact ih
      · cases has
        rcases ih with is | ⟨_, _, is⟩ <;> cases is
      · cases has

def Expr.HoldsOnly (host : Host) (good : Lambda → Prop) (expr : Expr) : Prop :=
  ∀ v ty, expr = .constant v ty → ∀ l, v.Holds host l → good l

theorem Expr.HoldsOnly.withChildren {host : Host} {good : Lambda → Prop} {expr : Expr}
    (only : expr.HoldsOnly host good) (trees : List Node) :
    (expr.withChildren trees).HoldsOnly host good := by
  intro v ty isConstant
  exact only v ty (Expr.withChildren_eq_constant.mp isConstant)

/-- A value that a member has on a target is what a slot holds, or holds nothing but what the target
holds. -/
theorem Store.holds_of_read {host : Host} {member : Member} {target : Option Value} {v : Value}
    {store after : Store} (read : store.read host member target = (some v, after)) :
    (∃ id, (store.readerOf member).1 = .slot id ∧ store.slots.lookup id = some v) ∨
      ∃ t, target = some t ∧ ∀ l, v.Holds host l → t.Holds host l := by
  simp only [Store.read, readerOf_slots, Prod.mk.injEq] at read
  obtain ⟨found, -⟩ := read
  cases reader : (store.readerOf member).1 with
  | slot id =>
    rw [reader] at found
    exact .inl ⟨id, rfl, found⟩
  | property getter =>
    rw [reader] at found
    obtain ⟨t, rfl, has⟩ := Option.bind_eq_some_iff.mp found
    exact .inr ⟨t, rfl, fun _ => .property has⟩
  | field name =>
    rw [reader] at found
    rcases target with _ | t
    · cases found
    · cases t with
      | record typeName table => exact .inr ⟨_, rfl, fun _ => .field found⟩
      | _ => cases found

/-- The node gives access to the lambda: as a constant that holds it, or as a member that is read
from a slot that holds it. -/
inductive Expr.Gives (host : Host) (store : Store) (l : Lambda) : Expr → Prop
  | constant {v : Value} {ty : Ty} (holds : v.Holds host l) : Gives host store l (.constant v ty)
  | slot {target : Option Node} {m : Member} {id : Nat} {v : Value}
      (reads : (store.readerOf m).1 = .slot id) (found : store.slots.lookup id = some v)
      (holds : v.Holds host l) : Gives host store l (.member target m)

def Expr.GivesOnly (host : Host) (store : Store) (good : Lambda → Prop) (expr : Expr) : Prop :=
  ∀ l, expr.Gives host store l → good l

theorem Expr.GivesOnly.withChildren {host : Host} {store : Store} {good : Lambda → Prop}
    {expr : Expr} (only : expr.GivesOnly host store good) (trees : List Node) :
    (expr.withChildren trees).GivesOnly host store good := by
  intro l gives
  refine only l ?_
  cases expr with
  | constant v ty => exact gives
  | member target m =>
    cases target with
    | none => exact gives
    | some target =>
      cases gives with
      | slot reads found holds => exact .slot reads found holds
  | call receiver callee args ty => cases receiver <;> cases gives
  | _ => cases gives

/-- A value that a tree denotes in a store where its members have their readers holds nothing but
what the nodes of the tree give access to. -/
theorem Node.good_of_settled {host : Host} {good : Lambda → Prop} {node : Node} {store : Store}
    {v : Value} (only : node.All (·.GivesOnly host store good))
    (settled : node.denoted? host store = (some v, store)) : ∀ l, v.Holds host l → good l := by
  induction node using Node.induction generalizing v with
  | node node ih =>
    intro l holds
    obtain ⟨mark, expr⟩ := node
    cases expr with
    | constant w ty =>
      rw [denoted?] at settled
      cases settled
      exact only.here l (.constant holds)
    | member target m =>
      have fromSlot : ∀ {target}, store.read host m target = (some v, store) →
          (∀ t, target = some t → ∀ l, t.Holds host l → good l) → good l := by
        intro target read onTarget
        rcases Store.holds_of_read read with ⟨id, reads, found⟩ | ⟨t, isTarget, inTarget⟩
        · exact only.here l (.slot reads found holds)
        · exact onTarget t isTarget l (inTarget l holds)
      cases target with
      | none =>
        rw [denoted?] at settled
        split at settled
        · exact fromSlot settled (fun _ is => by cases is)
        · cases settled
      | some target =>
        have child : target ∈ (mk mark (.member (some target) m)).expr.children := by
          simp [Node.expr, Expr.children]
        rw [denoted?] at settled
        split at settled
        · exact fromSlot settled (fun _ is => by cases is)
        · rcases below : target.denoted? host store with ⟨_ | t, middle⟩
          · rw [below] at settled
            cases settled
          · rw [below] at settled
            simp only at settled
            split at settled
            · cases settled
            · -- the target has left the store alone, since the read after it has
              have kept : middle.Precedes store := by
                have precedes := @Store.precedes_read host m (some t) middle
                rwa [settled] at precedes
              have there := @Node.denoted?_later host target store store
              rw [below] at there
              obtain rfl : middle = store := (Prod.mk.inj (there kept)).2
              refine fromSlot settled fun t' isTarget => ?_
              cases isTarget
              exact ih target child (only.child child) below
    | _ =>
      rw [denoted?] at settled
      all_goals cases settled

/-- A value that a tree denotes holds nothing but what the constants of the tree hold and what the
slots hold. -/
theorem Node.good_of_denoted {host : Host} {good : Lambda → Prop} {node : Node}
    {store after : Store} {v : Value} (constants : node.All (·.HoldsOnly host good))
    (slots : ∀ id w, store.slots.lookup id = some w → ∀ l, w.Holds host l → good l)
    (denotes : node.denoted? host store = (some v, after)) :
    ∀ l, v.Holds host l → good l := by
  have kept := (node.precedes_denoted? host store).slots
  have settled := @Node.denoted?_later host node store after
  rw [denotes] at settled kept
  refine Node.good_of_settled (fun part inTree l gives => ?_) (settled (.refl after))
  have here := constants part inTree
  generalize part.expr = expr at gives here
  cases gives with
  | constant holds => exact here _ _ rfl l holds
  | slot _ found holds => exact slots _ _ (kept ▸ found) l holds

/-- What an expansion starts from: the tree, the contents of the static slots, and the lambdas that
functions stand for. -/
structure Sources where
  host : Host
  slots : List (Nat × Value)
  quotes : Function → Option Lambda
  tree : Node

namespace Sources

/-- The lambda trees of the sources: those that slots hold, those that functions stand for, and
those that constants hold in the tree or in the body of such a lambda. -/
inductive Held (sources : Sources) : Lambda → Prop
  | constant {l : Lambda} {part : Node} {v : Value} {ty : Ty} (inTree : part.Subtree sources.tree)
      (isConstant : part.expr = .constant v ty) (holds : v.Holds sources.host l) : Held sources l
  | slot {l : Lambda} {id : Nat} {v : Value} (found : sources.slots.lookup id = some v)
      (holds : v.Holds sources.host l) : Held sources l
  | quoted {l : Lambda} {f : Function} (found : sources.quotes f = some l) : Held sources l
  | nested {l k : Lambda} {part : Node} {v : Value} {ty : Ty} (held : Held sources k)
      (inBody : part.Subtree k.body) (isConstant : part.expr = .constant v ty)
      (holds : v.Holds sources.host l) : Held sources l

theorem Held.body {sources : Sources} {l : Lambda} (held : sources.Held l) :
    l.body.All (·.HoldsOnly sources.host sources.Held) :=
  fun _ inBody _ _ isConstant _ holds => .nested held inBody isConstant holds

/-- The lambdas of the sources are good if those are that constants hold in the tree, slots hold or
functions stand for, and if the constants in the body of a good one hold good ones only. -/
theorem Held.of_payloads {sources : Sources} {good : Lambda → Prop}
    (tree : ∀ v ∈ sources.tree.payloads, ∀ l, v.Holds sources.host l → good l)
    (slots : ∀ id v, sources.slots.lookup id = some v → ∀ l, v.Holds sources.host l → good l)
    (quotes : ∀ f l, sources.quotes f = some l → good l)
    (bodies : ∀ k, good k → ∀ v ∈ k.body.payloads, ∀ l, v.Holds sources.host l → good l)
    {l : Lambda} (held : sources.Held l) : good l := by
  induction held with
  | constant inTree isConstant holds =>
    exact tree _ (Node.mem_payloads inTree isConstant) _ holds
  | slot found holds => exact slots _ _ found _ holds
  | quoted found => exact quotes _ _ found
  | nested _ inBody isConstant holds ih =>
    exact bodies _ ih _ (Node.mem_payloads inBody isConstant) _ holds

theorem held_of_tree (sources : Sources) :
    sources.tree.All (·.HoldsOnly sources.host sources.Held) :=
  fun _ inTree _ _ isConstant _ holds => .constant inTree isConstant holds

/-- The lambda that a call refers to is one of the sources. -/
theorem held_of_referenced {sources : Sources} {registry : Nat} {session after : Session}
    {call : Node} {callee : Callee} {args : List Node} {l : Lambda}
    (slots : session.store.slots = sources.slots)
    (quotes : ∀ f l, (after.registry registry).quoted? f = some l → sources.quotes f = some l)
    (constants : ∀ arg ∈ args, arg.All (·.HoldsOnly sources.host sources.Held))
    (refers : session.referenced sources.host registry call callee args = (.ok (some l), after)) :
    sources.Held l := by
  cases callee with
  | function f => exact .quoted (quotes f l (Session.quoted?_of_quotedBody refers))
  | invoke shape =>
    cases args with
    | nil => cases refers
    | cons holder rest =>
      simp only [Session.referenced] at refers
      rcases denotes : holder.denoted? sources.host session.store with ⟨found, store⟩
      rw [denotes] at refers
      simp only at refers
      split at refers
      · cases refers
        refine Node.good_of_denoted (constants holder (.head _)) ?_ denotes l .here
        intro id w inSlot k holds
        exact .slot (slots ▸ inSlot) holds
      · cases refers

end Sources

end TypedTrees
