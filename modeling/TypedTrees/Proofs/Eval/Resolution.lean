import TypedTrees.Proofs.Eval.Refinement
import TypedTrees.Proofs.Eval.Respects
/-!
What a tree denotes without being evaluated, and what it is evaluated to. Both go along the same
chain of member reads, but resolution goes no further than the first static member, while evaluation
starts from the innermost target and refuses a null one. They agree as far as the target of that
static member, which resolution passes over, has a value other than null (`Node.denoted?_agrees`).
-/
namespace TypedTrees

variable {host : Host}

namespace Store

variable {store after : Store} {m : Member} {v : Value}

theorem readMember_eq_ok_iff {target : Option Value} :
    store.readMember host m target = (.ok v, after) ↔
      target ≠ some .null ∧ store.read host m target = (some v, after) := by
  rw [readMember.eq_def]
  split
  · exact ⟨fun fails => (by cases fails), fun both => absurd rfl both.1⟩
  · rename_i present
    rw [and_iff_right fun is => present is]
    rcases store.read host m target with ⟨found, middle⟩
    cases found with
    | none => exact ⟨fun fails => (by cases fails), fun is => (by cases is)⟩
    | some w =>
      simp only [Prod.mk.injEq, Except.ok.injEq, Option.some.injEq]

/-- What is read without a target is read with any. -/
theorem read_target (found : store.read host m none = (some v, after)) (target : Option Value) :
    store.read host m target = (some v, after) := by
  simp only [read, Prod.mk.injEq] at found ⊢
  obtain ⟨found, same⟩ := found
  refine ⟨?_, same⟩
  cases reader : (store.readerOf m).1 with
  | field _ | property _ =>
    rw [reader] at found
    cases found
  | slot id =>
    rw [reader] at found
    exact found

/-- A member that has been read is read by its own reader from then on, on whatever target. -/
theorem read_settled {naming : Nat → Reader} {target : Option Value} (name : naming m.id = .of m)
    (named : store.Named naming) (found : store.read host m target = (some v, after)) :
    after.Named naming ∧ (Reader.of m).read host after.slots target = some v ∧
      ∀ later, after.Precedes later → ∀ target,
        later.read host m target = ((Reader.of m).read host after.slots target, later) := by
  obtain ⟨value, readers⟩ := @read_named naming store m host target named name
  have onward := @precedes_read host m target store
  obtain ⟨own, -⟩ := readerOf_named named name
  have kept : (store.readerOf m).2 = after := congrArg Prod.snd found
  rw [found] at value readers onward
  refine ⟨readers, by rw [onward.slots]; exact value.symm, fun later precedes target => ?_⟩
  simp only [read, readerOf_later (kept ▸ precedes), own, precedes.slots]

end Store

namespace Member

variable {m : Member}

/-- The target does not matter to what is read of a static member. -/
theorem reader_static (isStatic : m.isStatic = true) (slots : List (Nat × Value))
    (target : Option Value) :
    (Reader.of m).read host slots target = (Reader.of m).read host slots none := by
  have kind : m.kind = .slot := eq_of_beq isStatic
  simp only [Reader.of, kind, Reader.read]

theorem reader_targetless {slots : List (Nat × Value)} {v : Value}
    (found : (Reader.of m).read host slots none = some v) : m.isStatic = true := by
  rw [Reader.of] at found
  split at found
  · cases found
  · cases found
  · rename_i kind
    exact beq_iff_eq.mpr kind

end Member

/-- Whether the node is a constant or a member read. -/
def Expr.isRead : Expr → Bool
  | .constant .. | .member .. => true
  | _ => false

section Levels

variable {limit depth mark : Nat} {env : Env} {store after : Store} {v : Value}

theorem evaluateFrom_eq_ok_iff {node : Node} :
    evaluateFrom host limit depth node env store = ⟨.ok v, depth, after⟩ ↔ depth < limit ∧
      Evaluation.ofNode (Evaluation.within host limit (limit - (depth + 1))) host node env store =
        (.ok v, after) := by
  rw [evaluateFrom_eq_within]
  rcases Nat.lt_or_ge depth limit with below | above
  · have levels : limit - depth = (limit - (depth + 1)) + 1 := by omega
    rw [levels, Evaluation.within, and_iff_right below]
    simp only [Evaluated.mk.injEq, true_and, Prod.ext_iff]
  · have levels : limit - depth = 0 := by omega
    rw [levels, Evaluation.within]
    exact ⟨fun fails => (by cases fails), fun both => absurd both.1 (by omega)⟩

/-- An evaluator that gets a value is as it was before. -/
theorem Evaluator.evaluate_eq_ok {sessionLimit : Nat} {evaluator evaluated : Evaluator}
    {node : Node} (run : evaluator.evaluate host sessionLimit node env store =
      (.ok v, evaluated, after)) :
    evaluateFrom host (evaluator.guard.bound sessionLimit) evaluator.guard.current node env store =
      ⟨.ok v, evaluator.guard.current, after⟩ := by
  rw [evaluate, evaluateFrom_eq_within] at run
  obtain ⟨outcome, others⟩ := Prod.mk.inj run
  rw [evaluateFrom_eq_within, ← (Prod.mk.inj others).2, ← outcome]

theorem evaluateFrom_constant_iff {w : Value} {ty : Ty} :
    evaluateFrom host limit depth ⟨mark, .constant w ty⟩ env store = ⟨.ok v, depth, after⟩ ↔
      depth < limit ∧ w = v ∧ store = after := by
  rw [evaluateFrom_eq_ok_iff]
  simp only [Evaluation.ofNode, Node.expr, Prod.mk.injEq, Except.ok.injEq]

theorem evaluateFrom_targetless_iff {m : Member} :
    evaluateFrom host limit depth ⟨mark, .member none m⟩ env store = ⟨.ok v, depth, after⟩ ↔
      depth < limit ∧ store.read host m none = (some v, after) := by
  rw [evaluateFrom_eq_ok_iff]
  simp only [Evaluation.ofNode, Node.expr, Store.readMember_eq_ok_iff]
  simp

/-- A member read has a value if its target has one that is not null, and the member one on it. -/
theorem evaluateFrom_member_iff {target : Node} {m : Member} :
    evaluateFrom host limit depth ⟨mark, .member (some target) m⟩ env store =
        ⟨.ok v, depth, after⟩ ↔
      ∃ t middle, evaluateFrom host limit (depth + 1) target env store =
          ⟨.ok t, depth + 1, middle⟩ ∧
        t ≠ .null ∧ middle.read host m (some t) = (some v, after) := by
  have step : Evaluation.ofNode (Evaluation.within host limit (limit - (depth + 1))) host
      ⟨mark, .member (some target) m⟩ env store = (.ok v, after) ↔
      ∃ t middle, evaluateFrom host limit (depth + 1) target env store =
          ⟨.ok t, depth + 1, middle⟩ ∧
        t ≠ .null ∧ middle.read host m (some t) = (some v, after) := by
    simp only [evaluateFrom_eq_within, Evaluation.ofNode, Node.expr, Evaluated.mk.injEq, true_and]
    rcases Evaluation.within host limit (limit - (depth + 1)) target env store with ⟨e | t, middle⟩
    · refine ⟨fun fails => (by cases fails), ?_⟩
      rintro ⟨_, _, ⟨is, -⟩, -⟩
      cases is
    · rw [Store.readMember_eq_ok_iff, Ne, Option.some.injEq]
      refine ⟨fun reads => ⟨t, middle, ⟨rfl, rfl⟩, reads⟩, ?_⟩
      rintro ⟨_, _, ⟨⟨⟩, rfl⟩, reads⟩
      exact reads
  rw [evaluateFrom_eq_ok_iff, step]
  refine ⟨And.right, fun reads => ⟨?_, reads⟩⟩
  obtain ⟨t, middle, onTarget, -⟩ := reads
  have deeper := (evaluateFrom_eq_ok_iff.mp onTarget).1
  omega

end Levels

namespace Node

/-- The number of nodes that resolution goes through, down to a constant or to the first static
member. -/
def links : Node → Nat
  | .mk _ (.member (some target) m) => if m.isStatic then 1 else target.links + 1
  | _ => 1

/-- The target that resolution passes over: that of the static member at which it ends. -/
def passedOver? : Node → Option Node
  | .mk _ (.member (some target) m) => if m.isStatic then some target else target.passedOver?
  | _ => none

/-- The target that resolution passes over, if there is one, is evaluated to a value other than
null, and leaves the slots as they are. -/
def Passes (host : Host) (limit depth : Nat) (node : Node) (env : Env) (before after : Store) :
    Prop :=
  match node.passedOver? with
  | none => after = before
  | some target => after.slots = before.slots ∧ ∃ w, w ≠ .null ∧
      evaluateFrom host limit depth target env before = ⟨.ok w, depth, after⟩

variable {limit depth : Nat} {node : Node} {env : Env} {store resolved later after : Store}
  {v : Value}

theorem Passes.precedes (passes : node.Passes host limit depth env later after) :
    later.Precedes after := by
  rw [Passes] at passes
  split at passes
  · rw [passes]
    exact .refl later
  · rename_i target _
    obtain ⟨slots, w, -, run⟩ := passes
    refine ⟨slots, fun id reader found => ?_⟩
    rw [evaluateFrom_eq_within] at run
    have kept := @Evaluation.within_readers host limit (limit - depth) target env later id reader
      found
    rwa [(Evaluated.mk.inj run).2.2] at kept

/-- What a tree denotes it is evaluated to from then on. -/
theorem evaluateFrom_of_denoted? (denotes : node.denoted? host store = (some v, resolved))
    (precedes : resolved.Precedes later) (room : depth + node.links ≤ limit)
    (passes : node.Passes host limit (depth + node.links) env later after) :
    evaluateFrom host limit depth node env later = ⟨.ok v, depth, after⟩ := by
  have onward := passes.precedes
  induction node using Node.induction generalizing depth v resolved with
  | node node ih =>
    obtain ⟨mark, expr⟩ := node
    cases expr with
    | constant w ty =>
      rw [denoted?] at denotes
      cases denotes
      simp only [links] at room
      simp only [Passes, passedOver?] at passes
      exact evaluateFrom_constant_iff.mpr ⟨room, rfl, passes.symm⟩
    | member target m =>
      cases target with
      | none =>
        simp only [links] at room
        simp only [Passes, passedOver?] at passes
        subst passes
        rw [denoted?] at denotes
        split at denotes
        · refine evaluateFrom_targetless_iff.mpr ⟨room, ?_⟩
          have settled := @Store.read_later host m none store after
          rw [denotes] at settled
          exact settled precedes
        · cases denotes
      | some target =>
        rw [denoted?] at denotes
        simp only [links] at room
        simp only [Passes, passedOver?, links] at passes
        split at denotes
        · rename_i isStatic
          rw [if_pos isStatic] at passes
          obtain ⟨-, w, notNull, run⟩ := passes
          rw [if_pos isStatic] at run
          have settled := @Store.read_later host m (some w) store after
          rw [Store.read_target denotes (some w)] at settled
          exact evaluateFrom_member_iff.mpr
            ⟨w, after, run, notNull, settled (precedes.trans onward)⟩
        · rename_i noSlot
          rw [if_neg noSlot] at room
          rw [if_neg noSlot, if_neg noSlot] at passes
          have child : target ∈ (mk mark (.member (some target) m)).expr.children := .head _
          rcases below : target.denoted? host store with ⟨_ | t, middle⟩
          · rw [below] at denotes
            cases denotes
          · rw [below] at denotes
            simp only at denotes
            split at denotes
            · cases denotes
            · rename_i notNull
              have read := @Store.precedes_read host m (some t) middle
              have settled := @Store.read_later host m (some t) middle after
              rw [denotes] at read settled
              have levels : depth + (target.links + 1) = depth + 1 + target.links := by omega
              rw [levels] at room passes
              have onTarget := ih target child below (read.trans precedes) room passes
              refine evaluateFrom_member_iff.mpr ⟨t, after, onTarget, ?_, ?_⟩
              · rintro rfl
                exact notNull rfl
              · exact settled (precedes.trans onward)
    | _ =>
      rw [denoted?] at denotes
      all_goals cases denotes

/-- What a tree of constants and member reads is evaluated to it denotes from then on. -/
theorem denoted?_of_evaluateFrom {naming : Nat → Reader} (reads : node.All (·.isRead = true))
    (name : node.All (·.NamedBy naming)) (named : store.Named naming)
    (run : evaluateFrom host limit depth node env store = ⟨.ok v, depth, after⟩) :
    after.Named naming ∧
      ∀ later, after.Precedes later → node.denoted? host later = (some v, later) := by
  induction node using Node.induction generalizing depth v after with
  | node node ih =>
    obtain ⟨mark, expr⟩ := node
    cases expr with
    | constant w ty =>
      obtain ⟨-, rfl, rfl⟩ := evaluateFrom_constant_iff.mp run
      exact ⟨named, fun later _ => by rw [denoted?]⟩
    | member target m =>
      have own := name.here target m rfl
      cases target with
      | none =>
        obtain ⟨-, found⟩ := evaluateFrom_targetless_iff.mp run
        obtain ⟨readers, value, settled⟩ := Store.read_settled own named found
        refine ⟨readers, fun later precedes => ?_⟩
        rw [denoted?, settled later precedes, value]
        exact if_pos (Member.reader_targetless value)
      | some target =>
        obtain ⟨t, middle, onTarget, notNull, found⟩ := evaluateFrom_member_iff.mp run
        have child : target ∈ (mk mark (.member (some target) m)).expr.children := .head _
        obtain ⟨readers, below⟩ := ih target child (reads.child child) (name.child child) onTarget
        have onward := @Store.precedes_read host m (some t) middle
        rw [found] at onward
        obtain ⟨readers, value, settled⟩ := Store.read_settled own readers found
        refine ⟨readers, fun later precedes => ?_⟩
        have present : t.isNull = false := by
          cases t with
          | null => exact absurd rfl notNull
          | _ => rfl
        rw [denoted?, below later (onward.trans precedes)]
        simp only [present, settled later precedes, Bool.false_eq_true, if_false]
        split
        · rename_i isStatic
          rw [← Member.reader_static isStatic after.slots (some t), value]
        · rw [value]
    | _ => cases reads.here

/-- Resolution agrees with evaluation. What a tree denotes it is evaluated to from then on, in every
environment in which the target that resolution passes over has a value other than null. What a
tree of constants and member reads is evaluated to, it denotes from then on. -/
theorem denoted?_agrees (host : Host) (sessionLimit : Nat) (evaluator : Evaluator) (node : Node)
    (env : Env) (store : Store) (v : Value) :
    (∀ resolved later after, node.denoted? host store = (some v, resolved) →
      resolved.Precedes later →
      evaluator.guard.current + node.links ≤ evaluator.guard.bound sessionLimit →
      node.Passes host (evaluator.guard.bound sessionLimit) (evaluator.guard.current + node.links)
        env later after →
      evaluator.evaluate host sessionLimit node env later = (.ok v, evaluator, after)) ∧
    (∀ naming evaluated after, node.All (·.isRead = true) → node.All (·.NamedBy naming) →
      store.Named naming →
      evaluator.evaluate host sessionLimit node env store = (.ok v, evaluated, after) →
      ∀ later, after.Precedes later → node.denoted? host later = (some v, later)) := by
  constructor
  · intro resolved later after denotes precedes room passes
    rw [Evaluator.evaluate, evaluateFrom_of_denoted? denotes precedes room passes]
  · intro naming evaluated after reads name named run
    exact (denoted?_of_evaluateFrom reads name named (Evaluator.evaluate_eq_ok run)).2

end Node

namespace StaticChain

/-- A static member. -/
def S : Member := ⟨16, "f", "Trees", .str, .slot⟩

/-- The read of the length of `S`, which is given `target` although it needs none. -/
def lengthOn (target : Value) : Node :=
  ⟨2, .member (some ⟨1, .member (some ⟨0, .constant target target.ty⟩) S⟩) .stringLength⟩

/-- The contents of the slots when `S` holds a text of three characters. -/
def slots : List (Nat × Value) := [(16, .str "abc")]

/-- The slots, and the readers of both members. -/
def resolved : Store := { slots, readers := [(16, .slot 16), (1, .property .length)] }

def naming (id : Nat) : Reader := if id = 16 then .slot 16 else .property .length

theorem denotes (target : Value) :
    (lengthOn target).denoted? .basic (.bare slots) = (some (.int 3), resolved) := rfl

end StaticChain

open StaticChain in
/-- The target of a static member is evaluated even though the member is read without it: on null
the tree still denotes the length of `S`, and no evaluation comes to it. -/
theorem Node.denoted?_not_evaluated_nullTarget :
    (lengthOn .null).denoted? .basic (.bare slots) = (some (.int 3), resolved) ∧
      ∀ limit evaluated after env, ({} : Evaluator).evaluate .basic limit (lengthOn .null) env
        resolved ≠ (.ok (.int 3), evaluated, after) := by
  refine ⟨denotes .null, fun limit evaluated after env run => ?_⟩
  obtain ⟨_, _, onStatic, -⟩ := evaluateFrom_member_iff.mp (Evaluator.evaluate_eq_ok run)
  obtain ⟨_, _, onNull, notNull, -⟩ := evaluateFrom_member_iff.mp onStatic
  exact notNull (evaluateFrom_constant_iff.mp onNull).2.1.symm

open StaticChain in
/-- On a number in place of null the two agree. -/
theorem Node.denoted?_agrees_lengthOn :
    ({} : Evaluator).evaluate .basic 3 (lengthOn (.int 1)) [] resolved =
        (.ok (.int 3), {}, resolved) ∧
      (lengthOn (.int 1)).denoted? .basic resolved = (some (.int 3), resolved) := by
  have evaluates := (denoted?_agrees .basic 3 {} (lengthOn (.int 1)) [] (.bare slots) (.int 3)).1
    resolved resolved resolved (denotes _) (.refl resolved) (by decide)
    ⟨rfl, .int 1, fun is => (by cases is),
      evaluateFrom_constant_iff.mpr ⟨Nat.lt_succ_self 2, rfl, rfl⟩⟩
  have parts : (lengthOn (.int 1)).parts = [lengthOn (.int 1),
      ⟨1, .member (some ⟨0, .constant (.int 1) .int⟩) S⟩, ⟨0, .constant (.int 1) .int⟩] := by cbv
  have reads : (lengthOn (.int 1)).All (·.isRead = true) := by
    rw [Node.all_iff_parts, parts]
    decide
  have name : (lengthOn (.int 1)).All (·.NamedBy naming) := by
    rw [Node.all_iff_parts, parts]
    decide
  have named : resolved.Named naming := by
    intro id reader found
    simp only [resolved, List.lookup_cons, List.lookup_nil] at found
    split at found
    · rename_i same
      cases found
      exact (if_pos (eq_of_beq same)).symm
    · rename_i other
      split at found
      · cases found
        exact (if_neg (by simpa using other)).symm
      · cases found
  exact ⟨evaluates, (denoted?_agrees .basic 3 {} (lengthOn (.int 1)) [] resolved (.int 3)).2 naming
    {} resolved reads name named evaluates resolved (.refl resolved)⟩

end TypedTrees
