import TypedTrees.Proofs.Eval.Likeness
/-!
The two likenesses of evaluations. Where all equality tests that depend on storage are declined,
what a node does with its operands is told by the operands without their storage, in stores with the
same slots and with readers that belong to their members (`Likeness.unpaged`); and of course it is
the same on the very same operands in the same store (`Likeness.exact`).
-/
namespace TypedTrees

/-! ### Faults

A node whose operands have values fails with an evaluation fault and with nothing else. -/

/-- The outcome is a value or an evaluation fault. -/
def FaultsOnly {α : Type} (outcome : Except Error α) : Prop :=
  ∀ e, outcome = .error e → e.kind = .eval

namespace FaultsOnly

theorem ok {α : Type} (a : α) : FaultsOnly (.ok a : Except Error α) := by
  rintro e ⟨⟩

theorem fault {α : Type} (fault : EvalFault) :
    FaultsOnly (.error (.eval fault) : Except Error α) := by
  rintro e ⟨⟩
  rfl

end FaultsOnly

theorem Value.convert_faultsOnly (target : Ty) (v : Value) : FaultsOnly (v.convert target) := by
  have passes : FaultsOnly (convert.pass target v) := by
    rw [convert.pass]
    split
    · exact .ok _
    · exact .fault _
  rw [convert.eq_def]
  split <;> first | exact .ok _ | exact passes | skip
  split
  · exact .ok _
  · exact passes

theorem UnaryOp.apply_faultsOnly (op : UnaryOp) (v : Value) : FaultsOnly (op.apply v) := by
  rw [apply.eq_def]
  split
  · exact .ok _
  · split
    · exact .ok _
    · exact .fault _
  · exact .ok _
  · exact Value.convert_faultsOnly _ _
  · exact .fault _

namespace BinaryOp

theorem arithmetic_faultsOnly (op : BinaryOp) (l r : Value) : FaultsOnly (op.arithmetic l r) := by
  rw [arithmetic.eq_def]
  split
  · exact .ok _
  · exact .ok _
  · rw [intArithmetic]
    split
    · exact .fault _
    · split
      · exact .ok _
      · exact .fault _
  · split
    · exact .ok _
    · exact .fault _

theorem comparison_faultsOnly (op : BinaryOp) (l r : Value) : FaultsOnly (op.comparison l r) := by
  rw [comparison.eq_def]
  split
  · exact .ok _
  · exact .ok _
  · split
    · exact .ok _
    · exact .fault _

theorem logical_faultsOnly (op : BinaryOp) (l r : Value) : FaultsOnly (op.logical l r) := by
  simp only [logical]
  split
  · exact .ok _
  · exact .ok _
  · exact .fault _

theorem apply_faultsOnly (op : BinaryOp) (l r : Value) : FaultsOnly (op.apply l r) := by
  cases op with
  | equal | notEqual => exact .ok _
  | lessThan | lessThanOrEqual | greaterThan | greaterThanOrEqual =>
    exact comparison_faultsOnly _ l r
  | and | or | andAlso | orElse => exact logical_faultsOnly _ l r
  | add | subtract | multiply | divide => exact arithmetic_faultsOnly _ l r

end BinaryOp

theorem Builtin.answered_faultsOnly {which : Builtin} (answers : which.answers = true)
    (operands : List Value) : FaultsOnly (which.procedure operands).answered := by
  cases which with
  | any => cases answers
  | concat | contains | count =>
    simp only [procedure]
    split <;> first | exact .ok _ | exact .fault _ | (rename_i other; cases other)

theorem Store.readMember_faultsOnly (host : Host) (m : Member) (target : Option Value)
    (store : Store) : FaultsOnly (store.readMember host m target).1 := by
  rw [readMember.eq_def]
  split
  · exact .fault _
  · simp only
    split
    · exact .ok _
    · exact .fault _

theorem Store.writeMember_faultsOnly (m : Member) (target v : Value) (store : Store) :
    FaultsOnly (store.writeMember m target v).1 := by
  rw [writeMember.eq_def]
  split
  · exact .ok _
  · exact .fault _
  · exact .fault _

/-- Finishing a strict node fails with an evaluation fault, if it fails. -/
theorem Expr.finish_faultsOnly (host : Host) {expr : Expr} (strict : expr.isStrict = true)
    (vs : List Value) (store : Store) : FaultsOnly (expr.finish host vs store).1 := by
  rw [finish.eq_def]
  split
  · exact .ok _
  · exact Store.readMember_faultsOnly host _ none store
  · exact Store.readMember_faultsOnly host _ _ store
  · obtain ⟨which, native, answers⟩ := native_of_isStrict strict
    simp only [Callee.native?] at native
    simp only [native]
    exact Builtin.answered_faultsOnly answers vs
  · exact UnaryOp.apply_faultsOnly _ _
  · exact BinaryOp.apply_faultsOnly _ _ _
  · exact .ok _
  · exact Store.writeMember_faultsOnly _ _ _ store
  · exact .fault _

/-! ### The likenesses -/

theorem Outcomes.eq_of_exact {v : Value} {outcome outcome' : Except Error Value}
    (outcomes : Outcomes (· = ·) outcome outcome') (value : outcome = .ok v) :
    outcome' = .ok v := by
  cases outcomes with
  | ok same => rw [← same, value]
  | error _ => cases value

theorem Outcomes.eq_bool {b : Bool} {outcome : Except Error Value}
    (outcomes : Outcomes (fun v w => v.unpaged = w.unpaged) (.ok (.bool b)) outcome) :
    outcome = .ok (.bool b) := by
  cases outcomes with
  | ok same => rw [Value.eq_bool_of_unpaged same.symm]

/-- Whether the node tests operands for equality, or reads a member by another reader than its
own. -/
def Expr.cautious (naming : Nat → Reader) (expr : Expr) (_ : List Value) : Bool :=
  expr.testsEquality || !decide (expr.NamedBy naming)

theorem Expr.wary_cautious (naming : Nat → Reader) : Wary (Expr.cautious naming) := by
  intro expr vs goes
  rw [cautious, Bool.or_eq_false_iff] at goes
  exact wary_testsEquality expr vs goes.1

theorem Expr.namedBy_of_cautious {naming : Nat → Reader} (expr : Expr) (vs : List Value)
    (goes : expr.cautious naming vs = false) : expr.NamedBy naming := by
  rw [cautious, Bool.or_eq_false_iff] at goes
  simpa using goes.2

/-- The store has these slots, and every reader that has been made belongs to its member. -/
def Store.Holds (naming : Nat → Reader) (slots : List (Nat × Value)) (store : Store) : Prop :=
  store.Named naming ∧ store.slots = slots

theorem Targets.refl {related : Node → Env → Node → Env → Prop}
    (same : ∀ body scope, related body scope body scope) (target : Except Error (Node × Env)) :
    Targets related target target := by
  rcases target with e | ⟨body, scope⟩
  · exact .error rfl
  · exact .ok (same body scope)

/-- A callable is applied to the same body whatever the storage of it and of the arguments. -/
theorem Value.callTarget_targets (p : Value) (vs : List Value) :
    Targets (fun body scope body' scope' => body' = body ∧ scope' = scope.unpaged)
      (p.callTarget vs) (p.unpaged.callTarget (vs.map unpaged)) := by
  rcases target : p.callTarget vs with e | ⟨body, scope⟩
  · rcases target' : p.unpaged.callTarget (vs.map unpaged) with e' | ⟨body, scope⟩
    · refine .error ?_
      cases p with
      | closure l env | tree l =>
        simp only [unpaged_closure, unpaged_tree, callTarget, Lambda.bindArgs, List.length_map]
          at target target'
        split at target
        · cases target
        · rename_i differs
          rw [if_neg differs] at target'
          cases target
          cases target'
          rfl
      | record typeName table =>
        rw [unpaged_record] at target'
        cases target
        cases target'
        rfl
      | seq items =>
        rw [unpaged_seq] at target'
        cases target
        cases target'
        rfl
      | _ =>
        cases target
        cases target'
        rfl
    · obtain ⟨inner, calls, -⟩ := exists_callTarget_of_unpaged target'
      cases target.symm.trans calls
  · rw [callTarget_unpaged target]
    exact .ok ⟨rfl, rfl⟩

namespace Likeness

variable (host : Host) (declines : Expr → List Value → Bool)

/-- Values, environments and stores are alike if they are the same. -/
def exact : Likeness host declines where
  values := (· = ·)
  envs := (· = ·)
  stores := (· = ·)
  refl _ := rfl
  truth same := congrArg Value.asBool? same
  items := by
    rintro v _ rfl
    cases v with
    | seq items => exact .inl ⟨items, items, rfl, rfl, List.forall₂_refl items⟩
    | _ => exact .inr ⟨by simp, by simp⟩
  lookup := by
    rintro env _ rfl id
    cases env.lookup id with
    | none => exact .none
    | some v => exact .some rfl
  closure l same := congrArg (Value.closure l) same
  target := by
    rintro p _ v _ rfl rfl
    exact .refl (fun _ _ => ⟨rfl, rfl⟩) _
  finish := by
    intro expr vs vs' store store' stops limit short _ _ same kept
    rw [List.forall₂_eq_eq_eq] at same
    cases same
    cases kept
    rcases expr.finish host vs store with ⟨e | v, after⟩
    · exact .error rfl
    · exact .ok rfl rfl

variable {host declines} {naming : Nat → Reader}

/-- Values and environments are alike if they are the same without their storage, and stores if
they have these slots and the readers that belong to the members. -/
def unpaged (slots : List (Nat × Value)) (ignores : host.IgnoresStorage) (wary : Wary declines)
    (named : ∀ expr vs, declines expr vs = false → expr.NamedBy naming) :
    Likeness host declines where
  values v w := v.unpaged = w.unpaged
  envs env env' := env.unpaged = env'.unpaged
  stores store store' := store.Holds naming slots ∧ store'.Holds naming slots
  refl _ := rfl
  truth := by
    intro v w same
    cases isBool : w.asBool? with
    | some b =>
      obtain rfl : w = .bool b := by
        cases w <;> cases isBool
        rfl
      rw [Value.eq_bool_of_unpaged same]
      rfl
    | none =>
      cases v with
      | bool b =>
        rw [Value.eq_bool_of_unpaged same.symm] at isBool
        cases isBool
      | _ => rfl
  items := by
    intro v w same
    by_cases sequence : ∃ items, w = .seq items
    · obtain ⟨items, rfl⟩ := sequence
      rw [Value.unpaged_seq] at same
      obtain ⟨vs, rfl, each⟩ := Value.eq_seq_of_unpaged same
      refine .inl ⟨vs, items, rfl, rfl, ?_⟩
      rwa [← List.forall₂_eq_eq_eq, List.forall₂_map_left_iff, List.forall₂_map_right_iff] at each
    · refine .inr ⟨?_, fun ws is => sequence ⟨ws, is⟩⟩
      rintro vs rfl
      rw [Value.unpaged_seq] at same
      obtain ⟨ws, is, -⟩ := Value.eq_seq_of_unpaged same.symm
      exact sequence ⟨ws, is⟩
  lookup := by
    intro env env' same id
    have found := env.lookup_unpaged id
    rw [show env.unpaged = env'.unpaged from same, env'.lookup_unpaged id] at found
    generalize env.lookup id = here at found ⊢
    generalize env'.lookup id = there at found ⊢
    rcases here with _ | v <;> rcases there with _ | w
    · exact .none
    · cases found
    · cases found
    · exact .some (Option.some.inj found).symm
  closure l same := by
    rw [Value.unpaged_closure, Value.unpaged_closure, same]
  target := by
    intro p p' v v' callees args
    have first := p.callTarget_targets [v]
    have second := p'.callTarget_targets [v']
    rw [List.map_singleton] at first second
    rw [callees, args] at first
    generalize p.callTarget [v] = target at first ⊢
    generalize p'.callTarget [v'] = target' at second ⊢
    generalize p'.unpaged.callTarget [v'.unpaged] = stored at first second
    cases first with
    | ok same =>
      cases second with
      | ok same' =>
        obtain ⟨rfl, scopes⟩ := same
        obtain ⟨rfl, scopes'⟩ := same'
        exact .ok ⟨rfl, scopes.symm.trans scopes'⟩
    | error kinds =>
      cases second with
      | error kinds' => exact .error (kinds.trans kinds'.symm)
  finish := by
    intro expr vs vs' store store' stops limit short strict goes same kept
    obtain ⟨settled, name⟩ := And.intro (wary expr vs goes) (named expr vs goes)
    have stored : vs'.map Value.unpaged = vs.map Value.unpaged := by
      rw [← List.forall₂_eq_eq_eq, List.forall₂_map_left_iff, List.forall₂_map_right_iff]
      exact same.flip.imp fun _ _ same => same.symm
    have told := Expr.finish_unpaged ignores strict name settled kept.1.1
    have told' := Expr.finish_unpaged ignores strict name (settled.congr stored) kept.2.1
    rw [stored, kept.2.2, ← kept.1.2, ← told] at told'
    have ends := expr.finish_store host vs name kept.1.1
    have ends' := expr.finish_store host vs' name kept.2.1
    have faults := expr.finish_faultsOnly host strict vs store
    have faults' := expr.finish_faultsOnly host strict vs' store'
    generalize expr.finish host vs store = result at told' ends faults ⊢
    generalize expr.finish host vs' store' = result' at told' ends' faults' ⊢
    obtain ⟨e | v, after⟩ := result <;> obtain ⟨e' | v', after'⟩ := result'
    · exact .error ((faults e rfl).trans (faults' e' rfl).symm)
    · cases told'
    · cases told'
    · exact .ok (Option.some.inj told').symm
        ⟨⟨ends.1, ends.2.trans kept.1.2⟩, ends'.1, ends'.2.trans kept.2.2⟩

end Likeness

end TypedTrees
