import TypedTrees.Proofs.Eval.Attained
import TypedTrees.Proofs.Eval.Cutoff
/-!
Two evaluations side by side. A `Likeness` says when two values, two environments and two stores are
alike, and that all that a node does with its operands does alike on alike ones: exactly the same,
or the same up to the storage of records. From this it follows that two nodes with the same payload
come to alike results if their children do, whatever the children are (`Likeness.ofNode`). The first
evaluation is one that may refuse to go on: where it would run a native of the host, and where
finishing a node on its operands is declined.
-/
namespace TypedTrees

namespace Evaluation

/-- Goes on from what an evaluation has come to. The first failure ends it. -/
def andThen {α β : Type} (result : Except Error α × Store)
    (next : α → Store → Except Error β × Store) : Except Error β × Store :=
  match result with
  | (.error e, store) => (.error e, store)
  | (.ok a, store) => next a store

theorem allThen_eq (below : Evaluation) (env : Env) (nodes : List Node) (store : Store)
    (next : List Value → Store → Except Error Value × Store) :
    below.allThen env nodes store next = andThen (below.all env nodes store) next := by
  rw [allThen]
  rcases below.all env nodes store with ⟨e | vs, after⟩ <;> rfl

theorem all_cons (below : Evaluation) (env : Env) (node : Node) (rest : List Node)
    (store : Store) :
    below.all env (node :: rest) store = andThen (below node env store) fun v store =>
      andThen (below.all env rest store) fun vs store => (.ok (v :: vs), store) := by
  rw [all]
  rcases below node env store with ⟨e | v, middle⟩
  · rfl
  · simp only [andThen]
    rcases below.all env rest middle with ⟨e | vs, after⟩ <;> rfl

/-- Goes on with the boolean that an evaluation has come to. A value that is none is a fault. -/
def boolThen (text : String) (result : Except Error Value × Store)
    (next : Bool → Store → Except Error Value × Store) : Except Error Value × Store :=
  andThen result fun v store =>
    match v.asBool? with
    | some b => next b store
    | none => (.error (.eval (.notBool text v.text)), store)

theorem truthThen_eq (below : Evaluation) (env : Env) (node : Node) (store : Store)
    (next : Bool → Store → Except Error Value × Store) :
    below.truthThen env node store next = boolThen node.text (below node env store) next := by
  rw [truthThen, truth, boolThen]
  rcases below node env store with ⟨e | v, middle⟩
  · rfl
  · simp only [andThen]
    cases v.asBool? <;> rfl

/-- The value of a node of any kind, where the error `e` is what natives of the host fail with, and
nodes that are not to be finished on their operands. -/
def refuse (e : Error) (declines : Expr → List Value → Bool) (host : Host)
    (below : Evaluation) : Evaluation := fun node env store =>
  if node.expr.isStrict then
    below.allThen env node.expr.children store fun vs store =>
      if declines node.expr vs then (.error e, store) else node.expr.finish host vs store
  else ofNode below (host.barring e) node env store

/-- Evaluation with a number of levels left that refuses to run natives of the host, and to finish
the nodes that are declined. -/
def refusing (e : Error) (declines : Expr → List Value → Bool) (host : Host) (limit : Nat) :
    Nat → Evaluation
  | 0 => fun _ _ store => (.error (.recursionLimit limit), store)
  | room + 1 => refuse e declines host (refusing e declines host limit room)

/-- The evaluation runs no native of the host and finishes no node that is declined: whatever the
error that these would fail with, it comes to the same. -/
def Unrefused (declines : Expr → List Value → Bool) (host : Host) (limit room : Nat) (node : Node)
    (env : Env) (store : Store) : Prop :=
  ∀ e, refusing e declines host limit room node env store = within host limit room node env store

end Evaluation

/-- Two results are alike: values that are alike in stores that are alike, or errors of one kind.
The first one may also be an error that stops it, and the second one the error of its limit, if it
is short of levels. -/
inductive Likewise (stops : Error → Prop) (limit : Nat) (short : Prop)
    (stores : Store → Store → Prop) {α β : Type} (alike : α → β → Prop) :
    Except Error α × Store → Except Error β × Store → Prop
  | ok {a : α} {b : β} {store store' : Store} (same : alike a b) (kept : stores store store') :
      Likewise stops limit short stores alike (.ok a, store) (.ok b, store')
  | error {e e' : Error} {store store' : Store} (kinds : e.kind = e'.kind) :
      Likewise stops limit short stores alike (.error e, store) (.error e', store')
  | stopped {e : Error} {store : Store} {result : Except Error β × Store} (isStop : stops e) :
      Likewise stops limit short stores alike (.error e, store) result
  | cut {result : Except Error α × Store} {store' : Store} (isShort : short) :
      Likewise stops limit short stores alike result (.error (.recursionLimit limit), store')

/-- Whatever comes of an evaluation, there is an error that does not. -/
theorem exists_ne_error {α : Type} (outcome : Except Error α) : ∃ e, outcome ≠ .error e := by
  by_cases is : outcome = .error (.recursionLimit 0)
  · exact ⟨.recursionLimit 1, by simp [is]⟩
  · exact ⟨_, is⟩

/-- Two outcomes are values that are alike, or errors of one kind. -/
inductive Outcomes (alike : Value → Value → Prop) :
    Except Error Value → Except Error Value → Prop
  | ok {v w : Value} (same : alike v w) : Outcomes alike (.ok v) (.ok w)
  | error {e e' : Error} (kinds : e.kind = e'.kind) : Outcomes alike (.error e) (.error e')

/-- What two callables are applied to comes to related bodies and bindings, or to errors of one
kind. -/
inductive Targets (related : Node → Env → Node → Env → Prop) :
    Except Error (Node × Env) → Except Error (Node × Env) → Prop
  | ok {body body' : Node} {scope scope' : Env} (bodies : related body scope body' scope') :
      Targets related (.ok (body, scope)) (.ok (body', scope'))
  | error {e e' : Error} (kinds : e.kind = e'.kind) : Targets related (.error e) (.error e')

/-- When values, environments and stores are alike in two evaluations, so that what is done with
them is alike. Nodes that `declines` says are not finished do not count. -/
structure Likeness (host : Host) (declines : Expr → List Value → Bool) where
  values : Value → Value → Prop
  envs : Env → Env → Prop
  stores : Store → Store → Prop
  refl : ∀ v, values v v
  truth : ∀ {v w}, values v w → v.asBool? = w.asBool?
  items : ∀ {v w}, values v w →
    (∃ vs ws, v = .seq vs ∧ w = .seq ws ∧ List.Forall₂ values vs ws) ∨
      (∀ vs, v ≠ .seq vs) ∧ ∀ ws, w ≠ .seq ws
  lookup : ∀ {env env'}, envs env env' → ∀ id, Option.Rel values (env.lookup id) (env'.lookup id)
  closure : ∀ {env env'} l, envs env env' → values (.closure l env) (.closure l env')
  target : ∀ {p p' v v'}, values p p' → values v v' →
    Targets (fun body scope body' scope' => body' = body ∧ envs scope scope') (p.callTarget [v])
      (p'.callTarget [v'])
  finish : ∀ {expr vs vs' store store'} (stops : Error → Prop) (limit : Nat) (short : Prop),
    expr.isStrict = true → declines expr vs = false → List.Forall₂ values vs vs' →
      stores store store' →
        Likewise stops limit short stores values (expr.finish host vs store)
          (expr.finish host vs' store')

namespace Likewise

variable {stops : Error → Prop} {limit : Nat} {short : Prop} {stores : Store → Store → Prop}
  {α β γ δ : Type} {alike : α → β → Prop}

theorem mono {stops' : Error → Prop} {larger : Prop} {also : α → β → Prop}
    {result : Except Error α × Store} {result' : Except Error β × Store}
    (likewise : Likewise stops limit short stores alike result result')
    (more : ∀ e, stops e → stops' e) (wider : short → larger)
    (weaker : ∀ a b, alike a b → also a b) :
    Likewise stops' limit larger stores also result result' := by
  cases likewise with
  | ok same kept => exact .ok (weaker _ _ same) kept
  | error kinds => exact .error kinds
  | stopped isStop => exact .stopped (more _ isStop)
  | cut isShort => exact .cut (wider isShort)

/-- The condition of being short of levels can be weakened. -/
theorem shorter {larger : Prop} {result : Except Error α × Store} {result' : Except Error β × Store}
    (likewise : Likewise stops limit short stores alike result result') (wider : short → larger) :
    Likewise stops limit larger stores alike result result' :=
  likewise.mono (fun _ => id) wider fun _ _ => id

/-- Alike results have alike outcomes, unless one of the two trips over its limit. -/
theorem outcomes {limit' : Nat} {alike : Value → Value → Prop}
    {result result' : Except Error Value × Store}
    (likewise : Likewise (· = .recursionLimit limit') limit short stores alike result result') :
    result.1 = .error (.recursionLimit limit') ∨
      (short ∧ result'.1 = .error (.recursionLimit limit)) ∨
      Outcomes alike result.1 result'.1 := by
  cases likewise with
  | ok same _ => exact .inr (.inr (.ok same))
  | error kinds => exact .inr (.inr (.error kinds))
  | stopped isStop => exact .inl (by rw [isStop])
  | cut isShort => exact .inr (.inl ⟨isShort, rfl⟩)

/-- Going on alike from alike results leads to alike results. -/
theorem andThen {also : γ → δ → Prop} {result : Except Error α × Store}
    {result' : Except Error β × Store} {next : α → Store → Except Error γ × Store}
    {next' : β → Store → Except Error δ × Store}
    (first : Likewise stops limit short stores alike result result')
    (onward : ∀ a b store store', alike a b → stores store store' →
      Likewise stops limit short stores also (next a store) (next' b store')) :
    Likewise stops limit short stores also (Evaluation.andThen result next)
      (Evaluation.andThen result' next') := by
  cases first with
  | ok same kept => exact onward _ _ _ _ same kept
  | error kinds => exact .error kinds
  | stopped isStop => exact .stopped isStop
  | cut isShort => exact .cut isShort

/-- Going on alike with booleans, if values that are alike are the same boolean or none. -/
theorem boolThen {alike : Value → Value → Prop} (truth : ∀ v w, alike v w → v.asBool? = w.asBool?)
    {text text' : String} {result result' : Except Error Value × Store}
    {next next' : Bool → Store → Except Error Value × Store}
    (tested : Likewise stops limit short stores alike result result')
    (onward : ∀ b store store', stores store store' →
      Likewise stops limit short stores alike (next b store) (next' b store')) :
    Likewise stops limit short stores alike (Evaluation.boolThen text result next)
      (Evaluation.boolThen text' result' next') := by
  rw [Evaluation.boolThen, Evaluation.boolThen]
  refine tested.andThen fun v w middle middle' same kept => ?_
  rw [truth v w same]
  cases w.asBool? with
  | none => exact .error rfl
  | some b => exact onward b middle middle' kept

section

variable {below below' : Evaluation} {env env' : Env} {store store' : Store}

theorem all {alike : Value → Value → Prop} {nodes nodes' : List Node}
    (each : List.Forall₂ (fun node node' => ∀ store store', stores store store' →
      Likewise stops limit short stores alike (below node env store) (below' node' env' store'))
        nodes nodes')
    (kept : stores store store') :
    Likewise stops limit short stores (List.Forall₂ alike) (below.all env nodes store)
      (below'.all env' nodes' store') := by
  induction each generalizing store store' with
  | nil => exact .ok .nil kept
  | cons first _ ih =>
    rw [Evaluation.all_cons, Evaluation.all_cons]
    refine (first _ _ kept).andThen fun v v' middle middle' same kept => ?_
    exact (ih kept).andThen fun vs vs' after after' others kept => .ok (.cons same others) kept

end

end Likewise

namespace Likeness

variable {host : Host} {declines : Expr → List Value → Bool} (like : Likeness host declines)

theorem rel_refl (found : Option Value) : Option.Rel like.values found found := by
  cases found with
  | none => exact .none
  | some v => exact .some (like.refl v)

/-- Applied to values that are alike, the two come to related bodies and bindings, or to errors of
one kind. -/
def Follows (related : Node → Env → Node → Env → Prop) (p p' : Value) : Prop :=
  ∀ v v', like.values v v' → Targets related (p.callTarget [v]) (p'.callTarget [v'])

/-- Operands of a node: values that are alike or, if the node may apply them, lambdas that do alike
when they are applied. -/
def Operands (related : Node → Env → Node → Env → Prop) (applies : Prop) (p p' : Value) : Prop :=
  like.values p p' ∨
    applies ∧ (∃ l env l' env', p = .closure l env ∧ p' = .closure l' env') ∧
      like.Follows related p p'

variable {like} {related : Node → Env → Node → Env → Prop} {e : Error} {stops : Error → Prop}
  {limit : Nat} {short : Prop} {below below' : Evaluation}

theorem Operands.values {p p' : Value} {applies : Prop} (none : ¬applies)
    (operands : like.Operands related applies p p') : like.values p p' :=
  operands.resolve_right fun applied => none applied.1

/-- Of two operands both are sequences, with items that are alike, or neither is one. -/
theorem Operands.items {p p' : Value} {applies : Prop}
    (operands : like.Operands related applies p p') :
    (∃ vs ws, p = .seq vs ∧ p' = .seq ws ∧ List.Forall₂ like.values vs ws) ∨
      (∀ vs, p ≠ .seq vs) ∧ ∀ ws, p' ≠ .seq ws := by
  rcases operands with same | ⟨-, ⟨_, _, _, _, rfl, rfl⟩, -⟩
  · exact like.items same
  · exact .inr ⟨by simp, by simp⟩

section Callables

variable (one : ∀ node env node' env' store store', related node env node' env' →
  like.stores store store' →
    Likewise stops limit short like.stores like.values (below node env store)
      (below' node' env' store'))

include one

theorem anyOf {p p' : Value} (follows : like.Follows related p p') {vs ws : List Value}
    (each : List.Forall₂ like.values vs ws) {store store' : Store}
    (kept : like.stores store store') :
    Likewise stops limit short like.stores like.values
      ((Builtin.anyOf p vs).carryOut below store)
      ((Builtin.anyOf p' ws).carryOut below' store') := by
  induction each generalizing store store' with
  | nil => exact .ok (like.refl _) kept
  | @cons v w vs ws same _ ih =>
    simp only [Builtin.anyOf, Procedure.carryOut]
    have targets := follows v w same
    generalize p.callTarget [v] = target at targets ⊢
    generalize p'.callTarget [w] = target' at targets ⊢
    cases targets with
    | error kinds => exact .error kinds
    | @ok body body' scope scope' bodies =>
      have verdicts := one body scope body' scope' store store' bodies kept
      simp only
      generalize below body scope store = verdict at verdicts ⊢
      generalize below' body' scope' store' = verdict' at verdicts ⊢
      cases verdicts with
      | error kinds => exact .error kinds
      | stopped isStop => exact .stopped isStop
      | cut isShort => exact .cut isShort
      | @ok a b middle middle' same kept =>
        have truths := like.truth same
        cases a with
        | bool passes =>
          obtain rfl : b = .bool passes := by
            cases b <;> cases truths
            rfl
          cases passes with
          | true => exact .ok (like.refl _) kept
          | false => exact ih kept
        | _ => cases b <;> first | exact .error rfl | cases truths

/-- The builtin `any` does alike on operands that are alike, the predicates being lambdas or not. -/
theorem any {vs ws : List Value} (each : List.Forall₂ (like.Operands related True) vs ws)
    (values : ∀ p p', like.values p p' → like.Follows related p p') {store store' : Store}
    (kept : like.stores store store') :
    Likewise stops limit short like.stores like.values
      ((Builtin.any.procedure vs).carryOut below store)
      ((Builtin.any.procedure ws).carryOut below' store') := by
  have refuses : ∀ vs, (¬∃ items p, vs = [.seq items, p]) →
      Builtin.any.procedure vs = .answer (.error (.eval .anyOperands)) :=
    fun vs no => (Builtin.procedure_any vs).resolve_left no
  by_cases both : ∃ items p, vs = [.seq items, p]
  · obtain ⟨items, p, rfl⟩ := both
    obtain ⟨v, rest, sequence, others, rfl⟩ := List.forall₂_cons_left_iff.mp each
    obtain ⟨p', none, predicate, empty, rfl⟩ := List.forall₂_cons_left_iff.mp others
    cases List.forall₂_nil_left_iff.mp empty
    rcases sequence.items with ⟨_, items', ⟨⟩, rfl, alike⟩ | ⟨no, -⟩
    · refine anyOf one ?_ alike kept
      rcases predicate with same | ⟨-, -, follows⟩
      · exact values p p' same
      · exact follows
    · exact absurd rfl (no items)
  · have both' : ¬∃ items p, ws = [.seq items, p] := by
      rintro ⟨items', p', rfl⟩
      obtain ⟨v, rest, sequence, others, rfl⟩ := List.forall₂_cons_right_iff.mp each
      obtain ⟨p, none, -, empty, rfl⟩ := List.forall₂_cons_right_iff.mp others
      cases List.forall₂_nil_right_iff.mp empty
      rcases sequence.items with ⟨items, _, rfl, ⟨⟩, -⟩ | ⟨-, no⟩
      · exact both ⟨items, p, rfl⟩
      · exact absurd rfl (no items')
    rw [refuses vs both, refuses ws both']
    exact .error rfl

end Callables

section Nodes

variable {node out : Node} {kids : List Node} {env env' : Env} {store store' : Store}
  (made : out.expr = node.expr.withChildren kids)
  (lengths : kids.length = node.expr.children.length)
  (operands : List.Forall₂ (fun child kid => ∀ store store', like.stores store store' →
    Likewise stops limit short like.stores (like.Operands related (node.expr.isAny = true))
      (below child env store) (below' kid env' store')) node.expr.children kids)
  (isStop : stops e) (kept : like.stores store store')

include operands in
/-- The children of a node that does not apply any have values that are alike. -/
theorem operands_values (noAny : node.expr.isAny = false) :
    List.Forall₂ (fun child kid => ∀ store store', like.stores store store' →
      Likewise stops limit short like.stores like.values (below child env store)
        (below' kid env' store')) node.expr.children kids := by
  refine operands.imp fun child kid comes store store' kept => ?_
  exact (comes store store' kept).mono (fun _ => id) id
    fun _ _ operands => operands.values (by simp [noAny])

include made lengths operands isStop kept

theorem ofNode_strict (strict : node.expr.isStrict = true) :
    Likewise stops limit short like.stores like.values
      (Evaluation.refuse e declines host below node env store)
      (Evaluation.ofNode below' host out env' store') := by
  have strict' : out.expr.isStrict = true := by rw [made, Expr.isStrict_withChildren, strict]
  have children : out.expr.children = kids := by rw [made, Expr.children_withChildren lengths]
  have values := operands_values operands (Expr.isAny_of_isStrict strict)
  rw [Evaluation.refuse, if_pos strict, Evaluation.ofNode_strict strict', children,
    Evaluation.allThen_eq, Evaluation.allThen_eq]
  refine (Likewise.all values kept).andThen fun vs vs' middle middle' same kept => ?_
  split
  · exact .stopped isStop
  · rename_i goes
    rw [made, Expr.finish_withChildren]
    exact like.finish _ _ _ strict (by simpa using goes) same kept

omit isStop in
theorem ofNode_shortCircuit {left right : Node} {op : BinaryOp} {ty : Ty}
    (isExpr : node.expr = .binary op left right ty) (short' : op = .andAlso ∨ op = .orElse) :
    Likewise stops limit short like.stores like.values
      (Evaluation.ofNode below (host.barring e) node env store)
      (Evaluation.ofNode below' host out env' store') := by
  have values := operands_values operands (by rw [isExpr]; rfl)
  rw [isExpr] at lengths made values
  obtain ⟨left', right', rfl⟩ := List.length_eq_two.mp lengths
  simp only [Expr.children, List.forall₂_cons, List.forall₂_nil_right_iff, and_true] at values
  simp only [Evaluation.ofNode_shortCircuit isExpr short',
    Evaluation.ofNode_shortCircuit made short', Evaluation.truthThen_eq]
  have truth : ∀ v w, like.values v w → v.asBool? = w.asBool? := fun _ _ => like.truth
  refine .boolThen truth (values.1 _ _ kept) fun first middle middle' kept => ?_
  split
  · exact .ok (like.refl _) kept
  · exact .boolThen truth (values.2 _ _ kept) fun b _ _ kept => .ok (like.refl _) kept

omit isStop in
theorem ofNode_condition {test ifTrue ifFalse : Node} {ty : Ty}
    (isExpr : node.expr = .condition test ifTrue ifFalse ty) :
    Likewise stops limit short like.stores like.values
      (Evaluation.ofNode below (host.barring e) node env store)
      (Evaluation.ofNode below' host out env' store') := by
  have values := operands_values operands (by rw [isExpr]; rfl)
  rw [isExpr] at lengths made values
  obtain ⟨test', ifTrue', ifFalse', rfl⟩ := List.length_eq_three.mp lengths
  simp only [Expr.children, List.forall₂_cons, List.forall₂_nil_right_iff, and_true] at values
  rw [Evaluation.ofNode_condition isExpr, Evaluation.ofNode_condition made,
    Evaluation.truthThen_eq, Evaluation.truthThen_eq]
  refine .boolThen (fun _ _ => like.truth) (values.1 _ _ kept) fun b middle middle' kept => ?_
  cases b with
  | true => exact values.2.1 _ _ kept
  | false => exact values.2.2 _ _ kept

/-- A call that is not finished on the values of its operands: one of the builtin `any`, one of a
native of the host, or one that only expansion gives a meaning. -/
theorem ofNode_call
    (one : ∀ node env node' env' store store', related node env node' env' →
      like.stores store store' → Likewise stops limit short like.stores like.values
        (below node env store) (below' node' env' store'))
    (values : ∀ p p', like.values p p' → like.Follows related p p') {receiver : Option Node}
    {callee : Callee} {args : List Node} {ty : Ty}
    (isExpr : node.expr = .call receiver callee args ty) (lazy : node.expr.isStrict = false) :
    Likewise stops limit short like.stores like.values
      (Evaluation.ofNode below (host.barring e) node env store)
      (Evaluation.ofNode below' host out env' store') := by
  obtain ⟨receiver', args', isOut, children⟩ : ∃ receiver' args',
      out.expr = .call receiver' callee args' ty ∧ receiver'.toList ++ args' = kids := by
    have children := Expr.children_withChildren lengths
    rw [← made] at children
    rw [isExpr] at made
    cases receiver <;> exact ⟨_, _, made, (congrArg Expr.children made).symm.trans children⟩
  cases hasNative : callee.native? with
  | none =>
    simp only [Evaluation.ofNode, isExpr, isOut, hasNative]
    exact .error rfl
  | some native =>
    have whole : node.expr.children = receiver.toList ++ args := by
      rw [isExpr]
      rfl
    rw [Evaluation.ofNode_native isExpr hasNative, Evaluation.ofNode_native isOut hasNative,
      Evaluation.allThen_eq, Evaluation.allThen_eq, children, ← whole]
    refine (Likewise.all operands kept).andThen fun vs vs' middle middle' same kept => ?_
    cases native with
    | host name => exact .stopped isStop
    | builtin which =>
      obtain rfl : which = .any := by
        rw [isExpr] at lazy
        simp only [Expr.isStrict, hasNative] at lazy
        cases which <;> first | rfl | cases lazy
      refine any one (same.imp fun v v' operand => ?_) values kept
      exact operand.imp_right fun applied => ⟨trivial, applied.2⟩

/-- A node, and another with the same payload, come to alike results if their children do. -/
theorem ofNode
    (one : ∀ node env node' env' store store', related node env node' env' →
      like.stores store store' → Likewise stops limit short like.stores like.values
        (below node env store) (below' node' env' store'))
    (values : ∀ p p', like.values p p' → like.Follows related p p')
    (noParam : ∀ param, node.expr ≠ .parameter param) (noLambda : ¬node.IsLambda) :
    Likewise stops limit short like.stores like.values
      (Evaluation.refuse e declines host below node env store)
      (Evaluation.ofNode below' host out env' store') := by
  by_cases strict : node.expr.isStrict = true
  · exact ofNode_strict made lengths operands isStop kept strict
  · rw [Evaluation.refuse, if_neg strict]
    cases isExpr : node.expr with
    | parameter param => exact absurd isExpr (noParam param)
    | lambda l => exact absurd ⟨l, isExpr⟩ noLambda
    | call receiver callee args ty =>
      exact ofNode_call made lengths operands isStop kept one values isExpr (by simpa using strict)
    | binary op left right ty =>
      refine ofNode_shortCircuit made lengths operands kept isExpr ?_
      rw [isExpr] at strict
      simpa [Expr.isStrict, or_iff_not_imp_left] using strict
    | condition test ifTrue ifFalse ty => exact ofNode_condition made lengths operands kept isExpr
    | _ =>
      rw [isExpr] at strict
      exact absurd rfl strict

end Nodes

end Likeness

end TypedTrees
