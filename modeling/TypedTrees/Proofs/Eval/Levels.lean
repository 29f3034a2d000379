import TypedTrees.Build
import TypedTrees.Proofs.Eval.Ends
import TypedTrees.Proofs.Eval.Refinement
import TypedTrees.Proofs.Expansion.Completeness
/-!
How many levels an evaluation takes. A native runs the body of a closure from the level of its own
call, and nothing bounds how deep a closure goes that comes from outside. One that was made during
the evaluation comes from a lambda node in a tree that there was room for, and is handed on as a
value only: out of records, through conditionals, as what `any` tries, but never as an item of a
sequence and so never as an argument. So where nothing comes from outside that can be called, as
many levels as the tree is high are enough (`Evaluation.within_suffices`), and an expansion leaves
no tree that is higher than its own limit (`Expander.expand_levels`).
-/
namespace TypedTrees

/-! ### Values without anything to call -/

namespace Value

/-- The first value is the second one, or a part of an item or a field of it. -/
inductive Part (part : Value) : Value → Prop
  | refl : Part part part
  | item {items : List Value} {v : Value} (member : v ∈ items) (rest : Part part v) :
      Part part (.seq items)
  | field {typeName : String} {table : FieldTable Value} {field : String × Value}
      (member : field ∈ table.fields) (rest : Part part field.2) :
      Part part (.record typeName table)

theorem Part.trans {u v w : Value} (first : Part u v) (second : Part v w) : Part u w := by
  induction second with
  | refl => exact first
  | item member _ ih => exact .item member ih
  | field member _ ih => exact .field member ih

/-- Whether the value is a lambda tree or a closure. -/
def isCallable : Value → Bool
  | tree _ | closure .. => true
  | _ => false

/-- No part of the value can be called. -/
def Inert (v : Value) : Prop := ∀ part : Value, part.Part v → part.isCallable = false

theorem Inert.part {part v : Value} (inert : v.Inert) (inside : part.Part v) : part.Inert :=
  fun _ deeper => inert _ (deeper.trans inside)

/-- Whether the value has no parts but itself and cannot be called. -/
def isScalar : Value → Bool
  | seq _ | record .. | tree _ | closure .. => false
  | _ => true

theorem Inert.of_isScalar {v : Value} (scalar : v.isScalar = true) : v.Inert := by
  intro part inside
  cases inside with
  | refl => cases v <;> first | rfl | exact absurd scalar Bool.false_ne_true
  | item | field => cases scalar

theorem Inert.seq {items : List Value} (each : ∀ v ∈ items, v.Inert) : (seq items).Inert := by
  intro part inside
  cases inside with
  | refl => rfl
  | item member rest => exact each _ member part rest

end Value

def Env.Inert (env : Env) : Prop := ∀ binding ∈ env, binding.2.Inert

/-- What a computed property reads off a value is a part of it, or has nothing in it to call. -/
def Host.ReadsParts (host : Host) : Prop :=
  ∀ name v w, host.property name v = some w → w.Part v ∨ w.Inert

theorem Host.basic_readsParts : Host.basic.ReadsParts := by
  intro name v w has
  simp only [basic, basicProperty] at has
  split at has
  · cases has
    exact .inl .refl
  · cases has
    exact .inr (.of_isScalar rfl)
  · cases has

/-! ### Trees with nothing to call but their own lambdas -/

/-- Nothing that can be called gets into an evaluation at this node from outside: neither from a
constant, nor from a static slot, nor from a native other than the builtin ones. -/
structure Expr.Confined (naming : Nat → Reader) (slots : List (Nat × Value)) (expr : Expr) :
    Prop where
  constant : ∀ v ty, expr = .constant v ty → v.Inert
  slot : ∀ target m v, expr = .member target m → m.isStatic = true →
    slots.lookup m.id = some v → v.Inert
  native : ∀ receiver callee args ty native, expr = .call receiver callee args ty →
    callee.native? = some native → ∃ which, native = .builtin which
  named : expr.NamedBy naming

section

variable {host : Host} {naming : Nat → Reader} {slots : List (Nat × Value)} {limit room : Nat}

/-- The tree is confined, and no higher than the levels left. -/
structure Node.Low (naming : Nat → Reader) (slots : List (Nat × Value)) (room : Nat) (node : Node) :
    Prop where
  height : node.height ≤ room
  confined : node.All (·.Confined naming slots)

theorem Node.Low.child {node child : Node} (low : node.Low naming slots (room + 1))
    (member : child ∈ node.expr.children) : child.Low naming slots room where
  height := Nat.le_of_lt_succ ((height_lt_of_child member).trans_le low.height)
  confined := low.confined.child member

theorem Node.Low.mono {node : Node} (low : node.Low naming slots room) :
    node.Low naming slots (room + 1) := ⟨Nat.le_succ_of_le low.height, low.confined⟩

/-- What can be called in the value is a closure with a low body and without callable bindings, and
does not lie in a sequence. -/
inductive Value.Tame (naming : Nat → Reader) (slots : List (Nat × Value)) (room : Nat) :
    Value → Prop
  | inert {v : Value} (inert : v.Inert) : Tame naming slots room v
  | record {typeName : String} {table : FieldTable Value}
      (each : ∀ field ∈ table.fields, Tame naming slots room field.2) :
      Tame naming slots room (.record typeName table)
  | closure {l : Lambda} {env : Env} (low : l.body.Low naming slots room) (inert : env.Inert) :
      Tame naming slots room (.closure l env)

namespace Value.Tame

variable {v : Value}

theorem mono (tame : v.Tame naming slots room) : v.Tame naming slots (room + 1) := by
  induction tame with
  | inert inert => exact .inert inert
  | record _ ih => exact .record ih
  | closure low inert => exact .closure low.mono inert

theorem part {part : Value} (tame : v.Tame naming slots room) (inside : part.Part v) :
    part.Tame naming slots room := by
  induction inside with
  | refl => exact tame
  | item member rest =>
    cases tame with
    | inert inert => exact .inert (inert.part (.item member rest))
  | field member rest ih =>
    cases tame with
    | inert inert => exact .inert (inert.part (.field member rest))
    | record each => exact ih (each _ member)

theorem items {items : List Value} (tame : (Value.seq items).Tame naming slots room) :
    ∀ item ∈ items, item.Inert := by
  cases tame with
  | inert inert => exact fun item member => inert.part (.item member .refl)

end Value.Tame

/-! ### Outcomes -/

/-- The error is not that of the limit. -/
def Error.InLimit (e : Error) : Prop := ∀ limit, e ≠ .recursionLimit limit

theorem Error.inLimit_eval (fault : EvalFault) : (Error.eval fault).InLimit :=
  fun _ is => by cases is

theorem Error.inLimit_directInvocation (call : String) : (Error.directInvocation call).InLimit :=
  fun _ is => by cases is

theorem Value.convert_inLimit (target : Ty) (v : Value) :
    EndsWith Error.InLimit (fun w => w = v ∨ w.isScalar = true) (v.convert target) := by
  have pass : EndsWith Error.InLimit (fun w => w = v ∨ w.isScalar = true)
      (convert.pass target v) := by
    rw [convert.pass]
    split
    · exact .inl rfl
    · exact Error.inLimit_eval _
  rw [convert.eq_def]
  split
  · exact .inr rfl
  · split
    · exact .inr rfl
    · exact pass
  · exact .inr rfl
  · exact .inr rfl
  · exact .inr rfl
  · exact pass

theorem UnaryOp.apply_inLimit (op : UnaryOp) (v : Value) :
    EndsWith Error.InLimit (fun w => w = v ∨ w.isScalar = true) (op.apply v) := by
  rw [apply.eq_def]
  split
  · exact .inr rfl
  · split
    · exact .inr rfl
    · exact Error.inLimit_eval _
  · exact .inr rfl
  · exact v.convert_inLimit _
  · exact Error.inLimit_eval _

theorem BinaryOp.apply_inLimit (op : BinaryOp) (l r : Value) :
    EndsWith Error.InLimit (fun w => w.isScalar = true) (op.apply l r) := by
  have comparison : EndsWith Error.InLimit (fun w => w.isScalar = true) (op.comparison l r) := by
    rw [BinaryOp.comparison.eq_def]
    split
    · rfl
    · rfl
    · split
      · rfl
      · exact Error.inLimit_eval _
  have logical : EndsWith Error.InLimit (fun w => w.isScalar = true) (op.logical l r) := by
    rw [BinaryOp.logical.eq_def]
    simp only
    split
    · rfl
    · split <;> rfl
    · exact Error.inLimit_eval _
  have onInts : ∀ a b,
      EndsWith Error.InLimit (fun w => w.isScalar = true) (op.intArithmetic a b) := by
    intro a b
    rw [intArithmetic]
    split
    · exact Error.inLimit_eval _
    · split
      · rfl
      · exact Error.inLimit_eval _
  have arithmetic : EndsWith Error.InLimit (fun w => w.isScalar = true) (op.arithmetic l r) := by
    rw [BinaryOp.arithmetic.eq_def]
    split
    · rfl
    · rfl
    · exact onInts _ _
    · split
      · rfl
      · exact Error.inLimit_eval _
  cases op with
  | equal | notEqual => rfl
  | lessThan | lessThanOrEqual | greaterThan | greaterThanOrEqual => exact comparison
  | and | or | andAlso | orElse => exact logical
  | add | subtract | multiply | divide => exact arithmetic

theorem Builtin.answered_inLimit {which : Builtin} (answers : which.answers = true)
    (operands : List Value) :
    EndsWith Error.InLimit (fun w => w.isScalar = true) (which.procedure operands).answered := by
  rw [procedure.eq_def]
  split
  · rfl
  · exact Error.inLimit_eval _
  · rfl
  · exact Error.inLimit_eval _
  · cases answers
  · cases answers
  · rfl
  · exact Error.inLimit_eval _

/-- What the member of a confined node has on a tame target is tame. -/
theorem Reader.read_tame (reads : host.ReadsParts) {m : Member} {target : Option Value} {v : Value}
    (slot : m.isStatic = true → ∀ v, slots.lookup m.id = some v → v.Inert)
    (tame : ∀ t, target = some t → t.Tame naming slots room)
    (found : (Reader.of m).read host slots target = some v) : v.Tame naming slots room := by
  rw [Reader.of] at found
  split at found
  · rcases target with _ | t
    · cases found
    · cases t with
      | record typeName table =>
        exact (tame _ rfl).part (.field (Keyed.mem_of_lookup found) .refl)
      | _ => cases found
  · rename_i getter _
    obtain ⟨t, isTarget, has⟩ := Option.bind_eq_some_iff.mp found
    cases getter with
    | length =>
      cases t with
      | str s =>
        cases has
        exact .inert (.of_isScalar rfl)
      | _ => cases has
    | host name =>
      rcases reads name t v has with inside | inert
      · exact (tame t isTarget).part inside
      · exact .inert inert
  · rename_i kind
    exact .inert (slot (beq_iff_eq.mpr kind) v found)

theorem Store.readMember_inLimit (reads : host.ReadsParts) {m : Member} {target : Option Value}
    {store : Store} (name : naming m.id = .of m) (named : store.Named naming)
    (slot : m.isStatic = true → ∀ v, store.slots.lookup m.id = some v → v.Inert)
    (tame : ∀ t, target = some t → t.Tame naming store.slots room) :
    EndsWith Error.InLimit (Value.Tame naming store.slots room)
      (store.readMember host m target).1 := by
  rw [readMember.eq_def]
  split
  · exact Error.inLimit_eval _
  · obtain ⟨value, -⟩ := @read_named naming store m host target named name
    generalize store.read host m target = result at value
    obtain ⟨found, after⟩ := result
    cases found with
    | none => exact Error.inLimit_eval _
    | some v => exact Reader.read_tame reads slot tame value.symm

/-- A strict node of a confined tree, finished on tame operands, comes to a tame value or to an
error other than that of the limit. -/
theorem Expr.finish_inLimit (reads : host.ReadsParts) {expr : Expr} {store : Store}
    (strict : expr.isStrict = true) (confined : expr.Confined naming store.slots)
    (named : store.Named naming) {vs : List Value}
    (tame : ∀ v ∈ vs, v.Tame naming store.slots room) :
    EndsWith Error.InLimit (Value.Tame naming store.slots room) (expr.finish host vs store).1 := by
  have scalar : ∀ {v : Value}, v.isScalar = true → v.Tame naming store.slots room :=
    fun is => .inert (.of_isScalar is)
  rw [finish.eq_def]
  split
  · exact .inert (confined.constant _ _ rfl)
  · exact Store.readMember_inLimit reads (confined.named _ _ rfl) named (fun is v =>
      confined.slot _ _ v rfl is) fun _ is => by cases is
  · rename_i v
    refine Store.readMember_inLimit reads (confined.named _ _ rfl) named (fun is v =>
      confined.slot _ _ v rfl is) fun t isTarget => ?_
    cases isTarget
    exact tame v (.head _)
  · split
    · rename_i f _ _ native isNative
      obtain ⟨which, isBuiltin, answers⟩ := native_of_isStrict strict
      cases isNative.symm.trans isBuiltin
      exact (Builtin.answered_inLimit answers _).mono fun _ => scalar
    · exact Error.inLimit_directInvocation _
  · rename_i op _ _ v
    refine (op.apply_inLimit v).mono fun w => ?_
    rintro (rfl | is)
    · exact tame w (.head _)
    · exact scalar is
  · rename_i op _ _ _ l r
    exact (op.apply_inLimit l r).mono fun _ => scalar
  · rename_i fields operands
    refine .record fun field member => ?_
    rw [FieldTable.fields_writeAll] at member
    rcases Keyed.mem_of_mem_insertAll member with new | old
    · exact tame _ (List.of_mem_zip new).2
    · cases old
  · rename_i m _ t v
    cases t with
    | record typeName table =>
      refine .record fun field member => ?_
      rcases Keyed.mem_of_mem_insert member with rfl | old
      · exact tame v (.tail _ (.head _))
      · exact (tame _ (.head _)).part (.field old .refl)
    | _ => exact Error.inLimit_eval _
  · exact Error.inLimit_eval _

/-! ### Levels -/

/-- The slots hold these contents, and readers belong to their members. -/
structure Store.Serves (naming : Nat → Reader) (slots : List (Nat × Value)) (store : Store) :
    Prop where
  named : store.Named naming
  same : store.slots = slots

/-- For confined trees that are no higher than `room` there are levels enough: their evaluation
comes to tame values, or to errors other than that of the limit. -/
def Evaluation.Suffices (naming : Nat → Reader) (slots : List (Nat × Value)) (room : Nat)
    (below : Evaluation) : Prop :=
  ∀ node env store, node.Low naming slots room → Env.Inert env → store.Serves naming slots →
    Ends (Store.Serves naming slots) Error.InLimit (Value.Tame naming slots room)
      (below node env store)

/-- What a tame value comes down to when it is called with arguments that cannot be called. -/
theorem Value.Tame.callTarget {callee : Value} (tame : callee.Tame naming slots room)
    {args : List Value} (inert : ∀ v ∈ args, v.Inert) :
    EndsWith Error.InLimit (fun target => target.1.Low naming slots room ∧ Env.Inert target.2)
      (callee.callTarget args) := by
  cases tame with
  | record each => exact Error.inLimit_eval _
  | @closure l env low bindings =>
    simp only [Value.callTarget, Lambda.bindArgs]
    split
    · refine ⟨low, fun binding member => ?_⟩
      rcases Keyed.mem_of_mem_insertAll member with new | old
      · exact inert _ (List.of_mem_zip new).2
      · exact bindings binding old
    · exact fun _ is => by cases is
  | inert cannot =>
    have notCallable := cannot callee .refl
    cases callee with
    | tree _ | closure _ _ => cases notCallable
    | _ => exact Error.inLimit_eval _

namespace Evaluation.Suffices

variable {below : Evaluation} (enough : below.Suffices naming slots room) {store : Store}
  (serves : store.Serves naming slots)

include enough serves

/-- The builtin `any` runs each body from the level of its own call. -/
theorem anyOf {predicate : Value} (tame : predicate.Tame naming slots room) {items : List Value}
    (inert : ∀ item ∈ items, item.Inert) :
    Ends (Store.Serves naming slots) Error.InLimit (fun v => v.isScalar = true)
      ((Builtin.anyOf predicate items).carryOut below store) := by
  induction items generalizing store with
  | nil => exact ⟨rfl, serves⟩
  | cons item rest ih =>
    rw [List.forall_mem_cons] at inert
    have target := tame.callTarget (List.forall_mem_singleton.mpr inert.1)
    rw [Builtin.anyOf, Procedure.carryOut]
    generalize predicate.callTarget [item] = found at target
    obtain e | ⟨body, scope⟩ := found
    · exact ⟨target, serves⟩
    · have verdict := enough body scope store target.1 target.2 serves
      simp only
      generalize below body scope store = result at verdict
      obtain ⟨e | v, after⟩ := result
      · exact ⟨verdict.outcome, verdict.store⟩
      · simp only
        split
        · rename_i is
          cases is
        · exact ⟨rfl, verdict.store⟩
        · exact ih verdict.store inert.2
        · exact ⟨Error.inLimit_eval _, verdict.store⟩

theorem any {operands : List Value} (tame : ∀ v ∈ operands, v.Tame naming slots room) :
    Ends (Store.Serves naming slots) Error.InLimit (fun v => v.isScalar = true)
      ((Builtin.any.procedure operands).carryOut below store) := by
  rcases Builtin.procedure_any operands with ⟨items, predicate, rfl⟩ | fails
  · exact enough.anyOf serves (tame _ (.tail _ (.head _))) (tame _ (.head _)).items
  · rw [fails]
    exact ⟨Error.inLimit_eval _, serves⟩

omit serves in
/-- One level more is enough for one node more. -/
theorem ofNode (reads : host.ReadsParts) :
    (Evaluation.ofNode below host).Suffices naming slots (room + 1) := by
  intro node env store low inert serves
  have confined := low.confined.here
  refine Ends.ofNode Error.inLimit_eval
    (fun child member store serves => enough child env store (low.child member) inert serves)
    serves Error.inLimit_directInvocation (fun _ => .mono) (fun _ => .inert (.of_isScalar rfl))
    ?_ ?_ ?_ ?_
  · exact fun id v found => .inert (inert _ (Keyed.mem_of_lookup found))
  · intro l isLambda
    have body : l.body ∈ node.expr.children := by
      rw [isLambda]
      exact .head _
    exact .closure (low.child body).mono inert
  · intro strict vs store tame serves
    obtain ⟨named, same⟩ := Expr.finish_store host vs confined.named serves.named
    refine ⟨?_, named, same.trans serves.same⟩
    rw [← serves.same] at tame confined ⊢
    exact (Expr.finish_inLimit reads strict confined serves.named tame).mono fun _ => .mono
  · intro receiver callee args ty native isCall isNative notStrict vs store tame serves
    obtain ⟨which, rfl⟩ := confined.native _ _ _ _ _ isCall isNative
    have isAny : which = .any := by
      rw [isCall] at notStrict
      simp only [Expr.isStrict, isNative] at notStrict
      cases which with
      | any => rfl
      | _ => cases notStrict
    subst isAny
    exact (enough.any serves tame).mono fun _ is => .inert (.of_isScalar is)

end Evaluation.Suffices

/-- As many levels as a confined tree is high are enough to evaluate it. -/
theorem Evaluation.within_suffices (reads : host.ReadsParts) (naming : Nat → Reader)
    (slots : List (Nat × Value)) (limit room : Nat) :
    (Evaluation.within host limit room).Suffices naming slots room := by
  induction room with
  | zero =>
    intro node env store low
    have positive := node.height_pos
    have none := low.height
    omega
  | succ room ih => exact ih.ofNode reads

end

/-- One limit serves both passes. What an expansion makes is no higher than its limit, and so, where
nothing comes from outside that can be called, an evaluation under the same limit never fails for
want of levels, however deep natives call predicates inside predicates. -/
theorem Expander.expand_levels {host : Host} {expander after : Expander} {tree out : Node}
    {session final : Session} (run : expander.expand host tree session = (.ok out, after, final)) :
    expander.guard.current + out.height ≤ expander.guard.bound session.limit ∧
      ∀ (evaluator : Evaluator) (sessionLimit : Nat) (env : Env) (store : Store)
        (naming : Nat → Reader),
        evaluator.guard.bound sessionLimit = expander.guard.bound session.limit →
        evaluator.guard.current ≤ expander.guard.current →
        host.ReadsParts → out.All (·.Confined naming store.slots) → env.Inert →
        store.Named naming →
          ∀ limit, (evaluator.evaluate host sessionLimit out env store).1 ≠
            .error (.recursionLimit limit) := by
  simp only [expand, Pass.run_eq_transform, Prod.mk.injEq] at run
  obtain ⟨outcome, -, -⟩ := run
  have low := Pass.height_le_of_transform (fun _ _ _ _ _ => expansionPass_not_done)
    (Prod.ext outcome rfl)
  refine ⟨low, fun evaluator sessionLimit env store naming sameLimit level reads confined inert
    named limit fails => ?_⟩
  rw [← sameLimit] at low
  have sufficed := Evaluation.within_suffices reads naming store.slots
    (evaluator.guard.bound sessionLimit)
    (evaluator.guard.bound sessionLimit - evaluator.guard.current) out env store
    ⟨by omega, confined⟩ inert ⟨named, rfl⟩
  have inLimit := sufficed.outcome
  simp only [Evaluator.evaluate, evaluateFrom_eq_within] at fails
  rw [fails] at inLimit
  exact inLimit limit rfl

namespace NestedAny

def s : Parameter := ⟨16, "s", .seq .int⟩

def q : Parameter := ⟨17, "q", .int⟩

def r : Parameter := ⟨18, "r", .int⟩

/-- The lambda `r => r == q`. -/
def inner : Node :=
  ⟨6, .lambda (.of [r] ⟨5, .binary .equal ⟨4, .parameter r⟩ ⟨3, .parameter q⟩ .bool⟩)⟩

/-- The call `any(items, q => any(items, r => r == q))`. -/
def search (outerMark lambdaMark innerMark : Nat) (items : Node) : Node :=
  ⟨outerMark, .call none (.function .seqAny) [items, ⟨lambdaMark, .lambda (.of [q]
    ⟨innerMark, .call none (.function .seqAny) [items, inner] .bool⟩)⟩] .bool⟩

def items : Node := ⟨1, .constantOf (.seq [.int 1, .int 2])⟩

/-- The call of `s => any(s, q => any(s, r => r == q))` on two numbers. -/
def tree : Node :=
  ⟨0, .call none (.invoke .one)
    [⟨2, .treeOf (.of [s] (search 10 11 12 ⟨7, .parameter s⟩))⟩, items] .bool⟩

theorem expanded : ((({} : Expander).withMaxDepth 7).expand .basic tree {}).1 =
    .ok (search 18 17 16 items) := by
  simp only [Expander.expand, expansionPass, Pass.run_eq_transform]
  cbv

theorem parts : (search 18 17 16 items).parts =
    [search 18 17 16 items, items, ⟨17, .lambda (.of [q]
      ⟨16, .call none (.function .seqAny) [items, inner] .bool⟩)⟩,
      ⟨16, .call none (.function .seqAny) [items, inner] .bool⟩, items, inner,
      ⟨5, .binary .equal ⟨4, .parameter r⟩ ⟨3, .parameter q⟩ .bool⟩, ⟨4, .parameter r⟩,
      ⟨3, .parameter q⟩] := by
  cbv

theorem confined (naming : Nat → Reader) (slots : List (Nat × Value)) :
    (search 18 17 16 items).All (·.Confined naming slots) := by
  have any : ∀ args, (Expr.call none (.function .seqAny) args .bool).Confined naming slots := by
    refine fun args => ⟨fun _ _ is => (by cases is), fun _ _ _ is => (by cases is), ?_,
      fun _ _ is => (by cases is)⟩
    rintro _ _ _ _ native ⟨⟩ isNative
    exact ⟨.any, (Option.some.inj isNative).symm⟩
  have items : items.expr.Confined naming slots := by
    refine ⟨?_, fun _ _ _ is => (by cases is), fun _ _ _ _ _ is => (by cases is),
      fun _ _ is => (by cases is)⟩
    rintro _ _ ⟨⟩
    exact .seq (by simpa using ⟨.of_isScalar rfl, .of_isScalar rfl⟩)
  rw [Node.all_iff_parts, parts]
  simp only [List.forall_mem_cons]
  refine ⟨any _, items, ?_, any _, items, ?_, ?_, ?_, ?_, List.forall_mem_nil _⟩
  all_goals exact ⟨fun _ _ is => (by cases is), fun _ _ _ is => (by cases is),
    fun _ _ _ _ _ is => (by cases is), fun _ _ is => (by cases is)⟩

end NestedAny

open NestedAny in
/-- A predicate inside a predicate that an expansion has put together at the very limit. -/
theorem Expander.expand_levels_nestedAny :
    ∃ after final, (({} : Expander).withMaxDepth 7).expand .basic tree {} =
        (.ok (search 18 17 16 items), after, final) ∧
      (search 18 17 16 items).height ≤ 7 ∧
      ∀ limit, (({ guard := { limit := some 7 } } : Evaluator).evaluate .basic 1500
        (search 18 17 16 items) [] {}).1 ≠ .error (.recursionLimit limit) := by
  have outcome := expanded
  generalize ran : (({} : Expander).withMaxDepth 7).expand .basic tree {} = result at outcome
  obtain ⟨out, after, final⟩ := result
  cases outcome
  obtain ⟨low, enough⟩ := expand_levels ran
  refine ⟨after, final, rfl, (Nat.zero_add _).symm.trans_le low, ?_⟩
  exact enough { guard := { limit := some 7 } } 1500 [] {} (fun _ => .slot 0) rfl (Nat.le_refl 0)
    Host.basic_readsParts (confined _ _) (fun _ member => by cases member)
    (Store.bare_named _ [])

end TypedTrees
