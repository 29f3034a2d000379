import TypedTrees.Combinators
import TypedTrees.Proofs.Eval.Substitution
/-!
What composed lambdas compute. A composition puts the body of one lambda in for a parameter of
another, so by the substitution lemma it computes what the second computes from the result of the
first; and a sequence of steps, each on the same input and the result so far, computes what the
steps compute one after the other (`Lambda.invoke_composed`).
-/
namespace TypedTrees

/-- No lambda in the tree binds one of these parameters. -/
def Node.BindsNone (params : List Parameter) (tree : Node) : Prop :=
  tree.All fun expr => ∀ id ∈ expr.binders, id ∉ params.map Parameter.id

theorem Node.lambdasInAny_parameter (mark : Nat) (param : Parameter) :
    (⟨mark, .parameter param⟩ : Node).LambdasInAny := by
  refine ⟨by rintro ⟨l, ⟨⟩⟩, Node.all_iff.mpr ⟨?_, ?_⟩⟩
  · exact fun child member => by cases member
  · exact fun child member => by cases member

namespace Lambda

section Invocation

variable {host : Host} {limit : Nat} {l : Lambda} {args : List Value} {store : Store}

theorem invoke_eq (arity : l.arity = args.length) :
    l.invoke host limit args store =
      Evaluation.within host limit limit l.body (l.scope [] args) store := by
  rw [invoke, bindArgs, if_pos arity]
  simp only [evaluateFrom_eq_within, Nat.sub_zero]

theorem invoke_outcome (arity : l.arity = args.length) :
    (l.invoke host limit args store).1 =
      (evaluateFrom host limit 0 l.body (l.scope [] args) store).outcome := by
  rw [invoke_eq arity, evaluateFrom_eq_within]
  rfl

theorem arity_of_invoke {v : Value} (result : (l.invoke host limit args store).1 = .ok v) :
    l.arity = args.length := by
  by_contra differs
  rw [invoke, bindArgs, if_neg differs] at result
  cases result

end Invocation

/-- The invocation runs no native of the host and finishes no node that is declined. -/
def Unrefused (declines : Expr → List Value → Bool) (host : Host) (limit : Nat) (l : Lambda)
    (args : List Value) (store : Store) : Prop :=
  Evaluation.Unrefused declines host limit limit l.body (l.scope [] args) store

/-- Some invocation of the lambda on these arguments has come to this value, in a store with these
slots, and has refused nothing on the way. -/
def HasResult (declines : Expr → List Value → Bool) (host : Host) (naming : Nat → Reader)
    (slots : List (Nat × Value)) (l : Lambda) (args : List Value) (v : Value) : Prop :=
  ∃ limit store, store.Holds naming slots ∧ l.Unrefused declines host limit args store ∧
    (l.invoke host limit args store).1 = .ok v

/-- The steps, each invoked on the same input and the result so far, lead from the one value to the
other. -/
inductive Threads (declines : Expr → List Value → Bool) (host : Host) (naming : Nat → Reader)
    (slots : List (Nat × Value)) (input : Value) : Value → List Lambda → Value → Prop
  | nil (u : Value) : Threads declines host naming slots input u [] u
  | cons {step : Lambda} {steps : List Lambda} {u w z : Value}
      (result : step.HasResult declines host naming slots [input, u] w)
      (rest : Threads declines host naming slots input w steps z) :
      Threads declines host naming slots input u (step :: steps) z

variable {host : Host} {declines : Expr → List Value → Bool} {naming : Nat → Reader}
  {slots : List (Nat × Value)}

theorem HasResult.arity {l : Lambda} {args : List Value} {v : Value}
    (result : l.HasResult declines host naming slots args v) : l.arity = args.length := by
  obtain ⟨limit, store, -, -, value⟩ := result
  exact arity_of_invoke value

/-- The body has the value of an invocation. -/
theorem HasResult.body {l : Lambda} {args : List Value} {v : Value}
    (result : l.HasResult declines host naming slots args v) :
    l.body.HasValue declines host naming slots (l.scope [] args) v := by
  have arity := result.arity
  obtain ⟨limit, store, holds, unrefused, value⟩ := result
  refine ⟨limit, 0, store, holds, unrefused, ?_⟩
  rwa [invoke_outcome arity] at value

/-! ### What a composition is -/

theorem singleInput_eq_ok {combinator : String} {l : Lambda} {param : Parameter}
    (single : l.singleInput combinator = .ok param) : l.params = [param] := by
  rw [singleInput] at single
  split at single
  · rename_i params
    cases single
    exact params
  · cases single

theorem composeInput_eq_ok {first second : Lambda} {param : Parameter}
    (inputs : composeInput first second = .ok param) :
    (∃ input, first.params = [input]) ∧ second.params = [param] := by
  simp only [composeInput, bind, Except.bind, pure, Except.pure] at inputs
  split at inputs
  · cases inputs
  rename_i input single
  split at inputs
  · cases inputs
  rename_i other single'
  split at inputs
  · cases inputs
  · cases inputs
    exact ⟨⟨input, singleInput_eq_ok single⟩, singleInput_eq_ok single'⟩

theorem composeInputs_eq_ok {first second : Lambda} {input source intermediate : Parameter}
    (inputs : composeInputs first second = .ok (input, source, intermediate)) :
    first.params = [input] ∧ second.params = [source, intermediate] := by
  simp only [composeInputs, bind, Except.bind, pure, Except.pure] at inputs
  split at inputs
  · cases inputs
  rename_i other single
  split at inputs
  · rename_i params
    split at inputs
    · cases inputs
    split at inputs
    · cases inputs
    · cases inputs
      exact ⟨singleInput_eq_ok single, params⟩
  · cases inputs

theorem withBody_eq_ok {l c : Lambda} {ret : Ty} {made : Except Error Node × Supply}
    {after : Supply} (whole : l.withBody ret made = (.ok c, after)) :
    ∃ out, made.1 = .ok out ∧ c = ⟨l.params, out, ret⟩ := by
  obtain ⟨e | out, supply⟩ := made
  · cases whole
  · cases whole
    exact ⟨out, rfl, rfl⟩

theorem compose_eq_ok {limit : Nat} {first second c : Lambda} {supply after : Supply}
    (made : compose limit first second supply = (.ok c, after)) :
    ∃ input param out, first.params = [input] ∧ second.params = [param] ∧
      c = ⟨first.params, out, second.ret⟩ ∧
      second.body.SubstitutesTo (Substitution.empty.bind param first.body) out := by
  rw [compose] at made
  split at made
  · cases made
  rename_i param inputs
  obtain ⟨⟨input, single⟩, single'⟩ := composeInput_eq_ok inputs
  obtain ⟨out, run, rfl⟩ := withBody_eq_ok made
  exact ⟨input, param, out, single, single', rfl, limit, 0, supply, run⟩

/-- What a composition puts in for the two parameters of a step: the input of the first lambda, and
its body. If the two are one and the same, it is the body. -/
def putIn (input source intermediate : Parameter) (mark : Nat) (body : Node) : Substitution :=
  (Substitution.empty.bind source ⟨mark, .parameter input⟩).bind intermediate body

theorem composeWithInput_eq_ok {limit : Nat} {first next c : Lambda} {supply after : Supply}
    (made : composeWithInput limit first next supply = (.ok c, after)) :
    ∃ input source intermediate mark out, first.params = [input] ∧
      next.params = [source, intermediate] ∧ c = ⟨first.params, out, next.ret⟩ ∧
      next.body.SubstitutesTo (putIn input source intermediate mark first.body) out := by
  rw [composeWithInput] at made
  split at made
  · cases made
  rename_i input source intermediate inputs
  obtain ⟨single, both⟩ := composeInputs_eq_ok inputs
  obtain ⟨out, run, rfl⟩ := withBody_eq_ok made
  exact ⟨input, source, intermediate, _, out, single, both, rfl, limit, 0, _, run⟩

theorem composeSequence_cons {limit : Nat} {first next c : Lambda} {steps : List Lambda}
    {supply after : Supply}
    (made : composeSequence limit first (next :: steps) supply = (.ok c, after)) :
    ∃ l middle, composeWithInput limit first next supply = (.ok l, middle) ∧
      composeSequence limit l steps middle = (.ok c, after) := by
  rw [composeSequence] at made
  split at made
  · cases made
  · rename_i l middle here
    exact ⟨l, middle, here, made⟩

theorem lookup_scope_one {l : Lambda} {param : Parameter} (single : l.params = [param]) (v : Value)
    (id : Nat) : (l.scope [] [v]).lookup id = if id == param.id then some v else none := by
  rw [scope, single, Keyed.lookup_insertAll]
  simp only [List.map_cons, List.map_nil, List.zip_cons_cons, List.zip_nil_right,
    List.reverse_singleton, List.lookup_cons, List.lookup_nil, Option.or_none]
  cases id == param.id <;> rfl

/-- Of two parameters that are one and the same the second argument is what it is bound to. -/
theorem lookup_scope_two {l : Lambda} {source intermediate : Parameter}
    (both : l.params = [source, intermediate]) (v u : Value) (id : Nat) :
    (l.scope [] [v, u]).lookup id =
      if id == intermediate.id then some u else if id == source.id then some v else none := by
  rw [scope, both, Keyed.lookup_insertAll]
  simp only [List.map_cons, List.map_nil, List.zip_cons_cons, List.zip_nil_right, List.reverse_cons,
    List.reverse_nil, List.nil_append, List.cons_append, List.lookup_cons, List.lookup_nil,
    Option.or_none]
  cases id == intermediate.id <;> cases id == source.id <;> rfl

theorem putIn_at? (input source intermediate : Parameter) (mark : Nat) (body : Node) (id : Nat) :
    (putIn input source intermediate mark body).at? id =
      if id == intermediate.id then some body
      else if id == source.id then some ⟨mark, .parameter input⟩ else none := by
  rw [putIn, Substitution.bind_at?, Substitution.bind_at?]
  rfl

/-! ### What a composition computes -/

/-- The lambda is closed, has lambda nodes only where the builtin `any` applies them, and none of
these binds one of these parameters. -/
structure Suits (params : List Parameter) (l : Lambda) : Prop where
  closed : l.Closed
  inAny : l.body.LambdasInAny
  bindsNone : l.body.BindsNone params

/-- What is mapped are the parameters of `next`, and nothing is free in what they are mapped to but
the parameters of `first`. -/
structure Replaces (first next : Lambda) (put : Nat → Option Node) : Prop where
  mapped : ∀ id, id ∈ next.params.map Parameter.id ↔ ∃ image, put id = some image
  inAny : ∀ id image, put id = some image → image.LambdasInAny
  free : ∀ id image other, put id = some image → image.Free other →
    other ∈ first.params.map Parameter.id

section

variable {first next : Lambda} {put : Nat → Option Node}

theorem Replaces.spares (replaces : Replaces first next put)
    (suits : next.Suits (next.params ++ first.params)) : next.body.All (·.Spares put) := by
  intro part inTree id bound
  have apart := suits.bindsNone part inTree id bound
  rw [List.map_append, List.mem_append, not_or] at apart
  refine ⟨?_, fun other image found free => apart.2 (replaces.free other image id found free)⟩
  cases found : put id with
  | none => rfl
  | some image => exact absurd ((replaces.mapped id).mpr ⟨image, found⟩) apart.1

/-- The composed lambda is closed if the first one and the second one are. -/
theorem Replaces.closed (replaces : Replaces first next put) (closed : next.Closed) {out : Node}
    (related : next.body.Substituted put out) (ret : Ty) :
    Closed ⟨first.params, out, ret⟩ := by
  intro id free
  rcases related.free free with ⟨own, absent⟩ | ⟨other, image, found, free⟩
  · obtain ⟨image, found⟩ := (replaces.mapped id).mp (closed id own)
    cases absent.symm.trans found
  · exact replaces.free other image id found free

theorem replaces_compose {param : Parameter} (single : next.params = [param])
    (closed : first.Closed) (inAny : first.body.LambdasInAny) :
    Replaces first next (Substitution.empty.bind param first.body).at? := by
  have found : ∀ id, (Substitution.empty.bind param first.body).at? id =
      if id == param.id then some first.body else none :=
    fun id => Substitution.bind_at? _ param first.body id
  refine ⟨fun id => ?_, fun id image is => ?_, fun id image other is free => ?_⟩
  · rw [single, found]
    by_cases same : id = param.id <;> simp [same]
  · rw [found] at is
    split at is <;> cases is
    exact inAny
  · rw [found] at is
    split at is <;> cases is
    exact closed other free

theorem replaces_composeWithInput {input source intermediate : Parameter} (mark : Nat)
    (single : first.params = [input]) (both : next.params = [source, intermediate])
    (closed : first.Closed) (inAny : first.body.LambdasInAny) :
    Replaces first next (putIn input source intermediate mark first.body).at? := by
  refine ⟨fun id => ?_, fun id image is => ?_, fun id image other is free => ?_⟩
  · rw [both, putIn_at?]
    by_cases isResult : id = intermediate.id
    · simp [isResult]
    by_cases isInput : id = source.id
    · simp only [beq_iff_eq, if_neg isResult, if_pos isInput]
      simp [isInput]
    · simp [isResult, isInput]
  · rw [putIn_at?] at is
    split at is
    · cases is
      exact inAny
    · split at is <;> cases is
      exact Node.lambdasInAny_parameter mark input
  · rw [putIn_at?] at is
    split at is
    · cases is
      exact closed other free
    · split at is <;> cases is
      rw [Node.free_mk] at free
      simpa [Expr.children, single, eq_comm] using free

variable {like : Likeness host declines} {v u : Value} {more : Nat}

/-- A composition provides what the second lambda has bound to the result of the first. -/
theorem provides_compose {param : Parameter} (single : next.params = [param])
    (closed : next.Closed) {env : Env} (comes : like.Comes more first.body env u) (id : Nat)
    (free : next.body.Free id) :
    like.Provides more (Substitution.empty.bind param first.body).at? (next.scope [] [u]) env
      id := by
  have among := closed id free
  rw [single] at among
  obtain rfl : id = param.id := by simpa using among
  refine .image ?_ ?_ comes
  · rw [Substitution.bind_at?, BEq.rfl, if_pos rfl]
  · rw [lookup_scope_one single, BEq.rfl, if_pos rfl]

/-- A composition provides what a step has bound to the input and to the result so far. -/
theorem provides_composeWithInput {input source intermediate : Parameter} {mark : Nat}
    (single : first.params = [input]) (both : next.params = [source, intermediate])
    (closed : next.Closed) (comes : like.Comes more first.body (first.scope [] [v]) u) (id : Nat)
    (free : next.body.Free id) :
    like.Provides more (putIn input source intermediate mark first.body).at?
      (next.scope [] [v, u]) (first.scope [] [v]) id := by
  have among := closed id free
  rw [both] at among
  by_cases isResult : id = intermediate.id
  · subst isResult
    refine .image ?_ ?_ comes
    · rw [putIn_at?, BEq.rfl, if_pos rfl]
    · rw [lookup_scope_two both, BEq.rfl, if_pos rfl]
  · have isInput : id = source.id := by simpa [isResult] using among
    have bound : (first.scope [] [v]).lookup input.id = some v := by
      rw [lookup_scope_one single, BEq.rfl, if_pos rfl]
    have given : like.Comes more ⟨mark, .parameter input⟩ (first.scope [] [v]) v :=
      (Likeness.Comes.parameter bound).mono (Nat.zero_le more)
    refine .image ?_ ?_ given
    · rw [putIn_at?, if_neg (by simpa using isResult), if_pos (by simpa using isInput)]
    · rw [lookup_scope_two both, if_neg (by simpa using isResult), if_pos (by simpa using isInput)]

end

/-- On this input the closed lambda comes to this value. -/
structure Computes (like : Likeness host declines) (l : Lambda) (v u : Value) : Prop where
  closed : l.Closed
  inAny : l.body.LambdasInAny
  comes : ∃ more, like.Comes more l.body (l.scope [] [v]) u

section

variable (ignores : host.IgnoresStorage) (wary : Wary declines)
  (named : ∀ expr vs, declines expr vs = false → expr.NamedBy naming)

/-- A step of a sequence: from a lambda that computes the result so far comes one that computes what
the step makes of it. -/
theorem Computes.composeWithInput {limit : Nat} {l next c : Lambda} {supply after : Supply}
    {v u w : Value} (computes : l.Computes (Likeness.unpaged slots ignores wary named) v u)
    (suits : next.Suits (next.params ++ l.params))
    (made : composeWithInput limit l next supply = (.ok c, after))
    (result : next.HasResult declines host naming slots [v, u] w) :
    c.params = l.params ∧ c.Computes (Likeness.unpaged slots ignores wary named) v w := by
  obtain ⟨input, source, intermediate, mark, out, single, both, rfl, substitutes⟩ :=
    composeWithInput_eq_ok made
  obtain ⟨more, comes⟩ := computes.comes
  have related := substitutes.substituted
  have replaces := replaces_composeWithInput mark single both computes.closed computes.inAny
  refine ⟨rfl, replaces.closed suits.closed related next.ret,
    related.lambdasInAny suits.inAny replaces.inAny, ?_⟩
  exact result.body.comes_substituted ignores wary named related suits.inAny
    (replaces.spares suits) (provides_composeWithInput single both suits.closed comes)

theorem Computes.composeSequence {limit : Nat} {first l c : Lambda} {steps : List Lambda}
    {supply after : Supply} {v u z : Value}
    (computes : l.Computes (Likeness.unpaged slots ignores wary named) v u)
    (params : l.params = first.params)
    (suits : ∀ step ∈ steps, step.Suits (step.params ++ first.params))
    (made : composeSequence limit l steps supply = (.ok c, after))
    (threads : Threads declines host naming slots v u steps z) :
    c.params = first.params ∧ c.Computes (Likeness.unpaged slots ignores wary named) v z := by
  induction threads generalizing l supply with
  | nil u =>
    cases made
    exact ⟨params, computes⟩
  | @cons step steps u w z result _ ih =>
    obtain ⟨middle, supply', here, rest⟩ := composeSequence_cons made
    rw [List.forall_mem_cons] at suits
    obtain ⟨params', computes'⟩ :=
      computes.composeWithInput ignores wary named (params ▸ suits.1) here result
    exact ih computes' (params'.trans params) suits.2 rest

/-- A lambda that has come to a value on this input computes it. -/
theorem HasResult.computes {l : Lambda} {v u : Value} (closed : l.Closed)
    (inAny : l.body.LambdasInAny) (result : l.HasResult declines host naming slots [v] u) :
    l.Computes (Likeness.unpaged slots ignores wary named) v u :=
  ⟨closed, inAny, result.body.comes ignores wary named inAny⟩

/-- What a lambda computes is what an invocation comes to, or else it trips over its limit. -/
theorem Computes.invoke {l : Lambda} {v u : Value} (arity : l.arity = 1)
    (computes : l.Computes (Likeness.unpaged slots ignores wary named) v u) :
    ∃ enough, ∀ limit store, store.Holds naming slots →
      (∃ w, (l.invoke host limit [v] store).1 = .ok w ∧ w.unpaged = u.unpaged) ∨
        limit < enough ∧ (l.invoke host limit [v] store).1 = .error (.recursionLimit limit) := by
  obtain ⟨more, comes⟩ := computes.comes
  refine ⟨more + 1, fun limit store holds => ?_⟩
  have likewise := comes _ (fun _ _ => rfl) limit limit store store ⟨holds, holds⟩
  rw [invoke_eq arity]
  generalize Evaluation.within host limit limit l.body (l.scope [] [v]) store = result
    at likewise ⊢
  cases likewise with
  | ok same _ => exact .inl ⟨_, rfl, same.symm⟩
  | cut isShort => exact .inr ⟨Nat.lt_succ_of_le isShort, rfl⟩

/-- A composition of two lambdas is invoked like the second on what the first computes. -/
theorem Computes.invoke_compose {limit : Nat} {first second c : Lambda} {supply after : Supply}
    {v u : Value} (computes : first.Computes (Likeness.unpaged slots ignores wary named) v u)
    (suits : second.Suits (second.params ++ first.params))
    (made : compose limit first second supply = (.ok c, after)) :
    ∃ more, ∀ limit₁ store₁ limit₂ store₂, store₁.Holds naming slots → store₂.Holds naming slots →
      second.Unrefused declines host limit₁ [u] store₁ →
      let staged := (second.invoke host limit₁ [u] store₁).1
      let composed := (c.invoke host limit₂ [v] store₂).1
      staged = .error (.recursionLimit limit₁) ∨
        (limit₂ < limit₁ + more ∧ composed = .error (.recursionLimit limit₂)) ∨
        Outcomes (fun v w => v.unpaged = w.unpaged) staged composed := by
  obtain ⟨input, param, out, single, single', rfl, substitutes⟩ := compose_eq_ok made
  obtain ⟨more, comes⟩ := computes.comes
  have replaces := replaces_compose single' computes.closed computes.inAny
  have mirrored : (Likeness.unpaged slots ignores wary named).Mirrored more
      (Substitution.empty.bind param first.body).at? second.body (second.scope [] [u]) out
      (first.scope [] [v]) :=
    .filled substitutes.substituted suits.inAny.1 suits.inAny.2 (replaces.spares suits)
      (provides_compose single' suits.closed comes)
  refine ⟨more, fun limit₁ store₁ limit₂ store₂ holds₁ holds₂ unrefused => ?_⟩
  rw [invoke_eq (show second.arity = 1 by rw [arity, single']; rfl),
    invoke_eq (show arity ⟨first.params, out, second.ret⟩ = 1 by rw [arity, single]; rfl)]
  exact (mirrored.likewise_within ⟨holds₁, holds₂⟩ unrefused).outcomes

include ignores wary named

/-- Composed lambdas compute compositions. Let the lambdas be closed, with lambda nodes only where
`any` applies them and binding neither a parameter of a step nor that of the first lambda; and let
no run make an equality test that depends on storage or run a native of the host. If the steps lead
from the result of the first lambda to some value, the sequence comes to this value, up to storage;
and one lambda after another comes to what the second comes to on the result of the first, or to an
error of the same kind. So it is under all limits that are not tripped over, and with enough levels
none is. -/
theorem invoke_composed {first : Lambda} {v u : Value} (closed : first.Closed)
    (inAny : first.body.LambdasInAny) (result : first.HasResult declines host naming slots [v] u) :
    (∀ limit steps supply c after z,
      (∀ step ∈ steps, step.Suits (step.params ++ first.params)) →
      composeSequence limit first steps supply = (.ok c, after) →
      Threads declines host naming slots v u steps z →
      ∃ enough, ∀ limit' store, store.Holds naming slots →
        (∃ w, (c.invoke host limit' [v] store).1 = .ok w ∧ w.unpaged = z.unpaged) ∨
          limit' < enough ∧
            (c.invoke host limit' [v] store).1 = .error (.recursionLimit limit')) ∧
    ∀ limit second supply c after, second.Suits (second.params ++ first.params) →
      compose limit first second supply = (.ok c, after) →
      ∃ more, ∀ limit₁ store₁ limit₂ store₂,
        store₁.Holds naming slots → store₂.Holds naming slots →
        second.Unrefused declines host limit₁ [u] store₁ →
        let staged := (second.invoke host limit₁ [u] store₁).1
        let composed := (c.invoke host limit₂ [v] store₂).1
        staged = .error (.recursionLimit limit₁) ∨
          (limit₂ < limit₁ + more ∧ composed = .error (.recursionLimit limit₂)) ∨
          Outcomes (fun v w => v.unpaged = w.unpaged) staged composed := by
  have computes := result.computes ignores wary named closed inAny
  refine ⟨fun limit steps supply c after z suits made threads => ?_,
    fun limit second supply c after suits made => ?_⟩
  · obtain ⟨params, computed⟩ :=
      computes.composeSequence ignores wary named rfl suits made threads
    refine computed.invoke ignores wary named ?_
    rw [arity, params]
    exact result.arity
  · exact computes.invoke_compose ignores wary named suits made

end

/-! ### Steps taken twice -/

namespace RunningSum

open AnyAbove (x y q sum)

/-- The lambda `y => y + 1`. -/
def first : Lambda := ⟨[y], sum, .int⟩

/-- The step `(y, x) => y + x`. It shares its first parameter with the first lambda. -/
def step : Lambda :=
  ⟨[y, x], ⟨29, .binary .add ⟨30, .parameter y⟩ ⟨31, .parameter x⟩ .int⟩, .int⟩

/-- The lambda `x => any([1, 4], q => q > x)`. -/
def second : Lambda := ⟨[x], AnyAbove.tree, .bool⟩

/-- The sum `y + (y + (y + 1))`. -/
def summed : Node :=
  ⟨103, .binary .add ⟨102, .parameter y⟩
    ⟨101, .binary .add ⟨100, .parameter y⟩ sum .int⟩ .int⟩

/-- The call `any([1, 4], q => q > y + 1)`. -/
def asked : Node :=
  ⟨102, .call none (.function .seqAny)
    [⟨21, .constant (.seq [.int 1, .int 4]) (.seq .int)⟩,
      ⟨101, .lambda ⟨[q], ⟨100, .binary .greaterThan ⟨24, .parameter q⟩ sum .bool⟩, .bool⟩⟩] .bool⟩

theorem sequence : composeSequence 9 first [step, step] ⟨100⟩ =
    (.ok ⟨[y], summed, .int⟩, ⟨104⟩) := by
  simp only [composeSequence, composeWithInput, Node.substitute, Node.substituteFrom,
    Pass.run_eq_transform]
  cbv

theorem asking : compose 9 first second ⟨100⟩ = (.ok ⟨[y], asked, .bool⟩, ⟨103⟩) := by
  simp only [compose, Node.replaceParameter, Node.substitute, Node.substituteFrom,
    Pass.run_eq_transform]
  cbv

theorem closed : first.Closed := by
  intro id free
  simp [first, sum, Lambda.body, Node.free_mk, Expr.children, Expr.binders, y] at free
  simp [first, Lambda.params, y, free]

theorem step_suits : step.Suits (step.params ++ first.params) := by
  have parts : step.body.parts = [step.body, ⟨30, .parameter y⟩, ⟨31, .parameter x⟩] := by cbv
  refine ⟨fun id free => ?_, ⟨by decide, ?_⟩, ?_⟩
  · simp [step, Lambda.body, Node.free_mk, Expr.children, Expr.binders, x, y] at free
    simpa [step, Lambda.params, x, y, eq_comm] using free
  · rw [Node.all_iff_parts, parts]
    decide
  · rw [Node.BindsNone, Node.all_iff_parts, parts]
    decide

theorem second_suits : second.Suits (second.params ++ first.params) := by
  have parts : second.body.parts = _ := AnyAbove.parts
  refine ⟨fun id free => ?_, AnyAbove.inAny.1, ?_⟩
  · simp [second, AnyAbove.tree, AnyAbove.anyOver, Lambda.body, Lambda.params, Node.free_mk,
      Expr.children, Expr.binders, x, q] at free
    simp [second, Lambda.params, x]
    omega
  · rw [Node.BindsNone, Node.all_iff_parts, parts]
    decide

theorem unread : Store.Holds (fun _ => .slot 0) [] {} := ⟨Store.named_of_unread rfl _, rfl⟩

theorem first_hasResult :
    first.HasResult AnyAbove.declines .basic (fun _ => .slot 0) [] [.int 2] (.int 3) := by
  refine ⟨5, {}, unread, fun e => rfl, ?_⟩
  rw [invoke_eq rfl]
  rfl

/-- Twice the step: `2 + 3` and `2 + 5`. -/
theorem threads :
    Threads AnyAbove.declines .basic (fun _ => .slot 0) [] (.int 2) (.int 3) [step, step]
      (.int 7) := by
  refine .cons (w := .int 5) ⟨5, {}, unread, fun e => rfl, ?_⟩
    (.cons (w := .int 7) ⟨5, {}, unread, fun e => rfl, ?_⟩ (.nil _))
  · rw [invoke_eq rfl]
    rfl
  · rw [invoke_eq rfl]
    rfl

theorem second_holds : (second.invoke .basic 5 [.int 3] {}).1 = .ok (.bool true) := by
  rw [invoke_eq rfl]
  rfl

end RunningSum

open RunningSum in
/-- With the step `(y, x) => y + x` taken twice after `y => y + 1`, two comes to seven; and with
`x => any([1, 4], q => q > x)` after it, to whether an item is greater than three. -/
theorem invoke_composed_runningSum :
    (∃ c after enough, composeSequence 9 first [step, step] ⟨100⟩ = (.ok c, after) ∧
      ∀ limit, enough ≤ limit → (c.invoke .basic limit [.int 2] {}).1 = .ok (.int 7)) ∧
    ∃ c after enough, compose 9 first second ⟨100⟩ = (.ok c, after) ∧
      ∀ limit, enough ≤ limit → (c.invoke .basic limit [.int 2] {}).1 = .ok (.bool true) := by
  obtain ⟨ofSequence, ofCompose⟩ := invoke_composed Host.basic_ignoresStorage
    (Expr.wary_cautious _) Expr.namedBy_of_cautious closed AnyAbove.inAny.2 first_hasResult
  obtain ⟨enough, computes⟩ := ofSequence 9 [step, step] ⟨100⟩ _ _ (.int 7)
    (by simp only [List.mem_cons, List.not_mem_nil, or_false, or_self, forall_eq, step_suits])
    sequence threads
  obtain ⟨more, agrees⟩ := ofCompose 9 second ⟨100⟩ _ _ second_suits asking
  refine ⟨⟨_, _, enough, sequence, fun limit levels => ?_⟩,
    _, _, 5 + more, asking, fun limit levels => ?_⟩
  · rcases computes limit {} unread with ⟨w, comes, same⟩ | ⟨short, -⟩
    · rw [comes, Value.eq_int_of_unpaged same]
    · omega
  · rcases agrees 5 {} limit {} unread unread fun e => rfl with trips | ⟨short, -⟩ | outcomes
    · cases second_holds.symm.trans trips
    · omega
    · rw [second_holds] at outcomes
      exact outcomes.eq_bool

open TwiceBuilt in
/-- The lambda `x => new R { L = NaN }` and the step `(x, r) => r == r` have no lambda node and no
call in them, and yet the step is true of what the lambda comes to, and the sequence of the two is
false. -/
theorem invoke_composed_alters_twiceBuilt :
    let first : Lambda := ⟨[AnyAbove.x], made nan, .any⟩
    let step : Lambda := ⟨[AnyAbove.x, r], TwiceBuilt.same.body, .bool⟩
    (∀ part ∈ step.body.parts ++ first.body.parts, isLambdaOrCall part.expr = false) ∧
      first.Closed ∧ step.Closed ∧
      ∃ c after u, composeSequence 9 first [step] ⟨99⟩ = (.ok c, after) ∧
        (first.invoke .basic 5 [.int 0] {}).1 = .ok u ∧
        (step.invoke .basic 5 [.int 0, u] {}).1 = .ok (.bool true) ∧
        (c.invoke .basic 5 [.int 0] {}).1 = .ok (.bool false) := by
  intro first step
  have made : ∀ x, composeSequence 9 ⟨[AnyAbove.x], made x, .any⟩ [step] ⟨99⟩ =
      (.ok ⟨[AnyAbove.x], out x, .bool⟩, ⟨101⟩) := by
    intro x
    simp only [composeSequence, composeWithInput, Node.substitute, Node.substituteFrom,
      Pass.run_eq_transform]
    cbv
  refine ⟨plain nan, ?_, ?_, _, _, value nan 17, made nan, ?_, ?_, ?_⟩
  · intro id free
    simp [first, TwiceBuilt.made, Lambda.body, Node.free_mk, Expr.children] at free
  · intro id free
    simp [step, same, Lambda.body, Node.free_mk, Expr.children, r] at free
    simp [step, Lambda.params, r, free]
  · rw [invoke_outcome rfl]
    exact made_value nan _ {}
  · rw [invoke_outcome rfl]
    exact same_value rfl {}
  · rw [invoke_outcome rfl]
    exact evaluated nan_unequal _ {}

end Lambda

end TypedTrees
