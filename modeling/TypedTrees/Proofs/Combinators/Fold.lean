import TypedTrees.Proofs.Combinators.Composition
import TypedTrees.Proofs.Substitution.Exact
/-!
What a fold computes. The trees of a fold are rebound to one new parameter, each as if it were
composed with a lambda that gives back its input, and then joined from the left. So the fold comes
to exactly what comes of invoking the lambdas one after another on the same input and combining
their results from the left (`Lambda.invoke_fold`).
-/
namespace TypedTrees

namespace Evaluation

/-- An operator that is no short-circuiting one is evaluated by evaluating both operands. -/
theorem ofNode_eager {below : Evaluation} {host : Host} {node left right : Node} {op : BinaryOp}
    {ty : Ty} (isExpr : node.expr = .binary op left right ty)
    (eager : ¬(op = .andAlso ∨ op = .orElse)) (env : Env) (store : Store) :
    ofNode below host node env store = andThen (below left env store) fun v store =>
      andThen (below right env store) fun w store => (op.apply v w, store) := by
  simp only [ofNode, isExpr, if_neg eager]
  rcases below left env store with ⟨e | v, middle⟩
  · rfl
  · simp only [andThen]
    rcases below right env middle with ⟨e | w, after⟩ <;> rfl

/-- To refuse nothing but natives of the host is to have them do nothing but fail. -/
theorem within_barring (e : Error) (host : Host) (limit room : Nat) :
    within (host.barring e) limit room = refusing e (fun _ _ => false) host limit room := by
  induction room with
  | zero => rfl
  | succ room ih =>
    funext node env store
    rw [within, refusing, refuse, ih]
    split
    · rename_i strict
      rw [ofNode_strict strict]
      simp only [Bool.false_eq_true, if_false]
      rw [Host.barring, funext₂ (Expr.finish_withNative host _ strict)]
    · rfl

end Evaluation

/-- What an operator makes of what is computed first and of what is computed next. A
short-circuiting one takes booleans, and asks for the next one only if the first does not settle it.
The first failure ends it. -/
def BinaryOp.onto (op : BinaryOp) (first next : Store → Except Error Value × Store)
    (store : Store) : Except Error Value × Store :=
  if op = .andAlso ∨ op = .orElse then
    Evaluation.boolThen op.symbol (first store) fun b store =>
      if b = (op == .orElse) then (.ok (.bool b), store)
      else Evaluation.boolThen op.symbol (next store) fun c store => (.ok (.bool c), store)
  else
    Evaluation.andThen (first store) fun v store =>
      Evaluation.andThen (next store) fun w store => (op.apply v w, store)

/-- What is run comes to the same whatever error the natives of the host fail with, so it runs none
of them. -/
def Host.RunsNone {α : Type} (host : Host) (run : Host → α) : Prop :=
  ∀ e, run (host.barring e) = run host

namespace Lambda

/-- The lambdas invoked one after another, and combined from the left. -/
def combined (op : BinaryOp) (invoke : Lambda → Store → Except Error Value × Store)
    (first : Lambda) (rest : List Lambda) : Store → Except Error Value × Store :=
  (rest.map invoke).foldl op.onto (invoke first)

/-! ### When a fold succeeds -/

/-- The lambda has one parameter, of this type. -/
def Takes (ty : Ty) (l : Lambda) : Prop := ∃ param, l.params = [param] ∧ param.ty = ty

/-- There are lambdas, and all of them have one parameter of one and the same type. -/
def OverOneInput (trees : List Lambda) : Prop := trees ≠ [] ∧ ∃ ty, ∀ l ∈ trees, l.Takes ty

theorem not_overOneInput_iff {trees : List Lambda} :
    ¬OverOneInput trees ↔ trees = [] ∨ (∃ l ∈ trees, l.params.length ≠ 1) ∨
      ∃ l ∈ trees, ∃ l' ∈ trees, ∃ param param', l.params = [param] ∧ l'.params = [param'] ∧
        param.ty ≠ param'.ty := by
  constructor
  · intro unfit
    by_contra fits
    rw [not_or, not_or] at fits
    obtain ⟨some, single, alike⟩ := fits
    refine unfit ⟨some, ?_⟩
    obtain ⟨first, member⟩ := List.exists_mem_of_ne_nil trees some
    have one : ∀ l ∈ trees, ∃ param, l.params = [param] := by
      intro l among
      by_contra none
      exact single ⟨l, among, fun length => none (List.length_eq_one_iff.mp length)⟩
    obtain ⟨param, params⟩ := one first member
    refine ⟨param.ty, fun l among => ?_⟩
    obtain ⟨other, others⟩ := one l among
    refine ⟨other, others, ?_⟩
    by_contra differ
    exact alike ⟨l, among, first, member, other, param, others, params, differ⟩
  · rintro unfit ⟨some, ty, each⟩
    rcases unfit with empty | ⟨l, among, length⟩ | ⟨l, among, l', among', p, p', is, is', differ⟩
    · exact some empty
    · obtain ⟨param, params, -⟩ := each l among
      rw [params] at length
      exact length rfl
    · obtain ⟨param, params, rfl⟩ := each l among
      obtain ⟨param', params', same⟩ := each l' among'
      cases is.symm.trans params
      cases is'.symm.trans params'
      exact differ same.symm

/-- A fold comes to something if the trees fit, and otherwise finds an argument invalid, or else it
has tripped over its limit in one of the trees. -/
inductive FoldEnds (limit : Nat) (fits : Prop) (trees : List Lambda) {α : Type} :
    Except Error α → Prop
  | folded {a : α} (fit : fits) : FoldEnds limit fits trees (.ok a)
  | invalid {e : Error} (kind : e.kind = .invalidArgument) (unfit : ¬fits) :
      FoldEnds limit fits trees (.error e)
  | tripped {l : Lambda} (member : l ∈ trees) (high : limit < l.body.height) :
      FoldEnds limit fits trees (.error (.recursionLimit limit))

section Success

variable {limit : Nat} {trees : List Lambda}

theorem singleInput_cases (combinator : String) (l : Lambda) :
    (∃ param, l.singleInput combinator = .ok param ∧ l.params = [param]) ∨
      ∃ e, l.singleInput combinator = .error e ∧ e.kind = .invalidArgument ∧
        ∀ ty, ¬l.Takes ty := by
  rcases single : l.singleInput combinator with e | param
  · rw [singleInput] at single
    split at single
    · cases single
    · rename_i none
      cases single
      refine .inr ⟨_, rfl, rfl, ?_⟩
      rintro ty ⟨param, params, -⟩
      exact none param params
  · exact .inl ⟨param, rfl, singleInput_eq_ok single⟩

theorem foldParameter_cases (ty : Ty) (l : Lambda) :
    (∃ param, foldParameter ty l = .ok param ∧ l.params = [param] ∧ param.ty = ty) ∨
      ∃ e, foldParameter ty l = .error e ∧ e.kind = .invalidArgument ∧ ¬l.Takes ty := by
  simp only [foldParameter, bind, Except.bind]
  rcases l.singleInput_cases "fold" with ⟨param, single, params⟩ | ⟨e, fails, kind, unfit⟩
  · simp only [single]
    split
    · rename_i same
      exact .inl ⟨param, rfl, params, same⟩
    · rename_i differ
      refine .inr ⟨_, rfl, rfl, ?_⟩
      rintro ⟨other, others, same⟩
      cases params.symm.trans others
      exact differ same
  · rw [fails]
    exact .inr ⟨e, rfl, kind, unfit ty⟩

theorem rebind_cases (limit : Nat) (l : Lambda) (param : Parameter) (input : Node)
    (supply : Supply) :
    (∃ node after, l.rebind limit param input supply = (.ok node, after)) ∨
      ∃ after, l.rebind limit param input supply = (.error (.recursionLimit limit), after) ∧
        limit < l.body.height := by
  rcases run : l.rebind limit param input supply with ⟨e | node, after⟩
  · obtain ⟨rfl, -, high⟩ := Node.substituteFrom_eq_error_iff.mp (congrArg Prod.fst run)
    exact .inr ⟨after, rfl, by omega⟩
  · exact .inl ⟨node, after, rfl⟩

theorem FoldEnds.mono {α : Type} {fits also : Prop} {trees more : List Lambda}
    {outcome : Except Error α} (ends : FoldEnds limit fits trees outcome) (same : fits ↔ also)
    (among : ∀ l ∈ trees, l ∈ more) : FoldEnds limit also more outcome := by
  cases ends with
  | folded fit => exact .folded (same.mp fit)
  | invalid kind unfit => exact .invalid kind (same.not.mp unfit)
  | tripped member high => exact .tripped (among _ member) high

theorem FoldEnds.map {α β : Type} {fits : Prop} {outcome : Except Error α} (f : α → β)
    (ends : FoldEnds limit fits trees outcome) : FoldEnds limit fits trees (outcome.map f) := by
  cases ends with
  | folded fit => exact .folded fit
  | invalid kind unfit => exact .invalid kind unfit
  | tripped member high => exact .tripped member high

theorem foldOnto_ends (limit : Nat) (combine : Node → Node → Fresh Node) (ty : Ty)
    (input acc : Node) (ls : List Lambda) (supply : Supply) :
    FoldEnds limit (∀ l ∈ ls, l.Takes ty) ls (foldOnto limit combine ty input acc ls supply).1 := by
  induction ls generalizing acc supply with
  | nil => exact .folded (by simp)
  | cons l ls ih =>
    rw [foldOnto]
    rcases foldParameter_cases ty l with ⟨param, is, takes⟩ | ⟨e, fails, kind, unfit⟩
    · rw [is]
      simp only
      rcases rebind_cases limit l param input supply with ⟨node, middle, run⟩ | ⟨middle, run, high⟩
      · simp only [run]
        refine (ih _ _).mono ?_ fun _ => List.mem_cons_of_mem l
        rw [List.forall_mem_cons, and_iff_right ⟨param, takes⟩]
      · simp only [run]
        exact .tripped (List.mem_cons_self ..) high
    · rw [fails]
      exact .invalid kind fun each => unfit (each l (List.mem_cons_self ..))

/-- A fold succeeds exactly on lambdas over one input, as far as its limit goes. -/
theorem fold_ends (limit : Nat) (combine : Node → Node → Fresh Node) (trees : List Lambda)
    (supply : Supply) :
    FoldEnds limit (OverOneInput trees) trees (fold limit combine trees supply).1 := by
  cases trees with
  | nil => exact .invalid rfl fun fits => fits.1 rfl
  | cons first rest =>
    rw [fold]
    rcases first.singleInput_cases "fold" with ⟨param, single, params⟩ | ⟨e, fails, kind, unfit⟩
    · rw [single]
      simp only
      have takes : first.Takes param.ty := ⟨param, params, rfl⟩
      have fits : (∀ l ∈ rest, l.Takes param.ty) ↔ OverOneInput (first :: rest) := by
        constructor
        · exact fun each => ⟨by simp, param.ty, List.forall_mem_cons.mpr ⟨takes, each⟩⟩
        · rintro ⟨-, ty, each⟩
          rw [List.forall_mem_cons] at each
          obtain ⟨⟨other, others, rfl⟩, each⟩ := each
          cases params.symm.trans others
          exact each
      generalize Node.new _ _ = made
      rcases rebind_cases limit first param made.1 made.2 with
        ⟨node, middle, run⟩ | ⟨middle, run, high⟩
      · simp only [run]
        refine FoldEnds.map _ ?_
        exact (foldOnto_ends ..).mono fits fun _ => List.mem_cons_of_mem first
      · simp only [run]
        exact .tripped (List.mem_cons_self ..) high
    · rw [fails]
      refine .invalid kind ?_
      rintro ⟨-, ty, each⟩
      exact unfit ty (each first (List.mem_cons_self ..))

end Success

/-! ### What a fold computes -/

/-- The tree under these bindings comes to exactly what is computed, which may stop at a refusal or
at its limit. The tree fails at its limit only if it has fewer levels than the other has and that
many in addition. -/
def Imitates (e : Error) (limit more : Nat) (host : Host)
    (computed : Store → Except Error Value × Store) (node : Node) (env : Env) : Prop :=
  ∀ limit' room store,
    Likewise (Likeness.Stops e limit) limit' (room < limit + more) (· = ·) (· = ·)
      (computed store) (Evaluation.within host limit' room node env store)

/-- What the lambda comes to on this input if it may not run natives of the host. -/
def confined (e : Error) (host : Host) (limit : Nat) (v : Value) (l : Lambda) (store : Store) :
    Except Error Value × Store :=
  Evaluation.refusing e (fun _ _ => false) host limit limit l.body (l.scope [] [v]) store

theorem confined_eq_invoke {l : Lambda} (arity : l.arity = 1) (e : Error) (host : Host)
    (limit : Nat) (v : Value) :
    l.confined e host limit v = l.invoke (host.barring e) limit [v] := by
  funext store
  rw [confined, invoke_eq arity, Evaluation.within_barring]

/-- The lambda fits into a fold over inputs of this type: it is closed, binds nothing anew and has
lambda nodes only where the builtin `any` applies them. What they bind has been drawn before. -/
structure Folds (ty : Ty) (supply : Supply) (l : Lambda) : Prop where
  takes : l.Takes ty
  suits : l.Suits l.params
  drawn : l.body.All fun expr => ∀ id ∈ expr.binders, id < supply.next

section

variable {host : Host} {e : Error} {limit more : Nat} {env : Env} {v : Value}

theorem Imitates.mono {less : Nat} (le : less ≤ more)
    {computed : Store → Except Error Value × Store} {node : Node}
    (imitates : Imitates e limit less host computed node env) :
    Imitates e limit more host computed node env :=
  fun limit' room store => (imitates limit' room store).shorter (by omega)

/-- A binary node imitates the operator, one level above its operands. -/
theorem Imitates.onto {op : BinaryOp} {first next : Store → Except Error Value × Store}
    {left right : Node} (former : Imitates e limit more host first left env)
    (latter : Imitates e limit more host next right env) (mark : Nat) (ty : Ty) :
    Imitates e limit (more + 1) host (op.onto first next) ⟨mark, .binary op left right ty⟩ env := by
  intro limit' room store
  cases room with
  | zero => exact .cut (by omega)
  | succ room =>
    have lift : ∀ {computed node}, Imitates e limit more host computed node env → ∀ store,
        Likewise (Likeness.Stops e limit) limit' (room + 1 < limit + (more + 1)) (· = ·) (· = ·)
          (computed store) (Evaluation.within host limit' room node env store) :=
      fun imitates store => (imitates limit' room store).shorter (by omega)
    rw [Evaluation.within]
    by_cases short : op = .andAlso ∨ op = .orElse
    · rw [BinaryOp.onto, if_pos short, Evaluation.ofNode_shortCircuit rfl short,
        Evaluation.truthThen_eq]
      refine .boolThen (fun _ _ => congrArg Value.asBool?) (lift former store) ?_
      rintro b middle _ rfl
      split
      · exact .ok rfl rfl
      · rw [Evaluation.truthThen_eq]
        refine .boolThen (fun _ _ => congrArg Value.asBool?) (lift latter middle) ?_
        exact fun c _ _ kept => .ok rfl kept
    · rw [Evaluation.ofNode_eager rfl short, BinaryOp.onto, if_neg short]
      refine (lift former store).andThen ?_
      rintro l _ middle _ rfl rfl
      refine (lift latter middle).andThen ?_
      rintro r _ after _ rfl rfl
      cases op.apply l r with
      | error _ => exact .error rfl
      | ok _ => exact .ok rfl rfl

/-- The lambda that gives back its input. -/
def identity (mark : Nat) (param : Parameter) : Lambda :=
  ⟨[param], ⟨mark, .parameter param⟩, param.ty⟩

theorem identity_closed (mark : Nat) (param : Parameter) : (identity mark param).Closed := by
  intro id free
  rw [identity, body, Node.free_mk] at free
  simpa [identity, params, Expr.children, eq_comm] using free

/-- A lambda that is rebound to a new parameter computes what it computes by itself. -/
theorem imitates_rebind {l : Lambda} {param shared : Parameter} {mark enough : Nat} {node : Node}
    {supply after : Supply} (suits : l.Suits (l.params ++ [shared])) (single : l.params = [param])
    (bound : env.lookup shared.id = some v)
    (made : l.rebind enough param ⟨mark, .parameter shared⟩ supply = (.ok node, after)) :
    Imitates e limit 0 host (l.confined e host limit v) node env := by
  intro limit' room store
  have substitutes : l.body.SubstitutesTo
      (Substitution.empty.bind param (identity mark shared).body) node :=
    ⟨enough, 0, supply, congrArg Prod.fst made⟩
  have replaces : (identity mark shared).Replaces l _ := replaces_compose single
    (identity_closed mark shared) (Node.lambdasInAny_parameter mark shared)
  have mirrored : (Likeness.exact host fun _ _ => false).Mirrored 0
      (Substitution.empty.bind param (identity mark shared).body).at? l.body (l.scope [] [v]) node
      env :=
    .filled substitutes.substituted suits.inAny.1 suits.inAny.2 (replaces.spares suits)
      (provides_compose single suits.closed (.parameter bound))
  exact mirrored.likewise rfl

/-- Nothing that is bound in such a lambda is the new parameter. -/
theorem Folds.suits_new {ty : Ty} {supply : Supply} {l : Lambda} (folds : l.Folds ty supply)
    {shared : Parameter} (new : shared.id = supply.next) : l.Suits (l.params ++ [shared]) := by
  refine ⟨folds.suits.closed, folds.suits.inAny, fun part inTree id binds => ?_⟩
  have own := folds.suits.bindsNone part inTree id binds
  have drawn := folds.drawn part inTree id binds
  rw [List.map_append, List.mem_append, not_or]
  refine ⟨own, ?_⟩
  simp [new, Nat.ne_of_lt drawn]

/-- What a fold has joined imitates what has been combined, one level more for each lambda. -/
theorem Imitates.foldOnto {op : BinaryOp} {enough : Nat} {ty : Ty} {input acc body : Node}
    {ls : List Lambda} {supply after : Supply} {so : Store → Except Error Value × Store}
    (former : Imitates e limit more host so acc env)
    (each : ∀ l ∈ ls, ∀ param node supply after, l.params = [param] →
      l.rebind enough param input supply = (.ok node, after) →
        Imitates e limit 0 host (l.confined e host limit v) node env)
    (made : foldOnto enough (joined op) ty input acc ls supply = (.ok body, after)) :
    Imitates e limit (more + ls.length) host
      ((ls.map (confined e host limit v)).foldl op.onto so) body env := by
  induction ls generalizing acc supply so more with
  | nil =>
    cases made
    exact former
  | cons l ls ih =>
    rw [Lambda.foldOnto] at made
    rcases foldParameter_cases ty l with ⟨param, is, params, -⟩ | ⟨fault, fails, -⟩
    · rw [is] at made
      simp only at made
      split at made
      · cases made
      · rename_i node middle run
        have latter := each l (List.mem_cons_self ..) param node _ _ params run
        have longer := ih (former.onto (latter.mono (Nat.zero_le more)) _ _)
          (fun l member => each l (List.mem_cons_of_mem _ member)) made
        rw [List.length_cons, List.map_cons, List.foldl_cons]
        exact longer.mono (by omega)
    · rw [fails] at made
      cases made

/-- What a fold has come to: the first lambda has been rebound to a new parameter, and the others
have been joined onto it. -/
theorem fold_eq_ok {enough : Nat} {combine : Node → Node → Fresh Node} {first c : Lambda}
    {rest : List Lambda} {supply after : Supply}
    (made : fold enough combine (first :: rest) supply = (.ok c, after)) :
    ∃ param shared mark node supply' middle, first.params = [param] ∧ shared.id = supply.next ∧
      c.params = [shared] ∧
      first.rebind enough param ⟨mark, .parameter shared⟩ supply' = (.ok node, middle) ∧
      Lambda.foldOnto enough combine param.ty ⟨mark, .parameter shared⟩ node rest middle =
        (.ok c.body, after) := by
  rw [fold] at made
  rcases first.singleInput_cases "fold" with ⟨param, single, params⟩ | ⟨fault, fails, -⟩
  · simp only [single, Parameter.new, Supply.draw, Node.new] at made
    split at made
    · cases made
    rename_i node middle run
    rcases joined : Lambda.foldOnto enough combine param.ty
      ⟨supply.next + 1, .parameter ⟨supply.next, "t", param.ty⟩⟩ node rest middle with
      ⟨fault | body, last⟩
    · rw [joined] at made
      cases made
    · rw [joined] at made
      cases made
      exact ⟨param, _, _, node, _, middle, params, rfl, rfl, run, joined⟩
  · rw [fails] at made
    cases made

/-- A fold imitates its lambdas combined from the left. -/
theorem imitates_fold {op : BinaryOp} {enough : Nat} {first c : Lambda} {rest : List Lambda}
    {ty : Ty} {supply after : Supply} (folds : ∀ l ∈ first :: rest, l.Folds ty supply)
    (made : fold enough (joined op) (first :: rest) supply = (.ok c, after)) :
    c.arity = 1 ∧ Imitates e limit rest.length host
      (combined op (confined e host limit v) first rest) c.body (c.scope [] [v]) := by
  obtain ⟨param, shared, mark, node, supply', middle, params, new, single, run, joins⟩ :=
    fold_eq_ok made
  refine ⟨by rw [arity, single]; rfl, ?_⟩
  have bound : (c.scope [] [v]).lookup shared.id = some v := by
    rw [lookup_scope_one single, BEq.rfl, if_pos rfl]
  have each : ∀ l ∈ first :: rest, ∀ param node supply after, l.params = [param] →
      l.rebind enough param ⟨mark, .parameter shared⟩ supply = (.ok node, after) →
        Imitates e limit 0 host (l.confined e host limit v) node (c.scope [] [v]) :=
    fun l member param node _ _ single made =>
      imitates_rebind ((folds l member).suits_new new) single bound made
  rw [List.forall_mem_cons] at each
  exact ((each.1 param node _ _ params run).foldOnto each.2 joins).mono (by omega)

end

/-- The lambda comes to exactly what comes of combining these from the left on the same input: to
the same value or to an error of the same kind, under all limits that are not tripped over, provided
that combining them runs no native of the host. With one level more for each operator it is not
tripped over. -/
def Combines (op : BinaryOp) (first : Lambda) (rest : List Lambda) (c : Lambda) : Prop :=
  ∀ (host : Host) v limit limit' store,
    (host.RunsNone fun host => combined op (·.invoke host limit [v]) first rest store) →
    let each := (combined op (·.invoke host limit [v]) first rest store).1
    let folded := (c.invoke host limit' [v] store).1
    each = .error (.recursionLimit limit) ∨
      (limit' < limit + rest.length ∧ folded = .error (.recursionLimit limit')) ∨
      Outcomes (· = ·) each folded

theorem combines_fold {op : BinaryOp} {enough : Nat} {first c : Lambda} {rest : List Lambda}
    {ty : Ty} {supply after : Supply} (folds : ∀ l ∈ first :: rest, l.Folds ty supply)
    (made : fold enough (joined op) (first :: rest) supply = (.ok c, after)) :
    Combines op first rest c := by
  intro host v limit limit' store runsNone each folded
  have invoked : ∀ e, combined op (confined e host limit v) first rest store =
      combined op (·.invoke host limit [v]) first rest store := by
    intro e
    have single : ∀ l ∈ first :: rest, l.confined e host limit v =
        l.invoke (host.barring e) limit [v] := by
      intro l member
      obtain ⟨param, params, -⟩ := (folds l member).takes
      exact confined_eq_invoke (by rw [arity, params]; rfl) e host limit v
    rw [List.forall_mem_cons] at single
    refine .trans ?_ (runsNone e)
    simp only [combined, single.1, List.map_congr_left single.2]
  obtain ⟨e, other⟩ := exists_ne_error each
  obtain ⟨single, imitates⟩ : c.arity = 1 ∧ Imitates e limit rest.length host
      (combined op (confined e host limit v) first rest) c.body (c.scope [] [v]) :=
    imitates_fold folds made
  have likewise := imitates limit' limit' store
  rw [invoked e] at likewise
  rw [show folded = (Evaluation.within host limit' limit' c.body (c.scope [] [v]) store).1 by
    rw [← invoke_eq single]]
  exact (Likeness.unstopped likewise other).outcomes

/-- A fold computes the left fold. Lambdas that are closed, over one input and no higher than its
limit it combines from the left, whatever the operator. `and` and `or` are the folds of two
predicates by the short-circuiting operators. And a fold that does not trip over its limit fails
just on no lambda at all, on a lambda that has not one parameter, and on inputs that differ in type.
-/
theorem invoke_fold (limit : Nat) (supply : Supply) :
    (∀ op first rest ty, (∀ l ∈ first :: rest, l.Folds ty supply) →
      (∀ l ∈ first :: rest, l.body.height ≤ limit) →
      ∃ c after, fold limit (joined op) (first :: rest) supply = (.ok c, after) ∧
        Combines op first rest c) ∧
    (∀ a b, Ty.bool.accepts a.ret = true → Ty.bool.accepts b.ret = true →
      a.and limit b supply = fold limit (joined .andAlso) [a, b] supply ∧
      a.or limit b supply = fold limit (joined .orElse) [a, b] supply) ∧
    ∀ combine trees, let outcome := (fold limit combine trees supply).1
      ((∃ l ∈ trees, limit < l.body.height) ∧ outcome = .error (.recursionLimit limit)) ∨
        ((∃ e, outcome = .error e ∧ e.kind = .invalidArgument) ↔
          trees = [] ∨ (∃ l ∈ trees, l.params.length ≠ 1) ∨
            ∃ l ∈ trees, ∃ l' ∈ trees, ∃ param param', l.params = [param] ∧
              l'.params = [param'] ∧ param.ty ≠ param'.ty) ∧
        ∀ e, outcome = .error e → e.kind = .invalidArgument := by
  refine ⟨fun op first rest ty folds low => ?_, fun a b predicate predicate' => ?_,
    fun combine trees => ?_⟩
  · have ends := fold_ends limit (joined op) (first :: rest) supply
    rcases made : fold limit (joined op) (first :: rest) supply with ⟨e | c, after⟩
    · rw [made] at ends
      cases ends with
      | invalid _ unfit => exact absurd ⟨by simp, ty, fun l member => (folds l member).takes⟩ unfit
      | tripped member high => exact absurd (low _ member) (by omega)
    · exact ⟨c, after, rfl, combines_fold folds made⟩
  · simp only [and, or, joinPredicates, checkFeeds, predicate, predicate', if_true, and_self]
  · have ends := fold_ends limit combine trees supply
    simp only
    rw [← not_overOneInput_iff]
    generalize (fold limit combine trees supply).1 = outcome at ends ⊢
    cases ends with
    | folded fit => exact .inr ⟨⟨by simp, fun unfit => absurd fit unfit⟩, by simp⟩
    | invalid kind unfit =>
      exact .inr ⟨⟨fun _ => unfit, fun _ => ⟨_, rfl, kind⟩⟩, by rintro e ⟨⟩; exact kind⟩
    | tripped member high => exact .inl ⟨⟨_, member, high⟩, rfl⟩

namespace Quotients

open RunningSum (second)
open AnyAbove (x y q)

/-- The lambda `y => 10 / (5 - y) > 2`. -/
def divides : Lambda :=
  ⟨[y], ⟨40, .binary .greaterThan
    ⟨41, .binary .divide ⟨42, .constant (.int 10) .int⟩
      ⟨43, .binary .subtract ⟨44, .constant (.int 5) .int⟩ ⟨45, .parameter y⟩ .int⟩ .int⟩
    ⟨46, .constant (.int 2) .int⟩ .bool⟩, .bool⟩

theorem second_folds : second.Folds .int ⟨100⟩ := by
  have parts : second.body.parts = _ := AnyAbove.parts
  have suits := RunningSum.second_suits
  refine ⟨⟨x, rfl, rfl⟩, ⟨suits.closed, suits.inAny, ?_⟩, ?_⟩
  · rw [Node.BindsNone, Node.all_iff_parts, parts]
    decide
  · rw [Node.all_iff_parts, parts]
    decide

theorem divides_folds : divides.Folds .int ⟨100⟩ := by
  have parts : divides.body.parts = [divides.body,
      ⟨41, .binary .divide ⟨42, .constant (.int 10) .int⟩
        ⟨43, .binary .subtract ⟨44, .constant (.int 5) .int⟩ ⟨45, .parameter y⟩ .int⟩ .int⟩,
      ⟨42, .constant (.int 10) .int⟩,
      ⟨43, .binary .subtract ⟨44, .constant (.int 5) .int⟩ ⟨45, .parameter y⟩ .int⟩,
      ⟨44, .constant (.int 5) .int⟩, ⟨45, .parameter y⟩, ⟨46, .constant (.int 2) .int⟩] := by cbv
  refine ⟨⟨y, rfl, rfl⟩, ⟨fun id free => ?_, ⟨by decide, ?_⟩, ?_⟩, ?_⟩
  · simp [divides, Lambda.body, Node.free_mk, Expr.children, Expr.binders, y] at free
    simp [divides, Lambda.params, y, free]
  · rw [Node.all_iff_parts, parts]
    decide
  · rw [Node.BindsNone, Node.all_iff_parts, parts]
    decide
  · rw [Node.all_iff_parts, parts]
    decide

theorem heights : second.body.height = 4 ∧ divides.body.height = 4 := by
  constructor <;> cbv

theorem combined_eq (host : Host) (v : Value) :
    combined .andAlso (·.invoke host 5 [v]) second [divides] {} =
      BinaryOp.andAlso.onto (Evaluation.within host 5 5 second.body (second.scope [] [v]))
        (Evaluation.within host 5 5 divides.body (divides.scope [] [v])) {} := by
  have invoked : ∀ l : Lambda, l.arity = 1 → l.invoke host 5 [v] =
      Evaluation.within host 5 5 l.body (l.scope [] [v]) :=
    fun l single => funext fun store => invoke_eq single
  simp only [combined, List.map_cons, List.map_nil, List.foldl_cons, List.foldl_nil,
    invoked second rfl, invoked divides rfl]

end Quotients

open RunningSum Quotients in
/-- The conjunction of `x => any([1, 4], q => q > x)` and `y => 10 / (5 - y) > 2` holds of three. Of
five it does not hold, and does not fail there, although the second lambda does. No lambdas cannot
be folded. -/
theorem invoke_fold_quotients :
    (∃ c after, second.and 9 divides ⟨100⟩ = (.ok c, after) ∧ ∀ limit, 6 ≤ limit →
      (c.invoke .basic limit [.int 3] {}).1 = .ok (.bool true) ∧
      (c.invoke .basic limit [.int 5] {}).1 = .ok (.bool false)) ∧
    (divides.invoke .basic 5 [.int 5] {}).1 = .error (.eval .divisionByZero) ∧
    ∃ e, (fold 9 (joined .andAlso) [] ⟨100⟩).1 = .error e ∧ e.kind = .invalidArgument := by
  obtain ⟨computes, joins, fails⟩ := invoke_fold 9 ⟨100⟩
  obtain ⟨c, after, made, combines⟩ := computes .andAlso second [divides] .int
    (by simp only [List.forall_mem_cons, second_folds, divides_folds]; simp)
    (by simp [heights])
  have holds : ∀ v b, Host.basic.RunsNone
      (fun host => combined .andAlso (·.invoke host 5 [v]) second [divides] {}) →
      (combined .andAlso (·.invoke .basic 5 [v]) second [divides] {}).1 = .ok (.bool b) →
      ∀ limit, 6 ≤ limit → (c.invoke .basic limit [v] {}).1 = .ok (.bool b) := by
    intro v b runsNone value limit levels
    rcases combines .basic v 5 limit {} runsNone with trips | ⟨short, -⟩ | outcomes
    · cases value.symm.trans trips
    · rw [List.length_singleton] at short
      omega
    · exact outcomes.eq_of_exact value
  refine ⟨⟨c, after, (joins second divides rfl rfl).1.trans made, fun limit levels => ⟨?_, ?_⟩⟩,
    ?_, ?_⟩
  · refine holds _ _ (fun e => ?_) ?_ limit levels
    · simp only [combined_eq]
      rfl
    · rw [combined_eq]
      rfl
  · refine holds _ _ (fun e => ?_) ?_ limit levels
    · simp only [combined_eq]
      rfl
    · rw [combined_eq]
      rfl
  · rw [invoke_eq rfl]
    rfl
  · rcases fails (joined .andAlso) [] with ⟨⟨l, none, -⟩, -⟩ | ⟨unfit, -⟩
    · cases none
    · exact unfit.mpr (.inl rfl)

end Lambda

end TypedTrees
