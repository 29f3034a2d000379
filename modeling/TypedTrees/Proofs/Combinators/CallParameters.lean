import TypedTrees.Combinators
import TypedTrees.Proofs.Dump.Documents
import TypedTrees.Proofs.Eval.Untripped
import TypedTrees.Proofs.Substitution.Substituted
/-!
The values that a call would receive. They are read off the function call that a tree comes to below
lambdas and conversions: its arguments come to values one after the other, each on its own, and
under each name there is the last of the values paired with it (`Node.callParameters_reports`).
Where names and arguments match one to one, these are the operands that the evaluator hands to the
native of the call. Both evaluate the same arguments in the same order, on other levels; so what
they come to is the same where neither comes to a limit (`UntrippedInTurn.exists_levels`).
-/
namespace TypedTrees

/-! ### The call below lambdas and conversions -/

/-- What a lambda or a conversion stands around. -/
def Expr.inside? : Expr → Option Node
  | .lambda l => some l.body
  | .unary (.convert _) operand _ => some operand
  | _ => none

/-- `node.Wraps core` when `core` is the node, or lies in it below nothing but lambdas and
conversions. -/
inductive Node.Wraps : Node → Node → Prop
  | self (node : Node) : Wraps node node
  | around {node inner core : Node} (inside : node.expr.inside? = some inner)
      (below : Wraps inner core) : Wraps node core

theorem Expr.calledWith_of_inside {expr : Expr} {inner : Node}
    (inside : expr.inside? = some inner) : expr.calledWith = inner.calledWith := by
  cases expr with
  | lambda l =>
    cases inside
    obtain ⟨params, body, ret⟩ := l
    rw [calledWith]
    rfl
  | unary op operand ty =>
    cases op with
    | convert target =>
      cases inside
      rw [calledWith]
    | _ => cases inside
  | _ => cases inside

theorem Node.calledWith_eq (node : Node) : node.calledWith = node.expr.calledWith := by
  obtain ⟨mark, expr⟩ := node
  rw [calledWith]
  rfl

/-- What stands around a call does not matter. -/
theorem Node.Wraps.calledWith {node core : Node} (wraps : node.Wraps core) :
    node.calledWith = core.expr.calledWith := by
  induction wraps with
  | self node => exact node.calledWith_eq
  | @around node inner core inside _ ih =>
    rw [node.calledWith_eq, Expr.calledWith_of_inside inside, ih]

theorem Expr.calledWith_of_bare {expr : Expr} (bare : expr.inside? = none)
    (noCall : ∀ receiver f args ty, expr ≠ .call receiver (.function f) args ty) :
    expr.calledWith = .error expr := by
  cases expr with
  | lambda l => cases bare
  | unary op operand ty =>
    cases op with
    | convert target => cases bare
    | _ => simp only [calledWith]
  | call receiver callee args ty =>
    cases callee with
    | function f => exact absurd rfl (noCall receiver f args ty)
    | invoke shape => simp only [calledWith]
  | _ => simp only [calledWith]

/-! ### Arguments in turn -/

/-- The arguments come to these values when they are evaluated one after the other, each on its own
and without any bindings. -/
inductive InTurn (host : Host) (limit : Nat) : List Node → Store → List Value → Store → Prop
  | none (store : Store) : InTurn host limit [] store [] store
  | next {arg : Node} {rest : List Node} {v : Value} {vs : List Value} {store middle after : Store}
      (value : arg.evaluate host limit store = (.ok v, middle))
      (others : InTurn host limit rest middle vs after) :
      InTurn host limit (arg :: rest) store (v :: vs) after

/-- An argument fails with this error, and those before it have values. -/
def FailsInTurn (host : Host) (limit : Nat) (args : List Node) (store : Store) (e : Error)
    (after : Store) : Prop :=
  ∃ before arg others vs middle, args = before ++ arg :: others ∧
    InTurn host limit before store vs middle ∧ arg.evaluate host limit middle = (.error e, after)

section

variable {host : Host} {limit : Nat} {args : List Node} {store after : Store}

theorem Node.evaluate_eq (node : Node) (store : Store) :
    node.evaluate host limit store = Evaluation.within host limit limit node [] store := by
  rw [evaluate, evaluateFrom_eq_within]
  rfl

theorem inTurn_of_all {vs : List Value}
    (values : (Evaluation.within host limit limit).all [] args store = (.ok vs, after)) :
    InTurn host limit args store vs after := by
  induction args generalizing store vs with
  | nil =>
    cases values
    exact .none _
  | cons arg rest ih =>
    rw [Evaluation.all] at values
    rcases here : Evaluation.within host limit limit arg [] store with ⟨e | v, middle⟩
    · rw [here] at values
      cases values
    rw [here] at values
    rcases there : (Evaluation.within host limit limit).all [] rest middle with ⟨e | ws, last⟩
    · simp only [there] at values
      cases values
    · simp only [there] at values
      cases values
      exact .next ((arg.evaluate_eq store).trans here) (ih there)

theorem InTurn.all {vs : List Value} (inTurn : InTurn host limit args store vs after) :
    (Evaluation.within host limit limit).all [] args store = (.ok vs, after) := by
  induction inTurn with
  | none store => rfl
  | @next arg rest v vs store middle after value others ih =>
    rw [Node.evaluate_eq] at value
    simp only [Evaluation.all, value, ih]

theorem failsInTurn_of_all {e : Error}
    (fails : (Evaluation.within host limit limit).all [] args store = (.error e, after)) :
    FailsInTurn host limit args store e after := by
  induction args generalizing store with
  | nil => cases fails
  | cons arg rest ih =>
    rw [Evaluation.all] at fails
    rcases here : Evaluation.within host limit limit arg [] store with ⟨e' | v, middle⟩
    · rw [here] at fails
      cases fails
      exact ⟨[], arg, rest, [], store, rfl, .none store, (arg.evaluate_eq store).trans here⟩
    rw [here] at fails
    rcases there : (Evaluation.within host limit limit).all [] rest middle with ⟨e' | ws, last⟩
    · simp only [there] at fails
      cases fails
      obtain ⟨before, first, others, vs, last, rfl, inTurn, failure⟩ := ih there
      exact ⟨arg :: before, first, others, v :: vs, last, rfl,
        .next ((arg.evaluate_eq store).trans here) inTurn, failure⟩
    · simp only [there] at fails
      cases fails

/-- The arguments that have a parameter are evaluated, and their values are entered in turn. -/
theorem evaluateNamed_eq (names : List String) (args : List Node) (found : List (String × Value))
    (store : Store) :
    evaluateNamed host limit (names.zip args) found store =
      match (Evaluation.within host limit limit).all [] (args.take names.length) store with
      | (.error e, after) => (.error e, after)
      | (.ok vs, after) => (.ok (Keyed.insertAll (names.zip vs) found), after) := by
  induction names generalizing args found store with
  | nil => rfl
  | cons name names ih =>
    cases args with
    | nil => rfl
    | cons arg args =>
      rw [List.zip_cons_cons, evaluateNamed, List.length_cons, List.take_succ_cons, Evaluation.all,
        Node.evaluate_eq]
      rcases Evaluation.within host limit limit arg [] store with ⟨e | v, middle⟩
      · rfl
      · simp only [ih]
        rcases (Evaluation.within host limit limit).all [] (args.take names.length) middle with
          ⟨e | vs, last⟩
        · rfl
        · rfl

end

/-! ### The table of values -/

/-- The table is in order of names, and under each name that is paired with a value it has the last
one of them. -/
structure Reports (names : List String) (vs : List Value) (table : List (String × Value)) :
    Prop where
  sorted : table.Pairwise fun a b => a.1 < b.1
  last : ∀ name v, table.lookup name = some v ↔
    ∃ before after, names.zip vs = before ++ (name, v) :: after ∧ name ∉ after.map Prod.fst

theorem lookup_reverse_eq_some_iff {pairs : List (String × Value)} {name : String} {v : Value} :
    pairs.reverse.lookup name = some v ↔
      ∃ before after, pairs = before ++ (name, v) :: after ∧ name ∉ after.map Prod.fst := by
  rw [List.lookup_eq_some_iff]
  constructor
  · rintro ⟨after, before, split, others⟩
    refine ⟨before.reverse, after.reverse, ?_, fun member => ?_⟩
    · rw [← List.reverse_reverse pairs, split]
      simp
    · obtain ⟨pair, inAfter, rfl⟩ := List.mem_map.mp member
      have differs := others pair (List.mem_reverse.mp inAfter)
      simp at differs
  · rintro ⟨before, after, rfl, noLater⟩
    refine ⟨after.reverse, before.reverse, by simp, fun pair member => ?_⟩
    rw [bne_iff_ne]
    rintro rfl
    exact noLater (List.mem_map_of_mem (List.mem_reverse.mp member))

theorem reports_insertAll (names : List String) (vs : List Value) :
    Reports names vs (Keyed.insertAll (names.zip vs) []) := by
  refine ⟨Keyed.pairwise_insertAll .nil, fun name v => ?_⟩
  rw [Keyed.lookup_insertAll, List.lookup_nil, Option.or_none, lookup_reverse_eq_some_iff]

/-- Where the names are distinct, each has the value at its place. -/
theorem Reports.values {names : List String} {vs : List Value} {table : List (String × Value)}
    (reports : Reports names vs table) (distinct : names.Nodup)
    (lengths : vs.length = names.length) :
    vs.map some = names.map fun name => table.lookup name := by
  have firsts : (names.zip vs).map Prod.fst = names := List.map_fst_zip (Nat.le_of_eq lengths.symm)
  have seconds : (names.zip vs).map Prod.snd = vs := List.map_snd_zip (Nat.le_of_eq lengths)
  have each : ∀ pair ∈ names.zip vs, table.lookup pair.1 = some pair.2 := by
    intro pair member
    obtain ⟨before, after, split⟩ := List.append_of_mem member
    refine (reports.last pair.1 pair.2).mpr ⟨before, after, split, ?_⟩
    rw [← firsts, split, List.map_append, List.map_cons] at distinct
    exact (List.nodup_cons.mp distinct.of_append_right).1
  calc vs.map some = ((names.zip vs).map Prod.snd).map some := by rw [seconds]
    _ = (names.zip vs).map fun pair => some pair.2 := List.map_map
    _ = (names.zip vs).map fun pair => table.lookup pair.1 := (List.map_congr_left each).symm
    _ = ((names.zip vs).map Prod.fst).map fun name => table.lookup name := by
        rw [List.map_map]
        rfl
    _ = names.map fun name => table.lookup name := by rw [firsts]

/-! ### The operands of the call -/

/-- None of the arguments, evaluated in turn, comes to the limit. -/
def UntrippedInTurn (host : Host) (limit : Nat) (args : List Node) (store : Store) : Prop :=
  ∀ before arg others vs middle, args = before ++ arg :: others →
    InTurn host limit before store vs middle →
      Callbacks.Untripped host limit (Callbacks.start arg [] [] 0 middle)

section

variable {host : Host} {limit : Nat} {args : List Node} {store : Store}

theorem UntrippedInTurn.nil : UntrippedInTurn host limit [] store := by
  intro before arg others vs middle split
  exact absurd split.symm (List.append_ne_nil_of_right_ne_nil before (List.cons_ne_nil arg others))

theorem UntrippedInTurn.cons {arg : Node} {v : Value} {middle : Store}
    (first : Callbacks.Untripped host limit (Callbacks.start arg [] [] 0 store))
    (value : arg.evaluate host limit store = (.ok v, middle))
    (others : UntrippedInTurn host limit args middle) :
    UntrippedInTurn host limit (arg :: args) store := by
  rintro (_ | ⟨same, before⟩) next rest vs last split inTurn
  · cases split
    cases inTurn
    exact first
  · cases split
    cases inTurn with
    | next found onward =>
      cases value.symm.trans found
      exact others before next rest _ last rfl onward

/-- With as many levels left or more the arguments come to the same. -/
theorem UntrippedInTurn.all_eq {room : Nat} (untripped : UntrippedInTurn host limit args store)
    (levels : limit ≤ room) (other : Nat) :
    (Evaluation.within host limit limit).all [] args store =
      (Evaluation.within host other room).all [] args store := by
  induction args generalizing store with
  | nil => rfl
  | cons arg rest ih =>
    have first : Evaluation.within host limit limit arg [] store =
        Evaluation.within host other room arg [] store :=
      (untripped [] arg rest [] store rfl (.none store)).within_eq levels other
    rw [Evaluation.all, Evaluation.all, ← first]
    rcases here : Evaluation.within host limit limit arg [] store with ⟨e | v, middle⟩
    · rfl
    have onward : UntrippedInTurn host limit rest middle := by
      rintro before next others vs last rfl inTurn
      have value := (arg.evaluate_eq store).trans here
      exact untripped (arg :: before) next others (v :: vs) last rfl (.next value inTurn)
    simp only [ih onward]

/-- What the arguments come to in turn, they come to on the way of the evaluator through a call at
this depth, if it stays under its limit. -/
theorem UntrippedInTurn.exists_levels {limit' depth : Nat}
    (untripped : UntrippedInTurn host limit args store) :
    ∃ levels : Nat → Evaluation,
      (∀ deep < limit', levels deep = (levels (deep + 1)).ofNode host) ∧
      (levels (depth + 1)).all [] args store =
        (Evaluation.within host limit limit).all [] args store := by
  rcases Nat.le_total limit (limit' - (depth + 1)) with more | more
  · exact ⟨Evaluation.atDepth host limit', fun deep => Evaluation.atDepth_entered,
      (untripped.all_eq more limit').symm⟩
  · refine ⟨fun deep => Evaluation.within host limit (limit + (depth + 1) - deep),
      fun deep under => Evaluation.within_entered (by omega), ?_⟩
    simp only [Nat.add_sub_cancel]

/-- The evaluation of a call at this depth comes, step by step, to where the native of the call is
called: on these operands, and with this store. -/
def HandsOver (host : Host) (limit depth : Nat) (call : Node) (native : Native)
    (operands : List Value) (store after : Store) : Prop :=
  let ready : Callbacks.State :=
    .working ⟨call, [], depth, [.finish call], operands.reverse⟩ [] (depth + 1) after
  Callbacks.Reaches host limit (Callbacks.start call [] [] depth store) ready ∧
  Callbacks.step host limit ready =
    some (.native (native.procedure host operands) ⟨call, [], depth, [], []⟩ [] (depth + 1) after)

variable {depth : Nat} {call : Node} {f : Function} {ty : Ty} {native : Native}

/-- The evaluator takes up the arguments of the call in turn. -/
theorem leads_operands (isCall : call.expr = .call none (.function f) args ty)
    (hasNative : f.native = some native)
    (untripped : Callbacks.Untripped host limit (Callbacks.start call [] [] depth store))
    {levels : Nat → Evaluation}
    (unfolds : ∀ deep < limit, levels deep = (levels (deep + 1)).ofNode host) :
    Callbacks.Leads host limit ⟨call, [], depth, [.finish call], []⟩ [] (depth + 1)
      (Callbacks.start call [] [] depth store) ((levels (depth + 1)).all [] args store) := by
  have plans : Machine.plan [] call = .tasks (args.map .eval ++ [.finish call]) := by
    simp only [Machine.plan, isCall, Callee.native?, hasNative]
    rfl
  have opens := @Callbacks.step_opens host limit ⟨call, [], depth, [], []⟩ [] depth call _
    (untripped.entered rfl) plans store
  rw [List.append_nil] at opens
  have taken := @Callbacks.Takes.all host limit ⟨call, [], depth, [.finish call], []⟩ []
    (depth + 1) _ (.of_unfolds unfolds (depth + 1)) (Nat.le_succ depth) args store
    (untripped.step opens)
  exact .head (.single opens) taken

theorem handsOver_of_all (isCall : call.expr = .call none (.function f) args ty)
    (hasNative : f.native = some native)
    (untripped : Callbacks.Untripped host limit (Callbacks.start call [] [] depth store))
    {levels : Nat → Evaluation}
    (unfolds : ∀ deep < limit, levels deep = (levels (deep + 1)).ofNode host)
    {operands : List Value} {after : Store}
    (values : (levels (depth + 1)).all [] args store = (.ok operands, after)) :
    HandsOver host limit depth call native operands store after := by
  have leads := leads_operands isCall hasNative untripped unfolds
  rw [values] at leads
  have lengths : operands.length = call.expr.children.length := by
    rw [isCall]
    exact Evaluation.all_length values
  have called := @Callbacks.called?_of_operands host ⟨call, [], depth, [], []⟩ call none
    (.function f) args ty native isCall hasNative operands lengths [] []
  simp only [List.append_nil] at called
  refine ⟨?_, ?_⟩
  · have reached : Callbacks.Reaches host limit (Callbacks.start call [] [] depth store)
        (.working ⟨call, [], depth, [.finish call], operands.reverse ++ []⟩ [] (depth + 1) after) :=
      leads
    rwa [List.append_nil] at reached
  · simp only [Callbacks.step, called]

theorem evaluateFrom_of_all_error (isCall : call.expr = .call none (.function f) args ty)
    (hasNative : f.native = some native)
    (untripped : Callbacks.Untripped host limit (Callbacks.start call [] [] depth store))
    {levels : Nat → Evaluation}
    (unfolds : ∀ deep < limit, levels deep = (levels (deep + 1)).ofNode host)
    {e : Error} {after : Store}
    (fails : (levels (depth + 1)).all [] args store = (.error e, after)) :
    evaluateFrom host limit depth call [] store = ⟨.error e, depth, after⟩ := by
  have leads := leads_operands isCall hasNative untripped unfolds
  rw [fails] at leads
  exact Callbacks.ended_unique (Callbacks.evaluateFrom_reached host limit depth call [] store) leads

end

/-! ### What is reported -/

/-- What is reported of a call with arguments for parameters of these names. -/
structure CallReport (host : Host) (limit : Nat) (names : List String) (args : List Node)
    (store : Store) (reported : Except Error (List (String × Value)) × Store) : Prop where
  /-- There is a report exactly if the arguments that have a parameter come to values in turn. -/
  reports_iff : (∃ table after, reported = (.ok table, after)) ↔
    ∃ vs after, InTurn host limit (args.take names.length) store vs after
  values : ∀ table after, reported = (.ok table, after) →
    ∃ vs, InTurn host limit (args.take names.length) store vs after ∧ Reports names vs table
  /-- Otherwise the first of them that fails tells the error. -/
  fails : ∀ e after, reported = (.error e, after) →
    FailsInTurn host limit (args.take names.length) store e after

/-- The evaluation of the call at this depth agrees with what is reported: it hands the reported
values to the native, or it fails with the reported error. -/
structure CallAgrees (host : Host) (limit depth : Nat) (call : Node) (native : Native)
    (names : List String) (store : Store)
    (reported : Except Error (List (String × Value)) × Store) : Prop where
  operands : ∀ table after, reported = (.ok table, after) → ∃ operands : List Value,
    operands.map some = (names.map fun name => table.lookup name) ∧
    HandsOver host limit depth call native operands store after
  fails : ∀ e after, reported = (.error e, after) →
    evaluateFrom host limit depth call [] store = ⟨.error e, depth, after⟩

section

variable {host : Host} {limit : Nat} {names : List String} {args : List Node} {store : Store}

theorem evaluateNamed_report :
    CallReport host limit names args store
      (evaluateNamed host limit (names.zip args) [] store) := by
  rw [evaluateNamed_eq]
  rcases all : (Evaluation.within host limit limit).all [] (args.take names.length) store with
    ⟨e | vs, after⟩
  · refine ⟨⟨?_, ?_⟩, ?_, ?_⟩
    · rintro ⟨_, _, ⟨⟩⟩
    · rintro ⟨vs, last, inTurn⟩
      cases all.symm.trans inTurn.all
    · rintro _ _ ⟨⟩
    · rintro _ _ ⟨⟩
      exact failsInTurn_of_all all
  · have inTurn := inTurn_of_all all
    refine ⟨⟨?_, ?_⟩, ?_, ?_⟩
    · rintro _
      exact ⟨vs, after, inTurn⟩
    · rintro _
      exact ⟨_, _, rfl⟩
    · rintro _ _ ⟨⟩
      exact ⟨vs, inTurn, reports_insertAll names vs⟩
    · rintro _ _ ⟨⟩

theorem evaluateNamed_agrees {limit' depth : Nat} {call : Node} {f : Function} {ty : Ty}
    {native : Native} (isCall : call.expr = .call none (.function f) args ty)
    (hasNative : f.native = some native) (lengths : args.length = names.length)
    (distinct : names.Nodup) (inTurn : UntrippedInTurn host limit args store)
    (untripped : Callbacks.Untripped host limit' (Callbacks.start call [] [] depth store)) :
    CallAgrees host limit' depth call native names store
      (evaluateNamed host limit (names.zip args) [] store) := by
  obtain ⟨levels, unfolds, same⟩ := @UntrippedInTurn.exists_levels host limit args store limit'
    depth inTurn
  rw [evaluateNamed_eq, List.take_of_length_le (Nat.le_of_eq lengths), ← same]
  rcases all : (levels (depth + 1)).all [] args store with ⟨e | vs, after⟩
  · refine ⟨?_, ?_⟩
    · rintro _ _ ⟨⟩
    · rintro _ _ ⟨⟩
      exact evaluateFrom_of_all_error isCall hasNative untripped unfolds all
  · refine ⟨?_, ?_⟩
    · rintro _ _ ⟨⟩
      have values := (reports_insertAll names vs).values distinct
        ((Evaluation.all_length all).trans lengths)
      exact ⟨vs, values, handsOver_of_all isCall hasNative untripped unfolds all⟩
    · rintro _ _ ⟨⟩

end

/-- The values that a call would receive, under any nesting of lambdas and conversions. Of a
function call they are reported exactly if the arguments that have a parameter come to values in
turn; under each name there is then the last value paired with it, and otherwise the error is that
of the first argument that fails. If names and arguments match one to one and no limit is reached,
the evaluation of a call without a receiver hands these very values to the native, or fails with
this error. Any other node is refused. -/
theorem Node.callParameters_reports (host : Host) (limit : Nat) {node core : Node}
    (wraps : node.Wraps core) (store : Store) :
    let reported := node.callParameters host limit store
    (∀ receiver f args ty, core.expr = .call receiver (.function f) args ty →
      let names := f.params.map FunctionParam.name
      CallReport host limit names args store reported ∧
      ∀ native limit' depth, receiver = none → f.native = some native →
        args.length = names.length → names.Nodup → UntrippedInTurn host limit args store →
          Callbacks.Untripped host limit' (Callbacks.start core [] [] depth store) →
            CallAgrees host limit' depth core native names store reported) ∧
    (core.expr.inside? = none →
      (∀ receiver f args ty, core.expr ≠ .call receiver (.function f) args ty) →
        reported = (.error (.invalidArgument (.notACall core.expr.text)), store)) := by
  intro reported
  constructor
  · intro receiver f args ty isCall names
    have called : node.calledWith = .ok (f.params, args) := by
      rw [wraps.calledWith, isCall, Expr.calledWith]
    have reads : reported = evaluateNamed host limit (names.zip args) [] store := by
      simp only [reported, callParameters, called]
      rfl
    rw [reads]
    refine ⟨evaluateNamed_report, ?_⟩
    rintro native limit' depth rfl hasNative lengths distinct inTurn untripped
    exact evaluateNamed_agrees isCall hasNative lengths distinct inTurn untripped
  · intro bare noCall
    have called : node.calledWith = .error core.expr := by
      rw [wraps.calledWith, Expr.calledWith_of_bare bare noCall]
    simp only [reported, callParameters, called]

namespace CallReported

def y : Parameter := ⟨16, "y", .int⟩

/-- The argument `1 + 1`. -/
def sum : Node :=
  ⟨19, .binary .add ⟨17, .constant (.int 1) .int⟩ ⟨18, .constant (.int 1) .int⟩ .int⟩

/-- The argument `apply(y => y, 3)`. -/
def applied : Node :=
  ⟨23, .call none
    (.function ⟨20, "apply", none, [⟨"f", .any, .value⟩, ⟨"x", .int, .value⟩], .any,
      some (.host "apply")⟩)
    [⟨21, .lambda (.of [y] ⟨22, .parameter y⟩)⟩, ⟨24, .constant (.int 3) .int⟩] .any⟩

def f : Function :=
  ⟨25, "args", none, [⟨"b", .int, .value⟩, ⟨"a", .int, .value⟩], .any, some (.host "args")⟩

def call : Node := ⟨26, .call none (.function f) [sum, applied] .any⟩

/-- The tree `z => (int) args(1 + 1, apply(y => y, 3))`. -/
def tree : Node :=
  ⟨29, .lambda (.of [⟨27, "z", .int⟩] ⟨28, .unary (.convert .int) call .int⟩)⟩

theorem wraps : tree.Wraps call := .around rfl (.around rfl (.self call))

theorem argumentsStay : UntrippedInTurn .basic 2 [sum, applied] {} := by
  have first : Callbacks.Untripped .basic 2 (Callbacks.start sum [] [] 0 {}) :=
    @Callbacks.Untripped.of_untrippedFor _ _ _ 10 rfl
  have second : Callbacks.Untripped .basic 2 (Callbacks.start applied [] [] 0 {}) :=
    @Callbacks.Untripped.of_untrippedFor _ _ _ 20 rfl
  have two : sum.evaluate .basic 2 {} = (.ok (.int 2), {}) := by
    rw [Node.evaluate_eq]
    rfl
  have three : applied.evaluate .basic 2 {} = (.ok (.int 3), {}) := by
    rw [Node.evaluate_eq]
    rfl
  exact .cons first two (.cons second three .nil)

theorem callStays : Callbacks.Untripped .basic 8 (Callbacks.start call [] [] 5 {}) :=
  @Callbacks.Untripped.of_untrippedFor _ _ _ 30 rfl

end CallReported

open CallReported in
/-- The arguments come to `2` and `3`, on two levels for each. The evaluator hands these to the
native from a depth of five. A lambda around no call is refused. -/
theorem Node.callParameters_reports_wrapped :
    tree.Wraps call ∧ UntrippedInTurn .basic 2 [sum, applied] {} ∧
    Callbacks.Untripped .basic 8 (Callbacks.start call [] [] 5 {}) ∧
    (tree.callParameters .basic 2 {}).1 = .ok [("a", .int 3), ("b", .int 2)] ∧
    HandsOver .basic 8 5 call (.host "args") [.int 2, .int 3] {} {} ∧
    (Node.mk 30 (.lambda (.of [] sum))).callParameters .basic 2 {} =
      (.error (.invalidArgument (.notACall "(1 + 1)")), {}) := by
  have values : tree.callParameters .basic 2 {} = (.ok [("a", .int 3), ("b", .int 2)], {}) := by
    have called : tree.calledWith = .ok (f.params, [sum, applied]) := wraps.calledWith
    simp only [callParameters, called, evaluateNamed_eq]
    rfl
  have bare : (Node.mk 30 (.lambda (.of [] sum))).Wraps sum := .around rfl (.self sum)
  have refused := (callParameters_reports .basic 2 bare {}).2 rfl (by intros; nofun)
  obtain ⟨reports, -⟩ := callParameters_reports .basic 2 wraps {}
  have agrees := (reports none f [sum, applied] .any rfl).2 (.host "args") 8 5 rfl rfl rfl
    (by decide) argumentsStay callStays
  obtain ⟨operands, same, handed⟩ := agrees.operands _ _ values
  have both : operands.map some = [Value.int 2, .int 3].map some := same
  cases List.map_injective_iff.mpr (Option.some_injective Value) both
  exact ⟨wraps, argumentsStay, callStays, congrArg Prod.fst values, handed, refused⟩

end TypedTrees
