import TypedTrees.Proofs.Expansion.Confluence
import TypedTrees.Proofs.Pass.Completed
/-!
What the trace of an expansion is worth. There is one step for each inlining whose replacement has
been expanded completely, in the order of completion, whether the expansion succeeds in the end or
not; the step names the call that it replaced, and its output has no call left that an expansion
would replace. A step can be replayed: what an expansion has made of a tree, every later run makes
of it with as many levels (`Expands.Attained.of_run`), so its input expands to its output again, on
its own and under the same limit (`Expander.expand_trace`).
-/
namespace TypedTrees

theorem Substitution.zip_isEmpty {params : List Parameter} {args : List Node}
    (lengths : params.length = args.length) : (zip params args).isEmpty = params.isEmpty := by
  cases params with
  | nil => rfl
  | cons param params =>
    -- the first parameter has an argument
    have lengths' : ((param :: params).map Parameter.id).length = args.length := by
      rw [List.length_map, lengths]
    have found := Keyed.isSome_of_mem lengths' (List.mem_map_of_mem (.head _) : param.id ∈ _)
    rw [← zip_at?, at?] at found
    rw [isEmpty, List.isEmpty_cons, List.isEmpty_eq_false_iff]
    rintro none
    rw [none] at found
    cases found

/-- Arguments that could be put in for parameters can be put in again, and others in their place,
where as many levels are left. -/
theorem Lambda.substituteFrom_again {l : Lambda} {args passed : List Node} {limit depth : Nat}
    {out : Node} {supply after : Supply} (arity : l.arity = args.length)
    (run : l.body.substituteFrom limit depth (.zip l.params args) supply = (.ok out, after))
    (arity' : l.arity = passed.length) {limit' depth' : Nat}
    (room : depth' + (limit - depth) ≤ limit') (supply' : Supply) :
    ∃ out after, l.body.substituteFrom limit' depth' (.zip l.params passed) supply' =
      (.ok out, after) := by
  cases params : l.params.isEmpty with
  | true =>
    refine ⟨l.body, supply', ?_⟩
    rw [Node.substituteFrom, Substitution.zip_isEmpty arity', params, if_pos rfl]
  | false =>
    have low := Node.height_le_of_substituteFrom
      ((Substitution.zip_isEmpty arity).trans params) run
    exact Node.substituteFrom_succeeds _ (by omega) supply'

namespace Expands

variable {host : Host} {registry limit : Nat} {later : Session}

/-- What an expansion has made of a tree, every later run makes of a tree of this form that has as
many levels left. -/
theorem Attained.of_run (distinct : later.KeysDistinct) {depth : Nat} {node out : Node}
    {state after : ExpansionState}
    (run : (expansionPass host registry limit).transform limit depth node state = (.ok out, after))
    (precedes : after.session.Precedes later) :
    Attained host registry later node out.unmarked (limit - depth) := by
  refine (Pass.transform_ok (motive := fun depth node state out after =>
    Session.Advances state.session after.session ∧ (after.session.Precedes later →
      Attained host registry later node out.unmarked (limit - depth))) ?_ ?_ ?_ run).2 precedes
  · intro depth node state out after _ decides
    exact absurd decides expansionPass_not_done
  · intro depth node state next middle out after entered decides below
    obtain ⟨onward, below⟩ := below
    have advances := expansionPass_visit_advances host registry limit (depth + 1) node state
    have decided := ExpansionVisit.of host registry limit (depth + 1) node state
    rw [decides] at advances decided
    rw [expansionPass_replaced_session]
    refine ⟨advances.trans onward, fun precedes => ?_⟩
    have before := onward.precedes_later distinct precedes
    cases decided with
    | @inlines receiver callee args ty l session _ supply isCall refers arity substitutes =>
      have settled : later.referenced host registry node callee args = (.ok (some l), later) :=
        Session.referenced_later refers
          ((Session.Advances.setSupply session supply).precedes_later distinct before)
      have replaced := attained_inlines_of_fits isCall settled arity
        (Node.unmarked_of_substituteFrom substitutes)
        (fun passed limit depth supply arity' room =>
          Lambda.substituteFrom_again arity substitutes arity' room supply)
        (below precedes)
      exact replaced.mono (by omega)
  · intro depth node state middle kids after entered decides chain
    have lengths := chain.length_eq
    obtain ⟨onward, each⟩ : Session.Advances middle.session after.session ∧
        (after.session.Precedes later → List.Forall₂ (fun node out : Node =>
          Attained host registry later node out.unmarked (limit - (depth + 1)))
            node.expr.children kids) :=
      chain.backward (fun state => Session.Advances.refl state.session)
        (fun first second => first.trans second)
        (fun advances precedes => advances.precedes_later distinct precedes)
    have decided := ExpansionVisit.of host registry limit (depth + 1) node state
    rw [decides] at decided
    cases decided with
    | descends kept =>
      have rebuilt := expansionPass_rebuild_advances host registry limit node kids after
      refine ⟨onward.trans rebuilt, fun precedes => ?_⟩
      have before := rebuilt.precedes_later distinct precedes
      have entries := (onward.precedes_later distinct before).contains registry
      rw [Pass.rebuild_unmarked _ lengths]
      have rebuilt := attained_descends (by rw [entries]; exact kept)
        (List.forall₂_map_right_iff.mpr (each before))
      exact rebuilt.mono (by omega)

end Expands

/-- The step names what its input calls. -/
inductive ExpansionStep.Names (registered : Function → Bool) (step : ExpansionStep) : Prop
  | reference {receiver : Option Node} {shape : InvokeShape} {args : List Node} {ty : Ty}
      (isCall : step.input.expr = .call receiver (.invoke shape) args ty)
      (kind : step.kind = .reference shape)
  | substitute {receiver : Option Node} {f : Function} {args : List Node} {ty : Ty}
      (isCall : step.input.expr = .call receiver (.function f) args ty)
      (isRegistered : registered f = true) (kind : step.kind = .substitute f.name)

/-- The step that records a replacement. Nothing but calls is replaced. -/
def Pass.Replacement.step (r : Replacement ExpansionState) : ExpansionStep where
  kind :=
    match r.node.expr with
    | .call _ callee _ _ => .of callee
    | _ => .substitute ""
  input := r.node
  output := r.out

section

variable {host : Host} {registry limit depth : Nat} {node next out : Node}
  {state after finish : ExpansionState}

theorem expansionPass_replaced_steps
    (decides : (expansionPass host registry limit).visit depth node state =
      (.ok (.replace next), after)) (entered : Nat) :
    ((expansionPass host registry limit).replaced entered node out finish).steps =
      Pass.Replacement.step ⟨entered, node, next, after, out, finish⟩ :: finish.steps := by
  have decided := ExpansionVisit.of host registry limit depth node state
  rw [decides] at decided
  cases decided with
  | inlines isCall => simp only [expansionPass, isCall, Pass.Replacement.step]

/-- There is a list of the replacements that an expansion gets through, and its steps are theirs. -/
theorem expansionPass_records (host : Host) (registry limit depth : Nat) (node : Node)
    (state : ExpansionState) :
    ∃ inlined, (expansionPass host registry limit).Records limit (fun state => state.steps.reverse)
      Pass.Replacement.step (fun r => (expansionPass host registry limit).Completes limit r depth
        node state) state ((expansionPass host registry limit).transform limit depth node state).2
      inlined := by
  refine Pass.transform_records (fun depth node state => ?_) (fun state => rfl)
    (fun r state decides => ?_) depth node state
  · have decided := ExpansionVisit.of host registry limit depth node state
    generalize (expansionPass host registry limit).visit depth node state = result at decided
    cases decided <;> rfl
  · rw [expansionPass_replaced_steps decides r.depth, List.reverse_cons]

theorem expansionPass_names (decides : (expansionPass host registry limit).visit depth node state =
      (.ok (.replace next), after)) {registered : Function → Bool}
    (registers : state.Registers registry registered) (entered : Nat) :
    (Pass.Replacement.step ⟨entered, node, next, after, out, finish⟩).Names registered := by
  have expandable := (expansionPass_replace decides registers).1
  have decided := ExpansionVisit.of host registry limit depth node state
  rw [decides] at decided
  cases decided with
  | @inlines receiver callee args ty l session _ supply isCall =>
    rw [isCall] at expandable
    cases callee with
    | invoke shape => exact .reference isCall (by simp only [Pass.Replacement.step, isCall]; rfl)
    | function f =>
      exact .substitute isCall expandable (by simp only [Pass.Replacement.step, isCall]; rfl)

end

namespace Expander

/-- What the trace says of an expansion, whether it succeeds or not. The replacements that have been
completed are listed in the order of their completion, each of them once, and

* the trace has one more step for each, in the same order: at the time when one is completed, the
  steps are those of the replacements listed before it, and the last of these are just the ones that
  were made inside it;
* each step names the reference call or the call of a registered function that is its input, and
  neither kind of call is left in its output;
* expanding the input again, with an expander of the same registry and limit that has entered no
  level yet, succeeds with the output, up to marks, in the session that the expansion has led to and
  in every later one with the same slots and entries; so with a structurally equal tree, as far as a
  tree with a NaN in it is equal to itself. -/
theorem expand_trace {expander after : Expander} {host : Host} {tree : Node}
    {outcome : Except Error Node} {session final : Session} (distinct : session.KeysDistinct)
    (run : expander.expand host tree session = (outcome, after, final)) :
    let limit := expander.guard.bound session.limit
    let pass := expansionPass host expander.registry limit
    let registered := (session.registry expander.registry).contains
    ∃ inlined : List (Pass.Replacement ExpansionState),
      inlined.Nodup ∧
      (∀ r, r ∈ inlined ↔ pass.Completes limit r expander.guard.current tree { session }) ∧
      after.trace = expander.trace ++ inlined.map Pass.Replacement.step ∧
      (∀ earlier r later, inlined = earlier ++ r :: later →
        r.finish.steps.reverse = earlier.map Pass.Replacement.step ∧
          ∃ before during, earlier = before ++ during ∧
            r.start.steps.reverse = before.map Pass.Replacement.step ∧
            ∀ inner, inner ∈ during ↔ pass.Completes limit inner (r.depth + 1) r.next r.start) ∧
      ∀ r ∈ inlined, r.step.Names registered ∧ r.step.output.Plain registered ∧
        ∀ (again : Expander) (later : Session), again.registry = expander.registry →
          again.guard.current = 0 → again.guard.bound later.limit = limit → final.Precedes later →
          ∃ out, (again.expand host r.step.input later).1 = .ok out ∧
            out.unmarked = r.step.output.unmarked ∧
            (out == r.step.output) = (r.step.output == r.step.output) := by
  intro limit pass registered
  have led : session.Precedes final := by
    have precedes := expander.expand_precedes host tree distinct
    rwa [run] at precedes
  simp only [expand, Pass.run_eq_transform, Prod.mk.injEq] at run
  obtain ⟨-, rfl, rfl⟩ := run
  obtain ⟨inlined, records⟩ := expansionPass_records host expander.registry limit
    expander.guard.current tree { session }
  refine ⟨inlined, records.nodup, records.exactly, ?_, records.order, fun r member => ?_⟩
  · exact congrArg (expander.trace ++ ·) records.logged
  obtain ⟨scope, state, reach, decides, carried⟩ :=
    ((records.exactly r).mp member).reached .root
  obtain ⟨before, onward⟩ := expansionPass_between Session.Advances.refl
    (fun _ _ => Session.Advances.setStore)
    (fun f session => Session.Advances.quotedBody session expander.registry f)
    Session.Advances.trans Session.Advances.setSupply reach
  have registers : state.Registers expander.registry registered :=
    before.toSameEntries.registers rfl
  refine ⟨expansionPass_names decides registers r.depth,
    (expansionPass_complete carried registers).2.1, ?_⟩
  intro again later sameRegistry fresh sameLimit precedes
  have distinct' : later.KeysDistinct := (distinct.onward led).onward precedes
  rw [carried] at onward
  have attained := Expands.Attained.of_run distinct' carried
    (onward.precedes_later distinct' precedes)
  obtain ⟨out, after, again, form, -⟩ := attained r.node rfl limit 0 { session := later } (by omega)
    (.refl later)
  refine ⟨out, ?_, form, Node.beq_of_unmarked form r.out⟩
  simp only [expand, Pass.run_eq_transform, sameRegistry, sameLimit, fresh]
  exact congrArg Prod.fst again

open IdentityOfParameter in
/-- The call that is put in place of a call makes its step first, and each of the two steps can be
replayed. -/
theorem expand_trace_substituted :
    let seven : Node := ⟨2, .constant (.int 7) .int⟩
    let ran := ({} : Expander).expand .basic substituted {}
    ({} : Session).KeysDistinct ∧ ran.1 = .ok seven ∧
      ran.2.1.trace =
        [⟨.reference .one, identityCall, seven⟩, ⟨.reference .one, substituted, seven⟩] ∧
      ∀ step ∈ ran.2.1.trace, step.Names (({} : Session).registry 0).contains ∧
        step.output.Plain (({} : Session).registry 0).contains ∧
        ∃ out, (({} : Expander).expand .basic step.input ran.2.2).1 = .ok out ∧
          out.unmarked = step.output.unmarked := by
  intro seven ran
  have distinct : ({} : Session).KeysDistinct := .of_fresh rfl
  have succeeds : ran.1 = .ok seven := by
    simp only [ran, expand, expansionPass, Pass.run_eq_transform]
    cbv
  have trace : ran.2.1.trace =
      [⟨.reference .one, identityCall, seven⟩, ⟨.reference .one, substituted, seven⟩] := by
    simp only [ran, expand, expansionPass, Pass.run_eq_transform]
    cbv
  have limit : ran.2.2.limit = 1500 := by
    simp only [ran, expand, expansionPass, Pass.run_eq_transform]
    cbv
  obtain ⟨inlined, -, -, steps, -, each⟩ :=
    expand_trace distinct (rfl : _ = (ran.1, ran.2.1, ran.2.2))
  refine ⟨distinct, succeeds, trace, fun step member => ?_⟩
  rw [steps, List.nil_append] at member
  obtain ⟨r, inlinedHere, rfl⟩ := List.mem_map.mp member
  obtain ⟨names, plain, again⟩ := each r inlinedHere
  obtain ⟨out, run, form, -⟩ := again {} ran.2.2 rfl rfl limit (.refl _)
  exact ⟨names, plain, out, run, form⟩

end Expander

end TypedTrees
