import TypedTrees.Proofs.Expansion.Cutoff
import TypedTrees.Proofs.Expansion.Settled
import TypedTrees.Proofs.Expansion.Sources
import TypedTrees.Proofs.Substitution.Substituted
/-!
Expansion commutes with substitution. What a tree expands to is told by `Expands` without depths,
marks and drawn identities, in a session where everything that the tree refers to is settled: a run
that succeeds has come to it (`Expands.of_run`), and every run with enough levels left does
(`Expands.attained`). Trees put in for parameters expand to what is put in for the same parameters
afterwards, since no body that is inlined mentions them (`Expands.filled`). So it makes no
difference whether arguments are expanded before or after they are substituted
(`Expander.expand_substitute`).
-/
namespace TypedTrees

/-- What a tree expands to, without marks, where calls refer to what they refer to in the session,
and where the lambdas that are put in place of calls are good. -/
inductive Expands (host : Host) (registry : Nat) (session : Session) (good : Lambda → Prop) :
    Node → Node → Prop
  | inlines {node next out : Node} {receiver : Option Node} {callee : Callee} {args : List Node}
      {ty : Ty} {l : Lambda} (isCall : node.expr = .call receiver callee args ty)
      (refers : session.referenced host registry node callee args = (.ok (some l), session))
      (isGood : good l) (arity : l.arity = (callee.passed args).length)
      (made : next.unmarked =
        (l.body.filled (Substitution.zip l.params (callee.passed args)).at?).unmarked)
      (rest : Expands host registry session good next out) :
      Expands host registry session good node out
  | descends {node : Node} {kids : List Node}
      (kept : node.expr.isExpandable (session.registry registry).contains = false)
      (lengths : kids.length = node.expr.children.length)
      (each : ∀ (place : Nat) (child kid : Node), node.expr.children[place]? = some child →
        kids[place]? = some kid → Expands host registry session good child kid) :
      Expands host registry session good node ⟨0, node.expr.withChildren kids⟩

theorem Callee.passed_map (f : Node → Node) (callee : Callee) (args : List Node) :
    callee.passed (args.map f) = (callee.passed args).map f := by
  cases callee with
  | invoke _ => exact List.map_tail.symm
  | function _ => rfl

theorem Pass.rebuild_unmarked {σ : Type} (pass : Pass σ) {node : Node} {kids : List Node}
    (lengths : kids.length = node.expr.children.length) (state : σ) :
    (pass.rebuild node kids state).1.unmarked =
      ⟨0, node.expr.withChildren (kids.map Node.unmarked)⟩ := by
  have made := pass.rebuild_expr node kids state
  generalize (pass.rebuild node kids state).1 = out at made
  obtain ⟨mark, expr⟩ := out
  cases made
  exact Node.unmarked_withChildren lengths

section

variable {host : Host} {registry : Nat} {later : Session} {good : Lambda → Prop}

/-- What a call refers to is good, if functions stand for good lambdas and the arguments give access
to good ones only. -/
theorem Session.good_of_referenced {call : Node} {callee : Callee} {args : List Node} {l : Lambda}
    (quoted : ∀ f l, (later.registry registry).quoted? f = some l → good l)
    (only : ∀ arg ∈ args, arg.All (·.GivesOnly host later.store good))
    (refers : later.referenced host registry call callee args = (.ok (some l), later)) :
    good l := by
  cases callee with
  | function f => exact quoted f l (quoted?_of_quotedBody refers)
  | invoke shape =>
    cases args with
    | nil => cases refers
    | cons holder rest =>
      simp only [referenced] at refers
      rcases denotes : holder.denoted? host later.store with ⟨found, store⟩
      rw [denotes] at refers
      simp only at refers
      split at refers
      · simp only [Prod.mk.injEq, Except.ok.injEq, Option.some.injEq] at refers
        obtain ⟨rfl, same⟩ := refers
        have kept : store = later.store := congrArg Session.store same
        rw [kept] at denotes
        exact Node.good_of_settled (only holder (.head _)) denotes _ .here
      · cases refers

namespace Expands

section Run

variable (distinct : later.KeysDistinct)
  (quoted : ∀ f l, (later.registry registry).quoted? f = some l → good l)
  (bodies : ∀ l, good l → l.body.All (·.GivesOnly host later.store good))

/-- A step of an expansion in whose later sessions the tree expands to the outcome. -/
def Step (host : Host) (registry : Nat) (later : Session) (good : Lambda → Prop) (node : Node)
    (state : ExpansionState) (out : Node) (after : ExpansionState) : Prop :=
  Session.Advances state.session after.session ∧
    (after.session.Precedes later → node.All (·.GivesOnly host later.store good) →
      Expands host registry later good node out.unmarked)

include distinct in
theorem Step.chain {nodes outs : List Node} {state after : ExpansionState}
    (chain : Pass.Chain (Step host registry later good) nodes state outs after) :
    Session.Advances state.session after.session ∧ (after.session.Precedes later →
      List.Forall₂ (fun node out => node.All (·.GivesOnly host later.store good) →
        Expands host registry later good node out.unmarked) nodes outs) :=
  Pass.Chain.backward (fun state => Session.Advances.refl state.session)
    (fun first second => first.trans second)
    (fun advances precedes => advances.precedes_later distinct precedes) chain

include distinct quoted bodies in
theorem of_inlines {limit depth : Nat} {node next out : Node} {state after : ExpansionState}
    (decides : (expansionPass host registry limit).visit depth node state =
      (.ok (.replace next), after)) (precedes : after.session.Precedes later)
    (only : node.All (·.GivesOnly host later.store good))
    (rest : next.All (·.GivesOnly host later.store good) →
      Expands host registry later good next out) :
    Expands host registry later good node out := by
  have decided := ExpansionVisit.of host registry limit depth node state
  rw [decides] at decided
  cases decided with
  | @inlines receiver callee args ty l session _ supply isCall refers arity substitutes =>
    have atArgs : ∀ arg ∈ args, arg.All (·.GivesOnly host later.store good) := by
      intro arg member
      refine only.child ?_
      rw [isCall]
      exact List.mem_append_right _ member
    have settled : later.referenced host registry node callee args = (.ok (some l), later) :=
      Session.referenced_later refers
        (((Session.Advances.setSupply session supply).precedes_later distinct precedes))
    have isGood := Session.good_of_referenced quoted atArgs settled
    refine .inlines isCall settled isGood arity (Node.unmarked_of_substituteFrom substitutes)
      (rest ?_)
    refine (Node.substituted_of_substituteFrom substitutes).all
      (fun _ trees only => only.withChildren trees) (bodies l isGood) fun id tree found => ?_
    refine atArgs tree ?_
    have passed := Substitution.mem_of_zip found
    cases callee with
    | invoke _ => exact List.mem_of_mem_tail passed
    | function _ => exact passed

include distinct quoted bodies in
/-- An expansion that succeeds has come to what the tree expands to. -/
theorem of_run {limit depth : Nat} {node out : Node} {state after : ExpansionState}
    (run : (expansionPass host registry limit).transform limit depth node state =
      (.ok out, after)) :
    Step host registry later good node state out after := by
  refine Pass.transform_ok (motive := fun _ => Step host registry later good) ?_ ?_ ?_ run
  · intro depth node state out after _ decides
    exact absurd decides expansionPass_not_done
  · intro depth node state next middle out after _ decides below
    obtain ⟨onward, below⟩ := below
    have advances := expansionPass_visit_advances host registry limit (depth + 1) node state
    rw [decides] at advances
    rw [Step, expansionPass_replaced_session]
    refine ⟨advances.trans onward, fun precedes only => ?_⟩
    exact of_inlines distinct quoted bodies decides (onward.precedes_later distinct precedes) only
      (below precedes)
  · intro depth node state middle kids after _ decides chain
    have lengths := chain.length_eq
    obtain ⟨onward, each⟩ := Step.chain distinct chain
    have decided := ExpansionVisit.of host registry limit (depth + 1) node state
    rw [decides] at decided
    cases decided with
    | descends kept =>
      have rebuilt := expansionPass_rebuild_advances host registry limit node kids after
      refine ⟨onward.trans rebuilt, fun precedes only => ?_⟩
      have before := rebuilt.precedes_later distinct precedes
      rw [Pass.rebuild_unmarked _ lengths]
      have entries := (onward.precedes_later distinct before).contains registry
      refine .descends (by rw [entries]; exact kept) (by rw [List.length_map, lengths]) ?_
      intro place child kid atChild atKid
      rw [List.getElem?_map, Option.map_eq_some_iff] at atKid
      obtain ⟨out, atOut, rfl⟩ := atKid
      obtain ⟨within, rfl⟩ := List.getElem?_eq_some_iff.mp atChild
      obtain ⟨bound, rfl⟩ := List.getElem?_eq_some_iff.mp atOut
      exact (each before).get within bound (only.child (List.getElem_mem within))

end Run

section Filled

variable {put puts : Nat → Option Node} {node out : Node}
  (each : ∀ id, Option.Rel (Expands host registry later good) (put id) (puts id))

include each in
theorem filled_parameter {param : Parameter}
    (isParam : node.expr = .parameter param) :
    Expands host registry later good (node.filled put)
      ((⟨0, node.expr.withChildren []⟩ : Node).filled puts) := by
  have same := each param.id
  rw [Node.filled_parameter isParam, isParam, Node.filled_parameter rfl]
  generalize put param.id = found at same ⊢
  generalize puts param.id = found' at same ⊢
  cases same with
  | some expands => exact expands
  | none => exact @descends host registry later good ⟨0, .parameter param⟩ [] rfl rfl nofun

include each in
/-- Trees that are put in for parameters expand to what is put in for them afterwards, if no lambda
that is put in place of a call mentions such a parameter. -/
theorem filled (apart : ∀ l, good l → ∀ id, l.body.Mentions id → put id = none)
    (expands : Expands host registry later good node out) :
    Expands host registry later good (node.filled put) (out.filled puts) := by
  induction expands with
  | @inlines node next out receiver callee args ty l isCall refers isGood arity made rest ih =>
    have call : node.filled put =
        ⟨0, .call (receiver.map (Node.filled put)) callee (args.map (Node.filled put)) ty⟩ := by
      rw [Node.filled_inner, isCall, Expr.withChildren_map_call]
      rintro param is
      cases isCall.symm.trans is
    rw [call]
    refine .inlines rfl (Session.referenced_congr ?_ refers) isGood ?_ ?_ ih
    · rintro holder rest v rfl denotes
      exact ⟨holder.filled put, rest.map (Node.filled put), rfl,
        Node.denoted?_filled fun none => by cases none.symm.trans denotes⟩
    · rw [Callee.passed_map, List.length_map, arity]
    · -- the body has nothing to be filled but its own parameters
      rw [Node.filled_of_unmarked made, Node.filled_filled, Callee.passed_map]
      congr 1
      refine Node.filled_congr fun id mentions => ?_
      rw [Substitution.zip_at?_map, apart l isGood id mentions, Option.or_none]
  | @descends node kids kept lengths below ih =>
    rcases node.parameter_or_inner with ⟨param, isParam⟩ | noParam
    · have leaf : kids = [] := by simpa [isParam, Expr.children] using lengths
      rw [leaf]
      exact filled_parameter each isParam
    · have form : (⟨0, node.expr.withChildren kids⟩ : Node).filled puts =
          ⟨0, (node.expr.withChildren (node.expr.children.map (Node.filled put))).withChildren
            (kids.map (Node.filled puts))⟩ := by
        rw [Node.filled_inner, Node.expr_mk, Expr.children_withChildren lengths,
          Expr.withChildren_withChildren lengths (by rw [List.length_map, lengths]),
          Expr.withChildren_withChildren (List.length_map _) (by rw [List.length_map, lengths])]
        rintro param is
        exact noParam param (Expr.withChildren_eq_parameter.mp is)
      have children : (node.expr.withChildren (node.expr.children.map (Node.filled put))).children =
          node.expr.children.map (Node.filled put) :=
        Expr.children_withChildren (List.length_map _)
      rw [form, Node.filled_inner noParam]
      refine @Expands.descends host registry later good ⟨0, _⟩ (kids.map (Node.filled puts))
        ?_ ?_ ?_
      · exact (Expr.isExpandable_withChildren _ _ _).trans kept
      · rw [Node.expr_mk, children, List.length_map, List.length_map, lengths]
      · intro place child kid atChild atKid
        rw [Node.expr_mk, children, List.getElem?_map, Option.map_eq_some_iff] at atChild
        rw [List.getElem?_map, Option.map_eq_some_iff] at atKid
        obtain ⟨child, atChild, rfl⟩ := atChild
        obtain ⟨kid, atKid, rfl⟩ := atKid
        exact ih place child kid atChild atKid

end Filled

/-- With so many levels left, every run on a tree of this form comes to this outcome, in every
session that the given one comes before. -/
def Attained (host : Host) (registry : Nat) (later : Session) (node out : Node) (enough : Nat) :
    Prop :=
  ∀ like : Node, like.unmarked = node.unmarked → ∀ (limit depth : Nat) (state : ExpansionState),
    depth + enough ≤ limit → later.Precedes state.session →
      ∃ made after,
        (expansionPass host registry limit).transform limit depth like state = (.ok made, after) ∧
          made.unmarked = out ∧ later.Precedes after.session

theorem Attained.mono {node out : Node} {enough more : Nat}
    (attained : Attained host registry later node out enough) (le : enough ≤ more) :
    Attained host registry later node out more :=
  fun like same limit depth state room => attained like same limit depth state (by omega)

/-- What finitely many pairs each have with enough levels, they all have with the same number of
levels. -/
theorem exists_enough {α β : Type} {holds : α → β → Nat → Prop}
    (mono : ∀ {a b} {enough more : Nat}, enough ≤ more → holds a b enough → holds a b more)
    {as : List α} {bs : List β}
    (each : List.Forall₂ (fun a b => ∃ enough, holds a b enough) as bs) :
    ∃ enough, List.Forall₂ (fun a b => holds a b enough) as bs := by
  induction each with
  | nil => exact ⟨0, .nil⟩
  | cons here _ ih =>
    obtain ⟨enough, first⟩ := here
    obtain ⟨more, others⟩ := ih
    refine ⟨max enough more, .cons (mono (Nat.le_max_left _ _) first) ?_⟩
    exact others.imp fun _ _ => mono (Nat.le_max_right _ _)

theorem Attained.all {nodes kids : List Node} {enough : Nat}
    (each : List.Forall₂ (fun node kid => Attained host registry later node kid enough)
      nodes kids) (likes : List Node) (same : likes.map Node.unmarked = nodes.map Node.unmarked)
    (limit depth : Nat) (state : ExpansionState) (room : depth + enough ≤ limit)
    (precedes : later.Precedes state.session) : ∃ outs after,
      (expansionPass host registry limit).transformAll limit depth likes state = (.ok outs, after) ∧
        outs.map Node.unmarked = kids ∧ later.Precedes after.session := by
  induction each generalizing likes state with
  | nil =>
    refine ⟨[], state, ?_, rfl, precedes⟩
    rw [List.map_nil, List.map_eq_nil_iff] at same
    rw [same, Pass.transformAll]
  | cons first _ ih =>
    obtain ⟨like, likes, rfl, atNode, atNodes⟩ := List.map_eq_cons_iff.mp same
    obtain ⟨out, middle, run, form, precedes⟩ := first like atNode limit depth state room precedes
    obtain ⟨outs, after, runs, forms, precedes⟩ := ih likes atNodes middle precedes
    refine ⟨out :: outs, after, ?_, by rw [List.map_cons, form, forms], precedes⟩
    rw [Pass.transformAll_cons, run, onward, runs, onward]

/-- With fewer levels left a run comes to the outcome or fails at its limit. -/
theorem Attained.run {node like out : Node} {enough : Nat}
    (attained : Attained host registry later node out enough)
    (same : like.unmarked = node.unmarked) (limit depth : Nat) :
    let ran := (expansionPass host registry limit).transform limit depth like { session := later }
    (∃ made, ran.1 = .ok made ∧ made.unmarked = out) ∨
      limit < depth + enough ∧ ran.1 = .error (.recursionLimit limit) := by
  intro ran
  by_cases room : depth + enough ≤ limit
  · obtain ⟨made, after, run, form, -⟩ :=
      attained like same limit depth { session := later } room (.refl later)
    exact .inl ⟨made, congrArg Prod.fst run, form⟩
  -- a run with enough levels comes to the outcome, and a lower limit does nothing but cut off
  obtain ⟨made, after, run, form, -⟩ :=
    attained like same (depth + enough) depth { session := later } (Nat.le_refl _) (.refl later)
  have low : limit ≤ depth + enough := by omega
  have together := (expansionPass_simulates host registry low).transform low
    (fun _ {_ _} states => ⟨rfl, states ▸ List.suffix_refl _⟩) depth like
    (rfl : ({ session := later } : ExpansionState) = { session := later })
  rw [run] at together
  change Alongside _ _ ran _ at together
  generalize ran = short at together ⊢
  cases together with
  | same states => exact .inl ⟨made, rfl, form⟩
  | cut cuts =>
    obtain ⟨rfl, -⟩ := cuts
    exact .inr ⟨by omega, rfl⟩

/-- A call of the same form has the same callee, and arguments of the same forms. -/
theorem call_of_unmarked {node like : Node} {receiver : Option Node} {callee : Callee}
    {args : List Node} {ty : Ty} (isCall : node.expr = .call receiver callee args ty)
    (same : like.unmarked = node.unmarked) :
    ∃ receiver' args', like.expr = .call receiver' callee args' ty ∧
      args'.map Node.unmarked = args.map Node.unmarked := by
  rw [Node.unmarked_eq, Node.unmarked_eq node, isCall, Expr.withChildren_map_call] at same
  cases isExpr : like.expr with
  | call receiver' callee' args' ty' =>
    rw [isExpr, Expr.withChildren_map_call] at same
    simp only [Node.mk.injEq, Expr.call.injEq, true_and] at same
    obtain ⟨-, rfl, args, rfl⟩ := same
    exact ⟨receiver', args', rfl, args⟩
  | member target _ =>
    rw [isExpr] at same
    cases target <;> cases same
  | _ =>
    rw [isExpr] at same
    cases same

/-- A call is replaced by what its lambda comes to, if there are levels enough for putting in the
arguments, whatever their marks. -/
theorem attained_inlines_of_fits {node next out : Node}
    {receiver : Option Node} {callee : Callee} {args : List Node} {ty : Ty} {l : Lambda}
    {enough : Nat} (isCall : node.expr = .call receiver callee args ty)
    (refers : later.referenced host registry node callee args = (.ok (some l), later))
    (arity : l.arity = (callee.passed args).length)
    (made : next.unmarked =
      (l.body.filled (Substitution.zip l.params (callee.passed args)).at?).unmarked)
    (fits : ∀ (passed : List Node) (limit depth : Nat) (supply : Supply),
      l.arity = passed.length → depth + enough ≤ limit → ∃ next after,
        l.body.substituteFrom limit depth (.zip l.params passed) supply = (.ok next, after))
    (rest : Attained host registry later next out enough) :
    Attained host registry later node out (enough + 1) := by
  intro like same limit depth state room precedes
  obtain ⟨receiver', args', isCall', forms⟩ := call_of_unmarked isCall same
  have settled : state.session.referenced host registry node callee args =
      (.ok (some l), state.session) := Session.referenced_later refers precedes
  have refers' : state.session.referenced host registry like callee args' =
      (.ok (some l), state.session) := by
    refine Session.referenced_congr ?_ settled
    rintro holder others v rfl _
    obtain ⟨holder', others', rfl, atHolder, -⟩ := List.map_eq_cons_iff.mp forms
    refine ⟨holder', others', rfl, ?_⟩
    rw [← Node.denoted?_unmarked, atHolder, Node.denoted?_unmarked]
  have passed : (callee.passed args').map Node.unmarked =
      (callee.passed args).map Node.unmarked := by
    rw [← Callee.passed_map, forms, Callee.passed_map]
  have arity' : l.arity = (callee.passed args').length := by
    rw [arity, ← List.length_map Node.unmarked, ← passed, List.length_map]
  obtain ⟨next', supply, substitutes⟩ :=
    fits (callee.passed args') limit (depth + 1) state.session.supply arity' (by omega)
  have form : next'.unmarked = next.unmarked := by
    rw [Node.unmarked_of_substituteFrom substitutes, made, Node.filled_unmarked,
      Node.filled_unmarked]
    congr 1
    funext id
    rw [← Substitution.zip_at?_map, passed, Substitution.zip_at?_map]
  obtain ⟨out', after, run, made', precedes⟩ := rest next' form limit (depth + 1)
    { state with session := state.session.setSupply supply } (by omega)
    (precedes.trans (.setSupply state.session supply))
  refine ⟨out', (expansionPass host registry limit).replaced depth like out' after, ?_, made', ?_⟩
  · rw [Pass.transform_entered _ (by omega),
      expansionPass_visit_inlines isCall' refers' arity' substitutes, onward, Pass.carryOut, run,
      onward]
  · rw [expansionPass_replaced_session]
    exact precedes

theorem attained_inlines {node next out : Node}
    {receiver : Option Node} {callee : Callee} {args : List Node} {ty : Ty} {l : Lambda}
    {enough : Nat} (isCall : node.expr = .call receiver callee args ty)
    (refers : later.referenced host registry node callee args = (.ok (some l), later))
    (arity : l.arity = (callee.passed args).length)
    (made : next.unmarked =
      (l.body.filled (Substitution.zip l.params (callee.passed args)).at?).unmarked)
    (rest : Attained host registry later next out enough) :
    Attained host registry later node out (max enough l.body.height + 1) :=
  attained_inlines_of_fits isCall refers arity made
    (fun _ limit depth supply _ room =>
      Node.substituteFrom_succeeds _ (by omega : depth + l.body.height ≤ limit) supply)
    (rest.mono (Nat.le_max_left _ _))

theorem attained_descends {node : Node} {kids : List Node} {enough : Nat}
    (kept : node.expr.isExpandable (later.registry registry).contains = false)
    (each : List.Forall₂ (fun node kid => Attained host registry later node kid enough)
      node.expr.children kids) :
    Attained host registry later node ⟨0, node.expr.withChildren kids⟩ (enough + 1) := by
  intro like same limit depth state room precedes
  have lengths := each.length_eq
  obtain ⟨children, exprs⟩ := Node.unmarked_eq_iff.mp same
  have count : like.expr.children.length = node.expr.children.length := by
    rw [← List.length_map Node.unmarked, children, List.length_map]
  have kept' : like.expr.isExpandable (state.session.registry registry).contains = false := by
    rw [precedes.contains, ← Expr.isExpandable_withChildren _ _ like.expr.children, exprs _ rfl,
      Expr.isExpandable_withChildren, kept]
  obtain ⟨outs, after, runs, forms, precedes⟩ :=
    Attained.all each like.expr.children children limit (depth + 1) state (by omega) precedes
  have lengths' : outs.length = like.expr.children.length := by
    rw [count, lengths, ← forms, List.length_map]
  refine ⟨((expansionPass host registry limit).rebuild like outs after).1,
    ((expansionPass host registry limit).rebuild like outs after).2, ?_, ?_, ?_⟩
  · rw [Pass.transform_entered _ (by omega), expansionPass_visit_descends kept', onward,
      Pass.carryOut, runs, onward]
  · rw [Pass.rebuild_unmarked _ lengths', forms, exprs kids (lengths.symm.trans count.symm)]
  · exact precedes.trans (expansionPass_rebuild_precedes host registry limit like outs after)

/-- What a tree expands to is the outcome of every run that has enough levels left. -/
theorem attained {node out : Node} (expands : Expands host registry later good node out) :
    ∃ enough, Attained host registry later node out enough := by
  induction expands with
  | inlines isCall refers _ arity made _ ih =>
    obtain ⟨enough, rest⟩ := ih
    exact ⟨_, attained_inlines isCall refers arity made rest⟩
  | @descends node kids kept lengths _ ih =>
    have each : List.Forall₂ (fun node kid =>
        ∃ enough, Attained host registry later node kid enough) node.expr.children kids := by
      refine List.forall₂_iff_get.mpr ⟨lengths.symm, fun place within bound => ?_⟩
      exact ih place _ _ (List.getElem?_eq_getElem within) (List.getElem?_eq_getElem bound)
    obtain ⟨enough, all⟩ := @exists_enough _ _ (Attained host registry later)
      (fun le attained => attained.mono le) _ _ each
    exact ⟨enough + 1, attained_descends kept all⟩

/-- Trees of one form expand to one outcome. -/
theorem unique {others : Lambda → Prop} {node like out out' : Node}
    (same : like.unmarked = node.unmarked) (expands : Expands host registry later good node out)
    (expands' : Expands host registry later others like out') : out' = out := by
  obtain ⟨enough, first⟩ := expands.attained
  obtain ⟨more, second⟩ := expands'.attained
  obtain ⟨made, after, run, form, -⟩ := first like same (max enough more) 0
    { session := later } (by omega) (.refl later)
  obtain ⟨made', after', run', form', -⟩ := second like rfl (max enough more) 0
    { session := later } (by omega) (.refl later)
  cases run.symm.trans run'
  exact form'.symm.trans form

end Expands

end

/-- The lambda trees that can be reached in a session: those that the nodes of the roots give access
to, those that functions stand for, and those that the bodies of such lambdas give access to. -/
inductive Session.Reachable (host : Host) (registry : Nat) (session : Session)
    (roots : Node → Prop) : Lambda → Prop
  | root {l : Lambda} {tree part : Node} (isRoot : roots tree) (inTree : part.Subtree tree)
      (gives : part.expr.Gives host session.store l) : Reachable host registry session roots l
  | quoted {l : Lambda} {f : Function} (kept : (session.registry registry).quoted? f = some l) :
      Reachable host registry session roots l
  | nested {l k : Lambda} {part : Node} (reachable : Reachable host registry session roots k)
      (inBody : part.Subtree k.body) (gives : part.expr.Gives host session.store l) :
      Reachable host registry session roots l

/-- What is reached in a session is good, if the nodes of the roots and of the bodies of good
lambdas give access to good ones only, and functions stand for good ones. -/
theorem Session.Reachable.good {host : Host} {registry : Nat} {session : Session}
    {roots : Node → Prop} {good : Lambda → Prop}
    (trees : ∀ root, roots root → root.All (·.GivesOnly host session.store good))
    (quotes : ∀ f l, (session.registry registry).quoted? f = some l → good l)
    (bodies : ∀ k, good k → k.body.All (·.GivesOnly host session.store good)) {l : Lambda}
    (reachable : session.Reachable host registry roots l) : good l := by
  induction reachable with
  | root isRoot inTree gives => exact trees _ isRoot _ inTree _ gives
  | quoted kept => exact quotes _ _ kept
  | nested _ inBody gives ih => exact bodies _ ih _ inBody _ gives

/-- At some time before `later`, with the slots and entries that `later` has, an expander that goes
by this registry has made `out` of the tree. -/
def Session.HasExpanded (host : Host) (registry : Nat) (later : Session) (tree out : Node) : Prop :=
  ∃ (expander : Expander) (session : Session), expander.registry = registry ∧
    (expander.expand host tree session).1 = .ok out ∧
      (expander.expand host tree session).2.2.Precedes later

/-- The root is the tree itself or one of the trees that are put in. -/
def Substitution.Involves (s : Substitution) (tree root : Node) : Prop :=
  root = tree ∨ ∃ id, s.at? id = some root

theorem Session.HasExpanded.expands {host : Host} {registry : Nat} {later : Session}
    {roots : Node → Prop} {tree out : Node} (distinct : later.KeysDistinct)
    (expanded : later.HasExpanded host registry tree out) (isRoot : roots tree) :
    Expands host registry later (later.Reachable host registry roots) tree out.unmarked := by
  obtain ⟨expander, session, rfl, run, precedes⟩ := expanded
  simp only [Expander.expand, Pass.run_eq_transform] at run precedes
  generalize whole : (expansionPass host expander.registry
    (expander.guard.bound session.limit)).transform (expander.guard.bound session.limit)
      expander.guard.current tree { session } = result at run precedes
  obtain ⟨outcome, after⟩ := result
  cases run
  refine (Expands.of_run distinct (fun _ _ => .quoted) ?_ whole).2 precedes ?_
  · exact fun l reachable part inBody k gives => .nested reachable inBody gives
  · exact fun part inTree l gives => .root isRoot inTree gives

namespace Expander

/-- Expansion commutes with substitution. Let a tree and the trees that a substitution puts in have
been expanded, and let no lambda that can be reached from them mention a parameter that is mapped.
Then the substituted tree expands to what comes of substituting the expanded trees in the expanded
tree, up to marks; so the two are structurally equal, as far as a tree with a NaN in it is equal to
itself. With enough levels left the substitutions and the expansion succeed, and with fewer the
expansion does the same or fails at its limit. An expansion of the substituted tree that succeeded
earlier, before the others even, came to the same. -/
theorem expand_substitute {host : Host} {registry : Nat} {later : Session} {tree out : Node}
    {s e : Substitution} (distinct : later.KeysDistinct)
    (expanded : later.HasExpanded host registry tree out)
    (each : ∀ id, Option.Rel (later.HasExpanded host registry) (s.at? id) (e.at? id))
    (apart : ∀ l, later.Reachable host registry (s.Involves tree) l →
      ∀ id, (s.at? id).isSome = true → ¬l.body.Mentions id) :
    ∃ enough,
      (∀ limit depth supply, depth + enough ≤ limit →
        (∃ u, (tree.substituteFrom limit depth s supply).1 = .ok u) ∧
          ∃ w, (out.substituteFrom limit depth e supply).1 = .ok w) ∧
      ∀ u w, tree.SubstitutesTo s u → out.SubstitutesTo e w →
        (∀ made, later.HasExpanded host registry u made →
          made.unmarked = w.unmarked ∧ (made == w) = (w == w)) ∧
        ∀ again : Expander, again.registry = registry →
          (∃ made, (again.expand host u later).1 = .ok made ∧ made.unmarked = w.unmarked ∧
            (made == w) = (w == w)) ∨
          again.guard.bound later.limit < again.guard.current + enough ∧
            (again.expand host u later).1 =
              .error (.recursionLimit (again.guard.bound later.limit)) := by
  have whole : Expands host registry later (later.Reachable host registry (s.Involves tree)) tree
      out.unmarked := expanded.expands distinct (.inl rfl)
  have parts : ∀ id, Option.Rel
      (Expands host registry later (later.Reachable host registry (s.Involves tree)))
      (s.at? id) ((e.at? id).map Node.unmarked) := by
    intro id
    have here := each id
    have isRoot : ∀ root, s.at? id = some root → s.Involves tree root :=
      fun root found => .inr ⟨id, found⟩
    generalize s.at? id = found at here isRoot ⊢
    generalize e.at? id = found' at here ⊢
    cases here with
    | none => exact .none
    | some expanded => exact .some (expanded.expands distinct (isRoot _ rfl))
  have commutes := Expands.filled parts (fun l reachable id mentions =>
    Option.not_isSome_iff_eq_none.mp fun mapped => apart l reachable id mapped mentions) whole
  obtain ⟨enough, attained⟩ := commutes.attained
  refine ⟨max enough (max tree.height out.height), fun limit depth supply room => ⟨?_, ?_⟩, ?_⟩
  · obtain ⟨u, after, run⟩ := Node.substituteFrom_succeeds s
      (by omega : depth + tree.height ≤ limit) supply
    exact ⟨u, by rw [run]⟩
  · obtain ⟨w, after, run⟩ := Node.substituteFrom_succeeds e
      (by omega : depth + out.height ≤ limit) supply
    exact ⟨w, by rw [run]⟩
  intro u w atTree atOut
  have form : out.unmarked.filled (fun id => (e.at? id).map Node.unmarked) = w.unmarked := by
    rw [Node.unmarked_filled, ← Node.filled_unmarked, atOut.unmarked]
  refine ⟨fun made expanded => ?_, fun again sameRegistry => ?_⟩
  · have again : Expands host registry later (later.Reachable host registry (Eq u)) u
        made.unmarked := expanded.expands distinct rfl
    have same : made.unmarked = w.unmarked :=
      (Expands.unique atTree.unmarked commutes again).trans form
    exact ⟨same, Node.beq_of_unmarked same w⟩
  subst sameRegistry
  simp only [expand, Pass.run_eq_transform]
  rcases attained.run atTree.unmarked (again.guard.bound later.limit) again.guard.current with
    ⟨made, run, same⟩ | ⟨short, fails⟩
  · exact .inl ⟨made, run, same.trans form, Node.beq_of_unmarked (same.trans form) w⟩
  · exact .inr ⟨by omega, fails⟩

end Expander

namespace IdentityOfParameter

def x : Parameter := ⟨16, "x", .int⟩

def p : Parameter := ⟨17, "p", .int⟩

/-- The lambda `x => x`. -/
def identity : Lambda := ⟨[x], ⟨0, .parameter x⟩, .int⟩

/-- The call `quote(identity).invoke(p)`. -/
def tree : Node :=
  ⟨3, .call none (.invoke .one) [⟨1, .constant (.tree identity) .any⟩, ⟨4, .parameter p⟩] .int⟩

def out : Node := ⟨4, .parameter p⟩

def s : Substitution := ⟨[(17, identityCall)]⟩

def e : Substitution := ⟨[(17, ⟨2, .constant (.int 7) .int⟩)]⟩

theorem expanded : ({} : Session).HasExpanded .basic 0 tree out := by
  refine ⟨{}, {}, rfl, ?_, ?_⟩
  · simp only [Expander.expand, expansionPass, Pass.run_eq_transform]
    cbv
  · have same : (({} : Expander).expand .basic tree {}).2.2 = {} := by
      simp only [Expander.expand, expansionPass, Pass.run_eq_transform]
      cbv
    rw [same]
    exact .refl _

theorem expandedArgument :
    ({} : Session).HasExpanded .basic 0 identityCall ⟨2, .constant (.int 7) .int⟩ := by
  refine ⟨{}, {}, rfl, ?_, ?_⟩
  · simp only [Expander.expand, expansionPass, Pass.run_eq_transform]
    cbv
  · have same : (({} : Expander).expand .basic identityCall {}).2.2 = {} := by
      simp only [Expander.expand, expansionPass, Pass.run_eq_transform]
      cbv
    rw [same]
    exact .refl _

theorem each (id : Nat) :
    Option.Rel (({} : Session).HasExpanded .basic 0) (s.at? id) (e.at? id) := by
  simp only [s, e, Substitution.at?, List.lookup_cons]
  split
  · exact .some expandedArgument
  · exact .none

theorem only_identity {v : Value} {ty : Ty} (isIdentity : ∀ l, v = .tree l → l = identity)
    (basic : ∀ typeName table, v ≠ .record typeName table) :
    (Expr.constant v ty).GivesOnly .basic {} (· = identity) := by
  rintro l ⟨holds⟩
  rcases holds.basic with is | ⟨_, _, is⟩
  · exact isIdentity l is
  · exact absurd is (basic _ _)

theorem ofQuote : (Expr.constant (.tree identity) .any).GivesOnly .basic {} (· = identity) :=
  only_identity (by rintro _ ⟨⟩; rfl) (by simp)

theorem ofSeven : (Expr.constant (.int 7) .int).GivesOnly .basic {} (· = identity) :=
  only_identity (by simp) (by simp)

theorem ofParameter (param : Parameter) :
    (Expr.parameter param).GivesOnly .basic {} (· = identity) := by
  rintro l ⟨⟩

theorem ofInvoke (holder arg : Node) :
    (Expr.call none (.invoke .one) [holder, arg] .int).GivesOnly .basic {} (· = identity) := by
  rintro l ⟨⟩

theorem ofIdentity : identity.body.parts = [⟨0, .parameter x⟩] := by cbv

theorem reached {l : Lambda} (reachable : ({} : Session).Reachable .basic 0 (s.Involves tree) l) :
    l = identity := by
  have ofTree : tree.parts = [tree, ⟨1, .constant (.tree identity) .any⟩, ⟨4, .parameter p⟩] := by
    cbv
  have ofCall : identityCall.parts =
      [identityCall, ⟨1, .constant (.tree identity) .any⟩, ⟨2, .constant (.int 7) .int⟩] := by
    cbv
  refine @Session.Reachable.good .basic 0 {} (s.Involves tree) (· = identity) ?_ ?_ ?_ l reachable
  · rintro root (rfl | ⟨id, found⟩)
    · rw [Node.all_iff_parts, ofTree]
      simp only [List.forall_mem_cons]
      exact ⟨ofInvoke _ _, ofQuote, ofParameter p, List.forall_mem_nil _⟩
    · simp only [s, Substitution.at?, List.lookup_cons] at found
      split at found
      · cases found
        rw [Node.all_iff_parts, ofCall]
        simp only [List.forall_mem_cons]
        exact ⟨ofInvoke _ _, ofQuote, ofSeven, List.forall_mem_nil _⟩
      · cases found
  · rintro f l ⟨⟩
  · rintro k rfl
    rw [Node.all_iff_parts, ofIdentity, List.forall_mem_singleton]
    exact ofParameter x

theorem apart (l : Lambda) (reachable : ({} : Session).Reachable .basic 0 (s.Involves tree) l)
    (id : Nat) (mapped : (s.at? id).isSome = true) : ¬l.body.Mentions id := by
  rw [reached reachable]
  rintro ⟨part, param, inBody, isParam, rfl⟩
  rw [← Node.mem_parts_iff, ofIdentity, List.mem_singleton] at inBody
  subst inBody
  cases isParam
  exact absurd mapped (by decide)

/-- The call `quote(identity).invoke(quote(identity).invoke(7))`. -/
def substituted : Node :=
  ⟨5, .call none (.invoke .one) [⟨1, .constant (.tree identity) .any⟩, identityCall] .int⟩

end IdentityOfParameter

open IdentityOfParameter in
/-- The call of `x => x` on a parameter expands to the parameter, and the call on a call on seven to
seven. -/
theorem Expander.expand_substitute_identityCall :
    tree.SubstitutesTo s substituted ∧ out.SubstitutesTo e ⟨2, .constant (.int 7) .int⟩ ∧
      ∃ made, (({} : Expander).expand .basic substituted {}).1 = .ok made ∧
        made.unmarked = ⟨0, .constant (.int 7) .int⟩ := by
  have atTree : tree.SubstitutesTo s substituted := by
    refine ⟨9, 0, ⟨5⟩, ?_⟩
    simp only [Node.substituteFrom, Pass.run_eq_transform]
    cbv
  have atOut : out.SubstitutesTo e ⟨2, .constant (.int 7) .int⟩ := by
    refine ⟨9, 0, ⟨5⟩, ?_⟩
    simp only [Node.substituteFrom, Pass.run_eq_transform]
    cbv
  have succeeds : (({} : Expander).expand .basic substituted {}).1 =
      .ok ⟨2, .constant (.int 7) .int⟩ := by
    simp only [Expander.expand, expansionPass, Pass.run_eq_transform]
    cbv
  refine ⟨atTree, atOut, ?_⟩
  obtain ⟨enough, -, commutes⟩ := expand_substitute (.of_fresh rfl) expanded each apart
  rcases (commutes _ _ atTree atOut).2 {} rfl with ⟨made, run, form, -⟩ | ⟨-, fails⟩
  · exact ⟨made, run, form.trans (by cbv)⟩
  · cases succeeds.symm.trans fails

end TypedTrees
