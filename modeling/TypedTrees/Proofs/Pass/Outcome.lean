import Mathlib.Data.List.Forall2
import TypedTrees.Pass.Recursive
import TypedTrees.Tree.Children
import TypedTrees.Tree.Subtree
/-!
What holds of the outcome of a pass. A property of single nodes that survives each decision of the
pass holds of everything the pass makes (`Pass.transform_ok`); a relation between states that each
operation of the pass respects relates the first state to the last (`Pass.transform_respects`). A
pass that gives no results of its own leaves nothing deeper than the levels it has entered
(`Pass.height_le_of_transform`), and one that decides nothing but to go on leaves a tree alone
(`Pass.transform_eq_self`). A pass fails only at its limit or where it fails to decide
(`Pass.transform_eq_error`).
-/
namespace TypedTrees

variable {α β σ : Type}

/-- Goes on with what has come out, unless that is an error. -/
def onward (first : Except Error α × σ) (next : α → σ → Except Error β × σ) :
    Except Error β × σ :=
  match first with
  | (.error e, state) => (.error e, state)
  | (.ok x, state) => next x state

theorem onward_keeps {holds : σ → Prop} {first : Except Error α × σ}
    {next : α → σ → Except Error β × σ} (here : holds first.2)
    (keeps : ∀ x {state}, holds state → holds (next x state).2) : holds (onward first next).2 := by
  obtain ⟨e | x, state⟩ := first
  · exact here
  · exact keeps x here

theorem onward_eq_ok {first : Except Error α × σ} {next : α → σ → Except Error β × σ} {y : β}
    {after : σ} (succeeds : onward first next = (.ok y, after)) :
    ∃ x middle, first = (.ok x, middle) ∧ next x middle = (.ok y, after) := by
  obtain ⟨e | x, middle⟩ := first
  · cases succeeds
  · exact ⟨x, middle, rfl, succeeds⟩

theorem onward_eq_error {bad : Error → Prop} {first : Except Error α × σ}
    {next : α → σ → Except Error β × σ} (here : ∀ e, first.1 = .error e → bad e)
    (later : ∀ x state e, (next x state).1 = .error e → bad e) :
    ∀ e, (onward first next).1 = .error e → bad e := by
  intro e fails
  obtain ⟨e' | x, state⟩ := first
  · cases fails
    exact here e rfl
  · exact later x state e fails

namespace Pass

/-- What a pass makes of a node whose level has been entered, once it has decided. -/
def carryOut (pass : Pass σ) (limit depth : Nat) (node : Node) (decision : Visit) (state : σ) :
    Except Error Node × σ :=
  match decision with
  | .done out => (.ok out, state)
  | .replace next => onward (pass.transform limit (depth + 1) next state) fun out state =>
    (.ok out, pass.replaced depth node out state)
  | .descend => onward (pass.transformAll limit (depth + 1) node.expr.children state)
    fun kids state => (.ok (pass.rebuild node kids state).1, (pass.rebuild node kids state).2)

theorem transform_entered (pass : Pass σ) {limit depth : Nat} (entered : depth < limit)
    (node : Node) (state : σ) :
    pass.transform limit depth node state =
      onward (pass.visit (depth + 1) node state) (pass.carryOut limit depth node) := by
  rw [transform, if_neg (Nat.not_le.mpr entered)]
  rcases pass.visit (depth + 1) node state with ⟨e | decision, after⟩
  · rfl
  cases decision with
  | done out => rfl
  | replace next =>
    simp only [onward, carryOut]
    rcases pass.transform limit (depth + 1) next after with ⟨e | out, last⟩ <;> rfl
  | descend =>
    simp only [onward, carryOut]
    rcases pass.transformAll limit (depth + 1) node.expr.children after with ⟨e | kids, last⟩ <;>
      rfl

theorem transformAll_cons (pass : Pass σ) (limit depth : Nat) (node : Node) (nodes : List Node)
    (state : σ) :
    pass.transformAll limit depth (node :: nodes) state =
      onward (pass.transform limit depth node state) fun out state =>
        onward (pass.transformAll limit depth nodes state) fun outs state =>
          (.ok (out :: outs), state) := by
  rw [transformAll]
  rcases pass.transform limit depth node state with ⟨e | out, after⟩
  · rfl
  · simp only [onward]
    rcases pass.transformAll limit depth nodes after with ⟨e | outs, last⟩ <;> rfl

/-- A step made for each node in turn, from the state that the step before has left. -/
inductive Chain (step : Node → σ → Node → σ → Prop) : List Node → σ → List Node → σ → Prop
  | nil (state : σ) : Chain step [] state [] state
  | cons {node out : Node} {nodes outs : List Node} {state middle after : σ}
      (first : step node state out middle) (others : Chain step nodes middle outs after) :
      Chain step (node :: nodes) state (out :: outs) after

namespace Chain

variable {step : Node → σ → Node → σ → Prop} {nodes outs : List Node} {state after : σ}

theorem length_eq (chain : Chain step nodes state outs after) : outs.length = nodes.length := by
  induction chain with
  | nil => rfl
  | cons _ _ ih => simp only [List.length_cons, ih]

theorem forall₂ {related : Node → Node → Prop} (chain : Chain step nodes state outs after)
    (only : ∀ {node state out after}, step node state out after → related node out) :
    List.Forall₂ related nodes outs := by
  induction chain with
  | nil => exact .nil
  | cons first _ ih => exact .cons (only first) ih

theorem each {related : Node → Node → Prop} (chain : Chain step nodes state outs after)
    (only : ∀ {node state out after}, step node state out after → related node out) {place : Nat}
    {node out : Node} (atNode : nodes[place]? = some node) (atOut : outs[place]? = some out) :
    related node out := by
  obtain ⟨within, rfl⟩ := List.getElem?_eq_some_iff.mp atNode
  obtain ⟨bound, rfl⟩ := List.getElem?_eq_some_iff.mp atOut
  exact (chain.forall₂ only).get within bound

/-- What every step keeps up holds in the end, and along the way it lets the steps relate nodes. -/
theorem keeps {holds : σ → Prop} {related : Node → Node → Prop}
    (chain : Chain (fun node state out after => holds state → holds after ∧ related node out) nodes
      state outs after)
    (start : holds state) : holds after ∧ List.Forall₂ related nodes outs := by
  induction chain with
  | nil => exact ⟨start, .nil⟩
  | cons first _ ih =>
    obtain ⟨middle, here⟩ := first start
    obtain ⟨last, others⟩ := ih middle
    exact ⟨last, .cons here others⟩

/-- What holds in the end held along the way, if every step leads back to it, and there it lets the
steps relate nodes. -/
theorem backward {onward : σ → σ → Prop} {holds : σ → Prop} {related : Node → Node → Prop}
    (refl : ∀ state, onward state state) (trans : ∀ {a b c}, onward a b → onward b c → onward a c)
    (back : ∀ {a b}, onward a b → holds b → holds a)
    (chain : Chain (fun node state out after =>
      onward state after ∧ (holds after → related node out)) nodes state outs after) :
    onward state after ∧ (holds after → List.Forall₂ related nodes outs) := by
  induction chain with
  | nil state => exact ⟨refl state, fun _ => .nil⟩
  | cons first _ ih =>
    obtain ⟨here, first⟩ := first
    obtain ⟨others, each⟩ := ih
    exact ⟨trans here others, fun last => .cons (first (back others last)) (each last)⟩

end Chain

variable {pass : Pass σ} {limit : Nat}

theorem transformAll_ok {step : Node → σ → Node → σ → Prop} {depth : Nat}
    (one : ∀ {node state out after}, pass.transform limit depth node state = (.ok out, after) →
      step node state out after)
    {nodes outs : List Node} {state after : σ}
    (all : pass.transformAll limit depth nodes state = (.ok outs, after)) :
    Chain step nodes state outs after := by
  induction nodes generalizing outs state with
  | nil =>
    rw [transformAll] at all
    cases all
    exact .nil _
  | cons node nodes ih =>
    rw [transformAll_cons] at all
    obtain ⟨out, middle, first, rest⟩ := onward_eq_ok all
    obtain ⟨outs, last, others, made⟩ := onward_eq_ok rest
    cases made
    exact .cons (one first) (ih others)

/-- A property of what becomes of single nodes holds of everything a pass makes, if it holds of
what the pass gives as done and survives each of its other decisions. -/
theorem transform_ok {motive : Nat → Node → σ → Node → σ → Prop}
    (done : ∀ {depth node state out after}, depth < limit →
      pass.visit (depth + 1) node state = (.ok (.done out), after) →
      motive depth node state out after)
    (replace : ∀ {depth node state next middle out after}, depth < limit →
      pass.visit (depth + 1) node state = (.ok (.replace next), middle) →
      motive (depth + 1) next middle out after →
      motive depth node state out (pass.replaced depth node out after))
    (descend : ∀ {depth node state middle kids after}, depth < limit →
      pass.visit (depth + 1) node state = (.ok .descend, middle) →
      Chain (motive (depth + 1)) node.expr.children middle kids after →
      motive depth node state (pass.rebuild node kids after).1 (pass.rebuild node kids after).2)
    {depth : Nat} {node out : Node} {state after : σ}
    (run : pass.transform limit depth node state = (.ok out, after)) :
    motive depth node state out after := by
  -- a replacement need not be smaller than the node, so the induction is on the levels left
  induction levels : limit - depth generalizing depth node out state after with
  | zero =>
    rw [transform, if_pos (by omega)] at run
    cases run
  | succ room ih =>
    have entered : depth < limit := by omega
    rw [transform_entered pass entered] at run
    obtain ⟨decision, middle, decides, rest⟩ := onward_eq_ok run
    cases decision with
    | done out =>
      cases rest
      exact done entered decides
    | replace next =>
      obtain ⟨out, last, below, made⟩ := onward_eq_ok rest
      cases made
      exact replace entered decides (ih below (by omega))
    | descend =>
      obtain ⟨kids, last, below, made⟩ := onward_eq_ok rest
      cases made
      exact descend entered decides (transformAll_ok (fun one => ih one (by omega)) below)

/-- A pass fails at its limit or where it fails to decide, and nowhere else. -/
theorem transform_eq_error {bad : Error → Prop} (limits : bad (.recursionLimit limit))
    (visit : ∀ depth node state e, (pass.visit depth node state).1 = .error e → bad e)
    {depth : Nat} {node : Node} {state : σ} {e : Error}
    (fails : (pass.transform limit depth node state).1 = .error e) : bad e := by
  induction levels : limit - depth generalizing depth node state e with
  | zero =>
    rw [transform, if_pos (by omega)] at fails
    cases fails
    exact limits
  | succ room ih =>
    have one : ∀ node state e,
        (pass.transform limit (depth + 1) node state).1 = .error e → bad e :=
      fun node state e fails => ih fails (by omega)
    have all : ∀ nodes state e,
        (pass.transformAll limit (depth + 1) nodes state).1 = .error e → bad e := by
      intro nodes
      induction nodes with
      | nil =>
        intro state e fails
        rw [transformAll] at fails
        cases fails
      | cons node nodes more =>
        intro state
        rw [transformAll_cons]
        exact onward_eq_error (one node state)
          fun _ state => onward_eq_error (more state) fun _ _ _ made => by cases made
    rw [transform_entered pass (by omega)] at fails
    refine onward_eq_error (visit _ _ _) (fun decision state => ?_) e fails
    cases decision with
    | done out => exact fun _ made => by cases made
    | replace next => exact onward_eq_error (one next state) fun _ _ _ made => by cases made
    | descend => exact onward_eq_error (all _ state) fun _ _ _ made => by cases made

section Respects

variable {respects : σ → σ → Prop} (refl : ∀ state, respects state state)
  (trans : ∀ {a b c}, respects a b → respects b c → respects a c)

include refl trans in
theorem transformAll_respects {depth : Nat}
    (one : ∀ node state, respects state (pass.transform limit depth node state).2)
    (nodes : List Node) (state : σ) :
    respects state (pass.transformAll limit depth nodes state).2 := by
  induction nodes generalizing state with
  | nil =>
    rw [transformAll]
    exact refl state
  | cons node nodes ih =>
    rw [transformAll_cons]
    refine onward_keeps (one node state) fun out middle first => ?_
    exact onward_keeps (trans first (ih middle)) fun _ _ => id

theorem rebuild_respects (refl : ∀ state, respects state state)
    (draw : ∀ state, respects state (pass.draw state).2) (node : Node) (kids : List Node)
    (state : σ) : respects state (pass.rebuild node kids state).2 := by
  simp only [rebuild]
  split
  · exact refl state
  · exact draw state

include refl trans in
/-- A reflexive and transitive relation between states that visits, notes and draws respect relates
the state a pass starts in to the one it ends in, on success and on failure. -/
theorem transform_respects
    (visit : ∀ depth node state, respects state (pass.visit depth node state).2)
    (replaced : ∀ depth node out state, respects state (pass.replaced depth node out state))
    (draw : ∀ state, respects state (pass.draw state).2)
    (depth : Nat) (node : Node) (state : σ) :
    respects state (pass.transform limit depth node state).2 := by
  induction levels : limit - depth generalizing depth node state with
  | zero =>
    rw [transform, if_pos (by omega)]
    exact refl state
  | succ room ih =>
    rw [transform_entered pass (by omega)]
    refine onward_keeps (visit (depth + 1) node state) fun decision middle visited => ?_
    cases decision with
    | done out => exact visited
    | replace next =>
      exact onward_keeps (trans visited (ih (depth + 1) next middle (by omega)))
        fun out after below => trans below (replaced depth node out after)
    | descend =>
      have kids : respects middle
          (pass.transformAll limit (depth + 1) node.expr.children middle).2 :=
        transformAll_respects refl trans
          (fun node state => ih (depth + 1) node state (by omega)) node.expr.children middle
      exact onward_keeps (trans visited kids)
        fun kids after below => trans below (rebuild_respects refl draw node kids after)

end Respects

theorem sameNodes_self (nodes : List Node) : sameNodes nodes nodes = true := by
  induction nodes with
  | nil => rfl
  | cons node nodes ih => simp only [sameNodes, ih, Bool.and_true, Node.same, BEq.rfl]

theorem rebuild_children (pass : Pass σ) (node : Node) (state : σ) :
    pass.rebuild node node.expr.children state = (node, state) := by
  obtain ⟨mark, expr⟩ := node
  simp only [rebuild, Node.expr, sameNodes_self, if_true, Node.mark, Expr.withChildren_children]

theorem rebuild_expr (pass : Pass σ) (node : Node) (kids : List Node) (state : σ) :
    (pass.rebuild node kids state).1.expr = node.expr.withChildren kids := by
  simp only [rebuild]
  split <;> rfl

end Pass

namespace Node

theorem height_le_iff {tree : Node} {bound : Nat} :
    tree.height ≤ bound ↔ 0 < bound ∧ ∀ child ∈ tree.expr.children, child.height < bound := by
  constructor
  · intro low
    have positive := tree.height_pos
    refine ⟨by omega, fun child member => ?_⟩
    have := height_lt_of_child member
    omega
  · rintro ⟨positive, low⟩
    have deepest : ∀ heights : List Nat, (∀ h ∈ heights, h < bound) →
        heights.foldr max 0 < bound := by
      intro heights each
      induction heights with
      | nil => exact positive
      | cons first rest ih =>
        have := each first (.head _)
        have := ih fun h member => each h (.tail _ member)
        simp only [List.foldr_cons]
        omega
    have := deepest (tree.expr.children.map height) fun h member => by
      obtain ⟨child, inTree, rfl⟩ := List.mem_map.mp member
      exact low child inTree
    rw [height_eq]
    omega

end Node

namespace Pass

variable {pass : Pass σ} {limit : Nat}

/-- If a pass never gives a result of its own, every level of what it makes lies on a level that it
has entered: what it makes of a tree reaches no deeper than the limit. -/
theorem height_le_of_transform
    (never : ∀ depth node state out after, pass.visit depth node state ≠ (.ok (.done out), after))
    {depth : Nat} {node out : Node} {state after : σ}
    (run : pass.transform limit depth node state = (.ok out, after)) :
    depth + out.height ≤ limit := by
  refine transform_ok (motive := fun depth _ _ out _ => depth + out.height ≤ limit) ?_ ?_ ?_ run
  · intro depth node state out after _ decides
    exact absurd decides (never _ _ _ _ _)
  · intro depth node state next middle out after _ _ below
    omega
  · intro depth node state middle kids after entered _ chain
    have low : (pass.rebuild node kids after).1.height ≤ limit - depth := by
      rw [Node.height_le_iff, rebuild_expr, Expr.children_withChildren chain.length_eq]
      refine ⟨by omega, fun kid member => ?_⟩
      have each : List.Forall₂ (fun _ kid : Node => depth + 1 + kid.height ≤ limit)
          node.expr.children kids := chain.forall₂ id
      obtain ⟨index, bound, rfl⟩ := List.mem_iff_getElem.mp member
      have := each.get (by rwa [← each.length_eq] at bound) bound
      simp only [List.get_eq_getElem] at this
      omega
    omega

/-- A pass that decides at no node of a tree but to go on, and does so in one state, gives the very
same tree back in that state, if the tree is no higher than the levels left. -/
theorem transform_eq_self {state : σ} {tree : Node}
    (descends : ∀ part, part.Subtree tree → ∀ depth,
      pass.visit depth part state = (.ok .descend, state))
    {depth : Nat} (low : depth + tree.height ≤ limit) :
    pass.transform limit depth tree state = (.ok tree, state) := by
  induction tree using Node.induction generalizing depth with
  | node tree ih =>
    obtain ⟨positive, lower⟩ := Node.height_le_iff.mp (Nat.le_sub_of_add_le' low)
    have kids : ∀ nodes : List Node, (∀ kid ∈ nodes, kid ∈ tree.expr.children) →
        pass.transformAll limit (depth + 1) nodes state = (.ok nodes, state) := by
      intro nodes among
      induction nodes with
      | nil => rw [transformAll]
      | cons kid nodes more =>
        have inTree := among kid (.head _)
        have := lower kid inTree
        have first : pass.transform limit (depth + 1) kid state = (.ok kid, state) :=
          ih kid inTree (fun part below => descends part (.child inTree below)) (by omega)
        have others := more fun kid member => among kid (.tail _ member)
        rw [transformAll, first]
        simp only [others]
    rw [transform, if_neg (by omega), descends tree (.refl tree)]
    simp only [kids tree.expr.children fun _ member => member, rebuild_children]

/-- A pass that neither fails nor replaces anything at the nodes of a tree gets through the tree, if
it is no higher than the levels left. -/
theorem transform_succeeds {tree : Node}
    (decides : ∀ part, part.Subtree tree → ∀ depth state, ∃ decision after,
      pass.visit depth part state = (.ok decision, after) ∧ ∀ next, decision ≠ .replace next)
    {depth : Nat} (low : depth + tree.height ≤ limit) (state : σ) :
    ∃ out after, pass.transform limit depth tree state = (.ok out, after) := by
  induction tree using Node.induction generalizing depth state with
  | node tree ih =>
    obtain ⟨positive, lower⟩ := Node.height_le_iff.mp (Nat.le_sub_of_add_le' low)
    have kids : ∀ nodes : List Node, (∀ kid ∈ nodes, kid ∈ tree.expr.children) → ∀ state,
        ∃ outs after, pass.transformAll limit (depth + 1) nodes state = (.ok outs, after) := by
      intro nodes among
      induction nodes with
      | nil => exact fun state => ⟨[], state, by rw [transformAll]⟩
      | cons kid nodes more =>
        intro state
        have inTree := among kid (.head _)
        have := lower kid inTree
        obtain ⟨out, middle, first⟩ := @ih kid inTree
          (fun part below => decides part (.child inTree below)) (depth + 1) (by omega) state
        obtain ⟨outs, after, others⟩ := more (fun kid member => among kid (.tail _ member)) middle
        exact ⟨out :: outs, after, by rw [transformAll_cons, first, onward, others, onward]⟩
    obtain ⟨decision, middle, decided, noReplace⟩ := decides tree (.refl tree) (depth + 1) state
    rw [transform_entered pass (by omega), decided, onward]
    cases decision with
    | done out => exact ⟨out, middle, rfl⟩
    | replace next => exact absurd rfl (noReplace next)
    | descend =>
      obtain ⟨outs, after, all⟩ := kids tree.expr.children (fun _ member => member) middle
      rw [carryOut, all]
      exact ⟨_, _, rfl⟩

end Pass

end TypedTrees
