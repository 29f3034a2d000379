import TypedTrees.Proofs.Pass.Outcome
import TypedTrees.Proofs.Pass.Refinement
import TypedTrees.Proofs.Tree.Filled
import TypedTrees.Proofs.Tree.Parts
import TypedTrees.Substitution
/-!
What a substitution makes of a tree, without regard to marks. `Node.Substituted` relates a tree to
the tree with the mapped parameters replaced, and a substitution that succeeds is one
(`Node.substituted_of_substituteFrom`). Its form is that of the filled tree
(`Node.unmarked_of_substituteFrom`). Nothing is renamed: what is free in the outcome was free in the
tree and not mapped, or is free in a tree that has been put in (`Node.Substituted.free`).
-/
namespace TypedTrees

namespace Keyed

variable {κ ν : Type} [LT κ] [DecidableLT κ] [BEq κ] [LawfulBEq κ]
  [Std.Irrefl (α := κ) (· < ·)] [Std.Trichotomous (α := κ) (· < ·)]

theorem lookup_insertAll (pairs entries : List (κ × ν)) (key : κ) :
    (insertAll pairs entries).lookup key =
      (pairs.reverse.lookup key).or (entries.lookup key) := by
  induction pairs generalizing entries with
  | nil => rfl
  | cons pair rest ih =>
    have onward : insertAll (pair :: rest) entries =
        insertAll rest (insert pair.1 pair.2 entries) := rfl
    rw [onward, ih, lookup_insert, List.reverse_cons, List.lookup_append]
    cases rest.reverse.lookup key with
    | some value => rfl
    | none =>
      obtain ⟨first, value⟩ := pair
      simp only [Option.none_or, List.lookup_cons, List.lookup_nil]
      cases key == first <;> rfl

end Keyed

namespace Substitution

/-- The tree that a parameter of this identity is mapped to. -/
def at? (s : Substitution) (id : Nat) : Option Node := s.entries.lookup id

theorem bind_at? (s : Substitution) (param : Parameter) (tree : Node) (id : Nat) :
    (s.bind param tree).at? id = if id == param.id then some tree else s.at? id :=
  Keyed.lookup_insert param.id id tree s.entries

theorem ofPairs_entries (pairs : List (Parameter × Node)) :
    (ofPairs pairs).entries = Keyed.insertAll (pairs.map fun pair => (pair.1.id, pair.2)) [] := by
  have each : ∀ s : Substitution, (pairs.foldl (fun s pair => s.bind pair.1 pair.2) s).entries =
      Keyed.insertAll (pairs.map fun pair => (pair.1.id, pair.2)) s.entries := by
    induction pairs with
    | nil => exact fun s => rfl
    | cons pair rest ih => exact fun s => ih _
  exact each empty

/-- Among parameters and arguments paired by position, a parameter has the argument of its last
place. -/
theorem zip_at? (params : List Parameter) (args : List Node) (id : Nat) :
    (zip params args).at? id = ((params.map Parameter.id).zip args).reverse.lookup id := by
  rw [at?, zip, ofPairs_entries, Keyed.lookup_insertAll, List.lookup_nil, Option.or_none,
    List.zip_map_left]
  rfl

end Substitution

namespace Keyed

variable {α β : Type}

theorem lookup_zip_reverse_cons (id first : Nat) (ids : List Nat) (x : α) (xs : List α) :
    ((first :: ids).zip (x :: xs)).reverse.lookup id =
      ((ids.zip xs).reverse.lookup id).or (if id = first then some x else none) := by
  rw [List.zip_cons_cons, List.reverse_cons, List.lookup_append]
  congr 1
  by_cases same : id = first
  · simp [same]
  · have differs : (id == first) = false := by simpa using same
    simp [List.lookup_cons, differs, same]

theorem exists_place {ids : List Nat} {xs : List α} {id : Nat} {x : α}
    (found : (ids.zip xs).reverse.lookup id = some x) :
    ∃ place : Nat, ids[place]? = some id ∧ xs[place]? = some x := by
  induction ids generalizing xs with
  | nil => cases found
  | cons first ids ih =>
    cases xs with
    | nil => cases found
    | cons y xs =>
      rw [lookup_zip_reverse_cons] at found
      rcases rest : (ids.zip xs).reverse.lookup id with _ | later
      · rw [rest, Option.none_or] at found
        split at found
        · rename_i same
          cases found
          exact ⟨0, by rw [same]; rfl, rfl⟩
        · cases found
      · rw [rest] at found
        cases found
        obtain ⟨place, atId, atX⟩ := ih rest
        exact ⟨place + 1, atId, atX⟩

theorem isSome_of_mem {ids : List Nat} {xs : List α} (lengths : ids.length = xs.length) {id : Nat}
    (member : id ∈ ids) : ((ids.zip xs).reverse.lookup id).isSome = true := by
  induction ids generalizing xs with
  | nil => cases member
  | cons first ids ih =>
    cases xs with
    | nil => cases lengths
    | cons x xs =>
      rw [lookup_zip_reverse_cons, Option.isSome_or]
      rcases List.mem_cons.mp member with same | later
      · simp [same]
      · simp [ih (Nat.succ.inj lengths) later]

/-- Values that are related place by place are related where they are found under one key. -/
theorem rel_zip {related : α → β → Prop} {xs : List α} {ys : List β}
    (each : List.Forall₂ related xs ys) (ids : List Nat) (id : Nat) :
    Option.Rel related ((ids.zip xs).reverse.lookup id) ((ids.zip ys).reverse.lookup id) := by
  induction each generalizing ids with
  | nil =>
    rw [List.zip_nil_right, List.zip_nil_right]
    exact .none
  | cons first _ ih =>
    cases ids with
    | nil => exact .none
    | cons other ids =>
      rw [lookup_zip_reverse_cons, lookup_zip_reverse_cons]
      have later := ih ids
      generalize (List.zip ids _).reverse.lookup id = found at later ⊢
      generalize (List.zip ids _).reverse.lookup id = found' at later ⊢
      cases later with
      | some here => exact .some here
      | none =>
        by_cases same : id = other
        · rw [if_pos same, if_pos same]
          exact .some first
        · rw [if_neg same, if_neg same]
          exact .none

end Keyed

namespace Substitution

/-- What a parameter is mapped to is the argument at a place of the parameter. -/
theorem exists_place_of_zip {params : List Parameter} {args : List Node} {id : Nat} {tree : Node}
    (found : (zip params args).at? id = some tree) :
    ∃ (place : Nat) (param : Parameter),
      params[place]? = some param ∧ param.id = id ∧ args[place]? = some tree := by
  rw [zip_at?] at found
  obtain ⟨place, atId, atTree⟩ := Keyed.exists_place found
  rw [List.getElem?_map] at atId
  obtain ⟨param, atParam, same⟩ := Option.map_eq_some_iff.mp atId
  exact ⟨place, param, atParam, same, atTree⟩

theorem mem_of_zip {params : List Parameter} {args : List Node} {id : Nat} {tree : Node}
    (found : (zip params args).at? id = some tree) : tree ∈ args := by
  obtain ⟨_, _, _, _, atTree⟩ := exists_place_of_zip found
  exact List.mem_of_getElem? atTree

end Substitution

theorem Substitution.zip_at?_map (f : Node → Node) (params : List Parameter) (args : List Node)
    (id : Nat) : (zip params (args.map f)).at? id = ((zip params args).at? id).map f := by
  have each : List.Forall₂ (fun arg out => out = f arg) args (args.map f) := by
    rw [List.forall₂_map_right_iff, List.forall₂_same]
    exact fun _ _ => rfl
  have found := Keyed.rel_zip each (params.map Parameter.id) id
  rw [zip_at?, zip_at?]
  generalize (List.zip _ args).reverse.lookup id = here at found ⊢
  generalize (List.zip _ (args.map f)).reverse.lookup id = there at found ⊢
  cases found with
  | none => rfl
  | some same => rw [Option.map_some, same]

/-- The tree `out` is `node` with every parameter replaced that is mapped, whatever marks the nodes
of `out` have. Trees that are put in are not looked into. -/
inductive Node.Substituted (put : Nat → Option Node) : Node → Node → Prop
  | mapped {node out : Node} {param : Parameter} (isParam : node.expr = .parameter param)
      (found : put param.id = some out) : Substituted put node out
  | unmapped {node : Node} {param : Parameter} (isParam : node.expr = .parameter param)
      (absent : put param.id = none) : Substituted put node node
  | inner {node out : Node} {kids : List Node} (noParam : ∀ param, node.expr ≠ .parameter param)
      (lengths : kids.length = node.expr.children.length)
      (each : ∀ (place : Nat) (child kid : Node), node.expr.children[place]? = some child →
        kids[place]? = some kid → Substituted put child kid)
      (made : out.expr = node.expr.withChildren kids) : Substituted put node out

namespace Node

theorem Substituted.refl {put : Nat → Option Node} (nothing : ∀ id, put id = none) (node : Node) :
    Substituted put node node := by
  induction node using Node.induction with
  | node node ih =>
    rcases node.parameter_or_inner with ⟨param, isParam⟩ | noParam
    · exact .unmapped isParam (nothing _)
    · refine .inner noParam rfl ?_ node.expr.withChildren_children.symm
      intro place child kid atChild atKid
      cases atChild.symm.trans atKid
      exact ih child (List.mem_of_getElem? atChild)

/-- A substitution that succeeds puts in what it maps. -/
theorem substituted_of_substituteFrom {limit depth : Nat} {s : Substitution} {node out : Node}
    {supply after : Supply}
    (run : node.substituteFrom limit depth s supply = (.ok out, after)) :
    Substituted s.at? node out := by
  rw [substituteFrom] at run
  split at run
  · rename_i empty
    cases run
    refine .refl (fun id => ?_) node
    rw [Substitution.at?, List.isEmpty_iff.mp empty, List.lookup_nil]
  · rw [Pass.run_eq_transform] at run
    simp only [Prod.mk.injEq] at run
    refine Pass.transform_ok (motive := fun _ node _ out _ => Substituted s.at? node out) ?_ ?_ ?_
      (Prod.ext run.1 rfl : s.replacer.transform limit depth node supply = (.ok out, _))
    · intro depth node state out after _ decides
      simp only [Substitution.replacer] at decides
      split at decides
      · rename_i param isParam
        cases decides
        rcases found : s.get? param with _ | tree
        · exact .unmapped isParam found
        · exact .mapped isParam found
      · cases decides
    · intro depth node state next middle out after _ decides _
      simp only [Substitution.replacer] at decides
      split at decides <;> cases decides
    · intro depth node state middle kids after _ decides chain
      simp only [Substitution.replacer] at decides
      split at decides
      · cases decides
      · rename_i noParam
        refine .inner noParam chain.length_eq ?_ (Pass.rebuild_expr _ node kids after)
        intro place child kid atChild atKid
        exact chain.each id atChild atKid

namespace Substituted

variable {put : Nat → Option Node} {node out : Node}

/-- What is free in the outcome was free in the tree and is not mapped, or is free in a tree that
has been put in. -/
theorem free {id : Nat} (related : Substituted put node out) (free : out.Free id) :
    (node.Free id ∧ put id = none) ∨ ∃ other tree, put other = some tree ∧ tree.Free id := by
  induction related with
  | mapped _ found => exact .inr ⟨_, _, found, free⟩
  | @unmapped node param isParam absent =>
    rcases free_iff.mp free with ⟨other, isOther, same⟩ | ⟨_, child, member, _⟩
    · cases isParam.symm.trans isOther
      exact .inl ⟨free, same ▸ absent⟩
    · rw [isParam] at member
      cases member
  | @inner node out kids noParam lengths _ made ih =>
    rcases free_iff.mp free with ⟨param, isParam, _⟩ | ⟨unbound, kid, member, below⟩
    · rw [made, Expr.withChildren_eq_parameter] at isParam
      exact absurd isParam (noParam param)
    · rw [made, Expr.binders_withChildren] at unbound
      rw [made, Expr.children_withChildren lengths] at member
      obtain ⟨place, bound, rfl⟩ := List.mem_iff_getElem.mp member
      have within : place < node.expr.children.length := lengths ▸ bound
      rcases ih place _ _ (List.getElem?_eq_getElem within) (List.getElem?_eq_getElem bound)
        below with ⟨inChild, absent⟩ | inTree
      · exact .inl ⟨.child (List.getElem_mem within) unbound inChild, absent⟩
      · exact .inr inTree

/-- What holds of every part of the tree and of the trees put in holds of every part of the
outcome, unless it depends on the children of a part. -/
theorem all {holds : Expr → Prop} (related : Substituted put node out)
    (carries : ∀ expr trees, holds expr → holds (expr.withChildren trees))
    (here : node.All holds) (puts : ∀ id tree, put id = some tree → tree.All holds) :
    out.All holds := by
  induction related with
  | mapped _ found => exact puts _ _ found
  | unmapped _ _ => exact here
  | @inner node out kids _ lengths _ made ih =>
    refine all_iff.mpr ⟨made ▸ carries _ _ here.here, fun kid member => ?_⟩
    rw [made, Expr.children_withChildren lengths] at member
    obtain ⟨place, bound, rfl⟩ := List.mem_iff_getElem.mp member
    have within : place < node.expr.children.length := lengths ▸ bound
    exact ih place _ _ (List.getElem?_eq_getElem within) (List.getElem?_eq_getElem bound)
      (here.child (List.getElem_mem within))

/-- What a substitution makes of a tree has the form of the filled tree. -/
theorem unmarked (related : Substituted put node out) :
    out.unmarked = (node.filled put).unmarked := by
  induction related with
  | mapped isParam found => rw [filled_parameter isParam, found, Option.getD_some]
  | @unmapped node param isParam absent =>
    rw [filled_parameter isParam, absent, Option.getD_none, unmarked_eq, isParam,
      unmarked_eq (mk 0 _), expr_mk]
  | @inner node out kids noParam lengths _ made ih =>
    have each : kids.map Node.unmarked =
        (node.expr.children.map (filled put)).map Node.unmarked := by
      refine List.ext_getElem (by simp only [List.length_map, lengths]) fun place bound within => ?_
      simp only [List.getElem_map]
      simp only [List.length_map] at bound within
      exact ih place _ _ (List.getElem?_eq_getElem within) (List.getElem?_eq_getElem bound)
    rw [filled_inner noParam, unmarked_withChildren (List.length_map _), ← each]
    obtain ⟨mark, expr⟩ := out
    cases made
    exact unmarked_withChildren lengths

end Substituted

theorem unmarked_of_substituteFrom {limit depth : Nat} {s : Substitution} {node out : Node}
    {supply after : Supply}
    (run : node.substituteFrom limit depth s supply = (.ok out, after)) :
    out.unmarked = (node.filled s.at?).unmarked :=
  (substituted_of_substituteFrom run).unmarked

/-- The substitution makes `out` of the tree, under a limit that it does not trip over. -/
def SubstitutesTo (s : Substitution) (tree out : Node) : Prop :=
  ∃ limit depth supply, (tree.substituteFrom limit depth s supply).1 = .ok out

theorem SubstitutesTo.substituted {s : Substitution} {tree out : Node}
    (substitutes : tree.SubstitutesTo s out) : tree.Substituted s.at? out := by
  obtain ⟨limit, depth, supply, run⟩ := substitutes
  exact substituted_of_substituteFrom (Prod.ext run rfl)

theorem SubstitutesTo.unmarked {s : Substitution} {tree out : Node}
    (substitutes : tree.SubstitutesTo s out) : out.unmarked = (tree.filled s.at?).unmarked :=
  substitutes.substituted.unmarked

/-- A substitution succeeds in a tree that is no higher than the levels left. -/
theorem substituteFrom_succeeds {limit depth : Nat} (s : Substitution) {node : Node}
    (low : depth + node.height ≤ limit) (supply : Supply) :
    ∃ out after, node.substituteFrom limit depth s supply = (.ok out, after) := by
  rw [substituteFrom]
  split
  · exact ⟨_, _, rfl⟩
  · have decides : ∀ part, part.Subtree node → ∀ depth supply, ∃ decision after,
        s.replacer.visit depth part supply = (.ok decision, after) ∧
          ∀ next, decision ≠ .replace next := by
      intro part _ depth supply
      simp only [Substitution.replacer]
      split
      · exact ⟨_, _, rfl, fun _ is => by cases is⟩
      · exact ⟨_, _, rfl, fun _ is => by cases is⟩
    obtain ⟨out, after, run⟩ := Pass.transform_succeeds decides low supply
    rw [Pass.run_eq_transform, run]
    exact ⟨out, after, rfl⟩

/-- Every substitution makes something of every tree. -/
theorem exists_substitutesTo (s : Substitution) (tree : Node) :
    ∃ out, tree.SubstitutesTo s out := by
  obtain ⟨out, after, run⟩ :=
    tree.substituteFrom_succeeds s (by omega : 0 + tree.height ≤ tree.height) .initial
  exact ⟨out, tree.height, 0, .initial, by rw [run]⟩

/-- A substitution that puts something in enters every level of the tree. -/
theorem height_le_of_substituteFrom {limit depth : Nat} {s : Substitution} {node out : Node}
    {supply after : Supply} (some : s.isEmpty = false)
    (run : node.substituteFrom limit depth s supply = (.ok out, after)) :
    depth + node.height ≤ limit := by
  simp only [substituteFrom, some, Bool.false_eq_true, if_false, Pass.run_eq_transform,
    Prod.mk.injEq] at run
  refine Pass.transform_ok (motive := fun depth node _ _ _ => depth + node.height ≤ limit) ?_ ?_ ?_
    (Prod.ext run.1 rfl : s.replacer.transform limit depth node supply = (.ok out, _))
  · intro depth node state out after entered decides
    simp only [Substitution.replacer] at decides
    split at decides
    · rename_i param isParam
      have low : node.height ≤ limit - depth := by
        rw [Node.height_le_iff, isParam]
        exact ⟨by omega, fun child member => by cases member⟩
      omega
    · cases decides
  · intro depth node state next middle out after _ decides _
    simp only [Substitution.replacer] at decides
    split at decides <;> cases decides
  · intro depth node state middle kids after entered _ chain
    have each : List.Forall₂ (fun node _ : Node => depth + 1 + node.height ≤ limit)
        node.expr.children kids := chain.forall₂ id
    have low : node.height ≤ limit - depth := by
      refine Node.height_le_iff.mpr ⟨by omega, fun child member => ?_⟩
      obtain ⟨place, within, rfl⟩ := List.mem_iff_getElem.mp member
      have := each.get within (chain.length_eq.symm ▸ within)
      simp only [List.get_eq_getElem] at this
      omega
    omega

end Node

end TypedTrees
