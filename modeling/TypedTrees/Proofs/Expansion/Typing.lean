import TypedTrees.Proofs.Expansion.WellBuilt
import TypedTrees.Proofs.Registry.Signature
/-!
Expansion preserves types and the checks of construction. A rebuilt node keeps the type that it was
given when it was built, so what matters is that its children keep theirs. They do where every
argument has the very type of its parameter and every body the result type of its lambda: for a
reference call that is asked of the tree, for a substitute its capture has made sure of it
(`Session.lookUpWithin_signed`). Then whatever is put in place of a node is of the node's type
(`Expands.typed`), and so every node of the outcome is what its constructor makes of its parts
(`Expander.expand_typeExact`).
-/
namespace TypedTrees

section Exchange

/-- One tree may take the place of another: it has the same type, and is the same constant if the
other is one. -/
structure Node.Fits (node kid : Node) : Prop where
  ty : kid.ty = node.ty
  constant : ∀ v ty, node.expr = .constant v ty → kid.expr = .constant v ty

theorem Node.Fits.types {nodes kids : List Node} (each : List.Forall₂ Node.Fits nodes kids) :
    kids.map Node.ty = nodes.map Node.ty := by
  induction each with
  | nil => rfl
  | cons first _ ih => rw [List.map_cons, List.map_cons, first.ty, ih]

variable {put : Nat → Option Node} {tree : Node} {holds : Expr → Prop}

/-- The trees that are put in have the types of the parameters in whose place they come. -/
def Node.Suits (put : Nat → Option Node) (tree : Node) : Prop :=
  ∀ (part : Node) (param : Parameter), part.Subtree tree → part.expr = .parameter param →
    ∀ found, put param.id = some found → found.ty = param.ty

theorem Node.suits_nothing (tree : Node) : Suits (fun _ => none) tree :=
  fun _ _ _ _ _ is => by cases is

theorem Node.Suits.child {child : Node} (suits : Suits put tree)
    (member : child ∈ tree.expr.children) : Suits put child :=
  fun part param inChild => suits part param (.child member inChild)

theorem Node.fits_filled (suits : Suits put tree) : tree.Fits (tree.filled put) := by
  induction tree using Node.induction with
  | node tree ih =>
    rcases tree.parameter_or_inner with ⟨param, isParam⟩ | noParam
    · obtain ⟨mark, expr⟩ := tree
      cases isParam
      refine ⟨?_, fun v ty is => by cases is⟩
      rw [filled_parameter rfl]
      cases found : put param.id with
      | none => rfl
      | some other => exact suits _ param (.refl _) rfl other found
    · rw [filled_inner noParam]
      refine ⟨?_, fun v ty is => Expr.withChildren_eq_constant.mpr is⟩
      obtain ⟨mark, expr⟩ := tree
      refine Expr.ty_withChildren ?_
      rw [List.map_map]
      exact List.map_congr_left fun child member => (ih child member (suits.child member)).ty

/-- What survives the exchange of children for others that fit survives putting trees in for
parameters. -/
theorem Node.All.filled (stable : ∀ {expr kids}, List.Forall₂ Node.Fits expr.children kids →
      holds expr → holds (expr.withChildren kids))
    (all : tree.All holds) (suits : Node.Suits put tree)
    (puts : ∀ id found, put id = some found → found.All holds) : (tree.filled put).All holds := by
  induction tree using Node.induction with
  | node tree ih =>
    rcases tree.parameter_or_inner with ⟨param, isParam⟩ | noParam
    · rw [filled_parameter isParam]
      cases found : put param.id with
      | none =>
        have here := all.here
        rw [isParam] at here
        exact Node.all_iff.mpr ⟨here, fun child member => by cases member⟩
      | some other => exact puts _ _ found
    · have fits : List.Forall₂ Node.Fits tree.expr.children
          (tree.expr.children.map (Node.filled put)) := by
        rw [List.forall₂_map_right_iff, List.forall₂_same]
        exact fun child member => fits_filled (suits.child member)
      rw [filled_inner noParam, Node.all_iff, expr_mk,
        Expr.children_withChildren (List.length_map _)]
      refine ⟨stable fits all.here, fun kid member => ?_⟩
      obtain ⟨child, inTree, rfl⟩ := List.mem_map.mp member
      exact ih child inTree (all.child inTree) (suits.child inTree)

theorem Node.ty_unmarked (tree : Node) : tree.unmarked.ty = tree.ty :=
  (fits_filled (suits_nothing tree)).ty

theorem Node.All.unmarked_iff (stable : ∀ {expr kids}, List.Forall₂ Node.Fits expr.children kids →
      holds expr → holds (expr.withChildren kids)) :
    tree.unmarked.All holds ↔ tree.All holds := by
  constructor
  · intro all
    induction tree using Node.induction with
    | node tree ih =>
      rw [unmarked_eq, Node.all_iff, expr_mk, Expr.children_withChildren (List.length_map _)] at all
      obtain ⟨here, below⟩ := all
      refine Node.all_iff.mpr ⟨?_, fun child member => ?_⟩
      · have back : List.Forall₂ Node.Fits
            (tree.expr.withChildren (tree.expr.children.map unmarked)).children
            tree.expr.children := by
          rw [Expr.children_withChildren (List.length_map _), List.forall₂_map_left_iff,
            List.forall₂_same]
          refine fun child _ => ⟨child.ty_unmarked.symm, fun v ty is => ?_⟩
          rw [unmarked_eq] at is
          exact Expr.withChildren_eq_constant.mp is
        have again := stable back here
        rwa [Expr.withChildren_withChildren (List.length_map _) rfl, Expr.withChildren_children]
          at again
      · exact ih child member (below _ (List.mem_map_of_mem member))
  · exact fun all => all.filled stable (suits_nothing tree) fun _ _ is => by cases is

/-- A call whose children have been exchanged was a call of the same callee, and its arguments have
been exchanged. -/
theorem Expr.call_of_withChildren {related : Node → Node → Prop} {expr : Expr} {kids : List Node}
    {receiver : Option Node} {callee : Callee} {args : List Node} {ty : Ty}
    (each : List.Forall₂ related expr.children kids)
    (made : expr.withChildren kids = .call receiver callee args ty) :
    ∃ was olds, expr = .call was callee olds ty ∧ List.Forall₂ related olds args := by
  cases expr with
  | call was callee olds ty =>
    cases was with
    | none =>
      have lengths : kids.length = olds.length := each.length_eq.symm
      rw [withChildren, withChildren.overlay_of_length_eq lengths] at made
      cases made
      exact ⟨none, olds, rfl, each⟩
    | some was =>
      obtain ⟨kid, kids, -, rest, rfl⟩ := List.forall₂_cons_left_iff.mp each
      have lengths : kids.length = olds.length := rest.length_eq.symm
      rw [withChildren, List.tail_cons, withChildren.overlay_of_length_eq lengths] at made
      cases made
      exact ⟨some was, olds, rfl, rest⟩
  | member target _ => cases target <;> cases made
  | _ => cases made

end Exchange

/-- The node is what its constructor makes of its parts. If it is a reference call, its holder is
literal, and if it is a call of a registered function, the entry is that of the very function; and
in both cases the arguments have the types of the parameters. -/
structure Expr.TypeExact (registry : Registry) (declares : Ty → Ty → Prop) (expr : Expr) :
    Prop where
  built : expr.Built declares
  invokes : ∀ receiver shape args ty, expr = .call receiver (.invoke shape) args ty →
    ∃ mark l rest, args = ⟨mark, treeOf l⟩ :: rest ∧
      rest.map Node.ty = l.params.map Parameter.ty
  calls : ∀ receiver f args ty binding, expr = .call receiver (.function f) args ty →
    registry.find? f = some binding → binding.function = f ∧ args.map Node.ty = f.paramTypes

theorem Expr.TypeExact.withChildren {registry : Registry} {declares : Ty → Ty → Prop} {expr : Expr}
    {kids : List Node} (each : List.Forall₂ Node.Fits expr.children kids)
    (exact : expr.TypeExact registry declares) :
    (expr.withChildren kids).TypeExact registry declares := by
  refine ⟨exact.built.withChildren (Node.Fits.types each), ?_, ?_⟩
  · intro receiver shape args ty made
    obtain ⟨was, olds, isCall, fits⟩ := call_of_withChildren each made
    obtain ⟨mark, l, rest, rfl, types⟩ := exact.invokes was shape olds ty isCall
    obtain ⟨⟨mark', holder⟩, others, first, follow, rfl⟩ := List.forall₂_cons_left_iff.mp fits
    obtain rfl : holder = treeOf l := first.constant _ _ rfl
    exact ⟨mark', l, others, rfl, (Node.Fits.types follow).trans types⟩
  · intro receiver f args ty binding made found
    obtain ⟨was, olds, isCall, fits⟩ := call_of_withChildren each made
    obtain ⟨same, types⟩ := exact.calls was f olds ty binding isCall found
    exact ⟨same, (Node.Fits.types fits).trans types⟩

/-- The body of a lambda has the declared result type, and the lambda's parameters occur in it with
their types. -/
structure Lambda.Typed (l : Lambda) : Prop where
  ret : l.body.ty = l.ret
  params : ∀ (part : Node) (param : Parameter), part.Subtree l.body →
    part.expr = .parameter param → ∀ own ∈ l.params, own.id = param.id → own.ty = param.ty

/-- The tree is built with exact types, and so are the bodies of the lambda trees held in it, which
have the declared result types. -/
structure Node.TypeExact (registry : Registry) (declares : Ty → Ty → Prop) (tree : Node) :
    Prop where
  exact : tree.All (·.TypeExact registry declares)
  held : ∀ l, tree.Holds l → l.Typed ∧ l.body.All (·.TypeExact registry declares)

structure Lambda.TypeExact (registry : Registry) (declares : Ty → Ty → Prop) (l : Lambda) :
    Prop where
  typed : l.Typed
  body : l.body.TypeExact registry declares

theorem Node.TypeExact.lambda {registry : Registry} {declares : Ty → Ty → Prop} {tree : Node}
    {l : Lambda} (exact : tree.TypeExact registry declares) (holds : tree.Holds l) :
    l.TypeExact registry declares :=
  ⟨(exact.held l holds).1, (exact.held l holds).2,
    fun k inner => exact.held k (.nested holds inner)⟩

namespace Expands

section

variable {host : Host} {registry : Nat} {later : Session} {among : Lambda → Prop}
  {declares : Ty → Ty → Prop}

/-- The node is type-exact, and so is the lambda tree that it holds, if it holds one. -/
abbrev Exact (registry : Registry) (declares : Ty → Ty → Prop) (expr : Expr) : Prop :=
  expr.TypeExact registry declares ∧ expr.TreeIs (·.TypeExact registry declares)

theorem Exact.withChildren {registry : Registry} {expr : Expr} {kids : List Node}
    (each : List.Forall₂ Node.Fits expr.children kids) (exact : Exact registry declares expr) :
    Exact registry declares (expr.withChildren kids) :=
  ⟨exact.1.withChildren each, fun l ty is => exact.2 l ty (Expr.withChildren_eq_constant.mp is)⟩

theorem Exact.of_typeExact {registry : Registry} {tree : Node}
    (exact : tree.TypeExact registry declares) : tree.All (Exact registry declares) :=
  fun part inTree =>
    ⟨exact.exact part inTree, fun _ _ isConstant => exact.lambda (.constant inTree isConstant)⟩

/-- A call that refers to a lambda has the lambda's result type, and passes arguments of the types
of the lambda's parameters. -/
theorem typed_call {node : Node} {receiver : Option Node} {callee : Callee} {args : List Node}
    {ty : Ty} {l : Lambda} (signed : later.Signed)
    (quoted : ∀ f l, (later.registry registry).quoted? f = some l →
      l.TypeExact (later.registry registry) declares)
    (exact : node.All (Exact (later.registry registry) declares))
    (isCall : node.expr = .call receiver callee args ty)
    (refers : later.referenced host registry node callee args = (.ok (some l), later)) :
    l.TypeExact (later.registry registry) declares ∧
      (callee.passed args).map Node.ty = l.params.map Parameter.ty ∧ ty = l.ret := by
  have rebuilt := exact.here.1.built.rebuilt
  rw [isCall] at rebuilt
  cases callee with
  | invoke shape =>
    obtain ⟨mark, k, rest, rfl, types⟩ := exact.here.1.invokes receiver shape args ty isCall
    have isTree : k = l := by
      cases refers
      rfl
    subst isTree
    have holder : (⟨mark, .treeOf k⟩ : Node) ∈ node.expr.children := by
      rw [isCall]
      exact List.mem_append_right _ (.head _)
    refine ⟨(exact.child holder).here.2 k _ rfl, types, ?_⟩
    cases receiver with
    | some receiver => cases rebuilt
    | none =>
      obtain ⟨-, _, is⟩ := Expr.invokeOf_treeOf rebuilt
      cases is
      rfl
  | function f =>
    have kept := Session.quoted?_of_quotedBody refers
    obtain ⟨binding, found, isQuoted⟩ := Option.bind_eq_some_iff.mp kept
    obtain ⟨same, types⟩ := exact.here.1.calls receiver f args ty binding isCall found
    obtain ⟨params, ret⟩ :=
      signed registry binding (List.mem_of_find?_eq_some found) l isQuoted
    rw [same] at params ret
    refine ⟨quoted f l kept, types.trans params, ?_⟩
    rw [← ret]
    cases receiver with
    | none =>
      obtain ⟨-, -, is⟩ := Expr.callOf_eq_ok_iff.mp rebuilt
      cases is
      rfl
    | some receiver =>
      obtain ⟨_, -, -, -, is⟩ := Expr.methodCallOf_eq_ok_iff.mp rebuilt
      cases is
      rfl

/-- What a type-exact tree expands to has the type of the tree, and every node of it is what its
constructor makes of its parts. -/
theorem typed {node out : Node} (signed : later.Signed)
    (quoted : ∀ f l, (later.registry registry).quoted? f = some l →
      l.TypeExact (later.registry registry) declares)
    (expands : Expands host registry later among node out)
    (exact : node.All (Exact (later.registry registry) declares)) :
    out.ty = node.ty ∧ out.All (·.Built declares) := by
  induction expands with
  | @inlines node next out receiver callee args ty l isCall refers _ arity made _ ih =>
    obtain ⟨⟨typed, body⟩, types, ret⟩ := typed_call signed quoted exact isCall refers
    have suits : Node.Suits (Substitution.zip l.params (callee.passed args)).at? l.body := by
      intro part param inBody isParam found mapped
      obtain ⟨place, own, atOwn, sameId, atFound⟩ := Substitution.exists_place_of_zip mapped
      have atPlace := congrArg (·[place]?) types
      simp only [List.getElem?_map, atOwn, atFound, Option.map_some, Option.some.injEq] at atPlace
      exact atPlace.trans
        (typed.params part param inBody isParam own (List.mem_of_getElem? atOwn) sameId)
    have puts : ∀ id found, (Substitution.zip l.params (callee.passed args)).at? id = some found →
        found.All (Exact (later.registry registry) declares) := by
      intro id found mapped
      refine exact.child ?_
      rw [isCall]
      refine List.mem_append_right _ ?_
      have passed := Substitution.mem_of_zip mapped
      cases callee with
      | invoke _ => exact List.mem_of_mem_tail passed
      | function _ => exact passed
    have filled := (Exact.of_typeExact body).filled Exact.withChildren suits puts
    rw [← Node.All.unmarked_iff Exact.withChildren, ← made,
      Node.All.unmarked_iff Exact.withChildren] at filled
    obtain ⟨same, built⟩ := ih filled
    refine ⟨?_, built⟩
    calc out.ty
      _ = next.ty := same
      _ = (l.body.filled (Substitution.zip l.params (callee.passed args)).at?).ty := by
        rw [← next.ty_unmarked, made, Node.ty_unmarked]
      _ = l.ret := by rw [(Node.fits_filled suits).ty, typed.ret]
      _ = node.ty := by rw [node.ty_eq, isCall, Expr.ty, ret]
  | @descends node kids kept lengths below ih =>
    have types : kids.map Node.ty = node.expr.children.map Node.ty := by
      refine List.ext_getElem (by simpa using lengths) fun place bound within => ?_
      simp only [List.getElem_map]
      rw [List.length_map] at bound within
      exact (ih place _ _ (List.getElem?_eq_getElem within) (List.getElem?_eq_getElem bound)
        (exact.child (List.getElem_mem within))).1
    have same : (⟨0, node.expr.withChildren kids⟩ : Node).ty = node.ty := by
      rw [Node.ty_eq, Node.expr_mk, Expr.ty_withChildren types, node.ty_eq]
    refine ⟨same, Node.all_iff.mpr ⟨?_, fun kid member => ?_⟩⟩
    · exact exact.here.1.built.withChildren types
    · rw [Node.expr_mk, Expr.children_withChildren lengths] at member
      obtain ⟨place, bound, rfl⟩ := List.mem_iff_getElem.mp member
      have within : place < node.expr.children.length := by rwa [← lengths]
      exact (ih place _ _ (List.getElem?_eq_getElem within) (List.getElem?_eq_getElem bound)
        (exact.child (List.getElem_mem within))).2

end

end Expands

/-- An expansion keeps no lambda but ones of their functions' signatures. -/
theorem Expander.expand_signed (expander : Expander) (host : Host) (tree : Node)
    (session : Session) : session.StaysSigned (expander.expand host tree session).2.2 := by
  simp only [expand, Pass.run_eq_transform]
  exact expansionPass_transform_respects Session.StaysSigned.refl
    (fun _ _ precedes => Session.StaysSigned.setStore precedes.slots)
    (fun f session => Session.lookUpWithin_signed _ expander.registry f session)
    Session.StaysSigned.trans Session.StaysSigned.setSupply host
    (expander.guard.bound session.limit) expander.guard.current tree { session }

/-- Let the reference calls of a tree be on literal holders, and let every argument of a reference
call or of a call of a registered function have the type of its parameter, in the tree, in the
lambda trees held in it, and in the lambdas that functions stand for; and let the bodies of these
lambdas have the declared result types. Then an expansion that succeeds comes to a tree of the same
type, in which every node is what its constructor makes of its parts: every call passes the checks
on its receiver and its arguments, every field write those on its member and its value, and every
type that is stored is the one that the constructor would compute. -/
theorem Expander.expand_typeExact {host : Host} {expander after : Expander} {tree out : Node}
    {session final : Session} {declares : Ty → Ty → Prop}
    (run : expander.expand host tree session = (.ok out, after, final))
    (distinct : session.KeysDistinct) (signed : session.Signed)
    (exact : tree.TypeExact (final.registry expander.registry) declares)
    (quoted : ∀ f l, (final.registry expander.registry).quoted? f = some l →
      l.TypeExact (final.registry expander.registry) declares) :
    out.ty = tree.ty ∧ out.All (·.Built declares) := by
  have stays := expander.expand_signed host tree session
  rw [run] at stays
  have expanded : final.HasExpanded host expander.registry tree out :=
    ⟨expander, session, rfl, by rw [run], by rw [run]; exact .refl final⟩
  have distinctLater : final.KeysDistinct := distinct.mono stays.toSameEntries
  have expands := @Session.HasExpanded.expands host _ final (Eq tree) tree out distinctLater
    expanded rfl
  obtain ⟨ty, built⟩ := expands.typed (stays.signed distinct signed) quoted (.of_typeExact exact)
  exact ⟨out.ty_unmarked.symm.trans ty, (Node.All.unmarked_iff
    fun each built => built.withChildren (Node.Fits.types each)).mp built⟩

namespace Doubling

open IdentityTwice (x identity seven once)

/-- The signature `double(n: int) -> int`. -/
def double : Function := ⟨18, "double", none, [⟨"n", .int, .value⟩], .int, none⟩

/-- The lambda `x => x + x`. -/
def doubled : Lambda := .of [x] ⟨7, .binaryOf .add ⟨5, .parameter x⟩ ⟨6, .parameter x⟩⟩

/-- A body that quotes `x => x + x`. -/
def body : Body := .quote doubled fun _ => .finish (.ok ())

def session : Session := (({} : Session).register 0 double body).2

/-- The call `double(quote(identity).invoke(7))`. -/
def tree : Node := ⟨8, .call none (.function double) [once] .int⟩

/-- The sum `7 + 7`. -/
def sum (mark : Nat) : Node := ⟨mark, .binaryOf .add seven seven⟩

/-- The registry in which `double` stands for `x => x + x`. -/
def captured : Registry := ⟨[⟨16, double, body, some doubled⟩]⟩

theorem expanded : (({} : Expander).expand .basic tree session).1 = .ok (sum 18) := by
  simp only [Expander.expand, expansionPass, Pass.run_eq_transform]
  cbv

theorem captures : (({} : Expander).expand .basic tree session).2.2.registry 0 = captured := by
  simp only [Expander.expand, expansionPass, Pass.run_eq_transform]
  cbv

theorem distinct : session.KeysDistinct := by
  intro number
  have entries : session.registries = [(0, ⟨[⟨16, double, body, none⟩]⟩)] := by cbv
  simp only [Session.registry, entries, List.lookup_cons, List.lookup_nil]
  split
  · exact List.nodup_singleton _
  · exact List.nodup_nil

theorem found {f : Function} {binding : Binding} (found : captured.find? f = some binding) :
    binding.function = double ∧ binding.quoted = some doubled := by
  simp only [Registry.find?, captured, List.find?_cons] at found
  split at found
  · cases found
    exact ⟨rfl, rfl⟩
  · cases found

theorem ofLeaf {expr : Expr} (built : expr.Built Eq)
    (noCall : ∀ receiver callee args ty, expr ≠ .call receiver callee args ty) :
    expr.TypeExact captured Eq :=
  ⟨built, fun _ _ _ _ is => absurd is (noCall _ _ _ _),
    fun _ _ _ _ _ is => absurd is (noCall _ _ _ _)⟩

theorem ofOnce : once.expr.TypeExact captured Eq := by
  refine ⟨.of_rebuilt ?_ (fun l is => by cases is), ?_, ?_⟩
  · exact @IdentityTwice.invoked seven rfl
  · intro receiver shape args ty is
    cases is
    exact ⟨1, identity, [seven], rfl, rfl⟩
  · exact fun _ _ _ _ _ is => by cases is

theorem ofTree : tree.expr.TypeExact captured Eq := by
  refine ⟨.of_rebuilt ?_ (fun l is => by cases is), ?_, ?_⟩
  · exact Expr.callOf_eq_ok_iff.mpr ⟨rfl, .cons rfl .nil, rfl⟩
  · exact fun _ _ _ _ is => by cases is
  · intro receiver f args ty binding is found
    cases is
    exact ⟨(Doubling.found found).1, rfl⟩

theorem ofSeven : seven.expr.TypeExact captured Eq :=
  ofLeaf (.of_rebuilt rfl fun _ is => by cases is) fun _ _ _ _ is => by cases is

theorem ofHolder : (Expr.treeOf identity).TypeExact captured Eq :=
  ofLeaf (.of_rebuilt rfl fun _ is => by cases is) fun _ _ _ _ is => by cases is

theorem ofX : (Expr.parameter x).TypeExact captured Eq :=
  ofLeaf (.of_rebuilt rfl fun _ is => by cases is) fun _ _ _ _ is => by cases is

theorem ofSum : doubled.body.expr.TypeExact captured Eq :=
  ofLeaf (.of_rebuilt rfl fun _ is => by cases is) fun _ _ _ _ is => by cases is

theorem typed {l : Lambda} (ret : l.body.ty = l.ret) (params : l.params = [x])
    (only : ∀ part ∈ l.body.parts, ∀ param, part.expr = .parameter param → param = x) :
    l.Typed := by
  refine ⟨ret, fun part param inBody isParam own member _ => ?_⟩
  rw [params, List.mem_singleton] at member
  rw [member, only part (Node.mem_parts_iff.mpr inBody) param isParam]

theorem parts : tree.parts = [tree, once, ⟨1, .treeOf identity⟩, seven] := by cbv

theorem bodyParts :
    doubled.body.parts = [doubled.body, ⟨5, .parameter x⟩, ⟨6, .parameter x⟩] := by
  cbv

theorem held {l : Lambda} (holds : tree.Holds l) : l = identity := by
  refine @Node.Holds.good (· = identity) tree l ?_ ?_ holds
  · rw [Node.all_iff_parts, parts]
    simp [Expr.TreeIs, Node.expr, tree, once, seven, Expr.treeOf, Expr.constantOf]
  · rintro k rfl
    rw [Node.all_iff_parts, IdentityTwice.ofIdentity]
    simp [Expr.TreeIs, Node.expr]

theorem holdsNothing {l : Lambda} : ¬doubled.body.Holds l := by
  refine @Node.Holds.good (fun _ => False) doubled.body l ?_ fun _ none => none.elim
  rw [Node.all_iff_parts, bodyParts]
  simp [Expr.TreeIs, Node.expr, doubled, Lambda.of, Lambda.body, Expr.binaryOf]

theorem typeExact : tree.TypeExact captured Eq := by
  refine ⟨?_, fun l holds => ?_⟩
  · rw [Node.all_iff_parts, parts]
    simp only [List.forall_mem_cons]
    exact ⟨ofTree, ofOnce, ofHolder, ofSeven, List.forall_mem_nil _⟩
  · obtain rfl := held holds
    refine ⟨typed rfl rfl ?_, ?_⟩
    · rw [IdentityTwice.ofIdentity, List.forall_mem_singleton]
      rintro param ⟨⟩
      rfl
    · rw [Node.all_iff_parts, IdentityTwice.ofIdentity, List.forall_mem_singleton]
      exact ofX

theorem quoted {l : Lambda} (isDoubled : l = doubled) : l.TypeExact captured Eq := by
  subst isDoubled
  refine ⟨typed rfl rfl ?_, ?_, fun k holds => ?_⟩
  · rw [bodyParts]
    simp only [List.forall_mem_cons]
    refine ⟨?_, ?_, ?_, List.forall_mem_nil _⟩
    · rintro param ⟨⟩
    · rintro param ⟨⟩
      rfl
    · rintro param ⟨⟩
      rfl
  · rw [Node.all_iff_parts, bodyParts]
    simp only [List.forall_mem_cons]
    exact ⟨ofSum, ofX, ofX, List.forall_mem_nil _⟩
  · exact absurd holds holdsNothing

end Doubling

open Doubling in
/-- The call of `double` expands to a sum of its type, which the constructor of sums makes. -/
theorem Expander.expand_typeExact_double :
    (({} : Expander).expand .basic tree session).1 = .ok (sum 18) ∧ (sum 18).ty = tree.ty ∧
      (sum 18).All (·.Built Eq) := by
  rcases ran : ({} : Expander).expand .basic tree session with ⟨outcome, after, final⟩
  have isSum := expanded
  have isCaptured := captures
  rw [ran] at isSum isCaptured
  cases isSum
  refine ⟨rfl, expand_typeExact ran distinct (.register (.of_fresh rfl) _ _ _) ?_ ?_⟩
  · exact isCaptured ▸ typeExact
  · intro f l kept
    have entries : final.registry ({} : Expander).registry = captured := isCaptured
    rw [entries] at kept ⊢
    obtain ⟨binding, entry, isQuoted⟩ := Option.bind_eq_some_iff.mp kept
    exact quoted (Option.some.inj (isQuoted.symm.trans (found entry).2))

end TypedTrees
