import Mathlib.Data.List.Forall2
import TypedTrees.Build
import TypedTrees.Tree.Children
/-!
What the checked constructors accept. Each of them comes down to conditions on the types of its
parts (`Expr.callOf_eq_ok_iff` and those after it), so a node that is built stays so when its
children give way to children of the same types (`Expr.Built.withChildren`).
-/
namespace TypedTrees

/-- There are as many arguments as types, and each type accepts the argument at its place. -/
def Ty.Take (types : List Ty) (args : List Node) : Prop :=
  List.Forall₂ (fun expected actual => expected.accepts actual = true) types (args.map Node.ty)

theorem Ty.Take.count {types : List Ty} {args : List Node} (takes : Take types args) :
    types.length = args.length :=
  (List.Forall₂.length_eq takes).trans (List.length_map Node.ty)

theorem Ty.Take.congr {types : List Ty} {args others : List Node} (takes : Take types args)
    (same : others.map Node.ty = args.map Node.ty) : Take types others := by
  rwa [Take, same]

theorem Node.ty_eq (node : Node) : node.ty = node.expr.ty := by
  cases node
  rfl

namespace Expr

theorem checkTypes_eq_ok_iff {context : Nat → String → String} {index : Nat}
    {params : List (String × Ty)} {args : List Node} (lengths : params.length = args.length) :
    checkTypes context index params args = .ok () ↔ Ty.Take (params.map Prod.snd) args := by
  induction params generalizing index args with
  | nil =>
    cases List.length_eq_zero_iff.mp lengths.symm
    exact ⟨fun _ => .nil, fun _ => rfl⟩
  | cons param params ih =>
    obtain ⟨name, ty⟩ := param
    cases args with
    | nil => cases lengths
    | cons arg args =>
      have rest := @ih (index + 1) args (Nat.succ.inj lengths)
      simp only [checkTypes, Ty.Take, List.map_cons, List.forall₂_cons] at rest ⊢
      by_cases accepted : ty.accepts arg.ty = true
      · rw [if_pos accepted, rest, and_iff_right accepted]
      · rw [if_neg accepted]
        exact ⟨fun fails => (by cases fails), fun both => absurd both.1 accepted⟩

theorem checkArgs_eq_ok_iff {f : Function} {args : List Node} :
    checkArgs f args = .ok () ↔ Ty.Take f.paramTypes args := by
  have types : (f.params.map fun p => (p.name, p.ty)).map Prod.snd = f.paramTypes := by
    rw [List.map_map]
    rfl
  rw [checkArgs]
  by_cases lengths : f.params.length = args.length
  · rw [if_pos lengths, checkTypes_eq_ok_iff (by rwa [List.length_map]), types]
  · rw [if_neg lengths]
    refine ⟨fun fails => (by cases fails), fun takes => absurd ?_ lengths⟩
    rw [← takes.count, Function.paramTypes, List.length_map]

theorem map_eq_ok_iff {α : Type} {check : Except Error Unit} {made a : α} :
    (check.map fun _ => made) = .ok a ↔ check = .ok () ∧ a = made := by
  cases check with
  | error e => exact ⟨fun fails => (by cases fails), fun both => (by cases both.1)⟩
  | ok _ => exact ⟨fun is => ⟨rfl, (Except.ok.inj is).symm⟩, fun both => congrArg _ both.2.symm⟩

theorem callOf_eq_ok_iff {f : Function} {args : List Node} {expr : Expr} :
    callOf f args = .ok expr ↔ f.isMethod = false ∧ Ty.Take f.paramTypes args ∧
      expr = .call none (.function f) args f.ret := by
  rw [callOf]
  cases f.isMethod with
  | true => exact ⟨fun fails => (by cases fails), fun both => (by cases both.1)⟩
  | false =>
    simp only [Bool.false_eq_true, if_false, map_eq_ok_iff, checkArgs_eq_ok_iff, true_and]

theorem methodCallOf_eq_ok_iff {receiver : Node} {f : Function} {args : List Node} {expr : Expr} :
    methodCallOf receiver f args = .ok expr ↔ ∃ expected, f.receiver = some expected ∧
      expected.accepts receiver.ty = true ∧ Ty.Take f.paramTypes args ∧
        expr = .call (some receiver) (.function f) args f.ret := by
  rw [methodCallOf]
  cases f.receiver with
  | none => exact ⟨fun fails => (by cases fails), fun ⟨_, is, _⟩ => (by cases is)⟩
  | some expected =>
    simp only [Option.some.injEq, exists_eq_left']
    by_cases accepted : expected.accepts receiver.ty = true
    · rw [if_pos accepted, map_eq_ok_iff, checkArgs_eq_ok_iff, and_iff_right accepted]
    · rw [if_neg accepted]
      exact ⟨fun fails => (by cases fails), fun both => absurd both.1 accepted⟩

/-- The type of a reference call on a holder of this type. -/
inductive InvokeTyped (args : List Node) : Ty → Ty → Prop
  | wildcard : InvokeTyped args .any .any
  | unknown {inner : Ty} (parts : inner.functionParts = none) :
      InvokeTyped args (.quoted inner) .any
  | known {inner ret : Ty} {params : List Ty} (parts : inner.functionParts = some (params, ret))
      (takes : Ty.Take params args) : InvokeTyped args (.quoted inner) ret

theorem InvokeTyped.congr {args others : List Node} {holder ty : Ty}
    (typed : InvokeTyped args holder ty) (same : others.map Node.ty = args.map Node.ty) :
    InvokeTyped others holder ty := by
  cases typed with
  | wildcard => exact .wildcard
  | unknown parts => exact .unknown parts
  | known parts takes => exact .known parts (takes.congr same)

theorem invokeType_eq_ok_iff {holder : Node} {args : List Node} {ty : Ty} :
    invokeType holder args = .ok ty ↔ InvokeTyped args holder.ty ty := by
  simp only [invokeType]
  generalize holder.ty = holderTy
  cases holderTy with
  | any =>
    refine ⟨fun is => ?_, fun typed => ?_⟩
    · cases is
      exact .wildcard
    · cases typed
      rfl
  | quoted inner =>
    simp only
    cases parts : inner.functionParts with
    | none =>
      refine ⟨fun is => ?_, fun typed => ?_⟩
      · cases is
        exact .unknown parts
      · cases typed with
        | unknown _ => rfl
        | known found _ => cases parts.symm.trans found
    | some found =>
      obtain ⟨params, ret⟩ := found
      have types : (params.map fun ty => ("", ty)).map Prod.snd = params := by
        rw [List.map_map]
        exact List.map_id params
      simp only
      by_cases lengths : params.length = args.length
      · rw [if_pos lengths, map_eq_ok_iff, checkTypes_eq_ok_iff (by rwa [List.length_map]), types]
        refine ⟨fun both => both.2 ▸ .known parts both.1, fun typed => ?_⟩
        cases typed with
        | unknown none => cases parts.symm.trans none
        | known found takes =>
          cases parts.symm.trans found
          exact ⟨takes, rfl⟩
      · rw [if_neg lengths]
        refine ⟨fun fails => (by cases fails), fun typed => absurd ?_ lengths⟩
        cases typed with
        | unknown none => cases parts.symm.trans none
        | known found takes =>
          cases parts.symm.trans found
          exact takes.count
  | _ => exact ⟨fun fails => (by cases fails), fun typed => (by cases typed)⟩

theorem invokeOf_eq_ok_iff {holder : Node} {args : List Node} {expr : Expr} :
    invokeOf holder args = .ok expr ↔ ∃ shape ty, InvokeShape.ofArity? args.length = some shape ∧
      InvokeTyped args holder.ty ty ∧ expr = .call none (.invoke shape) (holder :: args) ty := by
  rw [invokeOf]
  cases InvokeShape.ofArity? args.length with
  | none => exact ⟨fun fails => (by cases fails), fun ⟨_, _, is, _⟩ => (by cases is)⟩
  | some shape =>
    simp only [Option.some.injEq, exists_and_left, exists_eq_left']
    constructor
    · intro built
      cases typed : invokeType holder args with
      | error e =>
        rw [typed] at built
        cases built
      | ok ty =>
        rw [typed] at built
        cases built
        exact ⟨ty, invokeType_eq_ok_iff.mp typed, rfl⟩
    · rintro ⟨ty, typed, rfl⟩
      rw [invokeType_eq_ok_iff.mpr typed]
      rfl

theorem setMemberOf_eq_ok_iff {target value : Node} {m : Member} {expr : Expr} :
    setMemberOf target m value = .ok expr ↔ m.isWritable = true ∧
      m.ty.accepts value.ty = true ∧ expr = .setMember target m value := by
  rw [setMemberOf]
  cases m.isWritable with
  | false => exact ⟨fun fails => (by cases fails), fun both => (by cases both.1)⟩
  | true =>
    simp only [Bool.not_true, Bool.false_eq_true, if_false, true_and]
    by_cases accepted : m.ty.accepts value.ty = true
    · rw [if_pos accepted, and_iff_right accepted]
      exact ⟨fun is => (Except.ok.inj is).symm, fun is => congrArg _ is.symm⟩
    · rw [if_neg accepted]
      exact ⟨fun fails => (by cases fails), fun both => absurd both.1 accepted⟩

/-- What is built on a literal holder takes as many arguments as the lambda has parameters, and has
the lambda's result type. -/
theorem invokeOf_treeOf {mark : Nat} {l : Lambda} {args : List Node} {expr : Expr}
    (built : invokeOf ⟨mark, treeOf l⟩ args = .ok expr) :
    l.arity = args.length ∧
      ∃ shape, expr = .call none (.invoke shape) (⟨mark, treeOf l⟩ :: args) l.ret := by
  obtain ⟨shape, ty, -, typed, rfl⟩ := invokeOf_eq_ok_iff.mp built
  have ofTree : (⟨mark, treeOf l⟩ : Node).ty = .quoted l.fnType := rfl
  have parts : l.fnType.functionParts = some (l.params.map Parameter.ty, l.ret) := rfl
  rw [ofTree] at typed
  cases typed with
  | unknown none => cases parts.symm.trans none
  | known found takes =>
    cases parts.symm.trans found
    exact ⟨by rw [Lambda.arity, ← takes.count, List.length_map], shape, rfl⟩

/-- What the constructor of a node makes of the node's parts. No constructor makes a reference call
with a receiver or without a holder. -/
def rebuilt : Expr → Except Error Expr
  | call none (.function f) args _ => callOf f args
  | call (some receiver) (.function f) args _ => methodCallOf receiver f args
  | call none (.invoke _) (holder :: args) _ => invokeOf holder args
  | call _ (.invoke _) _ _ => .error (.invalidArgument .missingHolder)
  | unary op operand _ => .ok (unaryOf op operand)
  | binary op left right _ => .ok (binaryOf op left right)
  | condition test ifTrue ifFalse _ => .ok (conditionOf test ifTrue ifFalse)
  | setMember target m value => setMemberOf target m value
  | expr => .ok expr

/-- The node is what its constructor makes of its parts. The type of a lambda's body stands in the
relation `declares` to the result type: they are equal where lambdas are made by `Lambda.of`. -/
structure Built (declares : Ty → Ty → Prop) (expr : Expr) : Prop where
  rebuilt : expr.rebuilt = .ok expr
  declared : ∀ l, expr = .lambda l → declares l.body.ty l.ret

section

variable {expr : Expr} {kids : List Node} {declares : Ty → Ty → Prop}

theorem ty_withChildren (types : kids.map Node.ty = expr.children.map Node.ty) :
    (expr.withChildren kids).ty = expr.ty := by
  cases expr with
  | member target _ => cases target <;> rfl
  | call receiver _ _ _ => cases receiver <;> rfl
  | setMember target m value =>
    obtain ⟨kid, others, rfl, here, -⟩ := List.map_eq_cons_iff.mp types
    exact here
  | _ => rfl

theorem Built.of_rebuilt (rebuilt : expr.rebuilt = .ok expr) (noLambda : ∀ l, expr ≠ .lambda l) :
    expr.Built declares :=
  ⟨rebuilt, fun l is => absurd is (noLambda l)⟩

/-- The constructors of calls go by the types of the parts only. -/
theorem rebuilt_call {receiver : Option Node} {callee : Callee} {args : List Node} {ty : Ty}
    (rebuilt : (call receiver callee args ty).rebuilt = .ok (.call receiver callee args ty))
    {receiver' : Option Node} {args' : List Node}
    (receivers : receiver'.map Node.ty = receiver.map Node.ty)
    (types : args'.map Node.ty = args.map Node.ty) :
    (call receiver' callee args' ty).rebuilt = .ok (.call receiver' callee args' ty) := by
  cases callee with
  | function f =>
    cases receiver with
    | none =>
      obtain ⟨free, takes, is⟩ := callOf_eq_ok_iff.mp rebuilt
      cases is
      cases Option.map_eq_none_iff.mp receivers
      exact callOf_eq_ok_iff.mpr ⟨free, takes.congr types, rfl⟩
    | some receiver =>
      obtain ⟨expected, isMethod, fits, takes, is⟩ := methodCallOf_eq_ok_iff.mp rebuilt
      cases is
      obtain ⟨receiver', rfl, same⟩ := Option.map_eq_some_iff.mp receivers
      exact methodCallOf_eq_ok_iff.mpr
        ⟨expected, isMethod, by rwa [same], takes.congr types, rfl⟩
  | invoke shape =>
    cases receiver with
    | some receiver => cases rebuilt
    | none =>
      cases args with
      | nil => cases rebuilt
      | cons holder args =>
        obtain ⟨_, _, counts, typed, is⟩ := invokeOf_eq_ok_iff.mp rebuilt
        cases is
        cases Option.map_eq_none_iff.mp receivers
        obtain ⟨holder', args', rfl, atHolder, atArgs⟩ := List.map_eq_cons_iff.mp types
        have lengths : args'.length = args.length := by
          simpa using congrArg List.length atArgs
        refine invokeOf_eq_ok_iff.mpr ⟨shape, ty, by rwa [lengths], ?_, rfl⟩
        rw [atHolder]
        exact typed.congr atArgs

/-- A constructor goes by the types of the parts only. -/
theorem Built.withChildren (built : expr.Built declares)
    (types : kids.map Node.ty = expr.children.map Node.ty) :
    (expr.withChildren kids).Built declares := by
  have lengths : kids.length = expr.children.length := by
    simpa using congrArg List.length types
  obtain ⟨rebuilt, declared⟩ := built
  cases expr with
  | call receiver callee args ty =>
    cases receiver with
    | none =>
      have lengths : kids.length = args.length := lengths
      rw [Expr.withChildren, withChildren.overlay_of_length_eq lengths]
      exact .of_rebuilt (rebuilt_call rebuilt rfl types) (by simp)
    | some receiver =>
      obtain ⟨kid, kids, rfl, atReceiver, atArgs⟩ := List.map_eq_cons_iff.mp types
      have lengths : kids.length = args.length := Nat.succ.inj lengths
      rw [Expr.withChildren, List.tail_cons, withChildren.overlay_of_length_eq lengths]
      exact .of_rebuilt (rebuilt_call rebuilt (congrArg some atReceiver) atArgs) (by simp)
  | lambda l =>
    obtain ⟨kid, rfl⟩ := List.length_eq_one_iff.mp lengths
    refine ⟨rfl, fun l' is => ?_⟩
    cases is
    have same : kid.ty = l.body.ty := (List.cons.inj types).1
    change declares kid.ty l.ret
    rw [same]
    exact declared l rfl
  | unary op operand ty =>
    obtain ⟨kid, rfl⟩ := List.length_eq_one_iff.mp lengths
    have same : kid.ty = operand.ty := (List.cons.inj types).1
    have typed : ty = unaryType op operand.ty := by
      cases rebuilt
      rfl
    refine .of_rebuilt ?_ (by simp [Expr.withChildren])
    simp [Expr.withChildren, Expr.rebuilt, unaryOf, same, typed]
  | binary op left right ty =>
    obtain ⟨first, second, rfl⟩ := List.length_eq_two.mp lengths
    have same : first.ty = left.ty ∧ second.ty = right.ty := by simpa [children] using types
    have typed : ty = binaryType op left.ty right.ty := by
      cases rebuilt
      rfl
    refine .of_rebuilt ?_ (by simp [Expr.withChildren])
    simp [Expr.withChildren, Expr.rebuilt, binaryOf, same, typed]
  | condition test ifTrue ifFalse ty =>
    obtain ⟨first, second, third, rfl⟩ := List.length_eq_three.mp lengths
    have same : second.ty = ifTrue.ty := (List.cons.inj (List.cons.inj types).2).1
    have typed : ty = ifTrue.ty := by
      cases rebuilt
      rfl
    refine .of_rebuilt ?_ (by simp [Expr.withChildren])
    simp [Expr.withChildren, Expr.rebuilt, conditionOf, same, typed]
  | setMember target m value =>
    obtain ⟨first, second, rfl⟩ := List.length_eq_two.mp lengths
    have same : second.ty = value.ty := (List.cons.inj (List.cons.inj types).2).1
    obtain ⟨writable, accepted, -⟩ := setMemberOf_eq_ok_iff.mp rebuilt
    have accepted' : m.ty.accepts second.ty = true := by rwa [same]
    exact .of_rebuilt (setMemberOf_eq_ok_iff.mpr ⟨writable, accepted', rfl⟩)
      (by simp [Expr.withChildren])
  | member target m => cases target <;> exact .of_rebuilt rfl (by simp [Expr.withChildren])
  | _ => exact .of_rebuilt rfl (by simp [Expr.withChildren])

end

end Expr

end TypedTrees
