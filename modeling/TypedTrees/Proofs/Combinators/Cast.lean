import TypedTrees.Proofs.Combinators.Lens
import TypedTrees.Proofs.Eval.Untripped
/-!
Casts. A conversion gives null, a value that the type accepts, or a number or a string of exactly
the type (`Value.convert_cases`), and each of these a second conversion leaves alone. A cast
converts what the lambda comes to, so it delivers what it declares, and to cast again changes
nothing (`Lambda.invoke_cast`).
-/
namespace TypedTrees

namespace Value

/-- What a conversion can make of a value that it does not pass unchanged. -/
inductive MadeOf : Ty → Value → Prop
  | float (x : Float) : MadeOf .float (.float x)
  | int (n : Int64) : MadeOf .int (.int n)
  | str (s : String) : MadeOf .str (.str s)

/-- A value that is converted passes unchanged or becomes another of exactly the type. -/
theorem convert_cases {ty : Ty} {v w : Value} (converts : v.convert ty = .ok w) :
    w = v ∧ (ty.accepts v.ty || v.isNull) = true ∨ MadeOf ty w := by
  have passed (passes : convert.pass ty v = .ok w) :
      w = v ∧ (ty.accepts v.ty || v.isNull) = true ∨ MadeOf ty w := by
    rw [convert.pass] at passes
    split at passes
    · rename_i fits
      cases passes
      exact .inl ⟨rfl, fits⟩
    · cases passes
  rw [convert.eq_def] at converts
  split at converts
  · cases converts
    exact .inr (.float _)
  · split at converts
    · cases converts
      exact .inr (.int _)
    · exact passed converts
  · cases converts
    exact .inr (.str _)
  · cases converts
    exact .inr (.str _)
  · cases converts
    exact .inr (.str _)
  · exact passed converts

theorem eq_null_of_isNull {v : Value} (isNull : v.isNull = true) : v = .null := by
  cases v with
  | null => rfl
  | _ => cases isNull

/-- What a conversion gives is null, or the type accepts it. -/
theorem accepts_of_convert {ty : Ty} {v w : Value} (converts : v.convert ty = .ok w) :
    w = .null ∨ ty.accepts w.ty = true := by
  rcases convert_cases converts with ⟨rfl, fits⟩ | made
  · rcases Bool.or_eq_true_iff.mp fits with accepts | isNull
    · exact .inr accepts
    · exact .inl (eq_null_of_isNull isNull)
  · cases made with
    | float x => exact .inr (Ty.accepts_refl .float)
    | int n => exact .inr (Ty.accepts_refl .int)
    | str s => exact .inr (Ty.accepts_refl .str)

/-- A second conversion to the type leaves alone what the first has given. -/
theorem convert_convert {ty : Ty} {v w : Value} (converts : v.convert ty = .ok w) :
    w.convert ty = .ok w := by
  rcases convert_cases converts with ⟨rfl, -⟩ | made
  · exact converts
  · cases made <;> rfl

/-- Other than numbers and strings, what the type accepts passes unchanged. -/
theorem convert_of_accepts {ty : Ty} {v : Value} (accepts : ty.accepts v.ty = true)
    (noStr : ty ≠ .str) (noInt : ty ≠ .int) (noFloat : ty ≠ .float) : v.convert ty = .ok v := by
  have passes : convert.pass ty v = .ok v := by
    rw [convert.pass, accepts, Bool.true_or, if_pos rfl]
  rw [convert.eq_def]
  split
  · exact absurd rfl noFloat
  · exact absurd rfl noInt
  · exact absurd rfl noStr
  · exact absurd rfl noStr
  · exact absurd rfl noStr
  · exact passes

end Value

namespace Lambda

variable {host : Host} {limit limit' : Nat} {l : Lambda} {ty : Ty} {supply : Supply}
  {args : List Value} {store : Store}

/-- An invocation that never comes to the limit. -/
def Untripped (host : Host) (limit : Nat) (l : Lambda) (args : List Value) (store : Store) : Prop :=
  ∀ scope, l.bindArgs [] args = .ok scope →
    Callbacks.Untripped host limit (Callbacks.start l.body scope [] 0 store)

/-- What is made of the value of an invocation that is cast. -/
def converted (ty : Ty) : Except Error Value × Store → Except Error Value × Store
  | (.ok v, after) => (v.convert ty, after)
  | (.error e, after) => (.error e, after)

theorem within_cast (host : Host) (limit room : Nat) (l : Lambda) (ty : Ty) (supply : Supply)
    (env : Env) (store : Store) :
    Evaluation.within host limit (room + 1) (l.cast ty supply).1.body env store =
      converted ty (Evaluation.within host limit room l.body env store) := by
  obtain ⟨params, body, ret⟩ := l
  have isExpr : (cast (.mk params body ret) ty supply).1.body.expr =
      .unary (.convert ty) body (Expr.unaryType (.convert ty) body.ty) := rfl
  change _ = converted ty (Evaluation.within host limit room body env store)
  simp only [Evaluation.within, Evaluation.ofNode, isExpr]
  rcases Evaluation.within host limit room body env store with ⟨e | v, after⟩
  · rfl
  · rfl

/-- A cast converts what the lambda comes to. -/
theorem invoke_cast_eq (arity : l.arity = args.length) (plain : l.Untripped host limit args store)
    (casting : (l.cast ty supply).1.Untripped host limit' args store) :
    (l.cast ty supply).1.invoke host limit' args store =
      converted ty (l.invoke host limit args store) := by
  have ofBody := plain (l.scope [] args) (if_pos arity)
  have ofCast := casting (l.scope [] args) (if_pos arity)
  rw [invoke_eq arity, invoke_eq (show (l.cast ty supply).1.arity = args.length from arity)]
  obtain ⟨room, rfl⟩ : ∃ room, limit' = room + 1 :=
    Nat.exists_eq_add_one_of_ne_zero (Nat.ne_of_gt (ofCast.entered rfl))
  -- the body has one level less below the conversion
  rcases Nat.le_total limit room with more | more
  · have same := ofBody.within_eq more (room + 1)
    rw [Nat.sub_zero] at same
    rw [same]
    exact within_cast host (room + 1) room l ty supply (l.scope [] args) store
  · have same := ofCast.within_eq (Nat.succ_le_succ more) limit
    exact same.trans (within_cast host limit limit l ty supply (l.scope [] args) store)

theorem convert_of_invoke_cast {w : Value}
    (result : ((l.cast ty supply).1.invoke host limit args store).1 = .ok w) :
    ∃ v : Value, v.convert ty = .ok w := by
  rw [invoke_eq (arity_of_invoke result)] at result
  cases limit with
  | zero => cases result
  | succ room =>
    rw [within_cast] at result
    rcases inner : Evaluation.within host (room + 1) room l.body
      ((l.cast ty supply).1.scope [] args) store with ⟨e | v, after⟩
    · rw [inner] at result
      cases result
    · rw [inner] at result
      exact ⟨v, result⟩

/-- A cast delivers what it declares: null, or a value that the type accepts. Casting once more to
the same type changes nothing: where neither invocation comes to its limit, both give the same
value or errors of one kind, and leave the same store. And what the lambda comes to passes
unchanged if the type accepts it and is neither a type of numbers nor that of strings. -/
theorem invoke_cast (host : Host) (l : Lambda) (ty : Ty) (supply supply' : Supply)
    (args : List Value) (store : Store) :
    let once := (l.cast ty supply).1
    let twice := (once.cast ty supply').1
    (once.ret = ty ∧ ∀ limit w, (once.invoke host limit args store).1 = .ok w →
      w = .null ∨ once.ret.accepts w.ty = true) ∧
    (∀ limit limit', once.Untripped host limit args store →
      twice.Untripped host limit' args store →
        (twice.invoke host limit' args store).1.mapError Error.kind =
          (once.invoke host limit args store).1.mapError Error.kind ∧
        (twice.invoke host limit' args store).2 = (once.invoke host limit args store).2) ∧
    ∀ limit limit' v, l.Untripped host limit args store → once.Untripped host limit' args store →
      (l.invoke host limit args store).1 = .ok v → ty.accepts v.ty = true →
        ty ≠ .str → ty ≠ .int → ty ≠ .float →
          once.invoke host limit' args store = l.invoke host limit args store := by
  intro once twice
  refine ⟨⟨rfl, fun limit w result => ?_⟩, fun limit limit' first second => ?_, ?_⟩
  · obtain ⟨v, converts⟩ := convert_of_invoke_cast result
    exact Value.accepts_of_convert converts
  · by_cases arity : l.arity = args.length
    · have again : twice.invoke host limit' args store =
          converted ty (once.invoke host limit args store) := invoke_cast_eq arity first second
      rw [again]
      rcases result : once.invoke host limit args store with ⟨e | w, after⟩
      · exact ⟨rfl, rfl⟩
      · obtain ⟨v, converts⟩ := convert_of_invoke_cast (congrArg Prod.fst result)
        rw [converted, Value.convert_convert converts]
        exact ⟨rfl, rfl⟩
    · have refused : ∀ made : Lambda, made.params = l.params → ∀ limit,
          made.invoke host limit args store =
            (.error (.arityMismatch l.arity args.length made.text), store) := by
        intro made params limit
        have differs : ¬made.arity = args.length := by rwa [Lambda.arity, params]
        rw [invoke, bindArgs, if_neg differs, Lambda.arity, params]
        rfl
      rw [refused once rfl, refused twice rfl]
      exact ⟨rfl, rfl⟩
  · intro limit limit' v plain casting value accepts noStr noInt noFloat
    rw [invoke_cast_eq (arity_of_invoke value) plain casting]
    rcases result : l.invoke host limit args store with ⟨e | w, after⟩
    · rw [result] at value
      cases value
    · rw [result] at value
      cases value
      rw [converted, Value.convert_of_accepts accepts noStr noInt noFloat]

namespace CastApplied

def x : Parameter := ⟨16, "x", .int⟩

def y : Parameter := ⟨17, "y", .int⟩

/-- The lambda `x => apply(y => y, x)`. -/
def applied : Lambda :=
  .of [x] ⟨18, .call none
    (.function ⟨19, "apply", none, [⟨"f", .any, .value⟩, ⟨"x", .int, .value⟩], .any,
      some (.host "apply")⟩)
    [⟨20, .lambda (.of [y] ⟨21, .parameter y⟩)⟩, ⟨22, .parameter x⟩] .any⟩

def once : Lambda := (applied.cast .str ⟨23⟩).1

def twice : Lambda := (once.cast .str ⟨24⟩).1

theorem untripped_of {limit : Nat} {l : Lambda} {args : List Value} {scope : Env}
    (binds : l.bindArgs [] args = .ok scope)
    (ends : Callbacks.untrippedFor .basic limit 20 (Callbacks.start l.body scope [] 0 {}) = true) :
    l.Untripped .basic limit args {} := by
  intro other same
  cases binds.symm.trans same
  exact .of_untrippedFor ends

end CastApplied

open CastApplied in
/-- The lambda takes two levels, with each cast one more. Casts of `7` to a string, and to any
type. -/
theorem invoke_cast_applied :
    once.Untripped .basic 3 [.int 7] {} ∧ twice.Untripped .basic 4 [.int 7] {} ∧
    applied.Untripped .basic 2 [.int 7] {} ∧
    (applied.cast .any ⟨23⟩).1.Untripped .basic 3 [.int 7] {} ∧
    (once.invoke .basic 3 [.int 7] {}).1 = .ok (.str "7") ∧
    (twice.invoke .basic 4 [.int 7] {}).1.mapError Error.kind = .ok (.str "7") ∧
    ((applied.cast .any ⟨23⟩).1.invoke .basic 3 [.int 7] {}).1 = .ok (.int 7) := by
  have first : once.Untripped .basic 3 [.int 7] {} := untripped_of rfl rfl
  have second : twice.Untripped .basic 4 [.int 7] {} := untripped_of rfl rfl
  have plain : applied.Untripped .basic 2 [.int 7] {} := untripped_of rfl rfl
  have toAny : (applied.cast .any ⟨23⟩).1.Untripped .basic 3 [.int 7] {} := untripped_of rfl rfl
  have value : (applied.invoke .basic 2 [.int 7] {}).1 = .ok (.int 7) := by
    rw [invoke_eq rfl]
    cbv
  have text : (once.invoke .basic 3 [.int 7] {}).1 = .ok (.str "7") := by
    rw [invoke_eq rfl]
    cbv
  obtain ⟨-, again, -⟩ := invoke_cast .basic applied .str ⟨23⟩ ⟨24⟩ [.int 7] {}
  obtain ⟨-, -, passes⟩ := invoke_cast .basic applied .any ⟨23⟩ ⟨24⟩ [.int 7] {}
  refine ⟨first, second, plain, toAny, text, ?_, ?_⟩
  · exact (again 3 4 first second).1.trans (congrArg (Except.mapError Error.kind) text)
  · rw [passes 2 3 (.int 7) plain toAny value rfl (by decide) (by decide) (by decide)]
    exact value

end Lambda

end TypedTrees
