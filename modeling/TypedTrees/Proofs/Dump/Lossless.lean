import Mathlib
import TypedTrees.Proofs.Dump.Documents
import TypedTrees.Proofs.Substitution.Substituted
import TypedTrees.Tree.Equality
/-!
What a dump tells. A tree of a program is `Node.Legible` where nothing in it is told but in part, as
is a floating point number: by the dump two such trees are the same exactly when they are equal,
with the values, lambdas, closures and symbols that are in them (`Node.dump_eq_iff`). The tags keep
the kinds of nodes, values, types and callees apart; a symbol is told by its identity, and the
bindings of a closure by the decimal digits of theirs.
-/
namespace TypedTrees

/-! ### Parts of a dump -/

mutual

theorem Ty.dump_inj {t u : Ty} : t.dump = u.dump ↔ t = u := by
  cases t with
  | seq element =>
    cases u with
    | seq other => simp [Ty.dump, Dump.tagged, @Ty.dump_inj element other]
    | _ => simp [Ty.dump, Dump.tagged]
  | function params ret =>
    cases u with
    | function params' ret' =>
      simp [Ty.dump, Dump.tagged, @Ty.dumps_inj params params',
        @Ty.dump_inj ret ret']
    | _ => simp [Ty.dump, Dump.tagged]
  | quoted inner =>
    cases u with
    | quoted other => simp [Ty.dump, Dump.tagged, @Ty.dump_inj inner other]
    | _ => simp [Ty.dump, Dump.tagged]
  | _ => cases u <;> simp [Ty.dump, Dump.tagged]
termination_by structural t

theorem Ty.dumps_inj {ts us : List Ty} : Ty.dumps ts = Ty.dumps us ↔ ts = us := by
  cases ts with
  | nil => cases us <;> simp [Ty.dumps]
  | cons t ts =>
    cases us with
    | nil => simp [Ty.dumps]
    | cons u us =>
      simp [Ty.dumps, @Ty.dump_inj t u, @Ty.dumps_inj ts us]
termination_by structural ts

end

theorem UnaryOp.dump_inj {op op' : UnaryOp} : op.dump = op'.dump ↔ op = op' := by
  cases op <;> cases op' <;> simp [UnaryOp.dump, Dump.tagged, Ty.dump_inj]

theorem BinaryOp.tag_inj {op op' : BinaryOp} : op.tag = op'.tag ↔ op = op' := by
  cases op <;> cases op' <;> simp [BinaryOp.tag]

theorem InvokeShape.tag_inj {shape shape' : InvokeShape} :
    shape.tag = shape'.tag ↔ shape = shape' := by
  cases shape <;> cases shape' <;> simp [InvokeShape.tag]

variable {symbols : Symbols}

theorem Parameter.dump_eq_iff_id {p q : Parameter} (known : symbols.HasParameter p)
    (known' : symbols.HasParameter q) : p.dump = q.dump ↔ p.id = q.id := by
  constructor
  · intro same
    simp only [Parameter.dump, dumpParts, Dump.nat, Dump.object.injEq, List.cons.injEq,
      Prod.mk.injEq, Dump.int.injEq, Int.natCast_inj] at same
    exact same.1.2
  · intro same
    rw [← known, ← known', same]

theorem sameParameters_iff_dumps {ps qs : List Parameter} (known : ∀ p ∈ ps, symbols.HasParameter p)
    (known' : ∀ q ∈ qs, symbols.HasParameter q) :
    sameParameters ps qs = true ↔ ps.map Parameter.dump = qs.map Parameter.dump := by
  induction ps generalizing qs with
  | nil => cases qs <;> simp [sameParameters]
  | cons p ps ih =>
    cases qs with
    | nil => simp [sameParameters]
    | cons q qs =>
      rw [List.forall_mem_cons] at known known'
      simp [sameParameters, Parameter.same, Parameter.dump_eq_iff_id known.1 known'.1,
        ih known.2 known'.2]

theorem Member.dump_eq_iff_id {m n : Member} (known : symbols.HasMember m)
    (known' : symbols.HasMember n) : m.dump = n.dump ↔ m.id = n.id := by
  constructor
  · intro same
    simp only [Member.dump, Dump.nat, Dump.object.injEq, List.cons.injEq, Prod.mk.injEq,
      Dump.int.injEq, Int.natCast_inj] at same
    exact same.2.1.2
  · intro same
    rw [← known, ← known', same]

theorem Function.dump_eq_iff_id {f g : Function} (known : symbols.HasFunction f)
    (known' : symbols.HasFunction g) : f.dump = g.dump ↔ f.id = g.id := by
  constructor
  · intro same
    simp only [Function.dump, Dump.nat, Dump.object.injEq, List.cons.injEq, Prod.mk.injEq,
      Dump.int.injEq, Int.natCast_inj] at same
    exact same.1.2
  · intro same
    rw [← known, ← known', same]

theorem Callee.same_iff_dump {callee callee' : Callee}
    (known : ∀ f, callee = .function f → symbols.HasFunction f)
    (known' : ∀ f, callee' = .function f → symbols.HasFunction f) :
    callee.same callee' = true ↔ callee.dump = callee'.dump := by
  cases callee with
  | function f =>
    cases callee' with
    | function g =>
      simp [same, dump, Dump.tagged, Function.same,
        Function.dump_eq_iff_id (known f rfl) (known' g rfl)]
    | invoke _ => simp [same, dump, Dump.tagged]
  | invoke shape =>
    cases callee' with
    | function _ => simp [same, dump, Dump.tagged]
    | invoke shape' => simp [same, dump, Dump.tagged, InvokeShape.tag_inj]

/-! ### Bindings -/

namespace Keyed

variable {ν : Type}

/-- Two lists in the order of their keys that have the same members are the same. -/
theorem eq_of_mem_iff {entries others : List (Nat × ν)}
    (sorted : entries.Pairwise fun a b => a.1 < b.1)
    (sorted' : others.Pairwise fun a b => a.1 < b.1)
    (same : ∀ entry, entry ∈ entries ↔ entry ∈ others) : entries = others := by
  have irrefl : Std.Irrefl fun a b : Nat × ν => a.1 < b.1 := ⟨fun a => Nat.lt_irrefl a.1⟩
  have antisymm : Std.Antisymm fun a b : Nat × ν => a.1 < b.1 := ⟨fun a b less more => by omega⟩
  exact sorted.eq_of_mem_iff sorted' same

end Keyed

theorem Value.bindingDumps_eq_map (env : List (Nat × Value)) :
    bindingDumps env = env.map fun binding => (toString binding.1, binding.2.dump) := by
  induction env with
  | nil => simp [bindingDumps]
  | cons binding rest ih => simp [bindingDumps, ih]

/-- The object that tells the bindings holds each of them, under the digits of its identity. -/
theorem Value.mem_insertAll_bindingDumps {env : List (Nat × Value)}
    (sorted : env.Pairwise fun a b => a.1 < b.1) {entry : String × Dump} :
    entry ∈ Keyed.insertAll (bindingDumps env) [] ↔ entry ∈ bindingDumps env := by
  constructor
  · intro member
    rcases Keyed.mem_of_mem_insertAll member with new | old
    · exact new
    · cases old
  · intro member
    rw [bindingDumps_eq_map] at member
    obtain ⟨⟨id, v⟩, inEnv, rfl⟩ := List.mem_map.mp member
    obtain ⟨before, after, rfl⟩ := List.append_of_mem inEnv
    have later : ∀ binding ∈ after, id < binding.1 :=
      fun binding member => (List.pairwise_cons.mp (List.pairwise_append.mp sorted).2.1).1 _ member
    refine Keyed.mem_of_lookup ?_
    rw [Keyed.lookup_insertAll, bindingDumps_eq_map, List.map_append, List.map_cons,
      List.reverse_append, List.reverse_cons, List.append_assoc, List.singleton_append]
    have found : ∀ rest : List (String × Dump),
        ((after.map fun binding => (toString binding.1, binding.2.dump)).reverse ++
          (toString id, v.dump) :: rest).lookup (toString id) = some v.dump := by
      intro rest
      refine List.lookup_eq_some_iff.mpr ⟨_, _, rfl, fun other member => ?_⟩
      simp only [List.mem_reverse, List.mem_map] at member
      obtain ⟨binding, inAfter, rfl⟩ := member
      have less := later binding inAfter
      simp only [bne_iff_ne, ne_eq]
      intro same
      have := Nat.repr_inj.mp same
      omega
    rw [found]
    rfl

/-- Closures whose bindings are in order have the same object of bindings exactly when the same
values are bound to the same parameters. -/
theorem Value.insertAll_bindingDumps_inj {env env' : List (Nat × Value)}
    (sorted : env.Pairwise fun a b => a.1 < b.1) (sorted' : env'.Pairwise fun a b => a.1 < b.1) :
    Keyed.insertAll (bindingDumps env) [] = Keyed.insertAll (bindingDumps env') [] ↔
      bindingDumps env = bindingDumps env' := by
  refine ⟨fun same => ?_, fun same => by rw [same]⟩
  have told : ∀ entry, entry ∈ bindingDumps env ↔ entry ∈ bindingDumps env' := by
    intro entry
    rw [← mem_insertAll_bindingDumps sorted, same, mem_insertAll_bindingDumps sorted']
  -- in order of identity, which need not be the order of the digits
  have spelled : ∀ env : List (Nat × Value), bindingDumps env =
      (env.map fun binding => (binding.1, binding.2.dump)).map
        fun binding => (toString binding.1, binding.2) := by
    intro env
    rw [bindingDumps_eq_map, List.map_map]
    rfl
  have digits : Function.Injective fun binding : Nat × Dump => (toString binding.1, binding.2) := by
    rintro ⟨id, d⟩ ⟨id', d'⟩ is
    simp only [Prod.mk.injEq] at is
    exact Prod.ext (Nat.repr_inj.mp is.1) is.2
  have inOrder : ∀ {env : List (Nat × Value)}, (env.Pairwise fun a b => a.1 < b.1) →
      (env.map fun binding => (binding.1, binding.2.dump)).Pairwise fun a b => a.1 < b.1 :=
    fun sorted => List.pairwise_map.mpr sorted
  rw [spelled, spelled, Keyed.eq_of_mem_iff (inOrder sorted) (inOrder sorted')]
  intro binding
  have here := told (toString binding.1, binding.2)
  rw [spelled, spelled] at here
  rwa [List.mem_map_of_injective digits, List.mem_map_of_injective digits] at here

/-! ### Lists -/

theorem Value.dumps_eq_map (vs : List Value) : dumps vs = vs.map dump := by
  induction vs with
  | nil => simp [dumps]
  | cons v rest ih => simp [dumps, ih]

theorem Node.dumps_eq_map (nodes : List Node) : dumps nodes = nodes.map dump := by
  induction nodes with
  | nil => simp [dumps]
  | cons node rest ih => simp [dumps, ih]

theorem Node.fieldDumps_eq_map (fields : List (String × Node)) :
    fieldDumps fields = fields.map fun field => .list [.str field.1, field.2.dump] := by
  induction fields with
  | nil => simp [fieldDumps]
  | cons field rest ih => simp [fieldDumps, ih]

theorem Value.length_of_dumps {vs ws : List Value} (same : dumps vs = dumps ws) :
    vs.length = ws.length := by
  simpa [dumps_eq_map] using congrArg List.length same

theorem Value.length_of_fieldDumps {fs gs : List (String × Value)}
    (same : fieldDumps fs = fieldDumps gs) : fs.length = gs.length := by
  simpa [fieldDumps_eq_map] using congrArg List.length same

theorem Value.length_of_bindingDumps {env env' : List (Nat × Value)}
    (same : bindingDumps env = bindingDumps env') : env.length = env'.length := by
  simpa [bindingDumps_eq_map] using congrArg List.length same

theorem Node.length_of_dumps {as bs : List Node} (same : dumps as = dumps bs) :
    as.length = bs.length := by
  simpa [dumps_eq_map] using congrArg List.length same

theorem Node.length_of_fieldDumps {fs gs : List (String × Node)}
    (same : fieldDumps fs = fieldDumps gs) : fs.length = gs.length := by
  simpa [fieldDumps_eq_map] using congrArg List.length same

theorem Dump.tagged_inj {tag tag' : String} {d d' : Dump} :
    tagged tag d = tagged tag' d' ↔ tag = tag' ∧ d = d' := by
  simp [tagged]

/-! ### Kinds of nodes -/

/-- What a dump has under a key, if it is an object. -/
def Dump.entry? (key : String) : Dump → Option Dump
  | object fields => fields.lookup key
  | _ => none

/-- The tag of a node of this kind. -/
def Expr.kind : Expr → String
  | parameter _ => "parameter"
  | constant .. => "constant"
  | member .. => "member"
  | call .. => "call"
  | lambda _ => "lambda"
  | unary .. => "unary"
  | binary .. => "binary"
  | condition .. => "condition"
  | record .. => "record"
  | setMember .. => "set_member"

theorem Expr.dump_kind (expr : Expr) : expr.dump.entry? "node" = some (.str expr.kind) := by
  cases expr with
  | member target _ => cases target <;> rfl
  | call receiver _ _ _ => cases receiver <;> rfl
  | lambda l => cases l; rfl
  | _ => rfl

theorem Expr.kind_of_dump {a b : Expr} (same : a.dump = b.dump) : a.kind = b.kind := by
  have tags := congrArg (Dump.entry? "node") same
  rw [dump_kind, dump_kind] at tags
  simpa using tags

theorem Expr.kind_of_alike {onPage : Option (Value → Value → Bool)} {a b : Expr}
    (alike : Expr.alike onPage a b = true) : a.kind = b.kind := by
  rw [Expr.alike.eq_def] at alike
  split at alike <;> first | rfl | cases alike

/-- So a target or a receiver is told from the lack of one. -/
theorem Node.dump_ne_null (node : Node) : node.dump ≠ .null := by
  obtain ⟨mark, expr⟩ := node
  intro is
  have tag := Expr.dump_kind expr
  rw [show expr.dump = .null from is] at tag
  cases tag

theorem Lambda.dump_eq (l : Lambda) :
    l.dump = .object [("body", l.body.dump), ("params", .list (l.params.map Parameter.dump)),
      ("ret", l.ret.dump)] := by
  cases l
  rfl

theorem Expr.dump_lambda (l : Lambda) :
    (Expr.lambda l).dump = .object [("body", l.body.dump), ("node", .str "lambda"),
      ("params", .list (l.params.map Parameter.dump)), ("ret", l.ret.dump)] := by
  cases l
  rfl

/-- The comparison tells legible values apart as their dumps do. -/
def TellsDumps (symbols : Symbols) (compare : Value → Value → Bool) : Prop :=
  ∀ v w, v.Legible symbols → w.Legible symbols → (compare v w = true ↔ v.dump = w.dump)

section

variable {onPage : Option (Value → Value → Bool)}

mutual

theorem Value.alike_iff_dump (tells : ∀ compare ∈ onPage, TellsDumps symbols compare) {v w : Value}
    (legible : v.Legible symbols) (legible' : w.Legible symbols) :
    Value.alike onPage v w = true ↔ v.dump = w.dump := by
  cases v with
  | seq items =>
    cases w with
    | seq items' =>
      cases legible with | seq legible =>
      cases legible' with | seq legible' =>
      have each := Value.allAlike_iff_dumps tells legible legible'
      have lengths := @Value.length_of_dumps items items'
      simp only [Value.alike, Value.dump, Dump.tagged_inj, Dump.list.injEq, Bool.and_eq_true,
        beq_iff_eq, each]
      tauto
    | _ => simp [Value.alike, Value.dump, Dump.tagged]
  | record typeName table =>
    obtain ⟨pages, fields⟩ := table
    cases w with
    | record typeName' table' =>
      obtain ⟨pages', fields'⟩ := table'
      cases legible with | record _ legible =>
      cases legible' with | record _ legible' =>
      have each := Value.fieldsAlike_iff_dumps tells (pages.passed pages') legible legible'
      have lengths := @Value.length_of_fieldDumps fields fields'
      simp only [Value.alike, Value.dump, Dump.tagged_inj, Dump.object.injEq, List.cons.injEq,
        Prod.mk.injEq, Dump.str.injEq, Bool.and_eq_true, beq_iff_eq, each]
      tauto
    | _ => simp [Value.alike, Value.dump, Dump.tagged]
  | tree l =>
    cases w with
    | tree k =>
      cases legible with | tree legible =>
      cases legible' with | tree legible' =>
      simp [Value.alike, Value.dump, Dump.tagged, Lambda.alike_iff_dump tells legible legible']
    | _ => simp [Value.alike, Value.dump, Dump.tagged]
  | closure l env =>
    cases w with
    | closure k env' =>
      cases legible with | closure legible inOrder bindings =>
      cases legible' with | closure legible' inOrder' bindings' =>
      have each := Value.bindingsAlike_iff_dumps tells bindings bindings'
      have lengths := @Value.length_of_bindingDumps env env'
      have lambdas := Lambda.alike_iff_dump tells legible legible'
      have told := Value.insertAll_bindingDumps_inj inOrder inOrder'
      simp only [Value.alike, Value.dump, Dump.tagged_inj, Dump.object.injEq, List.cons.injEq,
        Prod.mk.injEq, Bool.and_eq_true, beq_iff_eq, each, lambdas, told]
      tauto
    | _ => simp [Value.alike, Value.dump, Dump.tagged]
  | float x => cases legible
  | _ => cases w <;> simp [Value.alike, Value.dump, Dump.tagged, Int64.toInt_inj]
termination_by structural v

theorem Value.allAlike_iff_dumps (tells : ∀ compare ∈ onPage, TellsDumps symbols compare)
    {vs ws : List Value} (legible : ∀ v ∈ vs, v.Legible symbols)
    (legible' : ∀ w ∈ ws, w.Legible symbols) :
    Value.allAlike onPage vs ws = true ↔ Value.dumps vs = Value.dumps ws := by
  cases vs with
  | nil => cases ws <;> simp [Value.allAlike, Value.dumps]
  | cons v vs =>
    cases ws with
    | nil => simp [Value.allAlike, Value.dumps]
    | cons w ws =>
      rw [List.forall_mem_cons] at legible legible'
      simp [Value.allAlike, Value.dumps, Value.alike_iff_dump tells legible.1 legible'.1,
        Value.allAlike_iff_dumps tells legible.2 legible'.2]
termination_by structural vs

theorem Value.fieldsAlike_iff_dumps (tells : ∀ compare ∈ onPage, TellsDumps symbols compare)
    (passed : List Bool) {fs gs : List (String × Value)}
    (legible : ∀ field ∈ fs, field.2.Legible symbols)
    (legible' : ∀ field ∈ gs, field.2.Legible symbols) :
    Value.fieldsAlike onPage passed fs gs = true ↔ Value.fieldDumps fs = Value.fieldDumps gs := by
  cases fs with
  | nil => cases gs <;> simp [Value.fieldsAlike, Value.fieldDumps]
  | cons f fs =>
    obtain ⟨name, v⟩ := f
    cases gs with
    | nil => simp [Value.fieldsAlike, Value.fieldDumps]
    | cons g gs =>
      obtain ⟨name', w⟩ := g
      rw [List.forall_mem_cons] at legible legible'
      have here := Value.alike_iff_dump tells legible.1 legible'.1
      have rest := Value.fieldsAlike_iff_dumps tells passed.tail legible.2 legible'.2
      simp only [Value.fieldsAlike, Value.fieldDumps, Bool.and_eq_true, beq_iff_eq, rest,
        List.cons.injEq, Prod.mk.injEq]
      split
      · rw [tells _ rfl v w legible.1 legible'.1]
      · rw [here]
termination_by structural fs

theorem Value.bindingsAlike_iff_dumps (tells : ∀ compare ∈ onPage, TellsDumps symbols compare)
    {env env' : List (Nat × Value)} (legible : ∀ binding ∈ env, binding.2.Legible symbols)
    (legible' : ∀ binding ∈ env', binding.2.Legible symbols) :
    Value.bindingsAlike onPage env env' = true ↔
      Value.bindingDumps env = Value.bindingDumps env' := by
  cases env with
  | nil => cases env' <;> simp [Value.bindingsAlike, Value.bindingDumps]
  | cons binding rest =>
    obtain ⟨id, v⟩ := binding
    cases env' with
    | nil => simp [Value.bindingsAlike, Value.bindingDumps]
    | cons binding' rest' =>
      obtain ⟨id', w⟩ := binding'
      rw [List.forall_mem_cons] at legible legible'
      have here := Value.alike_iff_dump tells legible.1 legible'.1
      have others := Value.bindingsAlike_iff_dumps tells legible.2 legible'.2
      have digits : toString id = toString id' ↔ id = id' := Nat.repr_inj
      simp only [Value.bindingsAlike, Value.bindingDumps, Bool.and_eq_true, beq_iff_eq, here,
        others, List.cons.injEq, Prod.mk.injEq, digits]
termination_by structural env

theorem Lambda.alike_iff_dump (tells : ∀ compare ∈ onPage, TellsDumps symbols compare)
    {l k : Lambda} (legible : l.Legible symbols) (legible' : k.Legible symbols) :
    Lambda.alike onPage l k = true ↔ l.dump = k.dump := by
  obtain ⟨params, body, ret⟩ := l
  obtain ⟨params', body', ret'⟩ := k
  cases legible with | mk known legible =>
  cases legible' with | mk known' legible' =>
  simp [Lambda.alike, Lambda.dump, sameParameters_iff_dumps known known',
    Node.alike_iff_dump tells legible legible', Ty.dump_inj]
  tauto
termination_by structural l

theorem Node.alike_iff_dump (tells : ∀ compare ∈ onPage, TellsDumps symbols compare) {a b : Node}
    (legible : a.Legible symbols) (legible' : b.Legible symbols) :
    Node.alike onPage a b = true ↔ a.dump = b.dump := by
  obtain ⟨mark, expr⟩ := a
  obtain ⟨mark', expr'⟩ := b
  cases legible with | mk legible =>
  cases legible' with | mk legible' =>
  exact Expr.alike_iff_dump tells legible legible'
termination_by structural a

theorem Expr.alike_iff_dump (tells : ∀ compare ∈ onPage, TellsDumps symbols compare) {a b : Expr}
    (legible : a.Legible symbols) (legible' : b.Legible symbols) :
    Expr.alike onPage a b = true ↔ a.dump = b.dump := by
  by_cases kinds : a.kind = b.kind
  case neg => exact iff_of_false (kinds ∘ Expr.kind_of_alike) (kinds ∘ Expr.kind_of_dump)
  cases a with
  | parameter p =>
    cases b with
    | parameter q =>
      cases legible with | parameter known =>
      cases legible' with | parameter known' =>
      have same := Parameter.dump_eq_iff_id known known'
      simp only [Parameter.dump, Dump.object.injEq, List.cons.injEq, Prod.mk.injEq] at same
      simp only [Expr.alike, Expr.dump, Parameter.same, beq_iff_eq, Dump.object.injEq,
        List.cons.injEq, Prod.mk.injEq]
      tauto
    | _ => exact absurd kinds (by simp [Expr.kind])
  | constant v ty =>
    cases b with
    | constant w ty' =>
      cases legible with | constant value =>
      cases legible' with | constant value' =>
      simp [Expr.alike, Expr.dump, Value.alike_iff_dump tells value value', Ty.dump_inj]
    | _ => exact absurd kinds (by simp [Expr.kind])
  | member target m =>
    cases b with
    | member target' m' =>
      cases legible with | member known each =>
      cases legible' with | member known' each' =>
      have same := Member.dump_eq_iff_id known known'
      cases target with
      | none =>
        cases target' with
        | none => simp [Expr.alike, Expr.dump, Member.same, same]
        | some t' => simp [Expr.alike, Expr.dump, t'.dump_ne_null.symm]
      | some t =>
        cases target' with
        | none => simp [Expr.alike, Expr.dump, t.dump_ne_null]
        | some t' =>
          have targets := Node.alike_iff_dump tells (each t rfl) (each' t' rfl)
          simp [Expr.alike, Expr.dump, Member.same, same, targets]
    | _ => exact absurd kinds (by simp [Expr.kind])
  | call receiver callee args ty =>
    cases b with
    | call receiver' callee' args' ty' =>
      cases legible with | call known receivers each =>
      cases legible' with | call known' receivers' each' =>
      have callees := Callee.same_iff_dump known known'
      have arguments := Node.allAlike_iff_dumps tells each each'
      have lengths := @Node.length_of_dumps args args'
      cases receiver with
      | none =>
        cases receiver' with
        | none =>
          simp only [Expr.alike, Expr.dump, Bool.and_eq_true, beq_iff_eq, callees, arguments,
            Ty.dump_inj, Dump.object.injEq, Dump.list.injEq, List.cons.injEq, Prod.mk.injEq]
          tauto
        | some r' => simp [Expr.alike, Expr.dump, r'.dump_ne_null.symm]
      | some r =>
        cases receiver' with
        | none => simp [Expr.alike, Expr.dump, r.dump_ne_null]
        | some r' =>
          have targets := Node.alike_iff_dump tells (receivers r rfl) (receivers' r' rfl)
          simp only [Expr.alike, Expr.dump, Bool.and_eq_true, beq_iff_eq, callees, arguments,
            targets, Ty.dump_inj, Dump.object.injEq, Dump.list.injEq, List.cons.injEq,
            Prod.mk.injEq]
          tauto
    | _ => exact absurd kinds (by simp [Expr.kind])
  | lambda l =>
    cases b with
    | lambda k =>
      cases legible with | lambda lambda =>
      cases legible' with | lambda lambda' =>
      rw [Expr.alike, Lambda.alike_iff_dump tells lambda lambda', Expr.dump_lambda,
        Expr.dump_lambda, Lambda.dump_eq, Lambda.dump_eq]
      simp
    | _ => exact absurd kinds (by simp [Expr.kind])
  | unary op operand ty =>
    cases b with
    | unary op' operand' ty' =>
      cases legible with | unary node =>
      cases legible' with | unary node' =>
      have operands := Node.alike_iff_dump tells node node'
      simp only [Expr.alike, Expr.dump, Bool.and_eq_true, beq_iff_eq, operands, UnaryOp.dump_inj,
        Ty.dump_inj, Dump.object.injEq, List.cons.injEq, Prod.mk.injEq]
      tauto
    | _ => exact absurd kinds (by simp [Expr.kind])
  | binary op left right ty =>
    cases b with
    | binary op' left' right' ty' =>
      cases legible with | binary node other =>
      cases legible' with | binary node' other' =>
      have lefts := Node.alike_iff_dump tells node node'
      have rights := Node.alike_iff_dump tells other other'
      simp only [Expr.alike, Expr.dump, Bool.and_eq_true, beq_iff_eq, lefts, rights,
        BinaryOp.tag_inj, Ty.dump_inj, Dump.object.injEq, Dump.str.injEq, List.cons.injEq,
        Prod.mk.injEq]
      tauto
    | _ => exact absurd kinds (by simp [Expr.kind])
  | condition test ifTrue ifFalse ty =>
    cases b with
    | condition test' ifTrue' ifFalse' ty' =>
      cases legible with | condition node first second =>
      cases legible' with | condition node' first' second' =>
      have tests := Node.alike_iff_dump tells node node'
      have firsts := Node.alike_iff_dump tells first first'
      have seconds := Node.alike_iff_dump tells second second'
      simp only [Expr.alike, Expr.dump, Bool.and_eq_true, beq_iff_eq, tests, firsts, seconds,
        Ty.dump_inj, Dump.object.injEq, List.cons.injEq, Prod.mk.injEq]
      tauto
    | _ => exact absurd kinds (by simp [Expr.kind])
  | record typeName fields =>
    cases b with
    | record typeName' fields' =>
      cases legible with | record each =>
      cases legible' with | record each' =>
      have nodes := Node.fieldsAlike_iff_dumps tells each each'
      have lengths := @Node.length_of_fieldDumps fields fields'
      simp only [Expr.alike, Expr.dump, Bool.and_eq_true, beq_iff_eq, nodes, Dump.object.injEq,
        Dump.list.injEq, Dump.str.injEq, List.cons.injEq, Prod.mk.injEq]
      tauto
    | _ => exact absurd kinds (by simp [Expr.kind])
  | setMember target m value =>
    cases b with
    | setMember target' m' value' =>
      cases legible with | setMember known node other =>
      cases legible' with | setMember known' node' other' =>
      have same := Member.dump_eq_iff_id known known'
      have targets := Node.alike_iff_dump tells node node'
      have values := Node.alike_iff_dump tells other other'
      simp only [Expr.alike, Expr.dump, Member.same, Bool.and_eq_true, beq_iff_eq, same, targets,
        values, Dump.object.injEq, List.cons.injEq, Prod.mk.injEq]
      tauto
    | _ => exact absurd kinds (by simp [Expr.kind])
termination_by structural a

theorem Node.allAlike_iff_dumps (tells : ∀ compare ∈ onPage, TellsDumps symbols compare)
    {as bs : List Node} (legible : ∀ a ∈ as, a.Legible symbols)
    (legible' : ∀ b ∈ bs, b.Legible symbols) :
    Node.allAlike onPage as bs = true ↔ Node.dumps as = Node.dumps bs := by
  cases as with
  | nil => cases bs <;> simp [Node.allAlike, Node.dumps]
  | cons a as =>
    cases bs with
    | nil => simp [Node.allAlike, Node.dumps]
    | cons b bs =>
      rw [List.forall_mem_cons] at legible legible'
      simp [Node.allAlike, Node.dumps, Node.alike_iff_dump tells legible.1 legible'.1,
        Node.allAlike_iff_dumps tells legible.2 legible'.2]
termination_by structural as

theorem Node.fieldsAlike_iff_dumps (tells : ∀ compare ∈ onPage, TellsDumps symbols compare)
    {fs gs : List (String × Node)} (legible : ∀ field ∈ fs, field.2.Legible symbols)
    (legible' : ∀ field ∈ gs, field.2.Legible symbols) :
    Node.fieldsAlike onPage fs gs = true ↔ Node.fieldDumps fs = Node.fieldDumps gs := by
  cases fs with
  | nil => cases gs <;> simp [Node.fieldsAlike, Node.fieldDumps]
  | cons f fs =>
    obtain ⟨name, a⟩ := f
    cases gs with
    | nil => simp [Node.fieldsAlike, Node.fieldDumps]
    | cons g gs =>
      obtain ⟨name', b⟩ := g
      rw [List.forall_mem_cons] at legible legible'
      simp [Node.fieldsAlike, Node.fieldDumps, Node.alike_iff_dump tells legible.1 legible'.1,
        Node.fieldsAlike_iff_dumps tells legible.2 legible'.2]
termination_by structural fs

end

end

/-- Where pages do not matter the dump does not matter either. -/
theorem Value.identical_tellsDumps : TellsDumps symbols Value.identical := by
  intro v w legible legible'
  have nowhere : ∀ compare ∈ (none : Option (Value → Value → Bool)), TellsDumps symbols compare :=
    fun _ is => by cases is
  exact Value.alike_iff_dump nowhere legible legible'

/-- The dump loses nothing. Of two trees of one program in which no floating point number occurs
both dumps are documents, and the dumps are the same exactly when the trees are equal. -/
theorem Node.dump_eq_iff {a b : Node} (legible : a.Legible symbols) (legible' : b.Legible symbols) :
    a.dump.IsDocument ∧ b.dump.IsDocument ∧ (a.dump = b.dump ↔ (a == b) = true) := by
  refine ⟨isDocument_dump legible, isDocument_dump legible', ?_⟩
  have tells : ∀ compare ∈ some Value.identical, TellsDumps symbols compare := by
    rintro _ ⟨⟩
    exact Value.identical_tellsDumps
  exact (Node.alike_iff_dump tells legible legible').symm

namespace DigitOrder

def x : Parameter := ⟨2, "x", .int⟩

def y : Parameter := ⟨10, "y", .int⟩

def program : Symbols where
  parameter id := if id = 2 then x else y
  member _ := Member.stringLength
  function _ := Function.concat

/-- A record that holds the closure `x => y` and its bindings, as the argument of a conversion. The
digits of `y` come before those of `x`. -/
def tree (mark page : Nat) (bound : Int64) : Node :=
  ⟨mark, .unary (.convert .any) ⟨mark + 1, .constant (.record "Held" ⟨⟨page, [.field]⟩,
    [("F", .closure ⟨[x], ⟨mark + 2, .parameter y⟩, .int⟩ [(2, .null), (10, .int bound)])]⟩) .any⟩
      .any⟩

theorem legible (mark page : Nat) (bound : Int64) : (tree mark page bound).Legible program := by
  have lambda : Lambda.Legible program ⟨[x], ⟨mark + 2, .parameter y⟩, .int⟩ := by
    refine .mk ?_ (.mk (.parameter rfl))
    simp [Symbols.HasParameter, program, x]
  have closure : Value.Legible program
      (.closure ⟨[x], ⟨mark + 2, .parameter y⟩, .int⟩ [(2, .null), (10, .int bound)]) := by
    refine .closure lambda (by simp) ?_
    simp [Value.Legible.null, Value.Legible.int]
  refine .mk (.unary (.mk (.constant (.record (by simp) ?_))))
  simpa using closure

end DigitOrder

open DigitOrder in
/-- Copies on other pages have the same dump; with another value bound the dump is another one. -/
theorem Node.dump_eq_iff_digitOrder :
    (tree 16 17 1).Legible program ∧ (tree 20 30 1).Legible program ∧
    (tree 16 17 1).dump = (tree 20 30 1).dump ∧ (tree 16 17 1).dump ≠ (tree 16 17 2).dump := by
  obtain ⟨-, -, same⟩ := dump_eq_iff (legible 16 17 1) (legible 20 30 1)
  obtain ⟨-, -, other⟩ := dump_eq_iff (legible 16 17 1) (legible 16 17 2)
  refine ⟨legible .., legible .., same.mpr (by cbv), fun is => ?_⟩
  have differ : (tree 16 17 1 == tree 16 17 2) = false := by cbv
  exact absurd (other.mp is) (by simp [differ])

end TypedTrees
