import TypedTrees.Eval.BasicHost
import TypedTrees.Eval.Recursive
import TypedTrees.Proofs.Value.Storage
/-!
Nodes whose operands are all evaluated before anything else is done. For these the evaluator does
two things that have nothing to do with each other: it evaluates the operands, and it finishes the
node on their values (`Evaluation.ofNode_strict`). What finishing comes to depends neither on the
storage of the operands nor on the readers that have been made (`Expr.finish_unpaged`).
-/
namespace TypedTrees

/-- The operator compares its operands for equality. -/
def BinaryOp.IsEquality (op : BinaryOp) : Prop := op = .equal ∨ op = .notEqual

/-- A builtin function that answers at once. Only `any` has something applied first. -/
def Builtin.answers : Builtin → Bool
  | .any => false
  | _ => true

/-- What a procedure answers at once. -/
def Procedure.answered : Procedure → Except Error Value
  | .answer outcome => outcome
  | _ => .error (.eval (.other "no answer"))

theorem Builtin.procedure_eq_answer {which : Builtin} (answers : which.answers = true)
    (operands : List Value) :
    which.procedure operands = .answer (which.procedure operands).answered := by
  cases which with
  | any => cases answers
  | concat | contains | count =>
    simp only [procedure]
    split <;> first | rfl | (rename_i other; cases other)

theorem Builtin.procedure_any (operands : List Value) :
    (∃ items p, operands = [.seq items, p]) ∨
      any.procedure operands = .answer (.error (.eval .anyOperands)) := by
  by_cases is : ∃ items p, operands = [.seq items, p]
  · exact .inl is
  · refine .inr ?_
    rw [procedure]
    intro items p isPair
    exact is ⟨items, p, isPair⟩

namespace Expr

/-- Whether the node is done once all its children are evaluated, in order. Of the calls these are
the ones of builtin functions that answer at once. -/
def isStrict : Expr → Bool
  | .constant .. | .member .. | .unary .. | .record .. | .setMember .. => true
  | .binary op _ _ _ => !(op == .andAlso || op == .orElse)
  | .call _ callee _ _ =>
    match callee.native? with
    | some (.builtin which) => which.answers
    | _ => false
  | _ => false

theorem native_of_isStrict {receiver : Option Node} {callee : Callee} {args : List Node} {ty : Ty}
    (strict : (call receiver callee args ty).isStrict = true) :
    ∃ which, callee.native? = some (.builtin which) ∧ which.answers = true := by
  simp only [isStrict] at strict
  split at strict
  · rename_i which native
    exact ⟨which, native, strict⟩
  · cases strict

/-- Finishes a node on the values of its children. -/
def finish (host : Host) : Expr → List Value → Store → Except Error Value × Store
  | .constant v _, _, store => (.ok v, store)
  | .member none m, _, store => store.readMember host m none
  | .member (some _) m, [v], store => store.readMember host m (some v)
  | .call _ (.function f) _ _, operands, store =>
    match f.native with
    | some native => ((native.procedure host operands).answered, store)
    | none => (.error (.directInvocation f.name), store)
  | .unary op _ _, [v], store => (op.apply v, store)
  | .binary op _ _ _, [l, r], store => (op.apply l r, store)
  | .record typeName fields, operands, store =>
    let (made, store) := store.newRecord typeName ((fields.map Prod.fst).zip operands)
    (.ok made, store)
  | .setMember _ m _, [t, v], store => store.writeMember m t v
  | _, _, store => (.error (.eval (.other "no operands")), store)

end Expr

namespace Evaluation

def allThen (below : Evaluation) (env : Env) (nodes : List Node) (store : Store)
    (next : List Value → Store → Except Error Value × Store) : Except Error Value × Store :=
  match below.all env nodes store with
  | (.error e, store) => (.error e, store)
  | (.ok vs, store) => next vs store

def truthThen (below : Evaluation) (env : Env) (node : Node) (store : Store)
    (next : Bool → Store → Except Error Value × Store) : Except Error Value × Store :=
  match below.truth env node store with
  | (.error e, store) => (.error e, store)
  | (.ok b, store) => next b store

theorem all_length {below : Evaluation} {env : Env} {nodes : List Node} {store after : Store}
    {vs : List Value} (all : below.all env nodes store = (.ok vs, after)) :
    vs.length = nodes.length := by
  induction nodes generalizing store vs with
  | nil =>
    cases all
    rfl
  | cons node nodes ih =>
    rw [Evaluation.all] at all
    split at all
    · cases all
    · split at all
      · cases all
      · rename_i others
        cases all
        rw [List.length_cons, List.length_cons, ih others]

/-- A strict node is evaluated by evaluating its children and finishing it. -/
theorem ofNode_strict {below : Evaluation} {host : Host} {node : Node}
    (strict : node.expr.isStrict = true) (env : Env) (store : Store) :
    ofNode below host node env store =
      below.allThen env node.expr.children store (node.expr.finish host) := by
  obtain ⟨mark, expr⟩ := node
  simp only [Node.expr] at strict ⊢
  cases expr with
  | parameter _ | lambda _ | condition _ _ _ _ => cases strict
  | constant v ty => rfl
  | member target m =>
    cases target with
    | none => rfl
    | some target =>
      simp only [ofNode, Node.expr, allThen, Expr.children, Option.toList_some, Evaluation.all]
      rcases below target env store with ⟨e | v, after⟩ <;> rfl
  | call receiver callee args ty =>
    obtain ⟨which, native, answers⟩ := Expr.native_of_isStrict strict
    cases callee with
    | invoke shape => cases native
    | function f =>
      change f.native = some (.builtin which) at native
      simp only [ofNode, Node.expr, allThen, Expr.children, Expr.finish, Callee.native?, native]
      rcases below.all env (receiver.toList ++ args) store with ⟨e | vs, after⟩
      · rfl
      · simp only [Native.procedure]
        rw [Builtin.procedure_eq_answer answers vs]
        rfl
  | unary op operand ty =>
    simp only [ofNode, Node.expr, allThen, Expr.children, Evaluation.all]
    rcases below operand env store with ⟨e | v, after⟩ <;> rfl
  | binary op left right ty =>
    have both : ¬(op = .andAlso ∨ op = .orElse) := by simpa [Expr.isStrict] using strict
    simp only [ofNode, Node.expr, allThen, Expr.children, Evaluation.all, if_neg both]
    rcases below left env store with ⟨e | l, middle⟩
    · rfl
    · simp only
      rcases below right env middle with ⟨e | r, after⟩ <;> rfl
  | record typeName fields =>
    simp only [ofNode, Node.expr, allThen, Expr.children]
    rcases below.all env (fields.map Prod.snd) store with ⟨e | vs, after⟩ <;> rfl
  | setMember target m value =>
    simp only [ofNode, Node.expr, allThen, Expr.children, Evaluation.all]
    rcases below target env store with ⟨e | t, middle⟩
    · rfl
    · simp only
      rcases below value env middle with ⟨e | v, after⟩ <;> rfl

theorem ofNode_native {below : Evaluation} {host : Host} {node : Node} {receiver : Option Node}
    {callee : Callee} {args : List Node} {ty : Ty} {native : Native}
    (isExpr : node.expr = .call receiver callee args ty) (hasNative : callee.native? = some native)
    (env : Env) (store : Store) :
    ofNode below host node env store =
      below.allThen env (receiver.toList ++ args) store fun operands store =>
        (native.procedure host operands).carryOut below store := by
  simp only [ofNode, isExpr, hasNative]
  rfl

theorem ofNode_condition {below : Evaluation} {host : Host} {node test ifTrue ifFalse : Node}
    {ty : Ty} (isExpr : node.expr = .condition test ifTrue ifFalse ty) (env : Env) (store : Store) :
    ofNode below host node env store =
      below.truthThen env test store fun b store =>
        below (if b then ifTrue else ifFalse) env store := by
  simp only [ofNode, isExpr]
  rfl

theorem ofNode_shortCircuit {below : Evaluation} {host : Host} {node left right : Node}
    {op : BinaryOp} {ty : Ty} (isExpr : node.expr = .binary op left right ty)
    (short : op = .andAlso ∨ op = .orElse) (env : Env) (store : Store) :
    ofNode below host node env store =
      below.truthThen env left store fun first store =>
        if first = (op == .orElse) then (.ok (.bool first), store)
        else below.truthThen env right store fun b store => (.ok (.bool b), store) := by
  simp only [ofNode, isExpr, if_pos short, truthThen]
  rcases below.truth env left store with ⟨e | first, middle⟩
  · rfl
  · simp only
    rcases below.truth env right middle with ⟨e | b, after⟩ <;> rfl

end Evaluation

/-! ### Storage -/

/-- The computed properties do not depend on storage. -/
def Host.IgnoresStorage (host : Host) : Prop :=
  ∀ name v w, v.unpaged = w.unpaged →
    (host.property name v).map Value.unpaged = (host.property name w).map Value.unpaged

theorem Host.basic_ignoresStorage : Host.basic.IgnoresStorage := by
  intro name v w same
  simp only [basic, basicProperty]
  split
  · exact congrArg some same
  · rw [← v.kindName_unpaged, same, w.kindName_unpaged]
  · rfl

namespace Store

/-- Every reader that has been made is the one that `naming` gives the member. -/
def Named (naming : Nat → Reader) (store : Store) : Prop :=
  ∀ id reader, store.readers.lookup id = some reader → reader = naming id

/-- A store with these slots and nothing else. -/
def bare (slots : List (Nat × Value)) : Store := { slots }

theorem named_of_unread {store : Store} (unread : store.readers = []) (naming : Nat → Reader) :
    store.Named naming := by
  intro id reader found
  rw [unread, List.lookup_nil] at found
  cases found

theorem bare_named (naming : Nat → Reader) (slots : List (Nat × Value)) :
    (bare slots).Named naming := named_of_unread rfl naming

end Store

/-- The member is read by the reader that `naming` gives it. -/
def Expr.NamedBy (naming : Nat → Reader) (expr : Expr) : Prop :=
  ∀ target m, expr = .member target m → naming m.id = .of m

instance (naming : Nat → Reader) (expr : Expr) : Decidable (expr.NamedBy naming) :=
  match expr with
  | .member target m => decidable_of_iff (naming m.id = .of m)
    ⟨fun name _ _ is => by cases is; exact name, fun named => named target m rfl⟩
  | .parameter _ | .constant .. | .call .. | .lambda _ | .unary .. | .binary .. | .condition ..
  | .record .. | .setMember .. => isTrue nofun

/-- No equality test that finishing the node on these operands makes depends on storage. -/
structure Expr.Settled (expr : Expr) (vs : List Value) : Prop where
  equality : ∀ op left right ty l r, expr = .binary op left right ty → vs = [l, r] →
    op.IsEquality → Value.Settled l r
  search : ∀ receiver callee args ty items item, expr = .call receiver callee args ty →
    vs = [.seq items, item] → callee.native? = some (.builtin .contains) →
      Value.SettledAmong item items

theorem Expr.Settled.congr {expr : Expr} {vs ws : List Value} (settled : expr.Settled vs)
    (same : ws.map Value.unpaged = vs.map Value.unpaged) : expr.Settled ws where
  equality := by
    rintro op left right ty l' r' isExpr rfl equality
    obtain ⟨l, rest, rfl, sameLeft, others⟩ := List.map_eq_cons_iff.mp same.symm
    obtain ⟨r, none, rfl, sameRight, empty⟩ := List.map_eq_cons_iff.mp others
    cases List.map_eq_nil_iff.mp empty
    exact (settled.equality op left right ty l r isExpr rfl equality).congr sameLeft.symm
      sameRight.symm
  search := by
    rintro receiver callee args ty items' item' isExpr rfl native
    obtain ⟨v, rest, rfl, sameItems, others⟩ := List.map_eq_cons_iff.mp same.symm
    obtain ⟨item, none, rfl, sameItem, empty⟩ := List.map_eq_cons_iff.mp others
    cases List.map_eq_nil_iff.mp empty
    rw [Value.unpaged_seq] at sameItems
    obtain ⟨items, rfl, each⟩ := Value.eq_seq_of_unpaged sameItems
    exact (settled.search receiver callee args ty items item isExpr rfl native).congr sameItem.symm
      each.symm

theorem Reader.read_unpaged {host : Host} (ignores : host.IgnoresStorage) (reader : Reader)
    (slots : List (Nat × Value)) (target : Option Value) :
    (reader.read host slots (target.map Value.unpaged)).map Value.unpaged =
      (reader.read host slots target).map Value.unpaged := by
  cases reader with
  | slot id => rfl
  | property getter =>
    cases target with
    | none => rfl
    | some v =>
      cases getter with
      | length => cases v <;> rfl
      | host name => exact ignores name _ _ v.unpaged_unpaged
  | field name =>
    cases target with
    | none => rfl
    | some v =>
      cases v with
      | record typeName table =>
        simp only [Option.map_some, Value.unpaged_record, read, Keyed.lookup_map_snd,
          Option.map_map, Function.comp_def, Value.unpaged_unpaged]
      | _ => rfl

namespace Store

variable {naming : Nat → Reader} {store : Store} {m : Member}

theorem readerOf_named (named : store.Named naming) (name : naming m.id = .of m) :
    (store.readerOf m).1 = .of m ∧ (store.readerOf m).2.Named naming := by
  simp only [readerOf]
  split
  · rename_i reader found
    exact ⟨(named m.id reader found).trans name, named⟩
  · refine ⟨rfl, fun id reader found => ?_⟩
    rw [List.lookup_append] at found
    rcases old : store.readers.lookup id with _ | earlier
    · rw [old, Option.none_or, List.lookup_cons] at found
      split at found
      · rename_i same
        cases found
        rw [eq_of_beq same, name]
      · cases found
    · rw [old] at found
      exact named id reader (old.trans found)

theorem read_named {host : Host} {target : Option Value} (named : store.Named naming)
    (name : naming m.id = .of m) :
    (store.read host m target).1 = (Reader.of m).read host store.slots target ∧
      (store.read host m target).2.Named naming := by
  obtain ⟨reader, readers⟩ := readerOf_named named name
  refine ⟨?_, readers⟩
  simp only [read, reader, readerOf_slots]

theorem readMember_unpaged {host : Host} (ignores : host.IgnoresStorage)
    (named : store.Named naming) (name : naming m.id = .of m) (target : Option Value) :
    (store.readMember host m target).1.toOption.map Value.unpaged =
      ((bare store.slots).readMember host m (target.map Value.unpaged)).1.toOption.map
        Value.unpaged := by
  have present : ∀ store : Store, store.Named naming → ∀ target : Option Value,
      target ≠ some .null → (store.readMember host m target).1.toOption =
        (Reader.of m).read host store.slots target := by
    intro store named target notNull
    obtain ⟨reader, -⟩ := readerOf_named named name
    have slots := store.readerOf_slots m
    rw [readMember]
    · simp only [read, reader, slots]
      split <;> rename_i found <;> rw [found] <;> rfl
    · exact fun is => notNull is
  by_cases null : target = some .null
  · subst null
    rfl
  · have stays : target.map Value.unpaged ≠ some .null := by
      intro is
      obtain ⟨v, rfl, unpaged⟩ := Option.map_eq_some_iff.mp is
      refine null (congrArg some ?_)
      cases v <;> first | rfl | cases unpaged
    rw [present store named target null, present (bare store.slots) (bare_named naming _) _ stays]
    exact (Reader.read_unpaged ignores _ _ _).symm

end Store

theorem Builtin.answered_unpaged {which : Builtin} (answers : which.answers = true)
    (operands : List Value)
    (settled : ∀ items item, which = .contains → operands = [.seq items, item] →
      Value.SettledAmong item items) :
    (which.procedure (operands.map Value.unpaged)).answered =
      (which.procedure operands).answered.map Value.unpaged := by
  cases which with
  | any => cases answers
  | concat =>
    match operands with
    | [] => rfl
    | [v] => cases v <;> rfl
    | [v, w] => cases v <;> cases w <;> rfl
    | v :: w :: _ :: _ => cases v <;> cases w <;> rfl
  | count =>
    match operands with
    | [] => rfl
    | [v] =>
      cases v with
      | seq items =>
        simp only [List.map_cons, List.map_nil, Value.unpaged_seq, procedure, List.length_map]
        rfl
      | _ => rfl
    | v :: _ :: _ => cases v <;> rfl
  | contains =>
    match operands with
    | [] => rfl
    | [v] => cases v <;> rfl
    | [v, item] =>
      cases v with
      | seq items =>
        have found := Value.any_equals_unpaged (settled items item rfl rfl)
        simp only [List.map_cons, List.map_nil, Value.unpaged_seq, procedure, found]
        rfl
      | _ => rfl
    | v :: _ :: _ :: _ => cases v <;> rfl

theorem Store.newRecord_unpaged (typeName : String) (fields : List (String × Value))
    (store other : Store) :
    (store.newRecord typeName fields).1.unpaged =
      (other.newRecord typeName
        (fields.map fun field => (field.1, field.2.unpaged))).1.unpaged := by
  simp only [newRecord, drawing, Value.unpaged_record, FieldTable.fields_writeAll,
    FieldTable.empty, Keyed.insertAll_map_snd, List.map_map, Function.comp_def,
    Value.unpaged_unpaged, List.map_nil]

theorem Store.writeMember_unpaged (m : Member) (t v : Value) (store other : Store) :
    (store.writeMember m t v).1.toOption.map Value.unpaged =
      (other.writeMember m t.unpaged v.unpaged).1.toOption.map Value.unpaged := by
  cases t with
  | record typeName table =>
    simp only [writeMember, drawing, Value.unpaged_record, Except.toOption, Option.map_some,
      FieldTable.fields_write, Keyed.insert_map_snd, List.map_map, Function.comp_def,
      Value.unpaged_unpaged]
  | _ => rfl

theorem Except.toOption_map' {ε α β : Type} (f : α → β) (e : Except ε α) :
    (e.map f).toOption = e.toOption.map f := by
  cases e <;> rfl

/-- What finishing a strict node comes to is told by its operands without storage and by the slots,
if no equality test depends on storage. -/
theorem Expr.finish_unpaged {host : Host} (ignores : host.IgnoresStorage) {naming : Nat → Reader}
    {expr : Expr} (strict : expr.isStrict = true) (name : expr.NamedBy naming) {vs : List Value}
    (settled : expr.Settled vs) {store : Store} (named : store.Named naming) :
    (expr.finish host vs store).1.toOption.map Value.unpaged =
      (expr.finish host (vs.map Value.unpaged) (.bare store.slots)).1.toOption.map
        Value.unpaged := by
  cases expr with
  | parameter _ | lambda _ | condition _ _ _ _ => cases strict
  | constant v ty => rfl
  | member target m =>
    have read := fun target' => Store.readMember_unpaged ignores named (name target m rfl) target'
    cases target with
    | none => exact read none
    | some target =>
      match vs with
      | [] => rfl
      | [v] => exact read (some v)
      | _ :: _ :: _ => rfl
  | call receiver callee args ty =>
    obtain ⟨which, native, answers⟩ := Expr.native_of_isStrict strict
    cases callee with
    | invoke shape => cases native
    | function f =>
      have answered := Builtin.answered_unpaged answers vs (by
        rintro items item rfl rfl
        exact settled.search _ _ _ _ items item rfl rfl native)
      change f.native = some (.builtin which) at native
      simp only [finish, native, Native.procedure, answered, Except.toOption_map', Option.map_map,
        Function.comp_def, Value.unpaged_unpaged]
  | unary op operand ty =>
    match vs with
    | [] => rfl
    | [v] =>
      simp only [finish, List.map_cons, List.map_nil, UnaryOp.apply_unpaged,
        Except.toOption_map', Option.map_map, Function.comp_def, Value.unpaged_unpaged]
    | _ :: _ :: _ => rfl
  | binary op left right ty =>
    match vs with
    | [] => rfl
    | [_] => rfl
    | [l, r] =>
      have applied := BinaryOp.apply_unpaged op l r (settled.equality _ _ _ _ l r rfl rfl)
      simp only [finish, List.map_cons, List.map_nil, applied, Except.toOption_map',
        Option.map_map, Function.comp_def, Value.unpaged_unpaged]
    | _ :: _ :: _ :: _ => rfl
  | record typeName fields =>
    have made := Store.newRecord_unpaged typeName ((fields.map Prod.fst).zip vs) store
      (.bare store.slots)
    have zipped : (fields.map Prod.fst).zip (vs.map Value.unpaged) =
        ((fields.map Prod.fst).zip vs).map fun field => (field.1, field.2.unpaged) :=
      List.zip_map_right
    simp only [finish, Except.toOption, Option.map_some, zipped, made]
  | setMember target m value =>
    match vs with
    | [] => rfl
    | [_] => rfl
    | [t, v] => exact Store.writeMember_unpaged m t v store _
    | _ :: _ :: _ :: _ => rfl

theorem Store.readMember_store {host : Host} {naming : Nat → Reader} {store : Store} {m : Member}
    (name : naming m.id = .of m) (named : store.Named naming) (target : Option Value) :
    (store.readMember host m target).2.Named naming ∧
      (store.readMember host m target).2.slots = store.slots := by
  have reader := (readerOf_named named name).2
  have slots := store.readerOf_slots m
  rw [readMember.eq_def]
  split
  · exact ⟨named, rfl⟩
  · simp only [read]
    split <;> exact ⟨reader, slots⟩

/-- Finishing a node leaves the slots alone and makes no reader but the one that the node's member
is named by. -/
theorem Expr.finish_store (host : Host) {naming : Nat → Reader} {expr : Expr} (vs : List Value)
    {store : Store} (name : expr.NamedBy naming) (named : store.Named naming) :
    (expr.finish host vs store).2.Named naming ∧
      (expr.finish host vs store).2.slots = store.slots := by
  rw [finish.eq_def]
  split
  · exact ⟨named, rfl⟩
  · exact Store.readMember_store (name _ _ rfl) named none
  · exact Store.readMember_store (name _ _ rfl) named _
  · split <;> exact ⟨named, rfl⟩
  · exact ⟨named, rfl⟩
  · exact ⟨named, rfl⟩
  · exact ⟨named, rfl⟩
  · rw [Store.writeMember.eq_def]
    split <;> exact ⟨named, rfl⟩
  · exact ⟨named, rfl⟩

end TypedTrees
