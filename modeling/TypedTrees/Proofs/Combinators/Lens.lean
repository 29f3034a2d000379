import TypedTrees.Proofs.Combinators.Composition
import TypedTrees.Proofs.Tree.Built
import TypedTrees.Proofs.Ty.Compatibility
/-!
Getters and setters of fields. A setter is made of a lambda that reads a field straight off its
parameter, and of nothing else. The two are a lens: the setter changes what the getter sees, and
nothing else of the record (`Lambda.setterFromGetter_lens`). Everything follows from what a setter
comes to, the record with the field inserted (`Lambda.IsSetter.invoke`), and from the laws of
insertion into an ordered list.
-/
namespace TypedTrees

/-! ### Insertion -/

namespace Keyed

variable {κ ν : Type} [LT κ] [DecidableLT κ] [Std.Irrefl (α := κ) (· < ·)]

/-- Of two insertions under one key the later one counts. -/
theorem insert_insert (key : κ) (value other : ν) (entries : List (κ × ν)) :
    insert key other (insert key value entries) = insert key other entries := by
  have irrefl : ¬key < key := Std.Irrefl.irrefl key
  induction entries with
  | nil => simp only [insert, if_neg irrefl]
  | cons entry rest ih =>
    simp only [insert]
    split
    · simp only [insert, if_neg irrefl]
    · split
      · rename_i notBefore after
        simp only [insert, if_neg notBefore, if_pos after, ih]
      · simp only [insert, if_neg irrefl]

/-- To insert what is there already changes nothing. -/
theorem insert_of_lookup [BEq κ] [LawfulBEq κ] {key : κ} {value : ν} {entries : List (κ × ν)}
    (sorted : entries.Pairwise fun a b => a.1 < b.1) (found : entries.lookup key = some value)
    [Std.Trichotomous (α := κ) (· < ·)] [Std.Asymm (α := κ) (· < ·)] :
    insert key value entries = entries := by
  induction sorted with
  | nil => cases found
  | @cons entry rest below sorted ih =>
    obtain ⟨first, old⟩ := entry
    rw [List.lookup_cons] at found
    split at found
    · rename_i same
      cases eq_of_beq same
      cases found
      simp only [insert, if_neg (Std.Irrefl.irrefl key)]
    · have inRest := mem_of_lookup found
      have after : first < key := below _ inRest
      simp only [insert, if_neg (Std.Asymm.asymm _ _ after), if_pos after, ih found]

end Keyed

/-! ### Getters and setters -/

/-- The fields are in order, as every table that is written field by field has them. -/
def FieldTable.Ordered (table : FieldTable Value) : Prop :=
  table.fields.Pairwise fun a b => a.1 < b.1

theorem FieldTable.Ordered.write {table : FieldTable Value} (ordered : table.Ordered)
    (name : String) (value : Value) (supply : Supply) :
    (table.write name value supply).1.Ordered := by
  rw [Ordered, fields_write]
  exact Keyed.pairwise_insert name value ordered

/-- The values are one record, but for the pages that its fields lie on. -/
inductive Value.SameRecord : Value → Value → Prop
  | mk {typeName : String} {table other : FieldTable Value} (fields : table.fields = other.fields) :
      SameRecord (.record typeName table) (.record typeName other)

/-- A field read on a record gives what the record has there. -/
theorem Store.readMember_record_eq_ok_iff {naming : Nat → Reader} {store : Store} {m : Member}
    (named : store.Named naming) (name : naming m.id = .of m) (isField : m.kind = .field)
    {host : Host} {typeName : String} {table : FieldTable Value} {v : Value} :
    (store.readMember host m (some (.record typeName table))).1 = .ok v ↔
      table.fields.lookup m.name = some v := by
  have found : (store.read host m (some (.record typeName table))).1 =
      table.fields.lookup m.name := by
    rw [(read_named named name).1, Reader.of, isField]
    rfl
  simp only [readMember, found]
  cases table.fields.lookup m.name with
  | none => exact ⟨fun fails => (by cases fails), fun finds => (by cases finds)⟩
  | some w =>
    constructor
    · rintro ⟨⟩
      rfl
    · rintro ⟨⟩
      rfl

namespace Lambda

/-- The lambda has one parameter and reads this field straight off it. -/
def ReadsField (l : Lambda) (m : Member) : Prop :=
  ∃ param target mark, l.params = [param] ∧
    l.body.expr = .member (some ⟨mark, .parameter target⟩) m ∧ target.id = param.id ∧
    m.kind = .field

/-- The lambda has two parameters and writes the second into this field of the first. -/
def WritesField (l : Lambda) (m : Member) : Prop :=
  ∃ target value mark mark', l.params = [target, value] ∧ target.id ≠ value.id ∧
    l.body.expr = .setMember ⟨mark, .parameter target⟩ m ⟨mark', .parameter value⟩

theorem getterParts?_eq_some_iff {l : Lambda} {param : Parameter} {m : Member} :
    l.getterParts? = some (param, m) ↔ l.params = [param] ∧ ∃ target mark,
      l.body.expr = .member (some ⟨mark, .parameter target⟩) m ∧ target.id = param.id ∧
        m.kind = .field := by
  rw [getterParts?]
  split
  · rename_i target mark read member params isExpr
    rw [params, isExpr]
    split
    · rename_i reads
      obtain ⟨same, writable⟩ : read.id = target.id ∧ member.kind = .field := by
        simpa [Parameter.same, Member.isWritable] using reads
      constructor
      · rintro ⟨⟩
        exact ⟨rfl, read, mark, rfl, same, writable⟩
      · rintro ⟨⟨⟩, _, _, ⟨⟩, -, -⟩
        rfl
    · rename_i unfit
      refine ⟨fun is => (by cases is), ?_⟩
      rintro ⟨⟨⟩, _, _, ⟨⟩, same, writable⟩
      exact absurd (by simpa [Parameter.same, Member.isWritable] using ⟨same, writable⟩) unfit
  · rename_i none
    refine ⟨fun is => (by cases is), ?_⟩
    rintro ⟨params, target, mark, isExpr, -, -⟩
    exact absurd isExpr (none param mark target m params)

theorem ReadsField.unique {l : Lambda} {m other : Member} (reads : l.ReadsField m)
    (readsOther : l.ReadsField other) : m = other := by
  obtain ⟨_, _, _, -, isExpr, -, -⟩ := reads
  obtain ⟨_, _, _, -, isExpr', -, -⟩ := readsOther
  cases isExpr.symm.trans isExpr'
  rfl

section Invocation

variable {l : Lambda} {m : Member} {host : Host} {limit : Nat}

theorem ReadsField.invoke (reads : l.ReadsField m) (levels : 2 ≤ limit) (target : Value)
    (store : Store) :
    l.invoke host limit [target] store = store.readMember host m (some target) := by
  obtain ⟨param, read, mark, params, isExpr, same, -⟩ := reads
  obtain ⟨room, rfl⟩ := Nat.exists_eq_add_of_le' levels
  have bound : (l.scope [] [target]).lookup read.id = some target := by
    rw [lookup_scope_one params, same, BEq.rfl, if_pos rfl]
  rw [invoke_eq (by rw [arity, params]; rfl)]
  simp only [Evaluation.within, Evaluation.ofNode, isExpr, Node.expr_mk, bound]

theorem WritesField.invoke (writes : l.WritesField m) (levels : 2 ≤ limit) (target value : Value)
    (store : Store) :
    l.invoke host limit [target, value] store = store.writeMember m target value := by
  obtain ⟨first, second, mark, mark', params, differ, isExpr⟩ := writes
  obtain ⟨room, rfl⟩ := Nat.exists_eq_add_of_le' levels
  have ofFirst : (l.scope [] [target, value]).lookup first.id = some target := by
    rw [lookup_scope_two params, if_neg (by simpa using differ), BEq.rfl, if_pos rfl]
  have ofSecond : (l.scope [] [target, value]).lookup second.id = some value := by
    rw [lookup_scope_two params, BEq.rfl, if_pos rfl]
  rw [invoke_eq (by rw [arity, params]; rfl)]
  simp only [Evaluation.within, Evaluation.ofNode, isExpr, Node.expr_mk, ofFirst, ofSecond]

end Invocation

/-- A setter is made of every getter of a field that was made before, and of nothing else. -/
theorem setterFromGetter_cases (getter : Lambda) (supply : Supply) :
    (∃ m setter after, getter.ReadsField m ∧
        setterFromGetter getter supply = (.ok setter, after) ∧
        ((∀ param ∈ getter.params, param.id < supply.next) → setter.WritesField m)) ∨
      (¬∃ m, getter.ReadsField m) ∧
        ∃ reason, setterFromGetter getter supply = (.error (.invalidArgument reason), supply) := by
  rw [setterFromGetter]
  cases parts : getter.getterParts? with
  | none =>
    refine .inr ⟨?_, _, rfl⟩
    rintro ⟨m, param, target, mark, params, isExpr, same, isField⟩
    cases parts.symm.trans
      (getterParts?_eq_some_iff.mpr ⟨params, target, mark, isExpr, same, isField⟩)
  | some found =>
    obtain ⟨param, m⟩ := found
    obtain ⟨params, target, mark, isExpr, same, isField⟩ := getterParts?_eq_some_iff.mp parts
    have builds : Expr.setMemberOf ⟨supply.next + 1, .parameter param⟩ m
        ⟨supply.next + 2, .parameter ⟨supply.next, "value", m.ty⟩⟩ =
          .ok (.setMember ⟨supply.next + 1, .parameter param⟩ m
            ⟨supply.next + 2, .parameter ⟨supply.next, "value", m.ty⟩⟩) :=
      Expr.setMemberOf_eq_ok_iff.mpr
        ⟨by rw [Member.isWritable, isField]; rfl, m.ty.accepts_refl, rfl⟩
    simp only [Parameter.new, Node.new, Supply.draw, builds]
    refine .inl ⟨m, _, _, ⟨param, target, mark, params, isExpr, same, isField⟩, rfl,
      fun drawn => ?_⟩
    have before := drawn param (by rw [params]; exact .head _)
    exact ⟨param, _, _, _, rfl, Nat.ne_of_lt before, rfl⟩

/-- What a getter and a setter of one field have to do with each other, under this limit and in
every store whose readers have these names. -/
structure Lens (host : Host) (limit : Nat) (naming : Nat → Reader) (m : Member)
    (getter setter : Lambda) : Prop where
  /-- Setting comes to a record of the same type that differs in no other field. -/
  sets (typeName : String) (table : FieldTable Value) (v : Value) (store : Store) :
    ∃ written after, setter.invoke host limit [.record typeName table, v] store =
        (.ok (.record typeName written), after) ∧
      (∀ name, name ≠ m.name → written.fields.lookup name = table.fields.lookup name) ∧
      (table.Ordered → written.Ordered) ∧ after.readers = store.readers
  /-- What has been set is got back. -/
  getSet (typeName : String) (table : FieldTable Value) (v : Value) (store : Store) :
    ∃ set, (setter.invoke host limit [.record typeName table, v] store).1 = .ok set ∧
      ∀ later : Store, later.Named naming → (getter.invoke host limit [set] later).1 = .ok v
  /-- Setting once more comes to setting the second value only. -/
  setSet (typeName : String) (table : FieldTable Value) (v w : Value) (store later other : Store) :
    ∃ set twice once, (setter.invoke host limit [.record typeName table, v] store).1 = .ok set ∧
      (setter.invoke host limit [set, w] later).1 = .ok twice ∧
      (setter.invoke host limit [.record typeName table, w] other).1 = .ok once ∧
      twice.SameRecord once
  /-- Setting what has been got changes nothing. -/
  setGet (typeName : String) (table : FieldTable Value) (u : Value) (store later : Store) :
    table.Ordered → store.Named naming →
    (getter.invoke host limit [.record typeName table] store).1 = .ok u →
      ∃ set, (setter.invoke host limit [.record typeName table, u] later).1 = .ok set ∧
        set.SameRecord (.record typeName table)
  /-- Nothing but a record can be set. -/
  refuses (target v : Value) (store : Store) :
    (∀ typeName table, target ≠ .record typeName table) →
      ∃ fault, setter.invoke host limit [target, v] store = (.error (.eval fault), store)

theorem ReadsField.lens {getter setter : Lambda} {m : Member} {host : Host} {limit : Nat}
    {naming : Nat → Reader} (reads : getter.ReadsField m) (writes : setter.WritesField m)
    (levels : 2 ≤ limit) (name : naming m.id = .of m) :
    Lens host limit naming m getter setter := by
  have isField : m.kind = .field := by
    obtain ⟨param, target, mark, -, -, -, isField⟩ := reads
    exact isField
  have writing : ∀ typeName (table : FieldTable Value) v store,
      setter.invoke host limit [.record typeName table, v] store =
        (.ok (.record typeName (table.write m.name v store.supply).1),
          { store with supply := (table.write m.name v store.supply).2 }) :=
    fun typeName table v store => writes.invoke levels _ v store
  constructor
  case sets =>
    intro typeName table v store
    refine ⟨_, _, writing typeName table v store, fun other differs => ?_, (·.write ..), rfl⟩
    rw [FieldTable.fields_write, Keyed.lookup_insert, if_neg (by simpa using differs)]
  case getSet =>
    intro typeName table v store
    refine ⟨_, by rw [writing], fun later named => ?_⟩
    rw [reads.invoke levels, Store.readMember_record_eq_ok_iff named name isField,
      FieldTable.fields_write, Keyed.lookup_insert, BEq.rfl, if_pos rfl]
  case setSet =>
    intro typeName table v w store later other
    refine ⟨_, _, _, by rw [writing], by rw [writing], by rw [writing], .mk ?_⟩
    simp only [FieldTable.fields_write, Keyed.insert_insert]
  case setGet =>
    intro typeName table u store later ordered named gets
    rw [reads.invoke levels, Store.readMember_record_eq_ok_iff named name isField] at gets
    exact ⟨_, by rw [writing], .mk (Keyed.insert_of_lookup ordered gets)⟩
  case refuses =>
    intro target v store noRecord
    rw [writes.invoke levels]
    cases target with
    | record typeName table => exact absurd rfl (noRecord typeName table)
    | _ => exact ⟨_, rfl⟩

/-- A setter can be made of a lambda just if it reads a field straight off its one parameter; any
other lambda is an invalid argument. Under a limit of two levels or more the getter and its setter
are a lens, for a getter whose parameter was made before. -/
theorem setterFromGetter_lens (getter : Lambda) (supply : Supply) :
    ((∃ setter after, setterFromGetter getter supply = (.ok setter, after)) ↔
      ∃ m, getter.ReadsField m) ∧
    ((¬∃ m, getter.ReadsField m) →
      ∃ reason, setterFromGetter getter supply = (.error (.invalidArgument reason), supply)) ∧
    ∀ m setter after, getter.ReadsField m → setterFromGetter getter supply = (.ok setter, after) →
      (∀ param ∈ getter.params, param.id < supply.next) →
      ∀ host limit naming, 2 ≤ limit → naming m.id = .of m →
        Lens host limit naming m getter setter := by
  rcases setterFromGetter_cases getter supply with
    ⟨m, setter, after, reads, makes, writes⟩ | ⟨noField, reason, fails⟩
  · refine ⟨⟨fun _ => ⟨m, reads⟩, fun _ => ⟨setter, after, makes⟩⟩,
      fun none => absurd ⟨m, reads⟩ none, ?_⟩
    intro m' setter' after' reads' makes' drawn host limit naming levels name
    cases makes.symm.trans makes'
    cases reads.unique reads'
    exact reads.lens (writes drawn) levels name
  · refine ⟨⟨?_, fun field => absurd field noField⟩, fun _ => ⟨reason, fails⟩, ?_⟩
    · rintro ⟨setter, after, makes⟩
      cases fails.symm.trans makes
    · exact fun m setter after reads => absurd ⟨m, reads⟩ noField

namespace LengthOfBox

def L : Member := ⟨20, "L", "B", .int, .field⟩

def b : Parameter := ⟨21, "b", .object "B"⟩

/-- The lambda `b => b.L`. -/
def getter : Lambda := .of [b] ⟨22, .member (some ⟨23, .parameter b⟩) L⟩

/-- The record `B { A = 1 }`, which has no such field. -/
def box : Value := .record "B" ⟨⟨24, []⟩, [("A", .int 1)]⟩

end LengthOfBox

open LengthOfBox in
/-- The setter of `b => b.L` puts the field into a record without it, where the getter finds it. -/
theorem setterFromGetter_lens_length :
    ∃ setter after set, setterFromGetter getter ⟨30⟩ = (.ok setter, after) ∧
      (setter.invoke .basic 2 [box, .int 5] {}).1 = .ok set ∧
      (getter.invoke .basic 2 [set] {}).1 = .ok (.int 5) := by
  obtain ⟨succeeds, -, lens⟩ := setterFromGetter_lens getter ⟨30⟩
  have reads : getter.ReadsField L := ⟨b, b, 23, rfl, rfl, rfl, rfl⟩
  obtain ⟨setter, after, makes⟩ := succeeds.mpr ⟨L, reads⟩
  obtain ⟨set, sets, gets⟩ := (lens L setter after reads makes (by decide) .basic 2
    (fun _ => .of L) (Nat.le_refl 2) rfl).getSet "B" _ (.int 5) {}
  exact ⟨setter, after, set, makes, sets, gets {} (Store.named_of_unread rfl _)⟩

end Lambda

end TypedTrees
