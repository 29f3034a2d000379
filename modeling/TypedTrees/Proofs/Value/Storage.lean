import TypedTrees.Eval.Machine
/-!
Values without their storage. `Value.unpaged` forgets on which pages the fields of records lie, and
keeps everything else. What a value is called, its type, its text and what it is as a number do not
depend on storage; of the operations on values only equality may, and where it does not, two values
are `Value.Settled`.
-/
namespace TypedTrees

namespace Keyed

variable {κ α β : Type} (f : α → β)

theorem lookup_map_snd [BEq κ] (entries : List (κ × α)) (key : κ) :
    (entries.map fun entry => (entry.1, f entry.2)).lookup key = (entries.lookup key).map f := by
  induction entries with
  | nil => rfl
  | cons entry rest ih =>
    obtain ⟨first, value⟩ := entry
    simp only [List.map_cons, List.lookup_cons, ih]
    cases key == first <;> rfl

variable [LT κ] [DecidableLT κ]

theorem insert_map_snd (key : κ) (value : α) (entries : List (κ × α)) :
    (insert key value entries).map (fun entry => (entry.1, f entry.2)) =
      insert key (f value) (entries.map fun entry => (entry.1, f entry.2)) := by
  induction entries with
  | nil => rfl
  | cons entry rest ih =>
    simp only [insert, List.map_cons]
    split
    · rfl
    · split
      · rw [List.map_cons, ih]
      · rfl

theorem insertAll_map_snd (pairs entries : List (κ × α)) :
    (insertAll pairs entries).map (fun entry => (entry.1, f entry.2)) =
      insertAll (pairs.map fun entry => (entry.1, f entry.2))
        (entries.map fun entry => (entry.1, f entry.2)) := by
  induction pairs generalizing entries with
  | nil => rfl
  | cons pair rest ih =>
    change (insertAll rest (insert pair.1 pair.2 entries)).map _ = _
    rw [ih, insert_map_snd]
    rfl

end Keyed

mutual

/-- The value with every record on one and the same page without a mark of its own. -/
def Value.unpaged : Value → Value
  | .null => .null
  | .unit => .unit
  | .bool b => .bool b
  | .int n => .int n
  | .float x => .float x
  | .str s => .str s
  | .seq items => .seq (Value.unpagedAll items)
  | .record typeName ⟨_, fields⟩ => .record typeName ⟨⟨0, []⟩, Value.unpagedFields fields⟩
  | .tree l => .tree l
  | .closure l env => .closure l (Value.unpagedBindings env)
termination_by structural v => v

/-- Several values without their storage. -/
def Value.unpagedAll : List Value → List Value
  | [] => []
  | v :: vs => v.unpaged :: Value.unpagedAll vs
termination_by structural vs => vs

/-- The fields of a record with their values without storage. -/
def Value.unpagedFields : List (String × Value) → List (String × Value)
  | [] => []
  | (name, v) :: rest => (name, v.unpaged) :: Value.unpagedFields rest
termination_by structural fields => fields

/-- Bindings with their values without storage. -/
def Value.unpagedBindings : List (Nat × Value) → List (Nat × Value)
  | [] => []
  | (id, v) :: rest => (id, v.unpaged) :: Value.unpagedBindings rest
termination_by structural bindings => bindings

end

abbrev Env.unpaged (env : Env) : Env := env.map fun binding => (binding.1, binding.2.unpaged)

namespace Value

theorem unpagedAll_eq (vs : List Value) : unpagedAll vs = vs.map unpaged := by
  induction vs with
  | nil => rfl
  | cons v vs ih => rw [unpagedAll, ih, List.map_cons]

theorem unpagedFields_eq (fields : List (String × Value)) :
    unpagedFields fields = fields.map fun field => (field.1, field.2.unpaged) := by
  induction fields with
  | nil => rfl
  | cons field rest ih =>
    obtain ⟨name, v⟩ := field
    rw [unpagedFields, ih, List.map_cons]

theorem unpagedBindings_eq (env : Env) : unpagedBindings env = Env.unpaged env := by
  induction env with
  | nil => rfl
  | cons binding rest ih =>
    obtain ⟨id, v⟩ := binding
    rw [unpagedBindings, ih]
    rfl

@[simp] theorem unpaged_seq (items : List Value) :
    (seq items).unpaged = seq (items.map unpaged) := by
  rw [unpaged, unpagedAll_eq]

@[simp] theorem unpaged_record (typeName : String) (table : FieldTable Value) :
    (record typeName table).unpaged =
      record typeName ⟨⟨0, []⟩, table.fields.map fun field => (field.1, field.2.unpaged)⟩ := by
  obtain ⟨pages, fields⟩ := table
  rw [unpaged, unpagedFields_eq]

@[simp] theorem unpaged_closure (l : Lambda) (env : Env) :
    (closure l env).unpaged = closure l env.unpaged := by
  rw [unpaged, unpagedBindings_eq]

@[simp] theorem unpaged_int (n : Int64) : (int n).unpaged = int n := rfl

@[simp] theorem unpaged_float (x : Float) : (float x).unpaged = float x := rfl

@[simp] theorem unpaged_str (s : String) : (str s).unpaged = str s := rfl

@[simp] theorem unpaged_tree (l : Lambda) : (tree l).unpaged = tree l := rfl

theorem kindName_unpaged (v : Value) : v.unpaged.kindName = v.kindName := by
  cases v <;> rfl

theorem isNull_unpaged (v : Value) : v.unpaged.isNull = v.isNull := by
  cases v <;> rfl

theorem ty_unpaged (v : Value) : v.unpaged.ty = v.ty := by
  cases v with
  | seq items =>
    cases items with
    | nil => rfl
    | cons item rest => simp only [unpaged, unpagedAll, ty, ty_unpaged item]
  | _ => rfl

theorem eq_seq_of_unpaged {v : Value} {items : List Value} (same : v.unpaged = seq items) :
    ∃ stored, v = seq stored ∧ stored.map unpaged = items := by
  cases v with
  | seq stored =>
    rw [unpaged_seq, seq.injEq] at same
    exact ⟨stored, rfl, same⟩
  | record typeName table =>
    rw [unpaged_record] at same
    cases same
  | closure l env =>
    rw [unpaged_closure] at same
    cases same
  | _ => cases same

/-- A value that has no others in it is the same without its storage. -/
theorem eq_of_unpaged {v w : Value} (same : v.unpaged = w) (noSeq : ∀ items, w ≠ seq items)
    (noRecord : ∀ typeName table, w ≠ record typeName table)
    (noClosure : ∀ l env, w ≠ closure l env) : v = w := by
  cases v with
  | seq items => exact absurd (same.symm.trans (unpaged_seq items)) (noSeq _)
  | record typeName table =>
    exact absurd (same.symm.trans (unpaged_record typeName table)) (noRecord _ _)
  | closure l env => exact absurd (same.symm.trans (unpaged_closure l env)) (noClosure _ _)
  | _ => exact same

theorem eq_bool_of_unpaged {v : Value} {b : Bool} (same : v.unpaged = bool b) : v = bool b :=
  eq_of_unpaged same (by simp) (by simp) (by simp)

theorem eq_int_of_unpaged {v : Value} {n : Int64} (same : v.unpaged = int n) : v = int n :=
  eq_of_unpaged same (by simp) (by simp) (by simp)

mutual

theorem unpaged_unpaged (v : Value) : v.unpaged.unpaged = v.unpaged := by
  cases v with
  | seq items => simp only [unpaged, unpagedAll_unpagedAll items]
  | record typeName table =>
    obtain ⟨pages, fields⟩ := table
    simp only [unpaged, unpagedFields_unpagedFields fields]
  | closure l env => simp only [unpaged, unpagedBindings_unpagedBindings env]
  | _ => rfl

theorem unpagedAll_unpagedAll (vs : List Value) : unpagedAll (unpagedAll vs) = unpagedAll vs := by
  cases vs with
  | nil => rfl
  | cons v vs => simp only [unpagedAll, unpaged_unpaged v, unpagedAll_unpagedAll vs]

theorem unpagedFields_unpagedFields (fields : List (String × Value)) :
    unpagedFields (unpagedFields fields) = unpagedFields fields := by
  cases fields with
  | nil => rfl
  | cons field rest =>
    obtain ⟨name, v⟩ := field
    simp only [unpagedFields, unpaged_unpaged v, unpagedFields_unpagedFields rest]

theorem unpagedBindings_unpagedBindings (env : List (Nat × Value)) :
    unpagedBindings (unpagedBindings env) = unpagedBindings env := by
  cases env with
  | nil => rfl
  | cons binding rest =>
    obtain ⟨id, v⟩ := binding
    simp only [unpagedBindings, unpaged_unpaged v, unpagedBindings_unpagedBindings rest]

end

mutual

theorem text_unpaged (v : Value) : v.unpaged.text = v.text := by
  cases v with
  | seq items => simp only [unpaged, text, texts_unpagedAll items]
  | record typeName table =>
    obtain ⟨pages, fields⟩ := table
    simp only [unpaged, text, fieldTexts_unpagedFields fields]
  | _ => rfl

theorem texts_unpagedAll (vs : List Value) : texts (unpagedAll vs) = texts vs := by
  cases vs with
  | nil => rfl
  | cons v vs => simp only [unpagedAll, texts, text_unpaged v, texts_unpagedAll vs]

theorem fieldTexts_unpagedFields (fields : List (String × Value)) :
    fieldTexts (unpagedFields fields) = fieldTexts fields := by
  cases fields with
  | nil => rfl
  | cons field rest =>
    obtain ⟨name, v⟩ := field
    simp only [unpagedFields, fieldTexts, text_unpaged v, fieldTexts_unpagedFields rest]

end

/-- Whether two values are equal does not depend on the pages that records of them share. -/
def Settled (a b : Value) : Prop :=
  ∀ a' b' : Value, a'.unpaged = a.unpaged → b'.unpaged = b.unpaged → a'.equals b' = a.equals b

theorem Settled.congr {a b a' b' : Value} (settled : Settled a b) (left : a'.unpaged = a.unpaged)
    (right : b'.unpaged = b.unpaged) : Settled a' b' := by
  intro c d leftMost rightMost
  rw [settled c d (leftMost.trans left) (rightMost.trans right), settled a' b' left right]

/-- Looking for an item among others does not depend on storage in any test that is made, up to the
first that succeeds. -/
def SettledAmong (item : Value) : List Value → Prop
  | [] => True
  | candidate :: rest =>
    Settled candidate item ∧ (candidate.equals item = false → SettledAmong item rest)

theorem equals_unpaged {a b : Value} (settled : Settled a b) :
    a.unpaged.equals b.unpaged = a.equals b :=
  settled _ _ a.unpaged_unpaged b.unpaged_unpaged

theorem SettledAmong.congr {items items' : List Value} {item item' : Value}
    (settled : SettledAmong item items) (same : item'.unpaged = item.unpaged)
    (each : items'.map unpaged = items.map unpaged) : SettledAmong item' items' := by
  induction items generalizing items' with
  | nil =>
    cases items' with
    | nil => trivial
    | cons _ _ => cases each
  | cons candidate rest ih =>
    cases items' with
    | nil => cases each
    | cons candidate' rest' =>
      simp only [List.map_cons, List.cons.injEq] at each
      obtain ⟨first, others⟩ := settled
      refine ⟨first.congr each.1 same, fun differs => ih (others ?_) each.2⟩
      rw [← first candidate' item' each.1 same]
      exact differs

theorem any_equals_unpaged {items : List Value} {item : Value} (settled : SettledAmong item items) :
    (items.map unpaged).any (·.equals item.unpaged) = items.any (·.equals item) := by
  induction items with
  | nil => rfl
  | cons candidate rest ih =>
    obtain ⟨first, others⟩ := settled
    rw [List.map_cons, List.any_cons, List.any_cons, equals_unpaged first]
    cases found : candidate.equals item with
    | true => rfl
    | false => rw [ih (others found)]

end Value

/-- A unary operator does the same on a value without storage. -/
theorem UnaryOp.apply_unpaged (op : UnaryOp) (v : Value) :
    op.apply v.unpaged = (op.apply v).map Value.unpaged := by
  have passed : ∀ target : Ty, Value.convert.pass target v.unpaged =
      (Value.convert.pass target v).map Value.unpaged := by
    intro target
    simp only [Value.convert.pass, Value.ty_unpaged, Value.isNull_unpaged, Value.kindName_unpaged]
    split <;> rfl
  cases op with
  | not => cases v <;> rfl
  | negate =>
    cases v with
    | int n =>
      simp only [Value.unpaged_int, apply]
      split <;> rfl
    | _ => rfl
  | convert target =>
    rw [apply, apply]
    cases v with
    | int n => cases target <;> rfl
    | float x =>
      cases target with
      | int =>
        simp only [Value.unpaged_float, Value.convert]
        split
        · rfl
        · exact passed .int
      | _ => rfl
    | bool b => cases target <;> rfl
    | _ => cases target <;> exact passed _

namespace BinaryOp

theorem logical_unpaged (op : BinaryOp) (l r : Value) :
    op.logical l.unpaged r.unpaged = (op.logical l r).map Value.unpaged := by
  cases l <;> cases r <;> rfl

theorem comparison_unpaged (op : BinaryOp) (l r : Value) :
    op.comparison l.unpaged r.unpaged = (op.comparison l r).map Value.unpaged := by
  cases l <;> cases r <;> rfl

theorem intArithmetic_unpaged (op : BinaryOp) (a b : Int64) :
    (op.intArithmetic a b).map Value.unpaged = op.intArithmetic a b := by
  simp only [intArithmetic]
  split
  · rfl
  · split <;> rfl

theorem plainText_unpaged (v : Value) : v.unpaged.plainText = v.plainText := by
  cases v with
  | str s => rfl
  | _ => exact Value.text_unpaged _

theorem arithmetic_unpaged (op : BinaryOp) (l r : Value) :
    op.arithmetic l.unpaged r.unpaged = (op.arithmetic l r).map Value.unpaged := by
  have numbers : ∀ op : BinaryOp, (∀ s, l ≠ .str s) → (∀ s, r ≠ .str s) →
      op.arithmetic l.unpaged r.unpaged = (op.arithmetic l r).map Value.unpaged := by
    intro op noLeft noRight
    cases l with
    | str s => exact absurd rfl (noLeft s)
    | int a =>
      cases r with
      | str s => exact absurd rfl (noRight s)
      | int b =>
        have whole : ∀ op : BinaryOp, op.arithmetic (.int a) (.int b) = op.intArithmetic a b := by
          intro op
          cases op <;> rfl
        rw [Value.unpaged_int, Value.unpaged_int, whole, intArithmetic_unpaged]
      | _ => cases op <;> rfl
    | _ =>
      cases r with
      | str s => exact absurd rfl (noRight s)
      | _ => cases op <;> rfl
  by_cases atLeft : ∃ s, l = .str s
  · obtain ⟨s, rfl⟩ := atLeft
    cases op with
    | add =>
      simp only [Value.unpaged_str, arithmetic, plainText_unpaged]
      rfl
    | _ => cases r <;> rfl
  · by_cases atRight : ∃ s, r = .str s
    · obtain ⟨s, rfl⟩ := atRight
      cases op with
      | add =>
        have joined : ∀ v : Value, arithmetic .add v (.str s) = .ok (.str (v.plainText ++ s)) := by
          intro v
          cases v <;> rfl
        rw [Value.unpaged_str, joined, joined, plainText_unpaged]
        rfl
      | _ => cases l <;> rfl
    · exact numbers op (fun s is => atLeft ⟨s, is⟩) (fun s is => atRight ⟨s, is⟩)

/-- A binary operator does the same on values without storage, if it is no equality test that
depends on storage. -/
theorem apply_unpaged (op : BinaryOp) (l r : Value)
    (settled : op = .equal ∨ op = .notEqual → Value.Settled l r) :
    op.apply l.unpaged r.unpaged = (op.apply l r).map Value.unpaged := by
  have tested : op = .equal ∨ op = .notEqual → l.unpaged.equals r.unpaged = l.equals r :=
    fun is => settled is _ _ l.unpaged_unpaged r.unpaged_unpaged
  cases op with
  | equal =>
    simp only [apply, tested (.inl rfl)]
    rfl
  | notEqual =>
    simp only [apply, tested (.inr rfl)]
    rfl
  | add | subtract | multiply | divide => exact arithmetic_unpaged _ l r
  | and | or | andAlso | orElse => exact logical_unpaged _ l r
  | lessThan | lessThanOrEqual | greaterThan | greaterThanOrEqual => exact comparison_unpaged _ l r

end BinaryOp

theorem Env.lookup_unpaged (env : Env) (id : Nat) :
    env.unpaged.lookup id = (env.lookup id).map Value.unpaged :=
  Keyed.lookup_map_snd Value.unpaged env id

theorem Lambda.scope_unpaged (l : Lambda) (env : Env) (args : List Value) :
    (l.scope env args).unpaged = l.scope env.unpaged (args.map Value.unpaged) := by
  rw [scope, scope, Env.unpaged, Keyed.insertAll_map_snd, List.zip_map_right]
  rfl

theorem Lambda.bindArgs_unpaged {l : Lambda} {env scope : Env} {args : List Value}
    (bound : l.bindArgs env args = .ok scope) :
    l.bindArgs env.unpaged (args.map Value.unpaged) = .ok scope.unpaged := by
  rw [bindArgs] at bound ⊢
  split at bound
  · rename_i arity
    cases bound
    rw [if_pos (by rw [List.length_map, arity]), scope_unpaged]
  · cases bound

theorem Value.callTarget_unpaged {callee : Value} {args : List Value} {body : Node} {scope : Env}
    (target : callee.callTarget args = .ok (body, scope)) :
    callee.unpaged.callTarget (args.map unpaged) = .ok (body, scope.unpaged) := by
  cases callee with
  | closure l env =>
    simp only [callTarget] at target
    rcases bound : l.bindArgs env args with e | inner
    · rw [bound] at target
      cases target
    · rw [bound] at target
      cases target
      simp only [unpaged_closure, callTarget, Lambda.bindArgs_unpaged bound]
      rfl
  | tree l =>
    simp only [callTarget] at target
    rcases bound : l.bindArgs [] args with e | inner
    · rw [bound] at target
      cases target
    · rw [bound] at target
      cases target
      have empty := Lambda.bindArgs_unpaged bound
      simp only [unpaged_tree, callTarget]
      rw [show ([] : Env) = Env.unpaged [] from rfl, empty]
      rfl
  | _ => cases target

/-! ### A record that is not equal to its copy

A record that holds a NaN is equal to itself, because its fields are found on a shared page, but not
to another record of the same fields. -/

namespace TwiceBuilt

def nan : Float := .ofBits 0x7ff8000000000000

theorem nan_unequal : (nan == nan) = false := by decide

/-- The record on a page of this mark. -/
def value (x : Float) (mark : Nat) : Value := .record "R" ⟨⟨mark, [.field]⟩, [("L", .float x)]⟩

theorem value_equals_self (x : Float) (mark : Nat) :
    (value x mark).equals (value x mark) = true := by
  simp [value, Value.equals, BEq.beq, Value.alike, Paging.passed, Part.passed, Part.count,
    Part.size, Value.fieldsAlike, Value.identical, withPtrEq]

theorem value_not_equals {x : Float} (nan : (x == x) = false) {mark other : Nat}
    (differ : mark ≠ other) : (value x mark).equals (value x other) = false := by
  have unequal : ¬x.beq x = true := by simpa [BEq.beq] using nan
  simp [value, Value.equals, BEq.beq, Value.alike, Paging.passed, Part.passed, Part.lead,
    Value.fieldsAlike, unequal, differ]

end TwiceBuilt

end TypedTrees
