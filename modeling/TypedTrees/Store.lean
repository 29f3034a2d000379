import TypedTrees.Eval.Procedure
/-!
What all trees of a session share: the static slots, the readers of members, and the supply of
identities. A member is read through a reader that is made at the first read and kept from then on.
A kept reader names what it reads and holds no value of it, so a slot written later is read with
its new value.
-/
namespace TypedTrees

/-- How one member is read. -/
inductive Reader where
  /-- The field of this name, if the target is a record that has it. -/
  | field (name : String)
  /-- A computed property of the target. -/
  | property (getter : Getter)
  /-- The slot of the member with this identity. No target is needed. -/
  | slot (member : Nat)
  deriving DecidableEq

namespace Reader

/-- The reader that belongs to a member. -/
def of (member : Member) : Reader :=
  match member.kind with
  | .field => .field member.name
  | .property getter => .property getter
  | .slot => .slot member.id

/-- What the reader finds on a target, given the contents of the slots. -/
def read (host : Host) (slots : List (Nat × Value)) : Reader → Option Value → Option Value
  | .field name, some (.record _ table) => table.fields.lookup name
  | .field _, _ => none
  | .property getter, target => target.bind (getter.read host)
  | .slot member, _ => slots.lookup member

end Reader

structure Store where
  supply : Supply := .initial
  /-- The contents of each static member, by the member's identity. -/
  slots : List (Nat × Value) := []
  /-- The readers made so far, by the identity of their member. -/
  readers : List (Nat × Reader) := []

namespace Store

/-- The reader of a member, made now if there is none yet. -/
def readerOf (member : Member) (store : Store) : Reader × Store :=
  match store.readers.lookup member.id with
  | some reader => (reader, store)
  | none =>
    let reader := Reader.of member
    (reader, { store with readers := store.readers ++ [(member.id, reader)] })

/-- What a member has on a target. -/
def read (host : Host) (member : Member) (target : Option Value) (store : Store) :
    Option Value × Store :=
  let (reader, store) := store.readerOf member
  (reader.read host store.slots target, store)

theorem readerOf_slots (member : Member) (store : Store) :
    (store.readerOf member).2.slots = store.slots := by
  simp only [readerOf]
  split <;> rfl

theorem read_slots (host : Host) (member : Member) (target : Option Value) (store : Store) :
    (store.read host member target).2.slots = store.slots := store.readerOf_slots member

def slot? (member : Member) (store : Store) : Option Value := store.slots.lookup member.id

/-- The store with new contents for a static member. Other members have no contents of their
own. -/
def setSlot (member : Member) (value : Value) (store : Store) : Except Error Store :=
  if member.isStatic then
    .ok { store with slots := Keyed.insert member.id value store.slots }
  else .error (.invalidArgument (.memberNotStatic member.path))

/-- A computation that only draws identities, carried out on the store's supply. -/
def drawing {α : Type} (make : Supply → α × Supply) (store : Store) : α × Store :=
  let (result, supply) := make store.supply
  (result, { store with supply })

/-- A new record with the given fields, written in turn. -/
def newRecord (typeName : String) (fields : List (String × Value)) (store : Store) :
    Value × Store :=
  store.drawing fun supply =>
    let (table, supply) := FieldTable.empty supply
    let (table, supply) := table.writeAll fields supply
    (.record typeName table, supply)

end Store

end TypedTrees
