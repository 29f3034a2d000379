import Mathlib.Data.Finset.Card
import Mathlib.Data.List.Nodup
import TypedTrees.Proofs.Tree.Denoted
/-!
Accesses to members. Whatever is done with a store is a sequence of accesses as far as members are
concerned: some contents of static members change, or a member is read (`Store.Accessed`). In a
store that has started without readers these accesses account for everything
(`Store.AccountsFor.accessed`): the slots hold what has been put there, each read has found what a
reader made at that moment would find, and there is one reader for each member that was read.
-/
namespace TypedTrees

/-- Something that is done with members. -/
inductive Access where
  /-- A value is put into a static member. -/
  | write (member : Member) (value : Value)
  /-- A native changes the contents of static members. -/
  | change (slots : List (Nat × Value) → List (Nat × Value))
  /-- A member is read on a target, and this is found there. -/
  | read (member : Member) (target found : Option Value)

namespace Access

/-- The contents of the static members after the access. -/
def slots : Access → List (Nat × Value) → List (Nat × Value)
  | write m v, slots => Keyed.insert m.id v slots
  | change slots', slots => slots' slots
  | read .., slots => slots

/-- The contents of the static members after several accesses. -/
def slotsAfter (accesses : List Access) (slots : List (Nat × Value)) : List (Nat × Value) :=
  accesses.foldl (fun slots access => access.slots slots) slots

/-- The member that is read. -/
def member? : Access → Option Member
  | read m _ _ => some m
  | _ => none

/-- The members that are read, each as often as it is. -/
def members (accesses : List Access) : List Member := accesses.filterMap member?

/-- The static member of this identity holds after the access what it held before. -/
def Spares (id : Nat) (access : Access) : Prop :=
  ∀ slots, (access.slots slots).lookup id = slots.lookup id

theorem slotsAfter_append (first second : List Access) (slots : List (Nat × Value)) :
    slotsAfter (first ++ second) slots = slotsAfter second (slotsAfter first slots) :=
  List.foldl_append

theorem lookup_slotsAfter {id : Nat} {accesses : List Access}
    (spares : ∀ access ∈ accesses, access.Spares id) (slots : List (Nat × Value)) :
    (slotsAfter accesses slots).lookup id = slots.lookup id := by
  induction accesses generalizing slots with
  | nil => rfl
  | cons access rest ih =>
    have later := ih (fun access member => spares access (.tail _ member)) (access.slots slots)
    exact later.trans (spares access (.head _) slots)

/-- A value that has been written stays until the next access that changes it. -/
theorem lookup_slotsAfter_write {m : Member} {v : Value} {earlier later : List Access}
    (spares : ∀ access ∈ later, access.Spares m.id) (slots : List (Nat × Value)) :
    (slotsAfter (earlier ++ .write m v :: later) slots).lookup m.id = some v := by
  rw [slotsAfter_append]
  have written := Keyed.lookup_insert m.id m.id v (slotsAfter earlier slots)
  rw [BEq.rfl, if_pos rfl] at written
  exact (lookup_slotsAfter spares _).trans written

theorem members_append (first second : List Access) :
    members (first ++ second) = members first ++ members second := List.filterMap_append

end Access

namespace Store

open Access

/-- These accesses lead from the one store to the other. -/
inductive Accessed (host : Host) : Store → List Access → Store → Prop
  | silent {store later : Store} (readers : later.readers = store.readers)
      (slots : later.slots = store.slots) : Accessed host store [] later
  | write (store : Store) (m : Member) (v : Value) :
      Accessed host store [.write m v] { store with slots := Keyed.insert m.id v store.slots }
  | change (store : Store) (slots : List (Nat × Value) → List (Nat × Value)) :
      Accessed host store [.change slots] { store with slots := slots store.slots }
  | read (store : Store) (m : Member) (target : Option Value) :
      Accessed host store [.read m target (store.read host m target).1]
        (store.read host m target).2
  | append {store middle later : Store} {first second : List Access}
      (before : Accessed host store first middle) (after : Accessed host middle second later) :
      Accessed host store (first ++ second) later

/-- The store is what these accesses have made of one with the given slots and without readers. -/
structure AccountsFor (host : Host) (first : List (Nat × Value)) (accesses : List Access)
    (store : Store) : Prop where
  slots : store.slots = slotsAfter accesses first
  /-- What has been read is what a reader made for it would have found. -/
  reads : ∀ before m target found rest, accesses = before ++ .read m target found :: rest →
    found = (Reader.of m).read host (slotsAfter before first) target
  /-- There is one reader for each member that has been read, and it is the member's own. -/
  readers : ∃ members : List Member, members.Nodup ∧
    (∀ m, m ∈ members ↔ m ∈ Access.members accesses) ∧
    store.readers = members.map fun m => (m.id, .of m)

/-- One access more, which is no read or one that finds what it should. -/
theorem AccountsFor.reads_snoc {host : Host} {first : List (Nat × Value)}
    {accesses : List Access} {store : Store} (accounts : AccountsFor host first accesses store)
    {access : Access} (fits : ∀ m target found, access = .read m target found →
      found = (Reader.of m).read host (slotsAfter accesses first) target) :
    ∀ before m target found rest, accesses ++ [access] = before ++ .read m target found :: rest →
      found = (Reader.of m).read host (slotsAfter before first) target := by
  intro before m target found rest split
  rcases List.eq_nil_or_concat rest with rfl | ⟨others, last, rfl⟩
  · obtain ⟨rfl, isRead⟩ := List.append_inj' split rfl
    cases isRead
    exact fits m target found rfl
  · have split' : accesses ++ [access] = (before ++ .read m target found :: others) ++ [last] := by
      simpa using split
    obtain ⟨rfl, -⟩ := List.append_inj' split' rfl
    exact accounts.reads before m target found others rfl

/-- Of members with different identities each has a reader of its own. -/
theorem lookup_readers {members : List Member} {m : Member}
    (distinct : ∀ other ∈ members, other.id = m.id → other = m) :
    (members.map fun m => (m.id, Reader.of m)).lookup m.id =
      if m ∈ members then some (.of m) else none := by
  induction members with
  | nil => rfl
  | cons other rest ih =>
    have later := ih fun other member => distinct other (.tail _ member)
    rw [List.map_cons, List.lookup_cons]
    by_cases same : m = other
    · subst same
      rw [BEq.rfl, if_pos (.head _)]
    · have differ : (m.id == other.id) = false := by
        rw [beq_eq_false_iff_ne]
        exact fun ids => same (distinct other (.head _) ids.symm).symm
      rw [differ, later]
      simp only [List.mem_cons, same, false_or]

theorem AccountsFor.read {host : Host} {first : List (Nat × Value)} {accesses : List Access}
    {store : Store} {m : Member} (accounts : AccountsFor host first accesses store)
    (distinct : ∀ other ∈ members accesses, other.id = m.id → other = m) (target : Option Value) :
    AccountsFor host first (accesses ++ [.read m target (store.read host m target).1])
      (store.read host m target).2 := by
  obtain ⟨kept, nodup, same, readers⟩ := accounts.readers
  -- the reader is the member's own in either case, kept or made now
  have reader : store.readerOf m = (.of m, if m ∈ kept then store
      else { store with readers := store.readers ++ [(m.id, .of m)] }) := by
    have found := @lookup_readers kept m fun other member => distinct other ((same other).mp member)
    rw [← readers] at found
    by_cases already : m ∈ kept
    · simp only [readerOf, found, if_pos already]
    · simp only [readerOf, found, if_neg already]
  refine ⟨?_, accounts.reads_snoc ?_, ?_⟩
  · rw [store.read_slots, accounts.slots, slotsAfter_append]
    rfl
  · rintro m target found ⟨⟩
    rw [← accounts.slots, ← store.readerOf_slots m]
    simp only [Store.read, reader]
  · have now : members (accesses ++ [.read m target (store.read host m target).1]) =
        members accesses ++ [m] := members_append _ _
    have after : (store.read host m target).2 = (store.readerOf m).2 := rfl
    rw [now, after, reader]
    simp only
    split
    · rename_i already
      refine ⟨kept, nodup, fun other => ?_, readers⟩
      have before := (same m).mp already
      rw [same, List.mem_append, List.mem_singleton]
      exact ⟨.inl, fun either => either.elim id fun is => is ▸ before⟩
    · rename_i unread
      refine ⟨kept ++ [m], ?_, fun other => ?_, ?_⟩
      · exact List.nodup_append_comm.mp (List.nodup_cons.mpr ⟨unread, nodup⟩)
      · rw [List.mem_append, List.mem_append, same]
      · rw [readers, List.map_append, List.map_singleton]

/-- Accesses are accounted for, if no two members that are read have one identity. -/
theorem AccountsFor.accessed {host : Host} {first : List (Nat × Value)} {read : Member → Prop}
    (distinct : ∀ m m', read m → read m' → m.id = m'.id → m = m') {store later : Store}
    {accesses new : List Access} (accessed : Accessed host store new later)
    (among : ∀ m ∈ members (accesses ++ new), read m)
    (accounts : AccountsFor host first accesses store) :
    AccountsFor host first (accesses ++ new) later := by
  induction accessed generalizing accesses with
  | silent readers slots =>
    rw [List.append_nil]
    exact ⟨slots.trans accounts.slots, accounts.reads, readers ▸ accounts.readers⟩
  | write store m v =>
    refine ⟨?_, accounts.reads_snoc (fun _ _ _ is => by cases is), ?_⟩
    · rw [slotsAfter_append, ← accounts.slots]
      rfl
    · rw [members_append, show members [.write m v] = [] from rfl, List.append_nil]
      exact accounts.readers
  | change store slots =>
    refine ⟨?_, accounts.reads_snoc (fun _ _ _ is => by cases is), ?_⟩
    · rw [slotsAfter_append, ← accounts.slots]
      rfl
    · rw [members_append, show members [.change slots] = [] from rfl, List.append_nil]
      exact accounts.readers
  | read store m target =>
    have now : members (accesses ++ [.read m target (store.read host m target).1]) =
        members accesses ++ [m] := members_append _ _
    rw [now] at among
    refine accounts.read (fun other member => distinct other m (among other ?_) (among m ?_)) target
    · exact List.mem_append_left _ member
    · exact List.mem_append_right _ (.head _)
  | append before after ihBefore ihAfter =>
    rw [← List.append_assoc] at among ⊢
    refine ihAfter among (ihBefore (fun m member => among m ?_) accounts)
    rw [members_append]
    exact List.mem_append_left _ member

end Store

end TypedTrees
