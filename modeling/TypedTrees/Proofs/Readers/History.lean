import Mathlib
import TypedTrees.Proofs.Readers.Runs
/-!
Readers over time. A `Session.ReadHistory` writes static members, reads members, digs, expands and
evaluates in any order, and tells every access that is made on the way. If it starts without
readers, keeping readers cannot be seen: every read finds what a reader made for it would find, each
member that has been read has a reader to itself, and there are no other readers
(`Session.ReadHistory.reads_afresh`).
-/
namespace TypedTrees

namespace Session

/-- What has been done in a session, and every access to members that was made for it, the earliest
first. In between anything may happen that leaves slots and readers alone. -/
inductive ReadHistory (host : Host) (first : Session) : List Access → Session → Prop
  | start : ReadHistory host first [] first
  | setSlot {accesses : List Access} {session : Session} {store : Store}
      (earlier : ReadHistory host first accesses session) (m : Member) (v : Value)
      (written : session.store.setSlot m v = .ok store) :
      ReadHistory host first (accesses ++ [.write m v]) { session with store }
  | read {accesses : List Access} {session : Session}
      (earlier : ReadHistory host first accesses session) (m : Member) (target : Option Value) :
      ReadHistory host first
        (accesses ++ [.read m target (session.store.read host m target).1])
        { session with store := (session.store.read host m target).2 }
  | dig {accesses : List Access} {session : Session}
      (earlier : ReadHistory host first accesses session) (tree : Node) :
      ReadHistory host first (accesses ++ tree.digs host session.store)
        { session with store := (tree.denoted? host session.store).2 }
  | expand {accesses : List Access} {session : Session}
      (earlier : ReadHistory host first accesses session) (expander : Expander) (tree : Node) :
      ReadHistory host first (accesses ++ expander.accesses host tree session)
        (expander.expand host tree session).2.2
  | evaluate {accesses : List Access} {session : Session}
      (earlier : ReadHistory host first accesses session) (limit depth : Nat) (tree : Node)
      (env : Env) :
      ReadHistory host first
        (accesses ++ evaluationAccesses host limit depth tree env session.store)
        { session with store := (evaluateFrom host limit depth tree env session.store).store }
  | meanwhile {accesses : List Access} {session later : Session}
      (earlier : ReadHistory host first accesses session)
      (readers : later.store.readers = session.store.readers)
      (slots : later.store.slots = session.store.slots) : ReadHistory host first accesses later

namespace ReadHistory

section Accounts

variable {host : Host} {first session : Session} {accesses : List Access}

/-- The accesses of a history lead from its first store to its last. -/
theorem accessed (history : ReadHistory host first accesses session) :
    Store.Accessed host first.store accesses session.store := by
  induction history with
  | start => exact .silent rfl rfl
  | setSlot _ m v written ih =>
    rw [Store.setSlot] at written
    split at written <;> cases written
    exact .append ih (.write _ m v)
  | read _ m target ih => exact .append ih (.read _ m target)
  | dig _ tree ih => exact .append ih (tree.accessed_digs host _)
  | expand _ expander tree ih => exact .append ih (accessed_expand expander host tree _)
  | evaluate _ limit depth tree env ih =>
    exact .append ih (accessed_evaluateFrom host limit depth tree env _)
  | @meanwhile accesses _ _ _ readers slots ih =>
    rw [← List.append_nil accesses]
    exact .append ih (.silent readers slots)

theorem accountsFor (history : ReadHistory host first accesses session)
    (unread : first.store.readers = [])
    (distinct : ∀ m ∈ Access.members accesses, ∀ m' ∈ Access.members accesses,
      m.id = m'.id → m = m') :
    Store.AccountsFor host first.store.slots accesses session.store := by
  have none : Store.AccountsFor host first.store.slots [] first.store := by
    refine ⟨rfl, ?_, [], .nil, fun m => Iff.rfl, unread⟩
    intro before m target found rest split
    simp at split
  exact @Store.AccountsFor.accessed host first.store.slots (· ∈ Access.members accesses)
    (fun m m' reads reads' => distinct m reads m' reads') _ _ [] accesses history.accessed
    (fun m member => member) none

/-- Readers that are kept cannot be told from readers made afresh, if no two members that are read
have one identity. Every read finds what the member's own reader finds in the slots as they are at
that moment, so a static member is read with the value written last, however early it was read for
the first time. Different members do not share a reader, whatever their names are, and there are as
many readers as members have been read, whether anything was found or not. -/
theorem reads_afresh (history : ReadHistory host first accesses session)
    (unread : first.store.readers = [])
    (distinct : ∀ m ∈ Access.members accesses, ∀ m' ∈ Access.members accesses,
      m.id = m'.id → m = m') :
    (∀ before m target found rest, accesses = before ++ .read m target found :: rest →
      found = (Reader.of m).read host (Access.slotsAfter before first.store.slots) target) ∧
    (∀ earlier later rest m v target found,
      accesses = earlier ++ .write m v :: later ++ .read m target found :: rest →
      m.isStatic = true → (∀ access ∈ later, access.Spares m.id) → found = some v) ∧
    (∀ m ∈ Access.members accesses, ∀ m' ∈ Access.members accesses, m ≠ m' → ∃ i j : Nat, i ≠ j ∧
      session.store.readers[i]? = some (m.id, .of m) ∧
      session.store.readers[j]? = some (m'.id, .of m')) ∧
    session.store.readers.length = (Access.members accesses).toFinset.card := by
  have accounts := history.accountsFor unread distinct
  obtain ⟨members, nodup, same, readers⟩ := accounts.readers
  refine ⟨accounts.reads, ?_, ?_, ?_⟩
  · intro earlier later rest m v target found split isStatic spares
    have isSlot : Reader.of m = .slot m.id := by
      rw [Reader.of, show m.kind = .slot by simpa [Member.isStatic] using isStatic]
    rw [accounts.reads _ m target found rest split, isSlot]
    exact Access.lookup_slotsAfter_write spares _
  · intro m read m' read' differ
    obtain ⟨i, atFirst⟩ := List.mem_iff_getElem?.mp ((same m).mpr read)
    obtain ⟨j, atSecond⟩ := List.mem_iff_getElem?.mp ((same m').mpr read')
    refine ⟨i, j, ?_, ?_, ?_⟩
    · rintro rfl
      exact differ (Option.some.inj (atFirst.symm.trans atSecond))
    · rw [readers, List.getElem?_map, atFirst]
      rfl
    · rw [readers, List.getElem?_map, atSecond]
      rfl
  · have alike : (Access.members accesses).toFinset = members.toFinset := by
      ext m
      rw [List.mem_toFinset, List.mem_toFinset, same]
    rw [readers, List.length_map, alike, List.toFinset_card_of_nodup nodup]

end Accounts

namespace Rewritten

/-- The static member `Trees.current`. -/
def slot : Member := ⟨20, "current", "Trees", .any, .slot⟩

/-- Another static member of this name. -/
def other : Member := ⟨21, "current", "Others", .any, .slot⟩

def x : Parameter := ⟨16, "x", .int⟩

/-- The lambda `x => x`. -/
def identity : Lambda := ⟨[x], ⟨17, .parameter x⟩, .int⟩

/-- The lambda `x => 1`. -/
def one : Lambda := ⟨[x], ⟨18, .constant (.int 1) .int⟩, .int⟩

/-- The call `Trees.current.invoke(7)`. -/
def call : Node :=
  ⟨30, .call none (.invoke .one) [⟨31, .member none slot⟩, ⟨32, .constant (.int 7) .int⟩] .any⟩

def begun : Session := { store := { slots := [(21, .int 3)] } }

/-- The slot holds `identity`. -/
def written : Session := { begun with store := { begun.store with
  slots := Keyed.insert 20 (.tree identity) begun.store.slots } }

/-- The call has been expanded, and the slot holds `one` now. -/
def rewritten : Session :=
  let expanded := (({} : Expander).expand .basic call written).2.2
  { expanded with store := { expanded.store with
    slots := Keyed.insert 20 (.tree one) expanded.store.slots } }

/-- The call has been expanded once more, and the other slot dug out. -/
def dug : Session :=
  let expanded := (({} : Expander).expand .basic call rewritten).2.2
  { expanded with store := (Node.denoted? .basic ⟨33, .member none other⟩ expanded.store).2 }

theorem expands :
    ({} : Expander).accesses .basic call written = [.read slot none (some (.tree identity))] ∧
    ({} : Expander).accesses .basic call rewritten = [.read slot none (some (.tree one))] := by
  simp only [rewritten, Expander.expand, Expander.accesses, Pass.run_eq_transform]
  constructor <;> cbv

theorem digs : Node.digs .basic ⟨33, .member none other⟩
    (({} : Expander).expand .basic call rewritten).2.2.store =
      [.read other none (some (.int 3))] := by
  simp only [rewritten, Expander.expand, Pass.run_eq_transform]
  cbv

theorem evaluates : evaluationAccesses .basic 9 0 ⟨34, .member none slot⟩ [] dug.store =
    [.read slot none (some (.tree one))] := by
  simp only [dug, rewritten, Expander.expand, Pass.run_eq_transform]
  cbv

/-- The slot has been evaluated in the end. -/
def last : Session := { dug with
  store := (evaluateFrom .basic 9 0 ⟨34, .member none slot⟩ [] dug.store).store }

def accesses : List Access :=
  [.write slot (.tree identity), .read slot none (some (.tree identity)), .write slot (.tree one),
    .read slot none (some (.tree one)), .read other none (some (.int 3)),
    .read slot none (some (.tree one))]

theorem history : ReadHistory .basic begun accesses last := by
  have first : ReadHistory .basic begun [.write slot (.tree identity)] written :=
    .setSlot .start slot (.tree identity) rfl
  have expanded := first.expand {} call
  rw [expands.1] at expanded
  have second : ReadHistory .basic begun _ rewritten := .setSlot expanded slot (.tree one) rfl
  have again := second.expand {} call
  rw [expands.2] at again
  have others : ReadHistory .basic begun _ dug := .dig again ⟨33, .member none other⟩
  rw [digs] at others
  have evaluated := others.evaluate 9 0 ⟨34, .member none slot⟩ []
  rw [evaluates] at evaluated
  exact evaluated

end Rewritten

open Rewritten in
/-- A slot is read with its new value after it was read with its old one, and the two slots of one
name have a reader each. -/
theorem reads_afresh_rewritten :
    ReadHistory .basic begun accesses last ∧ last.store.readers.length = 2 ∧
      accesses[5]? = some (.read slot none (some (.tree one))) ∧
      ∃ i j : Nat, i ≠ j ∧ last.store.readers[i]? = some (20, .slot 20) ∧
        last.store.readers[j]? = some (21, .slot 21) := by
  have members : Access.members accesses = [slot, slot, other, slot] := rfl
  obtain ⟨-, -, apart, count⟩ := history.reads_afresh rfl (by rw [members]; decide)
  rw [members] at apart count
  exact ⟨history, count, rfl, apart slot (by decide) other (by decide) (by decide)⟩

end ReadHistory

end Session

end TypedTrees
