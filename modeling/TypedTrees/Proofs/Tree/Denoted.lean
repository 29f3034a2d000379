import TypedTrees.Constant
import TypedTrees.Proofs.Tree.Filled
/-!
What a tree denotes without being evaluated, in one store and in a later one. Looking for it makes
readers and changes no slot, so it denotes the same from then on, and looking again changes nothing
(`Node.denoted?_later`). It does not depend on marks, nor on what is put in for parameters, as none
is read on the way (`Node.denoted?_filled`).
-/
namespace TypedTrees

namespace Store

/-- The slots hold the same, and readers once made are still in use. -/
structure Precedes (before after : Store) : Prop where
  slots : after.slots = before.slots
  readers : ∀ id reader, before.readers.lookup id = some reader →
    after.readers.lookup id = some reader

namespace Precedes

theorem refl (store : Store) : Precedes store store := ⟨rfl, fun _ _ found => found⟩

theorem trans {a b c : Store} (first : Precedes a b) (second : Precedes b c) : Precedes a c :=
  ⟨second.slots.trans first.slots,
    fun id reader found => second.readers id reader (first.readers id reader found)⟩

end Precedes

variable {host : Host} {m : Member} {target : Option Value} {store later : Store}

theorem lookup_readerOf (m : Member) (store : Store) :
    (store.readerOf m).2.readers.lookup m.id = some (store.readerOf m).1 := by
  simp only [readerOf]
  split
  · assumption
  · rename_i unread
    simp only [List.lookup_append, unread, Option.none_or, List.lookup_cons_self]

theorem precedes_readerOf (m : Member) (store : Store) : store.Precedes (store.readerOf m).2 := by
  refine ⟨store.readerOf_slots m, fun id reader found => ?_⟩
  simp only [readerOf]
  split
  · exact found
  · simp only [List.lookup_append, found, Option.some_or]

theorem readerOf_later (precedes : (store.readerOf m).2.Precedes later) :
    later.readerOf m = ((store.readerOf m).1, later) := by
  have found := precedes.readers _ _ (store.lookup_readerOf m)
  rw [readerOf, found]

theorem precedes_read : store.Precedes (store.read host m target).2 := store.precedes_readerOf m

theorem read_later (precedes : (store.read host m target).2.Precedes later) :
    later.read host m target = ((store.read host m target).1, later) := by
  have reader : later.readerOf m = ((store.readerOf m).1, later) := readerOf_later precedes
  have slots : later.slots = (store.readerOf m).2.slots := precedes.slots
  simp only [read, reader, slots]

end Store

namespace Node

variable {host : Host}

theorem precedes_denoted? (host : Host) (node : Node) (store : Store) :
    store.Precedes (node.denoted? host store).2 := by
  induction node using Node.induction generalizing store with
  | node node ih =>
    obtain ⟨mark, expr⟩ := node
    cases expr with
    | member target m =>
      cases target with
      | none =>
        rw [denoted?]
        split
        · exact Store.precedes_read
        · exact .refl store
      | some target =>
        have below := ih target (by simp [Node.expr, Expr.children]) store
        rw [denoted?]
        split
        · exact Store.precedes_read
        · generalize target.denoted? host store = found at below ⊢
          obtain ⟨_ | v, after⟩ := found
          · exact below
          · simp only
            split
            · exact below
            · exact below.trans Store.precedes_read
    | _ =>
      simp only [denoted?]
      exact .refl store

/-- What a tree denotes it denotes in every later store, which is left as it is. -/
theorem denoted?_later {node : Node} {store later : Store}
    (precedes : (node.denoted? host store).2.Precedes later) :
    node.denoted? host later = ((node.denoted? host store).1, later) := by
  induction node using Node.induction generalizing store with
  | node node ih =>
    obtain ⟨mark, expr⟩ := node
    cases expr with
    | member target m =>
      cases target with
      | none =>
        rw [denoted?] at precedes ⊢
        rw [denoted?]
        split at precedes
        · rename_i isStatic
          rw [if_pos isStatic, if_pos isStatic, Store.read_later precedes]
        · rename_i noSlot
          rw [if_neg noSlot, if_neg noSlot]
      | some target =>
        have below := @ih target (by simp [Node.expr, Expr.children]) store
        rw [denoted?] at precedes ⊢
        rw [denoted?]
        split at precedes
        · rename_i isStatic
          rw [if_pos isStatic, if_pos isStatic, Store.read_later precedes]
        · rename_i noSlot
          rw [if_neg noSlot, if_neg noSlot]
          generalize target.denoted? host store = found at below precedes ⊢
          obtain ⟨_ | v, middle⟩ := found
          · rw [below precedes]
          · simp only at below precedes ⊢
            split at precedes
            · rename_i isNull
              rw [below precedes]
              simp only [if_pos isNull]
            · rename_i noNull
              rw [below (Store.precedes_read.trans precedes)]
              simp only [if_neg noNull]
              exact Store.read_later precedes
    | _ => simp only [denoted?]

/-- A tree that denotes something denotes the same with trees put in for parameters; and with
nothing put in, any tree does. -/
theorem denoted?_filled {put : Nat → Option Node} {node : Node} {store : Store}
    (nothing : (node.denoted? host store).1 = none → ∀ id, put id = none) :
    (node.filled put).denoted? host store = node.denoted? host store := by
  induction node using Node.induction generalizing store with
  | node node ih =>
    obtain ⟨mark, expr⟩ := node
    cases expr with
    | parameter param =>
      have none : (mk mark (.parameter param)).denoted? host store = (none, store) := by
        simp only [denoted?]
      rw [filled_parameter rfl, nothing (by rw [none]), none, Option.getD_none]
      simp only [denoted?]
    | member target m =>
      cases target with
      | none =>
        rw [filled_inner (by simp [expr])]
        rfl
      | some target =>
        have below := @ih target (by simp [Node.expr, Expr.children]) store
        have made : (mk mark (.member (some target) m)).filled put =
            ⟨0, .member (some (target.filled put)) m⟩ := filled_inner (by simp [expr])
        rw [denoted?] at nothing
        rw [made, denoted?, denoted?]
        by_cases isStatic : m.isStatic = true
        · rw [if_pos isStatic, if_pos isStatic]
        · rw [if_neg isStatic] at nothing
          rw [if_neg isStatic, if_neg isStatic, below]
          intro none
          refine nothing ?_
          generalize target.denoted? host store = found at none ⊢
          obtain ⟨_ | v, middle⟩ := found
          · rfl
          · cases none
    | constant v ty =>
      rw [filled_inner (by simp [expr])]
      rfl
    | call receiver callee args ty =>
      rw [filled_inner (by simp [expr]), expr_mk, Expr.withChildren_map_call]
      simp only [denoted?]
    | _ =>
      rw [filled_inner (by simp [expr]), expr_mk, Expr.withChildren]
      simp only [denoted?]

theorem denoted?_unmarked (node : Node) (store : Store) :
    node.unmarked.denoted? host store = node.denoted? host store :=
  denoted?_filled fun _ _ => rfl

end Node

end TypedTrees
