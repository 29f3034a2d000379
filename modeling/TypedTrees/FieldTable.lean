import TypedTrees.Keyed
import TypedTrees.Paging
/-!
Field tables: the fields of a record in name order, and the pages they lie on. What a table holds is
told by its fields alone; the pages only tell which tables share what.
-/
namespace TypedTrees

/-- The fields of a record, in name order, and their pages. -/
structure FieldTable (ν : Type) where
  pages : Paging
  fields : List (String × ν)

namespace FieldTable

variable {ν : Type}

def empty : Fresh (FieldTable ν) := fun supply =>
  let (pages, supply) := Paging.empty supply
  (⟨pages, []⟩, supply)

/-- The pages of the table once a field of this name is written. -/
def pagesAfter (name : String) (table : FieldTable ν) : Fresh Paging :=
  let position := (table.fields.takeWhile fun field => field.1 < name).length
  match table.fields.lookup name with
  | some _ => table.pages.renew position
  | none => table.pages.insert position

/-- The table with one field written. A field of the same name is replaced. -/
def write (name : String) (value : ν) (table : FieldTable ν) : Fresh (FieldTable ν) := fun supply =>
  let (pages, supply) := table.pagesAfter name supply
  (⟨pages, Keyed.insert name value table.fields⟩, supply)

/-- The table with each of the given fields written in turn. -/
def writeAll : List (String × ν) → FieldTable ν → Fresh (FieldTable ν)
  | [], table, supply => (table, supply)
  | (name, value) :: rest, table, supply =>
    let (table, supply) := table.write name value supply
    table.writeAll rest supply

theorem fields_write (name : String) (value : ν) (table : FieldTable ν) (supply : Supply) :
    (table.write name value supply).1.fields = Keyed.insert name value table.fields := rfl

theorem fields_writeAll (pairs : List (String × ν)) (table : FieldTable ν) (supply : Supply) :
    (table.writeAll pairs supply).1.fields = Keyed.insertAll pairs table.fields := by
  induction pairs generalizing table supply with
  | nil => rfl
  | cons pair rest ih => exact ih (table.write pair.1 pair.2 supply).1 _

end FieldTable

end TypedTrees
