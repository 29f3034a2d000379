import TypedTrees.Symbol
/-!
How a field table lies on pages. The fields stand in order on the parts of a page, and a page may
hold further pages between the fields of its own. No page is ever changed: a write renews the pages
on the way to its field, and the table after the write shares every other page with the table
before. A page keeps its mark for life, so pages of one mark are one page.

`Paging.passed` says which fields a comparison of two tables passes over, because it meets them on
a page that both tables share.
-/
namespace TypedTrees

/-- A part of a page: a field, or a page below with its mark and parts. Which field it is follows
from its place among all the fields of the table. -/
inductive Part where
  | field
  | page (mark : Nat) (parts : List Part)

namespace Part

mutual

/-- How many fields the part holds, with those on pages below. -/
def size : Part → Nat
  | field => 1
  | page _ parts => count parts

def count : List Part → Nat
  | [] => 0
  | part :: rest => part.size + count rest

end

/-- How many fields stand directly among the parts. -/
def own : List Part → Nat
  | [] => 0
  | field :: rest => own rest + 1
  | page .. :: rest => own rest

/-- How many fields come before the first that stands directly among the parts. -/
def lead : List Part → Nat
  | [] => 0
  | field :: _ => 0
  | page _ parts :: rest => count parts + lead rest

/-- The most fields that one page has of its own. -/
def capacity : Nat := 64

/-- The parts on a new page. If they are too many for one, they are divided between two new pages
on either side of the middle field. -/
def settle (parts : List Part) : Fresh (List Part) := fun supply =>
  if own parts ≤ capacity then
    let (mark, supply) := supply.draw
    ([page mark parts], supply)
  else
    let middle := parts.length / 2
    let (left, supply) := supply.draw
    let (right, supply) := supply.draw
    (page left (parts.take middle) ::
      ((parts.drop middle).take 1 ++ [page right (parts.drop (middle + 1))]), supply)

/-- Whether a new field with `position` fields before it goes in at this part: right before a
field, or anywhere on a page. -/
def admits (position : Nat) : Part → Bool
  | field => position == 0
  | page _ parts => position ≤ count parts

mutual

/-- What takes the place of a part once it admits a new field. -/
def enlarge (position : Nat) : Part → Fresh (List Part)
  | field, supply => ([field, field], supply)
  | page _ parts, supply =>
    let (parts, supply) := insert position parts supply
    settle parts supply

/-- The parts with one more field, which has `position` fields before it. It is put on the lowest
page that has this place. -/
def insert (position : Nat) : List Part → Fresh (List Part)
  | [], supply => ([field], supply)
  | part :: rest, supply =>
    if part.admits position then
      let (parts, supply) := enlarge position part supply
      (parts ++ rest, supply)
    else
      let (rest, supply) := insert (position - part.size) rest supply
      (part :: rest, supply)

end

mutual

/-- The part that takes the place of one in which a field is written. -/
def replace (position : Nat) : Part → Fresh Part
  | field, supply => (field, supply)
  | page _ parts, supply =>
    let (parts, supply) := renew position parts supply
    let (mark, supply) := supply.draw
    (page mark parts, supply)

/-- The parts with new pages on the way to the field that has `position` fields before it. -/
def renew (position : Nat) : List Part → Fresh (List Part)
  | [], supply => ([], supply)
  | part :: rest, supply =>
    if position < part.size then
      let (part, supply) := replace position part supply
      (part :: rest, supply)
    else
      let (rest, supply) := renew (position - part.size) rest supply
      (part :: rest, supply)

end

theorem count_append (as bs : List Part) : count (as ++ bs) = count as + count bs := by
  induction as with
  | nil => simp [count]
  | cons part rest ih => simp only [List.cons_append, count, ih, Nat.add_assoc]

/-- Putting parts on new pages loses no field and adds none. -/
theorem count_settle (parts : List Part) (supply : Supply) :
    count (settle parts supply).1 = count parts := by
  simp only [settle]
  split
  · simp [count, size]
  · have whole := congrArg count (List.take_append_drop (parts.length / 2) parts)
    have tail := congrArg count (List.take_append_drop 1 (parts.drop (parts.length / 2)))
    rw [count_append] at whole tail
    rw [List.drop_drop] at tail
    simp only [count, size, count_append]
    omega

mutual

theorem count_enlarge (position : Nat) (part : Part) (supply : Supply) :
    count (enlarge position part supply).1 = part.size + 1 := by
  cases part with
  | field => simp [enlarge, count, size]
  | page mark parts => simp only [enlarge, count_settle, count_insert, size]

/-- An insertion adds one field. -/
theorem count_insert (position : Nat) (parts : List Part) (supply : Supply) :
    count (insert position parts supply).1 = count parts + 1 := by
  cases parts with
  | nil => simp [insert, count, size]
  | cons part rest =>
    simp only [insert]
    split
    · simp only [count_append, count_enlarge, count]
      omega
    · simp only [count, count_insert]
      omega

end

mutual

theorem size_replace (position : Nat) (part : Part) (supply : Supply) :
    (replace position part supply).1.size = part.size := by
  cases part with
  | field => simp [replace]
  | page mark parts => simp only [replace, size, count_renew]

/-- Renewing pages keeps the number of fields. -/
theorem count_renew (position : Nat) (parts : List Part) (supply : Supply) :
    count (renew position parts supply).1 = count parts := by
  cases parts with
  | nil => simp [renew]
  | cons part rest =>
    simp only [renew]
    split
    · simp only [count, size_replace]
    · simp only [count, count_renew]

end

mutual

/-- How many steps it takes to open a part down to its fields. -/
def opening : Part → Nat
  | field => 1
  | page _ parts => steps parts + 1

/-- How many steps it takes to open several parts down to their fields. -/
def steps : List Part → Nat
  | [] => 0
  | part :: rest => part.opening + steps rest

end

theorem steps_append (as bs : List Part) : steps (as ++ bs) = steps as + steps bs := by
  induction as with
  | nil => simp [steps]
  | cons part rest ih => simp only [List.cons_append, steps, ih, Nat.add_assoc]

/-- For each field in turn, whether a comparison of two lists of parts passes over it. Two pages
of one mark are passed over together. Of two other pages, the one whose first own field comes first
is opened, or both if neither does, and a page is opened too where the other side has a field. -/
def passed : List Part → List Part → List Bool
  | field :: as, field :: bs => false :: passed as bs
  | field :: as, page _ below :: bs => passed (field :: as) (below ++ bs)
  | page _ below :: as, field :: bs => passed (below ++ as) (field :: bs)
  | page m below :: as, page n below' :: bs =>
    if m = n then List.replicate (count below) true ++ passed as bs
    else if lead below < lead below' then passed (below ++ as) (page n below' :: bs)
    else if lead below' < lead below then passed (page m below :: as) (below' ++ bs)
    else passed (below ++ as) (below' ++ bs)
  | _, _ => []
termination_by as bs => steps as + steps bs
decreasing_by all_goals simp only [steps, opening, steps_append]; omega

end Part

/-- The pages of a field table: the mark and the parts of its outermost page. -/
structure Paging where
  mark : Nat
  parts : List Part

namespace Paging

def empty : Fresh Paging := fun supply =>
  let (mark, supply) := supply.draw
  (⟨mark, []⟩, supply)

/-- The pages once a field is put in after `position` others. -/
def insert (position : Nat) (paging : Paging) : Fresh Paging := fun supply =>
  let (parts, supply) := Part.insert position paging.parts supply
  match Part.settle parts supply with
  | ([.page mark parts], supply) => (⟨mark, parts⟩, supply)
  | (pages, supply) =>
    let (mark, supply) := supply.draw
    (⟨mark, pages⟩, supply)

/-- The pages once the field after `position` others is given a new value. -/
def renew (position : Nat) (paging : Paging) : Fresh Paging := fun supply =>
  let (parts, supply) := Part.renew position paging.parts supply
  let (mark, supply) := supply.draw
  (⟨mark, parts⟩, supply)

/-- For each field in turn, whether a comparison of the two tables passes over it. -/
def passed (a b : Paging) : List Bool :=
  Part.passed [.page a.mark a.parts] [.page b.mark b.parts]

end Paging

end TypedTrees
