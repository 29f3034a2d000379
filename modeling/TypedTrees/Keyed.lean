/-!
Association lists in increasing key order, for record fields and for environments. The order is
kept by `Keyed.insert`, so two lists that hold the same entries are equal lists.
-/
namespace TypedTrees

namespace Keyed

variable {κ ν : Type} [LT κ] [DecidableLT κ]

/-- The entries with `key` bound to `value`, in key order. An entry of the same key is replaced. -/
def insert (key : κ) (value : ν) : List (κ × ν) → List (κ × ν)
  | [] => [(key, value)]
  | entry :: rest =>
    if key < entry.1 then (key, value) :: entry :: rest
    else if entry.1 < key then entry :: insert key value rest
    else (key, value) :: rest

/-- The entries with each of the given pairs bound in turn, so that a later pair wins. -/
def insertAll (pairs : List (κ × ν)) (entries : List (κ × ν)) : List (κ × ν) :=
  pairs.foldl (fun acc pair => insert pair.1 pair.2 acc) entries

section Lookup

variable [BEq κ] [LawfulBEq κ] [Std.Irrefl (α := κ) (· < ·)] [Std.Trichotomous (α := κ) (· < ·)]

/-- Looking up after an insertion gives the new value under its own key, and under any other key
what there was before. -/
theorem lookup_insert (key other : κ) (value : ν) (entries : List (κ × ν)) :
    (insert key value entries).lookup other =
      if other == key then some value else entries.lookup other := by
  induction entries with
  | nil =>
    simp only [insert, List.lookup_cons]
    cases other == key <;> rfl
  | cons entry rest ih =>
    obtain ⟨first, old⟩ := entry
    simp only [insert]
    split
    · rw [List.lookup_cons]
      cases other == key <;> rfl
    · split
      · rename_i before
        rw [List.lookup_cons, List.lookup_cons, ih]
        by_cases eq : other = key
        · subst eq
          have differs : (other == first) = false := by
            simp only [beq_eq_false_iff_ne, ne_eq]
            rintro rfl
            exact Std.Irrefl.irrefl _ before
          simp [differs]
        · have differs : (other == key) = false := by simpa using eq
          simp [differs]
      · rename_i notBefore notAfter
        have same : key = first := Std.Trichotomous.trichotomous _ _ notBefore notAfter
        subst same
        rw [List.lookup_cons, List.lookup_cons]
        cases other == key <;> rfl

omit [LT κ] [DecidableLT κ] [Std.Irrefl (α := κ) (· < ·)] [Std.Trichotomous (α := κ) (· < ·)] in
theorem mem_of_lookup {key : κ} {value : ν} {entries : List (κ × ν)}
    (found : entries.lookup key = some value) : (key, value) ∈ entries := by
  obtain ⟨before, rest, rfl, -⟩ := List.lookup_eq_some_iff.mp found
  exact List.mem_append_right before (.head rest)

end Lookup

theorem mem_of_mem_insert {key : κ} {value : ν} {entry : κ × ν} {entries : List (κ × ν)}
    (member : entry ∈ insert key value entries) : entry = (key, value) ∨ entry ∈ entries := by
  induction entries with
  | nil => simpa [insert] using member
  | cons first rest ih =>
    simp only [insert] at member
    split at member
    · simpa using member
    · split at member
      · rcases List.mem_cons.mp member with atFirst | inRest
        · exact .inr (by simp [atFirst])
        · rcases ih inRest with new | old
          · exact .inl new
          · exact .inr (.tail _ old)
      · rcases List.mem_cons.mp member with new | inRest
        · exact .inl new
        · exact .inr (.tail _ inRest)

theorem mem_of_mem_insertAll {entry : κ × ν} {pairs entries : List (κ × ν)}
    (member : entry ∈ insertAll pairs entries) : entry ∈ pairs ∨ entry ∈ entries := by
  induction pairs generalizing entries with
  | nil => exact .inr member
  | cons pair rest ih =>
    rcases ih member with inRest | inserted
    · exact .inl (.tail _ inRest)
    · rcases mem_of_mem_insert inserted with rfl | old
      · exact .inl (.head _)
      · exact .inr old

/-- Insertion keeps the order of the keys. -/
theorem pairwise_insert [Trans (α := κ) (· < ·) (· < ·) (· < ·)]
    [Std.Trichotomous (α := κ) (· < ·)] (key : κ) (value : ν) {entries : List (κ × ν)}
    (sorted : entries.Pairwise fun a b => a.1 < b.1) :
    (insert key value entries).Pairwise fun a b => a.1 < b.1 := by
  induction sorted with
  | nil => simp [insert]
  | @cons first rest below sorted ih =>
    simp only [insert]
    split
    · rename_i before
      refine .cons (fun entry member => ?_) (.cons below sorted)
      rcases List.mem_cons.mp member with atFirst | inRest
      · exact atFirst ▸ before
      · exact Trans.trans before (below entry inRest)
    · split
      · rename_i after
        refine .cons (fun entry member => ?_) ih
        rcases mem_of_mem_insert member with new | old
        · exact new ▸ after
        · exact below entry old
      · rename_i notBefore notAfter
        have same : key = first.1 := Std.Trichotomous.trichotomous _ _ notBefore notAfter
        exact .cons (fun entry member => same ▸ below entry member) sorted

end Keyed

end TypedTrees
