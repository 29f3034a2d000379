import TypedTrees.Ty.Refinement
/-!
Compatibility of types is having a common instance: one type is accepted where another is expected
exactly when some exact type refines both (`Ty.accepts_iff_common_instance`). That the check is
reflexive and symmetric, and that to refine a type can cost it acceptance but never gain any, then
follows from the laws of refinement: it is a preorder, and every type has an exact refinement.
-/
namespace TypedTrees

namespace Ty

/-! ### The order of refinement -/

mutual

theorem Refines.refl (ty : Ty) : Refines ty ty := by
  cases ty with
  | seq element => exact .seq (.refl element)
  | object name => exact .object name
  | function params ret => exact .function (.refl params) (.refl ret)
  | quoted inner => exact .quoted (.refl inner)
  | _ => constructor
termination_by structural ty

theorem AllRefine.refl (tys : List Ty) : AllRefine tys tys := by
  cases tys with
  | nil => exact .nil
  | cons ty tys => exact .cons (.refl ty) (.refl tys)
termination_by structural tys

end

mutual

-- by recursion on the coarsest type, as neither derivation is left whole

theorem Refines.trans {a b c : Ty} (first : Refines a b) (second : Refines b c) : Refines a c := by
  cases c with
  | any => exact .any a
  | seq =>
    cases second with
    | seq second =>
      cases first with
      | seq first => exact .seq (first.trans second)
  | function =>
    cases second with
    | function params ret =>
      cases first with
      | function params' ret' => exact .function (params'.trans params) (ret'.trans ret)
  | quoted =>
    cases second with
    | quoted second =>
      cases first with
      | quoted first => exact .quoted (first.trans second)
  | _ =>
    cases second
    exact first
termination_by structural c

theorem AllRefine.trans {as bs cs : List Ty} (first : AllRefine as bs) (second : AllRefine bs cs) :
    AllRefine as cs := by
  cases cs with
  | nil =>
    cases second
    exact first
  | cons c cs =>
    cases second with
    | cons head tail =>
      cases first with
      | cons head' tail' => exact .cons (head'.trans head) (tail'.trans tail)
termination_by structural cs

end

mutual

theorem exists_isExact (ty : Ty) : ∃ c, c.isExact = true ∧ Refines c ty := by
  cases ty with
  | any => exact ⟨unit, rfl, .any unit⟩
  | seq element =>
    obtain ⟨c, exactly, refines⟩ := exists_isExact element
    exact ⟨seq c, exactly, .seq refines⟩
  | function params ret =>
    obtain ⟨cs, allExactly, refine⟩ := exists_areExact params
    obtain ⟨c, exactly, refines⟩ := exists_isExact ret
    exact ⟨function cs c, by rw [isExact, allExactly, exactly, Bool.and_self],
      .function refine refines⟩
  | quoted inner =>
    obtain ⟨c, exactly, refines⟩ := exists_isExact inner
    exact ⟨quoted c, exactly, .quoted refines⟩
  | _ => exact ⟨_, rfl, .refl _⟩
termination_by structural ty

theorem exists_areExact (tys : List Ty) : ∃ cs, areExact cs = true ∧ AllRefine cs tys := by
  cases tys with
  | nil => exact ⟨[], rfl, .nil⟩
  | cons ty tys =>
    obtain ⟨c, exactly, refines⟩ := exists_isExact ty
    obtain ⟨cs, allExactly, refine⟩ := exists_areExact tys
    exact ⟨c :: cs, by rw [areExact, exactly, allExactly, Bool.and_self], .cons refines refine⟩
termination_by structural tys

end

/-! ### Refinements in common -/

theorem accepts_any (ty : Ty) : ty.accepts any = true := by
  cases ty <;> rfl

mutual

theorem accepts_of_refines {a b c : Ty} (left : Refines c a) (right : Refines c b) :
    a.accepts b = true := by
  cases left with
  | any => rw [accepts]
  | seq left =>
    cases right with
    | any => exact accepts_any _
    | seq right =>
      rw [accepts]
      exact accepts_of_refines left right
  | object name =>
    cases right with
    | any => exact accepts_any _
    | object => exact beq_self_eq_true name
  | function params ret =>
    cases right with
    | any => exact accepts_any _
    | function params' ret' =>
      rw [accepts, acceptsAll_of_allRefine params params', accepts_of_refines ret ret',
        Bool.and_self]
  | quoted left =>
    cases right with
    | any => exact accepts_any _
    | quoted right =>
      rw [accepts]
      exact accepts_of_refines left right
  | _ => cases right <;> rfl
termination_by sizeOf c

theorem acceptsAll_of_allRefine {as bs cs : List Ty} (left : AllRefine cs as)
    (right : AllRefine cs bs) : acceptsAll as bs = true := by
  cases left with
  | nil =>
    cases right with
    | nil => rfl
  | cons head tail =>
    cases right with
    | cons head' tail' =>
      rw [acceptsAll, accepts_of_refines head head', acceptsAll_of_allRefine tail tail',
        Bool.and_self]
termination_by sizeOf cs

end

mutual

/-- Where one of two compatible types is the wildcard, the other refines both. Elsewhere they are of
one kind, and the refinement is put together from those of the parts. -/
theorem exists_refines_of_accepts {a b : Ty} (accepted : a.accepts b = true) :
    ∃ c, Refines c a ∧ Refines c b := by
  by_cases wild : b = any
  · rw [wild]
    exact ⟨a, .refl a, .any a⟩
  by_cases same : a = b
  · rw [same]
    exact ⟨b, .refl b, .refl b⟩
  cases a with
  | any => exact ⟨b, .any b, .refl b⟩
  | seq element =>
    cases b with
    | seq other =>
      rw [accepts] at accepted
      obtain ⟨c, left, right⟩ := exists_refines_of_accepts accepted
      exact ⟨seq c, .seq left, .seq right⟩
    | _ => simp_all [accepts]
  | function params ret =>
    cases b with
    | function others other =>
      rw [accepts, Bool.and_eq_true] at accepted
      obtain ⟨cs, lefts, rights⟩ := exists_allRefine_of_acceptsAll accepted.1
      obtain ⟨c, left, right⟩ := exists_refines_of_accepts accepted.2
      exact ⟨function cs c, .function lefts left, .function rights right⟩
    | _ => simp_all [accepts]
  | quoted inner =>
    cases b with
    | quoted other =>
      rw [accepts] at accepted
      obtain ⟨c, left, right⟩ := exists_refines_of_accepts accepted
      exact ⟨quoted c, .quoted left, .quoted right⟩
    | _ => simp_all [accepts]
  -- without parts, a type is compatible with nothing but itself and the wildcard
  | _ => cases b <;> simp_all [accepts]
termination_by structural a

theorem exists_allRefine_of_acceptsAll {as bs : List Ty} (accepted : acceptsAll as bs = true) :
    ∃ cs, AllRefine cs as ∧ AllRefine cs bs := by
  cases as with
  | nil =>
    cases bs with
    | nil => exact ⟨[], .nil, .nil⟩
    | cons b bs => cases accepted
  | cons a as =>
    cases bs with
    | nil => cases accepted
    | cons b bs =>
      rw [acceptsAll, Bool.and_eq_true] at accepted
      obtain ⟨c, left, right⟩ := exists_refines_of_accepts accepted.1
      obtain ⟨cs, lefts, rights⟩ := exists_allRefine_of_acceptsAll accepted.2
      exact ⟨c :: cs, .cons left lefts, .cons right rights⟩
termination_by structural as

end

/-- Types are compatible when a type refines both, be it exact or not. -/
theorem accepts_iff_exists_refines {a b : Ty} :
    a.accepts b = true ↔ ∃ c, Refines c a ∧ Refines c b :=
  ⟨exists_refines_of_accepts, fun ⟨_, left, right⟩ => accepts_of_refines left right⟩

theorem accepts_refl (ty : Ty) : ty.accepts ty = true :=
  accepts_of_refines (.refl ty) (.refl ty)

theorem accepts_comm (a b : Ty) : a.accepts b = b.accepts a := by
  rw [Bool.eq_iff_iff, accepts_iff_exists_refines, accepts_iff_exists_refines]
  simp only [and_comm]

/-- What finer types accept, coarser ones do. -/
theorem accepts_of_finer {a b a' b' : Ty} (left : Refines a' a) (right : Refines b' b)
    (accepted : a'.accepts b' = true) : a.accepts b = true := by
  obtain ⟨c, left', right'⟩ := exists_refines_of_accepts accepted
  exact accepts_of_refines (left'.trans left) (right'.trans right)

/-! ### Refinements that exclude each other -/

mutual

/-- A wildcard stands for types that are not compatible. -/
theorem exists_incompatible {ty : Ty} (inexact : ty.isExact = false) :
    ∃ fine other, Refines fine ty ∧ Refines other ty ∧ fine.accepts other = false := by
  cases ty with
  | any => exact ⟨unit, bool, .any unit, .any bool, rfl⟩
  | seq element =>
    rw [isExact] at inexact
    obtain ⟨fine, other, left, right, apart⟩ := exists_incompatible inexact
    exact ⟨seq fine, seq other, .seq left, .seq right, apart⟩
  | function params ret =>
    rw [isExact, Bool.and_eq_false_iff] at inexact
    rcases inexact with inexact | inexact
    · obtain ⟨fines, others, lefts, rights, apart⟩ := exists_allIncompatible inexact
      exact ⟨function fines ret, function others ret, .function lefts (.refl ret),
        .function rights (.refl ret), by rw [accepts, apart, Bool.false_and]⟩
    · obtain ⟨fine, other, left, right, apart⟩ := exists_incompatible inexact
      exact ⟨function params fine, function params other, .function (.refl params) left,
        .function (.refl params) right, by rw [accepts, apart, Bool.and_false]⟩
  | quoted inner =>
    rw [isExact] at inexact
    obtain ⟨fine, other, left, right, apart⟩ := exists_incompatible inexact
    exact ⟨quoted fine, quoted other, .quoted left, .quoted right, apart⟩
  | _ => cases inexact
termination_by structural ty

theorem exists_allIncompatible {tys : List Ty} (inexact : areExact tys = false) :
    ∃ fines others, AllRefine fines tys ∧ AllRefine others tys ∧
      acceptsAll fines others = false := by
  cases tys with
  | nil => cases inexact
  | cons ty tys =>
    rw [areExact, Bool.and_eq_false_iff] at inexact
    rcases inexact with inexact | inexact
    · obtain ⟨fine, other, left, right, apart⟩ := exists_incompatible inexact
      exact ⟨fine :: tys, other :: tys, .cons left (.refl tys), .cons right (.refl tys),
        by rw [acceptsAll, apart, Bool.false_and]⟩
    · obtain ⟨fines, others, lefts, rights, apart⟩ := exists_allIncompatible inexact
      exact ⟨ty :: fines, ty :: others, .cons (.refl ty) lefts, .cons (.refl ty) rights,
        by rw [acceptsAll, apart, Bool.and_false]⟩
termination_by structural tys

end

/-! ### Compatibility -/

/-- Types are compatible if and only if there is an exact type that both can be refined to. So every
type is compatible with itself, the order of the two does not matter, and what is rejected stays
rejected whatever is put in the place of wildcards on either side; but wherever there is a wildcard,
something can be put there with which a type that was accepted is no longer. -/
theorem accepts_iff_common_instance (a b : Ty) :
    (a.accepts b = true ↔ ∃ c, c.isExact = true ∧ Refines c a ∧ Refines c b) ∧
    a.accepts a = true ∧ a.accepts b = b.accepts a ∧
    (∀ a' b', Refines a' a → Refines b' b → a'.accepts b' = true → a.accepts b = true) ∧
    (a.isExact = false → ∃ a' c, Refines a' a ∧ a.accepts c = true ∧ a'.accepts c = false) := by
  refine ⟨⟨fun accepted => ?_, ?_⟩, accepts_refl a, accepts_comm a b,
    fun a' b' => accepts_of_finer, fun inexact => ?_⟩
  · obtain ⟨shared, left, right⟩ := exists_refines_of_accepts accepted
    obtain ⟨c, exactly, refines⟩ := exists_isExact shared
    exact ⟨c, exactly, refines.trans left, refines.trans right⟩
  · rintro ⟨c, -, left, right⟩
    exact accepts_of_refines left right
  · obtain ⟨fine, other, left, right, apart⟩ := exists_incompatible inexact
    exact ⟨fine, other, left, accepts_of_refines right (.refl other), apart⟩

namespace HolderTypes

/-- The type `fn([any], str) -> quote<any>`. -/
def holder : Ty := function [seq any, str] (quoted any)

/-- The type `fn([any], str) -> quote<fn(any) -> bool>`. -/
def predicateHolder : Ty := function [seq any, str] (quoted (function [any] bool))

/-- The type `fn([int], any) -> any`. -/
def given : Ty := function [seq int, any] any

/-- The type `fn([int], any) -> quote<any>`. -/
def givenTree : Ty := function [seq int, any] (quoted any)

end HolderTypes

open HolderTypes in
/-- A holder of trees and what it is given, each refined part of the way. -/
theorem accepts_iff_common_instance_holder :
    Refines predicateHolder holder ∧ Refines givenTree given ∧
    predicateHolder.accepts givenTree = true ∧ holder.accepts given = true ∧
    holder.isExact = false ∧
    ∃ a' c, Refines a' holder ∧ holder.accepts c = true ∧ a'.accepts c = false := by
  obtain ⟨-, -, -, coarser, loses⟩ := accepts_iff_common_instance holder given
  have left : Refines predicateHolder holder := .function (.refl _) (.quoted (.any _))
  have right : Refines givenTree given := .function (.refl _) (.any _)
  exact ⟨left, right, rfl, coarser _ _ left right rfl, rfl, loses rfl⟩

example :
    (function [object "A"] (object "B")).accepts (function [any] (object "B")) = true ∧
      (function [object "A"] (object "B")).accepts (function [int] (object "B")) = false := by
  decide

end Ty

end TypedTrees
