import TypedTrees.Ty
/-!
Refinement of types: a type refines another if it can be had from it by putting some type in the
place of each wildcard, a different one at each place if need be. An exact type has no wildcard
left, so nothing but itself refines it.
-/
namespace TypedTrees

namespace Ty

mutual

def isExact : Ty → Bool
  | any => false
  | seq element => element.isExact
  | function params ret => areExact params && ret.isExact
  | quoted inner => inner.isExact
  | _ => true

def areExact : List Ty → Bool
  | [] => true
  | t :: ts => t.isExact && areExact ts

end

mutual

/-- `Refines fine coarse` when filling in the wildcards of `coarse` gives `fine`. -/
inductive Refines : Ty → Ty → Prop where
  | any (fine : Ty) : Refines fine any
  | unit : Refines unit unit
  | bool : Refines bool bool
  | int : Refines int int
  | float : Refines float float
  | str : Refines str str
  | seq {fine coarse : Ty} : Refines fine coarse → Refines (seq fine) (seq coarse)
  | object (name : String) : Refines (object name) (object name)
  | function {ps qs : List Ty} {r s : Ty} :
      AllRefine ps qs → Refines r s → Refines (function ps r) (function qs s)
  | quoted {fine coarse : Ty} : Refines fine coarse → Refines (quoted fine) (quoted coarse)

inductive AllRefine : List Ty → List Ty → Prop where
  | nil : AllRefine [] []
  | cons {p q : Ty} {ps qs : List Ty} :
      Refines p q → AllRefine ps qs → AllRefine (p :: ps) (q :: qs)

end

end Ty

end TypedTrees
