/-!
Static types of trees and values: their text, their equality, and when a value of one type may
stand where another is expected. `Ty.accepts` is symmetric: both sides may hold the wildcard.
-/
namespace TypedTrees

/-- The static type of a tree node or of a value. `any` is the wildcard, for places whose shape
is not known in advance; `quoted` is the type of a value that is itself a lambda tree. -/
inductive Ty where
  | any
  | unit
  | bool
  | int
  | float
  | str
  | seq (element : Ty)
  /-- A named record type. -/
  | object (name : String)
  | function (params : List Ty) (ret : Ty)
  | quoted (inner : Ty)
  deriving Inhabited

namespace Ty

mutual

def beq : Ty → Ty → Bool
  | any, any => true
  | unit, unit => true
  | bool, bool => true
  | int, int => true
  | float, float => true
  | str, str => true
  | seq a, seq b => beq a b
  | object a, object b => a == b
  | function ps r, function qs s => beqAll ps qs && beq r s
  | quoted a, quoted b => beq a b
  | _, _ => false

def beqAll : List Ty → List Ty → Bool
  | [], [] => true
  | a :: as, b :: bs => beq a b && beqAll as bs
  | _, _ => false

end

mutual

theorem eq_of_beq : ∀ a b : Ty, beq a b = true → a = b
  | any, b, h => by cases b <;> simp_all [beq]
  | unit, b, h => by cases b <;> simp_all [beq]
  | bool, b, h => by cases b <;> simp_all [beq]
  | int, b, h => by cases b <;> simp_all [beq]
  | float, b, h => by cases b <;> simp_all [beq]
  | str, b, h => by cases b <;> simp_all [beq]
  | seq a, b, h => by
      cases b with
      | seq b => rw [eq_of_beq a b (by simpa [beq] using h)]
      | _ => simp [beq] at h
  | object a, b, h => by
      cases b with
      | object b => rw [show a = b by simpa [beq] using h]
      | _ => simp [beq] at h
  | function ps r, b, h => by
      cases b with
      | function qs s =>
        have both : beqAll ps qs = true ∧ beq r s = true := by simpa [beq] using h
        rw [eq_of_beqAll ps qs both.1, eq_of_beq r s both.2]
      | _ => simp [beq] at h
  | quoted a, b, h => by
      cases b with
      | quoted b => rw [eq_of_beq a b (by simpa [beq] using h)]
      | _ => simp [beq] at h

theorem eq_of_beqAll : ∀ as bs : List Ty, beqAll as bs = true → as = bs
  | [], [], _ => rfl
  | [], _ :: _, h => by simp [beqAll] at h
  | _ :: _, [], h => by simp [beqAll] at h
  | a :: as, b :: bs, h => by
      have both : beq a b = true ∧ beqAll as bs = true := by simpa [beqAll] using h
      rw [eq_of_beq a b both.1, eq_of_beqAll as bs both.2]

end

mutual

theorem beq_self : ∀ a : Ty, beq a a = true
  | any | unit | bool | int | float | str => by simp [beq]
  | seq a => by simp [beq, beq_self a]
  | object _ => by simp [beq]
  | function ps r => by simp [beq, beqAll_self ps, beq_self r]
  | quoted a => by simp [beq, beq_self a]

theorem beqAll_self : ∀ as : List Ty, beqAll as as = true
  | [] => by simp [beqAll]
  | a :: as => by simp [beqAll, beq_self a, beqAll_self as]

end

instance : DecidableEq Ty := fun a b =>
  if h : beq a b = true then isTrue (eq_of_beq a b h)
  else isFalse fun eq => h (eq ▸ beq_self a)

mutual

/-- Whether a value of the second type may be used where the first is expected. The wildcard fits
everything on either side; all other types are compared part by part. -/
def accepts : Ty → Ty → Bool
  | any, _ => true
  | _, any => true
  | unit, unit => true
  | bool, bool => true
  | int, int => true
  | float, float => true
  | str, str => true
  | seq a, seq b => accepts a b
  | object a, object b => a == b
  | function ps r, function qs s => acceptsAll ps qs && accepts r s
  | quoted a, quoted b => accepts a b
  | _, _ => false

def acceptsAll : List Ty → List Ty → Bool
  | [], [] => true
  | a :: as, b :: bs => accepts a b && acceptsAll as bs
  | _, _ => false

end

/-- Parameter and result types of a function type, looking through quotation. -/
def functionParts : Ty → Option (List Ty × Ty)
  | function params ret => some (params, ret)
  | quoted inner => inner.functionParts
  | _ => none

/-- Whether this is the type of a lambda tree held as a value. -/
def isQuoted : Ty → Bool
  | quoted _ => true
  | _ => false

mutual

/-- The written form, such as `fn(int) -> [str]`. -/
def text : Ty → String
  | any => "any"
  | unit => "()"
  | bool => "bool"
  | int => "int"
  | float => "float"
  | str => "str"
  | seq element => "[" ++ element.text ++ "]"
  | object name => name
  | function params ret => "fn(" ++ ", ".intercalate (texts params) ++ ") -> " ++ ret.text
  | quoted inner => "quote<" ++ inner.text ++ ">"

def texts : List Ty → List String
  | [] => []
  | t :: ts => t.text :: texts ts

end

end Ty

end TypedTrees
