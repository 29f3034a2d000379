import TypedTrees.Tree
/-!
Structural equality of trees and values. Marks do not count, and symbols are compared by identity.
Numbers compare as numbers do, so a NaN differs from itself, with one exception: of two records,
the fields on pages that both are found to share are equal whatever they hold.

A value on a shared page may be huge, so it is not gone through there: one and the same value is
equal to itself at once.
-/
namespace TypedTrees

/-- Whether two lists of parameters are the same parameters in the same order. -/
def sameParameters : List Parameter → List Parameter → Bool
  | [], [] => true
  | p :: ps, q :: qs => p.same q && sameParameters ps qs
  | _, _ => false

def Callee.same : Callee → Callee → Bool
  | .function f, .function g => f.same g
  | .invoke a, .invoke b => a == b
  | _, _ => false

mutual

/-- Equality of values, where `onPage` compares two values on a shared page. Without it pages do
not matter and equal bits make numbers equal, so that every value is equal to itself. -/
def Value.alike (onPage : Option (Value → Value → Bool)) : Value → Value → Bool
  | .null, .null => true
  | .unit, .unit => true
  | .bool a, .bool b => a == b
  | .int a, .int b => a == b
  | .float x, .float y => x == y || (onPage.isNone && x.toBits == y.toBits)
  | .str s, .str t => s == t
  | .seq as, .seq bs => as.length == bs.length && Value.allAlike onPage as bs
  | .record s ⟨p, as⟩, .record t ⟨q, bs⟩ =>
    s == t && as.length == bs.length && Value.fieldsAlike onPage (p.passed q) as bs
  | .tree l, .tree k => Lambda.alike onPage l k
  | .closure l env, .closure k env' =>
    env.length == env'.length && Lambda.alike onPage l k && Value.bindingsAlike onPage env env'
  | _, _ => false
termination_by structural a => a

def Value.allAlike (onPage : Option (Value → Value → Bool)) : List Value → List Value → Bool
  | [], [] => true
  | a :: as, b :: bs => Value.alike onPage a b && Value.allAlike onPage as bs
  | _, _ => false
termination_by structural a => a

/-- Equality of fields, where `passed` says of each in turn whether it is on a shared page. Both
sides are in name order. -/
def Value.fieldsAlike (onPage : Option (Value → Value → Bool)) (passed : List Bool) :
    List (String × Value) → List (String × Value) → Bool
  | [], [] => true
  | (s, a) :: as, (t, b) :: bs =>
    s == t &&
      (match onPage, passed.headD false with
        | some compare, true => compare a b
        | onPage, _ => Value.alike onPage a b) &&
      Value.fieldsAlike onPage passed.tail as bs
  | _, _ => false
termination_by structural a => a

/-- Equality of environments. Both are in order of identity. -/
def Value.bindingsAlike (onPage : Option (Value → Value → Bool)) :
    List (Nat × Value) → List (Nat × Value) → Bool
  | [], [] => true
  | (i, a) :: as, (j, b) :: bs =>
    i == j && Value.alike onPage a b && Value.bindingsAlike onPage as bs
  | _, _ => false
termination_by structural a => a

def Lambda.alike (onPage : Option (Value → Value → Bool)) : Lambda → Lambda → Bool
  | .mk ps body ret, .mk qs body' ret' =>
    sameParameters ps qs && ret == ret' && Node.alike onPage body body'
termination_by structural l => l

def Node.alike (onPage : Option (Value → Value → Bool)) : Node → Node → Bool
  | .mk _ a, .mk _ b => Expr.alike onPage a b
termination_by structural a => a

/-- Equality of nodes of any kind. What takes no descent is compared first. -/
def Expr.alike (onPage : Option (Value → Value → Bool)) : Expr → Expr → Bool
  | .parameter p, .parameter q => p.same q
  | .constant v ty, .constant w ty' => ty == ty' && Value.alike onPage v w
  | .member none m, .member none n => m.same n
  | .member (some t) m, .member (some u) n => m.same n && Node.alike onPage t u
  | .call none c as ty, .call none d bs ty' =>
    c.same d && ty == ty' && as.length == bs.length && Node.allAlike onPage as bs
  | .call (some r) c as ty, .call (some s) d bs ty' =>
    c.same d && ty == ty' && as.length == bs.length &&
      Node.alike onPage r s && Node.allAlike onPage as bs
  | .lambda l, .lambda k => Lambda.alike onPage l k
  | .unary op n ty, .unary op' n' ty' => op == op' && ty == ty' && Node.alike onPage n n'
  | .binary op l r ty, .binary op' l' r' ty' =>
    op == op' && ty == ty' && Node.alike onPage l l' && Node.alike onPage r r'
  | .condition t a b ty, .condition t' a' b' ty' =>
    ty == ty' && Node.alike onPage t t' && Node.alike onPage a a' && Node.alike onPage b b'
  | .record s fs, .record t gs =>
    s == t && fs.length == gs.length && Node.fieldsAlike onPage fs gs
  | .setMember t m v, .setMember t' n v' =>
    m.same n && Node.alike onPage t t' && Node.alike onPage v v'
  | _, _ => false
termination_by structural a => a

def Node.allAlike (onPage : Option (Value → Value → Bool)) : List Node → List Node → Bool
  | [], [] => true
  | a :: as, b :: bs => Node.alike onPage a b && Node.allAlike onPage as bs
  | _, _ => false
termination_by structural a => a

/-- Equality of field lists of record constructions, in the order they are written. -/
def Node.fieldsAlike (onPage : Option (Value → Value → Bool)) :
    List (String × Node) → List (String × Node) → Bool
  | [], [] => true
  | (s, a) :: as, (t, b) :: bs =>
    s == t && Node.alike onPage a b && Node.fieldsAlike onPage as bs
  | _, _ => false
termination_by structural a => a

end

theorem sameParameters_self (params : List Parameter) : sameParameters params params = true := by
  induction params with
  | nil => rfl
  | cons param rest ih => simp [sameParameters, Parameter.same, ih]

theorem Callee.same_self (callee : Callee) : callee.same callee = true := by
  cases callee <;> simp [Callee.same, Function.same]

mutual

/-- Where pages do not matter, every value is equal to itself, a NaN included. -/
theorem Value.alike_none_self (v : Value) : Value.alike none v v = true := by
  cases v with
  | record typeName table =>
    obtain ⟨pages, fields⟩ := table
    simp [Value.alike, Value.fieldsAlike_none_self]
  | seq items => simp [Value.alike, Value.allAlike_none_self]
  | tree lambda => simp [Value.alike, Lambda.alike_none_self]
  | closure lambda env =>
    simp [Value.alike, Lambda.alike_none_self, Value.bindingsAlike_none_self]
  | _ => simp [Value.alike]

theorem Value.allAlike_none_self (vs : List Value) : Value.allAlike none vs vs = true := by
  cases vs with
  | nil => rfl
  | cons v rest => simp [Value.allAlike, Value.alike_none_self, Value.allAlike_none_self]

theorem Value.fieldsAlike_none_self (passed : List Bool) (fields : List (String × Value)) :
    Value.fieldsAlike none passed fields fields = true := by
  cases fields with
  | nil => rfl
  | cons field rest =>
    obtain ⟨name, v⟩ := field
    simp [Value.fieldsAlike, Value.alike_none_self, Value.fieldsAlike_none_self]

theorem Value.bindingsAlike_none_self (env : List (Nat × Value)) :
    Value.bindingsAlike none env env = true := by
  cases env with
  | nil => rfl
  | cons binding rest =>
    obtain ⟨id, v⟩ := binding
    simp [Value.bindingsAlike, Value.alike_none_self, Value.bindingsAlike_none_self]

theorem Lambda.alike_none_self (lambda : Lambda) : Lambda.alike none lambda lambda = true := by
  obtain ⟨params, body, ret⟩ := lambda
  simp [Lambda.alike, sameParameters_self, Node.alike_none_self]

theorem Node.alike_none_self (node : Node) : Node.alike none node node = true := by
  obtain ⟨mark, expr⟩ := node
  simp [Node.alike, Expr.alike_none_self]

theorem Expr.alike_none_self (expr : Expr) : Expr.alike none expr expr = true := by
  cases expr with
  | parameter param => simp [Expr.alike, Parameter.same]
  | constant value ty => simp [Expr.alike, Value.alike_none_self]
  | member target member =>
    cases target <;> simp [Expr.alike, Member.same, Node.alike_none_self]
  | call receiver callee args ty =>
    cases receiver <;>
      simp [Expr.alike, Callee.same_self, Node.alike_none_self, Node.allAlike_none_self]
  | lambda lambda => simp [Expr.alike, Lambda.alike_none_self]
  | unary op operand ty => simp [Expr.alike, Node.alike_none_self]
  | binary op left right ty => simp [Expr.alike, Node.alike_none_self]
  | condition test ifTrue ifFalse ty => simp [Expr.alike, Node.alike_none_self]
  | record typeName fields => simp [Expr.alike, Node.fieldsAlike_none_self]
  | setMember target member value => simp [Expr.alike, Member.same, Node.alike_none_self]

theorem Node.allAlike_none_self (nodes : List Node) : Node.allAlike none nodes nodes = true := by
  cases nodes with
  | nil => rfl
  | cons node rest => simp [Node.allAlike, Node.alike_none_self, Node.allAlike_none_self]

theorem Node.fieldsAlike_none_self (fields : List (String × Node)) :
    Node.fieldsAlike none fields fields = true := by
  cases fields with
  | nil => rfl
  | cons field rest =>
    obtain ⟨name, node⟩ := field
    simp [Node.fieldsAlike, Node.alike_none_self, Node.fieldsAlike_none_self]

end

/-- Whether two values on a shared page hold the same, bit for bit. They do, being one value, and
where they are one in memory too nothing is gone through. -/
def Value.identical (a b : Value) : Bool :=
  withPtrEq a b (fun _ => Value.alike none a b) (fun same => same ▸ Value.alike_none_self a)

instance : BEq Value := ⟨Value.alike (some Value.identical)⟩

instance : BEq Lambda := ⟨Lambda.alike (some Value.identical)⟩

instance : BEq Node := ⟨Node.alike (some Value.identical)⟩

end TypedTrees
