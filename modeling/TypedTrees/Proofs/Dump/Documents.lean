import TypedTrees.Dump
/-!
Dumps as documents. A dump can be written down for other programs where its numbers are finite and
no object has a key twice. That is so of every tree in which no floating point number occurs
(`Node.isDocument_dump`): records have their fields in name order, and different parameters have
different digits.
-/
namespace TypedTrees

/-- The symbols of a program, each under its identity. -/
structure Symbols where
  parameter : Nat → Parameter
  member : Nat → Member
  function : Nat → Function

variable {symbols : Symbols}

namespace Symbols

variable (symbols : Symbols)

def HasParameter (p : Parameter) : Prop := symbols.parameter p.id = p

def HasMember (m : Member) : Prop := symbols.member m.id = m

def HasFunction (f : Function) : Prop := symbols.function f.id = f

end Symbols

variable {symbols : Symbols}

mutual

/-- The dump tells the value in full. The symbols in it are those of the program, its records and
environments are in key order, and there is no floating point number in it. -/
inductive Value.Legible (symbols : Symbols) : Value → Prop
  | null : Value.Legible symbols .null
  | unit : Value.Legible symbols .unit
  | bool (b : Bool) : Value.Legible symbols (.bool b)
  | int (n : Int64) : Value.Legible symbols (.int n)
  | str (s : String) : Value.Legible symbols (.str s)
  | seq {items : List Value} (items' : ∀ v ∈ items, Value.Legible symbols v) :
      Value.Legible symbols (.seq items)
  | record {typeName : String} {table : FieldTable Value}
      (inOrder : table.fields.Pairwise fun a b => a.1 < b.1)
      (fields : ∀ field ∈ table.fields, Value.Legible symbols field.2) :
      Value.Legible symbols (.record typeName table)
  | tree {l : Lambda} (lambda : Lambda.Legible symbols l) : Value.Legible symbols (.tree l)
  | closure {l : Lambda} {env : List (Nat × Value)} (lambda : Lambda.Legible symbols l)
      (inOrder : env.Pairwise fun a b => a.1 < b.1)
      (bindings : ∀ binding ∈ env, Value.Legible symbols binding.2) :
      Value.Legible symbols (.closure l env)

inductive Lambda.Legible (symbols : Symbols) : Lambda → Prop
  | mk {params : List Parameter} {body : Node} {ret : Ty}
      (known : ∀ p ∈ params, symbols.HasParameter p) (body' : Node.Legible symbols body) :
      Lambda.Legible symbols (.mk params body ret)

inductive Node.Legible (symbols : Symbols) : Node → Prop
  | mk {mark : Nat} {expr : Expr} (expr' : Expr.Legible symbols expr) :
      Node.Legible symbols (.mk mark expr)

inductive Expr.Legible (symbols : Symbols) : Expr → Prop
  | parameter {p : Parameter} (known : symbols.HasParameter p) :
      Expr.Legible symbols (.parameter p)
  | constant {v : Value} {ty : Ty} (value : Value.Legible symbols v) :
      Expr.Legible symbols (.constant v ty)
  | member {target : Option Node} {m : Member} (known : symbols.HasMember m)
      (target' : ∀ t ∈ target, Node.Legible symbols t) : Expr.Legible symbols (.member target m)
  | call {receiver : Option Node} {callee : Callee} {args : List Node} {ty : Ty}
      (known : ∀ f, callee = .function f → symbols.HasFunction f)
      (receiver' : ∀ r ∈ receiver, Node.Legible symbols r)
      (args' : ∀ arg ∈ args, Node.Legible symbols arg) :
      Expr.Legible symbols (.call receiver callee args ty)
  | lambda {l : Lambda} (lambda' : Lambda.Legible symbols l) : Expr.Legible symbols (.lambda l)
  | unary {op : UnaryOp} {operand : Node} {ty : Ty} (operand' : Node.Legible symbols operand) :
      Expr.Legible symbols (.unary op operand ty)
  | binary {op : BinaryOp} {left right : Node} {ty : Ty} (left' : Node.Legible symbols left)
      (right' : Node.Legible symbols right) : Expr.Legible symbols (.binary op left right ty)
  | condition {test ifTrue ifFalse : Node} {ty : Ty} (test' : Node.Legible symbols test)
      (ifTrue' : Node.Legible symbols ifTrue) (ifFalse' : Node.Legible symbols ifFalse) :
      Expr.Legible symbols (.condition test ifTrue ifFalse ty)
  | record {typeName : String} {fields : List (String × Node)}
      (fields' : ∀ field ∈ fields, Node.Legible symbols field.2) :
      Expr.Legible symbols (.record typeName fields)
  | setMember {target value : Node} {m : Member} (known : symbols.HasMember m)
      (target' : Node.Legible symbols target) (value' : Node.Legible symbols value) :
      Expr.Legible symbols (.setMember target m value)

end

/-- Data that can be written down as a document: its numbers are finite, and the keys of each of its
objects are in order, so that none is there twice. -/
inductive Dump.IsDocument : Dump → Prop
  | null : IsDocument .null
  | bool (b : Bool) : IsDocument (.bool b)
  | int (n : Int) : IsDocument (.int n)
  | float {x : Float} (finite : x.isFinite = true) : IsDocument (.float x)
  | str (s : String) : IsDocument (.str s)
  | list {items : List Dump} (each : ∀ d ∈ items, IsDocument d) : IsDocument (.list items)
  | object {fields : List (String × Dump)} (inOrder : fields.Pairwise fun a b => a.1 < b.1)
      (each : ∀ field ∈ fields, IsDocument field.2) : IsDocument (.object fields)

theorem Dump.IsDocument.tagged {tag : String} {d : Dump} (document : d.IsDocument) :
    (Dump.tagged tag d).IsDocument :=
  .object (List.pairwise_singleton _ _) (by simpa using document)

/-- An object with these keys, in order, for these parts. -/
theorem Dump.IsDocument.zip (keys : List String) (parts : List Dump)
    (lengths : keys.length = parts.length) (inOrder : keys.Pairwise (· < ·))
    (each : ∀ d ∈ parts, d.IsDocument) :
    (Dump.object (keys.zip parts)).IsDocument := by
  refine .object ?_ fun field member => each _ (List.of_mem_zip member).2
  rw [← List.map_fst_zip (Nat.le_of_eq lengths)] at inOrder
  exact List.pairwise_map.mp inOrder

mutual

theorem Ty.isDocument_dump (t : Ty) : t.dump.IsDocument := by
  cases t with
  | seq element => exact .tagged element.isDocument_dump
  | object name => exact .tagged (.str name)
  | function params ret =>
    refine .tagged (.list ?_)
    simp [Ty.isDocument_dumps params, ret.isDocument_dump]
  | quoted inner => exact .tagged inner.isDocument_dump
  | _ => exact .str _
termination_by structural t

theorem Ty.isDocument_dumps (ts : List Ty) : (Dump.list (Ty.dumps ts)).IsDocument := by
  cases ts with
  | nil => exact .list (List.forall_mem_nil _)
  | cons t ts =>
    cases Ty.isDocument_dumps ts with | list each =>
    exact .list (List.forall_mem_cons.mpr ⟨t.isDocument_dump, each⟩)
termination_by structural ts

end

theorem Parameter.isDocument_dump (p : Parameter) : p.dump.IsDocument := by
  refine .zip ["id", "name", "ty"] [.int p.id, .str p.name, p.ty.dump] rfl (by decide) ?_
  simp [Dump.IsDocument.int, Dump.IsDocument.str, p.ty.isDocument_dump]

theorem Member.isDocument_dump (m : Member) : m.dump.IsDocument := by
  refine .zip ["declaring", "id", "kind", "name", "ty"]
    [.str m.declaring, .int m.id, .str m.kind.tag, .str m.name, m.ty.dump] rfl (by decide) ?_
  simp [Dump.IsDocument.int, Dump.IsDocument.str, m.ty.isDocument_dump]

theorem Function.isDocument_dump (f : Function) : f.dump.IsDocument := by
  have params : (Dump.list (f.params.map FunctionParam.dump)).IsDocument := by
    refine .list (List.forall_mem_map.mpr fun p _ => ?_)
    refine .zip ["mode", "name", "ty"] [.str p.mode.tag, .str p.name, p.ty.dump] rfl (by decide) ?_
    simp [Dump.IsDocument.str, p.ty.isDocument_dump]
  have receiver : ((f.receiver.map Ty.dump).getD .null).IsDocument := by
    cases f.receiver with
    | none => exact .null
    | some ty => exact ty.isDocument_dump
  refine .zip ["id", "name", "native", "params", "receiver", "ret"]
    [.int f.id, .str f.name, .bool f.native.isSome, _, _, f.ret.dump] rfl (by decide) ?_
  simp [Dump.IsDocument.int, Dump.IsDocument.str, Dump.IsDocument.bool, params, receiver,
    f.ret.isDocument_dump]

theorem Callee.isDocument_dump (callee : Callee) : callee.dump.IsDocument := by
  cases callee with
  | function f => exact .tagged f.isDocument_dump
  | invoke shape => exact .tagged (.str _)

theorem UnaryOp.isDocument_dump (op : UnaryOp) : op.dump.IsDocument := by
  cases op with
  | convert target => exact .tagged target.isDocument_dump
  | _ => exact .str _

/-- The keys of an object of bindings or fields are in order once they have been inserted. -/
theorem Keyed.pairwise_insertAll {ν : Type} {pairs entries : List (String × ν)}
    (sorted : entries.Pairwise fun a b => a.1 < b.1) :
    (insertAll pairs entries).Pairwise fun a b => a.1 < b.1 := by
  induction pairs generalizing entries with
  | nil => exact sorted
  | cons pair rest ih => exact ih (pairwise_insert pair.1 pair.2 sorted)

theorem Value.fieldDumps_eq_map (fields : List (String × Value)) :
    fieldDumps fields = fields.map fun field => (field.1, field.2.dump) := by
  induction fields with
  | nil => simp [fieldDumps]
  | cons field rest ih => simp [fieldDumps, ih]

theorem Parameter.isDocument_dumps (params : List Parameter) :
    (Dump.list (params.map Parameter.dump)).IsDocument :=
  .list (List.forall_mem_map.mpr fun p _ => p.isDocument_dump)

mutual

theorem Value.isDocument_dump {v : Value} (legible : v.Legible symbols) : v.dump.IsDocument := by
  cases v with
  | seq items =>
    cases legible with | seq each =>
    exact .tagged (.list (Value.isDocument_dumps each))
  | record typeName table =>
    obtain ⟨pages, fields⟩ := table
    cases legible with | record inOrder each =>
    have object : (Dump.object (Value.fieldDumps fields)).IsDocument := by
      refine .object ?_ (Value.isDocument_fieldDumps each)
      rw [Value.fieldDumps_eq_map]
      exact List.pairwise_map.mpr inOrder
    refine .tagged (.zip ["fields", "type_name"] [_, .str typeName] rfl (by decide) ?_)
    simp [object, Dump.IsDocument.str]
  | tree l =>
    cases legible with | tree lambda =>
    exact .tagged (Lambda.isDocument_dump lambda)
  | closure l env =>
    cases legible with | closure lambda _ each =>
    have object : (Dump.object (Keyed.insertAll (Value.bindingDumps env) [])).IsDocument := by
      refine .object (Keyed.pairwise_insertAll .nil) fun field member => ?_
      rcases Keyed.mem_of_mem_insertAll member with bound | none
      · exact Value.isDocument_bindingDumps each field bound
      · cases none
    refine .tagged (.zip ["env", "lambda"] [_, l.dump] rfl (by decide) ?_)
    simp [object, Lambda.isDocument_dump lambda]
  | float x => cases legible
  | null | unit => exact .str _
  | bool b => exact .tagged (.bool b)
  | int n => exact .tagged (.int _)
  | str s => exact .tagged (.str s)
termination_by structural v

theorem Value.isDocument_dumps {vs : List Value} (legible : ∀ v ∈ vs, v.Legible symbols) :
    ∀ d ∈ Value.dumps vs, d.IsDocument := by
  cases vs with
  | nil => exact List.forall_mem_nil _
  | cons v vs =>
    rw [List.forall_mem_cons] at legible
    exact List.forall_mem_cons.mpr
      ⟨Value.isDocument_dump legible.1, Value.isDocument_dumps legible.2⟩
termination_by structural vs

theorem Value.isDocument_fieldDumps {fields : List (String × Value)}
    (legible : ∀ field ∈ fields, field.2.Legible symbols) :
    ∀ field ∈ Value.fieldDumps fields, field.2.IsDocument := by
  cases fields with
  | nil => exact List.forall_mem_nil _
  | cons field rest =>
    obtain ⟨name, v⟩ := field
    rw [List.forall_mem_cons] at legible
    exact List.forall_mem_cons.mpr
      ⟨Value.isDocument_dump legible.1, Value.isDocument_fieldDumps legible.2⟩
termination_by structural fields

theorem Value.isDocument_bindingDumps {env : List (Nat × Value)}
    (legible : ∀ binding ∈ env, binding.2.Legible symbols) :
    ∀ field ∈ Value.bindingDumps env, field.2.IsDocument := by
  cases env with
  | nil => exact List.forall_mem_nil _
  | cons binding rest =>
    obtain ⟨id, v⟩ := binding
    rw [List.forall_mem_cons] at legible
    exact List.forall_mem_cons.mpr
      ⟨Value.isDocument_dump legible.1, Value.isDocument_bindingDumps legible.2⟩
termination_by structural env

theorem Lambda.isDocument_dump {l : Lambda} (legible : l.Legible symbols) :
    l.dump.IsDocument := by
  obtain ⟨params, body, ret⟩ := l
  cases legible with | mk _ legible =>
  refine .zip ["body", "params", "ret"] [body.dump, _, ret.dump] rfl (by decide) ?_
  simp [Node.isDocument_dump legible, Parameter.isDocument_dumps, ret.isDocument_dump]
termination_by structural l

theorem Node.isDocument_dump {node : Node} (legible : node.Legible symbols) :
    node.dump.IsDocument := by
  obtain ⟨mark, expr⟩ := node
  cases legible with | mk legible =>
  exact Expr.isDocument_dump legible
termination_by structural node

theorem Expr.isDocument_dump {expr : Expr} (legible : expr.Legible symbols) :
    expr.dump.IsDocument := by
  cases expr with
  | parameter p =>
    refine .zip ["id", "name", "node", "ty"] [.int p.id, .str p.name, .str "parameter", p.ty.dump]
      rfl (by decide) ?_
    simp [Dump.IsDocument.int, Dump.IsDocument.str, p.ty.isDocument_dump]
  | constant v ty =>
    cases legible with | constant value =>
    refine .zip ["node", "ty", "value"] [.str "constant", ty.dump, v.dump] rfl (by decide) ?_
    simp [Dump.IsDocument.str, ty.isDocument_dump, Value.isDocument_dump value]
  | member target m =>
    cases legible with | member _ each =>
    cases target with
    | none =>
      refine .zip ["member", "node", "target"] [m.dump, .str "member", .null] rfl (by decide) ?_
      simp [Dump.IsDocument.str, Dump.IsDocument.null, m.isDocument_dump]
    | some target =>
      refine .zip ["member", "node", "target"] [m.dump, .str "member", target.dump] rfl
        (by decide) ?_
      simp [Dump.IsDocument.str, m.isDocument_dump, Node.isDocument_dump (each target rfl)]
  | call receiver callee args ty =>
    cases legible with | call _ receivers each =>
    have arguments : (Dump.list (Node.dumps args)).IsDocument :=
      .list (Node.isDocument_dumps each)
    cases receiver with
    | none =>
      refine .zip ["args", "callee", "node", "receiver", "ty"]
        [_, callee.dump, .str "call", .null, ty.dump] rfl (by decide) ?_
      simp [Dump.IsDocument.str, Dump.IsDocument.null, arguments, callee.isDocument_dump,
        ty.isDocument_dump]
    | some receiver =>
      refine .zip ["args", "callee", "node", "receiver", "ty"]
        [_, callee.dump, .str "call", receiver.dump, ty.dump] rfl (by decide) ?_
      simp [Dump.IsDocument.str, arguments, callee.isDocument_dump, ty.isDocument_dump,
        Node.isDocument_dump (receivers receiver rfl)]
  | lambda l =>
    cases legible with | lambda lambda =>
    obtain ⟨params, body, ret⟩ := l
    cases lambda with | mk _ lambda =>
    refine .zip ["body", "node", "params", "ret"] [body.dump, .str "lambda", _, ret.dump] rfl
      (by decide) ?_
    simp [Dump.IsDocument.str, Node.isDocument_dump lambda, Parameter.isDocument_dumps,
      ret.isDocument_dump]
  | unary op operand ty =>
    cases legible with | unary node =>
    refine .zip ["node", "op", "operand", "ty"] [.str "unary", op.dump, operand.dump, ty.dump] rfl
      (by decide) ?_
    simp [Dump.IsDocument.str, op.isDocument_dump, Node.isDocument_dump node, ty.isDocument_dump]
  | binary op left right ty =>
    cases legible with | binary node other =>
    refine .zip ["left", "node", "op", "right", "ty"]
      [left.dump, .str "binary", .str op.tag, right.dump, ty.dump] rfl (by decide) ?_
    simp [Dump.IsDocument.str, Node.isDocument_dump node, Node.isDocument_dump other,
      ty.isDocument_dump]
  | condition test ifTrue ifFalse ty =>
    cases legible with | condition node first second =>
    refine .zip ["if_false", "if_true", "node", "test", "ty"]
      [ifFalse.dump, ifTrue.dump, .str "condition", test.dump, ty.dump] rfl (by decide) ?_
    simp [Dump.IsDocument.str, Node.isDocument_dump node, Node.isDocument_dump first,
      Node.isDocument_dump second, ty.isDocument_dump]
  | record typeName fields =>
    cases legible with | record each =>
    have list : (Dump.list (Node.fieldDumps fields)).IsDocument :=
      .list (Node.isDocument_fieldDumps each)
    refine .zip ["fields", "node", "type_name"] [_, .str "record", .str typeName] rfl
      (by decide) ?_
    simp [Dump.IsDocument.str, list]
  | setMember target m value =>
    cases legible with | setMember _ node other =>
    refine .zip ["member", "node", "target", "value"]
      [m.dump, .str "set_member", target.dump, value.dump] rfl (by decide) ?_
    simp [Dump.IsDocument.str, m.isDocument_dump, Node.isDocument_dump node,
      Node.isDocument_dump other]
termination_by structural expr

theorem Node.isDocument_dumps {nodes : List Node} (legible : ∀ node ∈ nodes, node.Legible symbols) :
    ∀ d ∈ Node.dumps nodes, d.IsDocument := by
  cases nodes with
  | nil => exact List.forall_mem_nil _
  | cons node rest =>
    rw [List.forall_mem_cons] at legible
    exact List.forall_mem_cons.mpr
      ⟨Node.isDocument_dump legible.1, Node.isDocument_dumps legible.2⟩
termination_by structural nodes

theorem Node.isDocument_fieldDumps {fields : List (String × Node)}
    (legible : ∀ field ∈ fields, field.2.Legible symbols) :
    ∀ d ∈ Node.fieldDumps fields, d.IsDocument := by
  cases fields with
  | nil => exact List.forall_mem_nil _
  | cons field rest =>
    obtain ⟨name, node⟩ := field
    rw [List.forall_mem_cons] at legible
    refine List.forall_mem_cons.mpr ⟨.list ?_, Node.isDocument_fieldDumps legible.2⟩
    simp [Dump.IsDocument.str, Node.isDocument_dump legible.1]
termination_by structural fields

end

end TypedTrees
