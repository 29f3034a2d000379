import TypedTrees.Proofs.Expansion.Visit
import TypedTrees.Proofs.Readers.Accesses
import TypedTrees.Proofs.Termination
/-!
The accesses that digging, evaluation and expansion make. Looking for what a tree denotes reads the
members of a chain from its start on. An evaluation reads a member where it finishes the node of a
member read, and its natives may change slots on the way. An expansion reads nothing but what it
needs to look for the holders of reference calls. In each case the accesses, one after another, lead
to the store that is left in the end.
-/
namespace TypedTrees

open Store (Accessed)

/-! ### Digging -/

/-- The reads that are made to look for what a tree denotes. Nothing is read off null. -/
def Node.digs (host : Host) : Node → Store → List Access
  | .mk _ (.member target m), store =>
    if m.isStatic then [.read m none (store.read host m none).1]
    else
      match target with
      | none => []
      | some target =>
        target.digs host store ++
          match target.denoted? host store with
          | (none, _) => []
          | (some v, later) =>
            if v.isNull then [] else [.read m (some v) (later.read host m (some v)).1]
  | _, _ => []

theorem Node.accessed_digs (host : Host) (tree : Node) (store : Store) :
    Accessed host store (tree.digs host store) (tree.denoted? host store).2 := by
  induction tree using Node.induction generalizing store with
  | node tree ih =>
    obtain ⟨mark, expr⟩ := tree
    cases expr with
    | member target m =>
      cases target with
      | none =>
        rw [digs, denoted?]
        split
        · exact .read store m none
        · exact .silent rfl rfl
      | some target =>
        have below := ih target (.head _) store
        rw [digs, denoted?]
        split
        · exact .read store m none
        · generalize target.denoted? host store = found at below ⊢
          obtain ⟨_ | v, later⟩ := found
          · rw [List.append_nil]
            exact below
          · simp only
            split
            · rw [List.append_nil]
              exact below
            · exact .append below (.read later m (some v))
    | _ =>
      rw [denoted?, digs]
      · exact .silent rfl rfl
      all_goals rintro _ _ _ ⟨⟩

/-! ### Evaluation -/

/-- The read of a member whose target has been evaluated. A null target is refused unread. -/
def Store.memberReads (host : Host) (m : Member) (target : Option Value) (store : Store) :
    List Access :=
  match target with
  | some .null => []
  | target => [.read m target (store.read host m target).1]

theorem Store.accessed_readMember (host : Host) (m : Member) (target : Option Value)
    (store : Store) :
    Accessed host store (store.memberReads host m target) (store.readMember host m target).2 := by
  rw [memberReads.eq_def, readMember.eq_def]
  split
  · exact .silent rfl rfl
  · simp only
    split <;> exact .read store m target

/-- The store that a step of the machine leaves. -/
def Machine.Progress.store : Machine.Progress → Store
  | .running c => c.store
  | .finished evaluated => evaluated.store

namespace Callbacks

def State.store : State → Store
  | .working _ _ _ store => store
  | .native _ _ _ _ store => store
  | .ended evaluated => evaluated.store

/-- The accesses that the next step makes. -/
def State.accesses (host : Host) : State → List Access
  | .working run _ _ store =>
    match run.tasks with
    | .finish node :: _ =>
      match node.expr with
      | .member target m =>
        store.memberReads host m (target.map fun _ => (Machine.pop run.values).1)
      | _ => []
    | _ => []
  | .native (.change slots _) _ _ _ _ => [.change slots]
  | _ => []

/-- The accesses that are made from this state to the end. -/
def State.log (host : Host) (limit : Nat) (state : State) : List Access :=
  match _moves : step host limit state with
  | none => []
  | some next => state.accesses host ++ next.log host limit
termination_by (wellFounded_follows host limit).wrap state
decreasing_by exact ⟨limit, Nat.le_refl limit, _moves⟩

variable {host : Host} {limit : Nat}

theorem State.log_of_step {s s' : State} (moves : step host limit s = some s') :
    s.log host limit = s.accesses host ++ s'.log host limit := by
  rw [log]
  split
  · rename_i stops
    cases stops.symm.trans moves
  · rename_i next goes
    cases goes.symm.trans moves
    rfl

theorem State.log_ended (evaluated : Evaluated) : (State.ended evaluated).log host limit = [] := by
  rw [log]
  split
  · rfl
  · rename_i goes
    cases goes

theorem store_resume (callers : List Caller) (evaluated : Evaluated) :
    (resume callers evaluated).store = evaluated.store := by
  cases callers <;> rfl

theorem store_finish (run : Run) (callers : List Caller) (evaluated : Evaluated) :
    (finish run callers evaluated).store = evaluated.store := by
  rw [finish]
  split <;> exact store_resume _ _

/-- To finish a node without a native is to read a member or to touch none. -/
theorem accessed_finish {run : Run} {node : Node} {rest : List Machine.Task}
    (tasks : run.tasks = .finish node :: rest) (calls : called? host run = none) (nested : Nested)
    (callers : List Caller) (depth : Nat) (store : Store) :
    Accessed host store (State.accesses host (.working run callers depth store))
      (Machine.finish nested host node run.values depth store).1.store := by
  simp only [called?, tasks] at calls
  simp only [State.accesses, tasks]
  cases isExpr : node.expr with
  | member target m =>
    simp only [Machine.finish, isExpr]
    cases target <;> exact store.accessed_readMember host m _
  | call receiver callee args ty =>
    simp only [isExpr, Option.map_eq_none_iff] at calls
    simp only [Machine.finish, isExpr, calls]
    exact .silent rfl rfl
  | setMember target m value =>
    simp only [Machine.finish, isExpr, Store.writeMember]
    split <;> exact .silent rfl rfl
  | _ =>
    simp only [Machine.finish, isExpr]
    exact .silent rfl rfl

/-- Of the machine's own tasks none but to finish a node touches the store. -/
theorem accessed_machineStep {run : Run} (calls : called? host run = none) (nested : Nested)
    (callers : List Caller) (depth : Nat) (store : Store) :
    Accessed host store (State.accesses host (.working run callers depth store))
      (Machine.step nested host limit run.env run.root
        ⟨run.tasks, run.values, depth, store⟩).store := by
  rcases tasks : run.tasks with _ | ⟨task, rest⟩
  · simp only [State.accesses, tasks, Machine.step]
    split <;> exact .silent rfl rfl
  cases task with
  | finish node =>
    have finishes := accessed_finish tasks calls nested callers depth store
    simp only [Machine.step]
    split <;> exact finishes
  | eval node =>
    simp only [State.accesses, tasks, Machine.step]
    split
    · exact .silent rfl rfl
    · split <;> exact .silent rfl rfl
  | decide op left right =>
    simp only [State.accesses, tasks, Machine.step]
    split
    · exact .silent rfl rfl
    · split <;> exact .silent rfl rfl
  | expectBool node =>
    simp only [State.accesses, tasks, Machine.step]
    split <;> exact .silent rfl rfl
  | branch test ifTrue ifFalse =>
    simp only [State.accesses, tasks, Machine.step]
    split <;> exact .silent rfl rfl
  | leave =>
    simp only [State.accesses, tasks, Machine.step]
    exact .silent rfl rfl

/-- A step makes the accesses that are told of it. -/
theorem accessed_step {s s' : State} (moves : step host limit s = some s') :
    Accessed host s.store (s.accesses host) s'.store := by
  cases s with
  | ended evaluated => cases moves
  | native procedure run callers depth store =>
    cases procedure with
    | answer outcome =>
      cases outcome with
      | ok v =>
        cases moves
        exact .silent rfl rfl
      | error e =>
        cases moves
        have same := store_finish run callers ⟨.error e, depth, store⟩
        exact .silent (congrArg Store.readers same) (congrArg Store.slots same)
    | apply callee args next =>
      simp only [step] at moves
      split at moves <;> cases moves <;> exact .silent rfl rfl
    | evaluate node env next =>
      cases moves
      exact .silent rfl rfl
    | draw rest next =>
      cases moves
      exact .silent rfl rfl
    | change slots next =>
      cases moves
      exact .change store slots
  | working run callers depth store =>
    rcases calls : called? host run with _ | ⟨procedure, back⟩
    · have machine := @accessed_machineStep host limit run calls (evaluateWithin host limit 0)
        callers depth store
      simp only [step, calls] at moves
      split at moves
      · rename_i c running
        rw [running] at machine
        cases moves
        exact machine
      · rename_i evaluated finished
        rw [finished] at machine
        cases moves
        rw [store_finish]
        exact machine
    · obtain ⟨node, rest, values, tasks, -, -⟩ := finish_of_called calls
      simp only [step, calls] at moves
      cases moves
      have none : State.accesses host (.working run callers depth store) = [] := by
        simp only [called?, tasks] at calls
        simp only [State.accesses, tasks]
        split
        · rename_i isMember
          simp only [isMember] at calls
          cases calls
        · rfl
      rw [none]
      exact .silent rfl rfl

/-- What is told of all steps leads to the store in the end. -/
theorem accessed_log {s : State} {evaluated : Evaluated}
    (ends : Reaches host limit s (.ended evaluated)) :
    Accessed host s.store (s.log host limit) evaluated.store := by
  induction ends using Relation.ReflTransGen.head_induction_on with
  | refl =>
    rw [State.log_ended]
    exact .silent rfl rfl
  | head moves _ ih =>
    rw [State.log_of_step moves]
    exact .append (accessed_step moves) ih

end Callbacks

/-- The accesses that an evaluation makes. -/
def evaluationAccesses (host : Host) (limit depth : Nat) (tree : Node) (env : Env) (store : Store) :
    List Access :=
  (Callbacks.start tree env [] depth store).log host limit

theorem accessed_evaluateFrom (host : Host) (limit depth : Nat) (tree : Node) (env : Env)
    (store : Store) :
    Accessed host store (evaluationAccesses host limit depth tree env store)
      (evaluateFrom host limit depth tree env store).store :=
  Callbacks.accessed_log (Callbacks.evaluateFrom_reached host limit depth tree env store)

/-! ### Expansion -/

/-- The reads that are made to look for what a call stands for. -/
def Node.referenceReads (host : Host) (node : Node) (store : Store) : List Access :=
  match node.expr with
  | .call _ (.invoke _) (holder :: _) _ => holder.digs host store
  | _ => []

/-- The reads that are made in a call of the expansion's pass. -/
def PassCall.accesses (host : Host) : PassCall ExpansionState → List Access
  | .visit _ node state => node.referenceReads host state.session.store
  | .replaced .. => []

/-- The accesses that an expansion makes. -/
def Expander.accesses (expander : Expander) (host : Host) (tree : Node) (session : Session) :
    List Access :=
  let limit := expander.guard.bound session.limit
  let pass := (expansionPass host expander.registry limit).recording
  (pass.run limit expander.guard.current tree ({ session }, [])).state.2.reverse.flatMap
    (PassCall.accesses host)

theorem Session.accessed_referenced {host : Host} {registry : Nat} {node : Node}
    {receiver : Option Node} {callee : Callee} {args : List Node} {ty : Ty}
    (isCall : node.expr = .call receiver callee args ty) (session : Session) :
    Accessed host session.store (node.referenceReads host session.store)
      (session.referenced host registry node callee args).2.store := by
  simp only [Node.referenceReads, isCall]
  cases callee with
  | function f =>
    exact .silent (lookUpWithin_readers _ registry f session)
      (lookUpWithin_grows _ registry f session).slots
  | invoke shape =>
    cases args with
    | nil => exact .silent rfl rfl
    | cons holder rest =>
      have digs := holder.accessed_digs host session.store
      simp only [referenced]
      split <;> exact digs

/-- A visit makes the reads that are told of it. -/
theorem accessed_visit (host : Host) (registry limit depth : Nat) (node : Node)
    (state : ExpansionState) :
    Accessed host state.session.store (node.referenceReads host state.session.store)
      ((expansionPass host registry limit).visit depth node state).2.session.store := by
  simp only [expansionPass]
  split
  · rename_i receiver callee args ty isCall
    have refers := @Session.accessed_referenced host registry _ _ _ _ _ isCall state.session
    generalize state.session.referenced host registry node callee args = found at refers ⊢
    obtain ⟨e | _ | l, session⟩ := found
    · exact refers
    · exact refers
    · rw [← List.append_nil (node.referenceReads host state.session.store)]
      exact .append refers (.silent rfl rfl)
  · rename_i noCall
    have none : node.referenceReads host state.session.store = [] := by
      rw [Node.referenceReads]
      split
      · rename_i isCall
        exact absurd isCall (noCall _ _ _ _)
      · rfl
    rw [none]
    exact .silent rfl rfl

/-- The calls that a pass has noted since, with the accesses made in them. -/
def AccessedSince (host : Host) (before after : ExpansionState × List (PassCall ExpansionState)) :
    Prop :=
  ∃ calls, after.2 = calls ++ before.2 ∧
    Accessed host before.1.session.store (calls.reverse.flatMap (PassCall.accesses host))
      after.1.session.store

theorem AccessedSince.refl (host : Host) (noted : ExpansionState × List (PassCall ExpansionState)) :
    AccessedSince host noted noted := ⟨[], rfl, .silent rfl rfl⟩

theorem AccessedSince.trans {host : Host}
    {a b c : ExpansionState × List (PassCall ExpansionState)} (first : AccessedSince host a b)
    (second : AccessedSince host b c) : AccessedSince host a c := by
  obtain ⟨calls, noted, accessed⟩ := first
  obtain ⟨calls', noted', accessed'⟩ := second
  refine ⟨calls' ++ calls, by rw [noted', noted, List.append_assoc], ?_⟩
  rw [List.reverse_append, List.flatMap_append]
  exact .append accessed accessed'

/-- A pass of expansions that notes its calls makes the accesses that are told of them. -/
theorem accessedSince_transform (host : Host) (registry limit depth : Nat) (tree : Node)
    (noted : ExpansionState × List (PassCall ExpansionState)) :
    AccessedSince host noted
      ((expansionPass host registry limit).recording.transform limit depth tree noted).2 := by
  refine Pass.transform_respects (AccessedSince.refl host) AccessedSince.trans ?_ ?_ ?_ depth tree
    noted
  case refine_1 =>
    rintro depth node ⟨state, calls⟩
    refine ⟨[.visit depth node state], rfl, ?_⟩
    rw [List.reverse_singleton, List.flatMap_singleton]
    exact accessed_visit host registry limit depth node state
  case refine_2 =>
    rintro depth node out ⟨state, calls⟩
    refine ⟨[.replaced depth node out state], rfl, ?_⟩
    have same : ((expansionPass host registry limit).replaced depth node out state).session =
        state.session := by
      simp only [expansionPass]
      split <;> rfl
    exact .silent (by rw [← same]; rfl) (by rw [← same]; rfl)
  case refine_3 =>
    rintro ⟨state, calls⟩
    exact ⟨[], rfl, .silent rfl rfl⟩

theorem accessed_expand (expander : Expander) (host : Host) (tree : Node) (session : Session) :
    Accessed host session.store (expander.accesses host tree session)
      (expander.expand host tree session).2.2.store := by
  let limit := expander.guard.bound session.limit
  let pass := expansionPass host expander.registry limit
  obtain ⟨outcome, after, calls, -, noted, run, recorded⟩ :=
    pass.run_refines_recursion limit expander.guard.current tree { session }
  obtain ⟨made, all, accessed⟩ := accessedSince_transform host expander.registry limit
    expander.guard.current tree ({ session }, [])
  have state : (expander.expand host tree session).2.2 = after.session :=
    congrArg (·.state.session) run
  have accesses : expander.accesses host tree session =
      calls.reverse.flatMap (PassCall.accesses host) :=
    congrArg (·.state.2.reverse.flatMap (PassCall.accesses host)) recorded
  rw [noted] at all accessed
  rw [state, accesses, show calls = made ++ [] from all, List.append_nil]
  exact accessed

end TypedTrees
