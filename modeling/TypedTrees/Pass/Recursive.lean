import TypedTrees.Pass.Basic
/-!
Passes by plain recursion. This says what a pass comes to, node by node, without the pending work
and the partial results that `Pass.run` keeps: a node is entered, the pass decides, and what it
decides is carried out before the node is left. The depth needs no mention in the result, since
every node is left again, on success and on failure.
-/
namespace TypedTrees

namespace Pass

variable {σ : Type}

mutual

/-- What a pass makes of a node, one level below `depth`. -/
def transform (pass : Pass σ) (limit depth : Nat) (node : Node) (state : σ) :
    Except Error Node × σ :=
  if limit ≤ depth then (.error (.recursionLimit limit), state)
  else
    match pass.visit (depth + 1) node state with
    | (.error e, state) => (.error e, state)
    | (.ok (.done out), state) => (.ok out, state)
    | (.ok (.replace next), state) =>
      match transform pass limit (depth + 1) next state with
      | (.error e, state) => (.error e, state)
      | (.ok out, state) => (.ok out, pass.replaced depth node out state)
    | (.ok .descend, state) =>
      match transformAll pass limit (depth + 1) node.expr.children state with
      | (.error e, state) => (.error e, state)
      | (.ok kids, state) =>
        let (out, state) := pass.rebuild node kids state
        (.ok out, state)
termination_by (limit - depth, 0)

/-- What a pass makes of several nodes, from left to right, each one level below `depth`. The first
failure ends it. -/
def transformAll (pass : Pass σ) (limit depth : Nat) (nodes : List Node) (state : σ) :
    Except Error (List Node) × σ :=
  match nodes with
  | [] => (.ok [], state)
  | node :: rest =>
    match transform pass limit depth node state with
    | (.error e, state) => (.error e, state)
    | (.ok out, state) =>
      match transformAll pass limit depth rest state with
      | (.error e, state) => (.error e, state)
      | (.ok outs, state) => (.ok (out :: outs), state)
termination_by (limit - depth, nodes.length + 1)

end

end Pass

end TypedTrees
