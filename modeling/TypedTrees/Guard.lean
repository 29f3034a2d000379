import TypedTrees.Error
/-!
The depth guard that bounds every traversal: a traversal enters one level for each node it visits
and leaves it again when the node is done.
-/
namespace TypedTrees

/-- The depth of a traversal, and the guard's own limit if it has one. A guard without a limit of
its own goes by the limit of the session. -/
structure DepthGuard where
  current : Nat := 0
  limit : Option Nat := none
  deriving DecidableEq

namespace DepthGuard

/-- The session's limit when none has been set. -/
def defaultLimit : Nat := 1500

/-- The limit in force, given that of the session. -/
def bound (guard : DepthGuard) (sessionLimit : Nat) : Nat := guard.limit.getD sessionLimit

/-- The guard one level deeper. Entering fails, and changes nothing, where the limit is reached. -/
def enter (guard : DepthGuard) (sessionLimit : Nat) : Except Error DepthGuard :=
  if guard.bound sessionLimit ≤ guard.current then
    .error (.recursionLimit (guard.bound sessionLimit))
  else .ok { guard with current := guard.current + 1 }

/-- The guard one level up. Leaving level zero stays there. -/
def leave (guard : DepthGuard) : DepthGuard := { guard with current := guard.current - 1 }

/-- The guard at `depth`, unless it is above it already. -/
def unwindTo (guard : DepthGuard) (depth : Nat) : DepthGuard :=
  { guard with current := min guard.current depth }

end DepthGuard

end TypedTrees
