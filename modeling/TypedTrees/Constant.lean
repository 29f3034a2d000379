import TypedTrees.Store
/-!
The value that a tree denotes without being evaluated: a constant, a static member, or a chain of
member reads that starts at one of the two.
-/
namespace TypedTrees

/-- The value of a constant or of a chain of member reads, if the tree is one and every read finds
something. A static member is read without its target; nothing is read off null. -/
def Node.denoted? (host : Host) : Node → Store → Option Value × Store
  | .mk _ (.constant v _), store => (some v, store)
  | .mk _ (.member target member), store =>
    if member.isStatic then store.read host member none
    else
      match target with
      | none => (none, store)
      | some target =>
        match target.denoted? host store with
        | (none, store) => (none, store)
        | (some v, store) =>
          if v.isNull then (none, store) else store.read host member (some v)
  | _, store => (none, store)

end TypedTrees
