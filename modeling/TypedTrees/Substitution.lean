import TypedTrees.Guard
import TypedTrees.Keyed
import TypedTrees.Pass.WorkList
/-!
Substitution of trees for parameters. Parameters are matched by identity, everywhere in a tree and
also below nested lambdas; nothing is replaced in the trees put in.
-/
namespace TypedTrees

/-- A mapping from parameters to trees, by identity and in order of identity. -/
structure Substitution where
  entries : List (Nat × Node)

namespace Substitution

def empty : Substitution := ⟨[]⟩

/-- The substitution with `param` mapped to `replacement`, whatever it was mapped to before. -/
def bind (s : Substitution) (param : Parameter) (replacement : Node) : Substitution :=
  ⟨Keyed.insert param.id replacement s.entries⟩

/-- The substitution that maps each parameter to its tree. A later pair wins. -/
def ofPairs (pairs : List (Parameter × Node)) : Substitution :=
  pairs.foldl (fun s pair => s.bind pair.1 pair.2) empty

/-- Parameters and arguments paired by position, as far as there are both. -/
def zip (params : List Parameter) (args : List Node) : Substitution := ofPairs (params.zip args)

def get? (s : Substitution) (param : Parameter) : Option Node := s.entries.lookup param.id

def size (s : Substitution) : Nat := s.entries.length

def isEmpty (s : Substitution) : Bool := s.entries.isEmpty

/-- The pass that puts in the mapped trees and goes through everything else. -/
def replacer (s : Substitution) : Pass Supply where
  visit := fun _ node supply =>
    match node.expr with
    | .parameter param => (.ok (.done ((s.get? param).getD node)), supply)
    | _ => (.ok .descend, supply)
  replaced := fun _ _ _ supply => supply
  draw := Supply.draw

end Substitution

/-- A computation that may draw identities and may fail. -/
abbrev Making (α : Type) : Type := Supply → Except Error α × Supply

namespace Node

/-- The tree with the mapped parameters replaced, starting one level below `depth`. With nothing
mapped it is the tree itself, whatever its depth. -/
def substituteFrom (limit depth : Nat) (s : Substitution) (node : Node) : Making Node :=
  fun supply =>
    if s.isEmpty then (.ok node, supply)
    else
      let result := s.replacer.run limit depth node supply
      (result.outcome, result.state)

/-- The tree with the mapped parameters replaced, going on from the depth of `guard`. -/
def substituteUnder (guard : DepthGuard) (sessionLimit : Nat) (s : Substitution) (node : Node) :
    Making Node :=
  node.substituteFrom (guard.bound sessionLimit) guard.current s

def substitute (limit : Nat) (s : Substitution) (node : Node) : Making Node :=
  node.substituteFrom limit 0 s

def replaceParameter (limit : Nat) (node : Node) (param : Parameter) (replacement : Node) :
    Making Node :=
  node.substitute limit (Substitution.empty.bind param replacement)

end Node

end TypedTrees
