import TypedTrees.Build
import TypedTrees.Capture
import TypedTrees.Combinators
import TypedTrees.Constant
import TypedTrees.Decimal.Layout
import TypedTrees.Decimal.Shortest
import TypedTrees.Dump
import TypedTrees.Error
import TypedTrees.Eval.BasicHost
import TypedTrees.Eval.Callbacks
import TypedTrees.Eval.Evaluator
import TypedTrees.Eval.Machine
import TypedTrees.Eval.Operators
import TypedTrees.Eval.Procedure
import TypedTrees.Eval.Recursive
import TypedTrees.Expansion
import TypedTrees.FieldTable
import TypedTrees.Guard
import TypedTrees.Keyed
import TypedTrees.Operator
import TypedTrees.Paging
import TypedTrees.Pass.Basic
import TypedTrees.Pass.Recursive
import TypedTrees.Pass.WorkList
import TypedTrees.Proofs.Combinators.CallParameters
import TypedTrees.Proofs.Combinators.Cast
import TypedTrees.Proofs.Combinators.Composition
import TypedTrees.Proofs.Combinators.Fold
import TypedTrees.Proofs.Combinators.Lens
import TypedTrees.Proofs.Combinators.Membership
import TypedTrees.Proofs.Dump.Documents
import TypedTrees.Proofs.Dump.Lossless
import TypedTrees.Proofs.Eval.Attained
import TypedTrees.Proofs.Eval.Builtins
import TypedTrees.Proofs.Eval.Congruence
import TypedTrees.Proofs.Eval.Cutoff
import TypedTrees.Proofs.Eval.Integers
import TypedTrees.Proofs.Eval.Levels
import TypedTrees.Proofs.Eval.Likeness
import TypedTrees.Proofs.Eval.Meaning
import TypedTrees.Proofs.Eval.Mirrored
import TypedTrees.Proofs.Eval.Pending
import TypedTrees.Proofs.Eval.Refinement
import TypedTrees.Proofs.Eval.Resolution
import TypedTrees.Proofs.Eval.Storage
import TypedTrees.Proofs.Eval.Strict
import TypedTrees.Proofs.Eval.Substitution
import TypedTrees.Proofs.Eval.Untripped
import TypedTrees.Proofs.Expansion.Completeness
import TypedTrees.Proofs.Expansion.Confluence
import TypedTrees.Proofs.Expansion.Cutoff
import TypedTrees.Proofs.Expansion.Hygiene
import TypedTrees.Proofs.Expansion.Inlining
import TypedTrees.Proofs.Expansion.Preservation
import TypedTrees.Proofs.Expansion.Reference
import TypedTrees.Proofs.Expansion.Settled
import TypedTrees.Proofs.Expansion.Sources
import TypedTrees.Proofs.Expansion.Trace
import TypedTrees.Proofs.Expansion.Typing
import TypedTrees.Proofs.Expansion.Visit
import TypedTrees.Proofs.Expansion.Waiting
import TypedTrees.Proofs.Expansion.WellBuilt
import TypedTrees.Proofs.Pass.Completed
import TypedTrees.Proofs.Pass.Outcome
import TypedTrees.Proofs.Pass.Pending
import TypedTrees.Proofs.Pass.Reaches
import TypedTrees.Proofs.Pass.Refinement
import TypedTrees.Proofs.Pass.Simulation
import TypedTrees.Proofs.Readers.Accesses
import TypedTrees.Proofs.Readers.History
import TypedTrees.Proofs.Readers.Runs
import TypedTrees.Proofs.Registry.Capture
import TypedTrees.Proofs.Registry.History
import TypedTrees.Proofs.Registry.LookUp
import TypedTrees.Proofs.Registry.Signature
import TypedTrees.Proofs.Registry.Watched
import TypedTrees.Proofs.Renaming.Expansion
import TypedTrees.Proofs.Renaming.Registry
import TypedTrees.Proofs.Renaming.Substitution
import TypedTrees.Proofs.Renaming.Tree
import TypedTrees.Proofs.Residue
import TypedTrees.Proofs.Substitution.Composition
import TypedTrees.Proofs.Substitution.Exact
import TypedTrees.Proofs.Substitution.Substituted
import TypedTrees.Proofs.Termination
import TypedTrees.Proofs.Tree.Built
import TypedTrees.Proofs.Tree.Heads
import TypedTrees.Proofs.Tree.Parts
import TypedTrees.Proofs.Ty.Compatibility
import TypedTrees.Proofs.Value.Storage
import TypedTrees.Registry
import TypedTrees.Store
import TypedTrees.Substitution
import TypedTrees.Symbol
import TypedTrees.Text.Combining
import TypedTrees.Text.Quoted
import TypedTrees.Text.Unprintable
import TypedTrees.Tree
import TypedTrees.Tree.Binding
import TypedTrees.Tree.Children
import TypedTrees.Tree.Equality
import TypedTrees.Tree.Subtree
import TypedTrees.Tree.Text
import TypedTrees.Ty
import TypedTrees.Ty.Refinement
