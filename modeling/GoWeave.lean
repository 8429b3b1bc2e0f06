import GoWeave.Command.Arguments
import GoWeave.Command.FileTree
import GoWeave.Command.Log
import GoWeave.Command.Run
import GoWeave.Command.Workspace
import GoWeave.Declaration
import GoWeave.Declaration.Removal
import GoWeave.Diff.Script
import GoWeave.Diff.Unified
import GoWeave.Equivalence
import GoWeave.Fault
import GoWeave.FieldSet
import GoWeave.Import.Path
import GoWeave.Import.Table
import GoWeave.Json
import GoWeave.Json.Reading
import GoWeave.Layout
import GoWeave.Main
import GoWeave.Merge
import GoWeave.Merge.Decision
import GoWeave.Merge.Report
import GoWeave.Proofs.Command.Failure
import GoWeave.Proofs.Command.FileSystem
import GoWeave.Proofs.Command.Recheck
import GoWeave.Proofs.Command.Runs
import GoWeave.Proofs.Command.Trees
import GoWeave.Proofs.Declaration.Blanks
import GoWeave.Proofs.Declaration.Changes
import GoWeave.Proofs.Declaration.Commute
import GoWeave.Proofs.Declaration.Descent
import GoWeave.Proofs.Declaration.Heads
import GoWeave.Proofs.Declaration.Removal
import GoWeave.Proofs.Declaration.Siblings
import GoWeave.Proofs.Declaration.Slots
import GoWeave.Proofs.Declaration.Traversals
import GoWeave.Proofs.Declaration.Types
import GoWeave.Proofs.Equivalence.Additions
import GoWeave.Proofs.Equivalence.Clean
import GoWeave.Proofs.Equivalence.Copies
import GoWeave.Proofs.Equivalence.Decision
import GoWeave.Proofs.Equivalence.Fields
import GoWeave.Proofs.Equivalence.Members
import GoWeave.Proofs.Equivalence.Normal
import GoWeave.Proofs.Equivalence.References
import GoWeave.Proofs.FieldSet
import GoWeave.Proofs.Import.Literals
import GoWeave.Proofs.Import.Reconciliation
import GoWeave.Proofs.Layout.Indentation
import GoWeave.Proofs.Layout.Printer
import GoWeave.Proofs.Merge.Aliases
import GoWeave.Proofs.Merge.Block
import GoWeave.Proofs.Merge.Clashes
import GoWeave.Proofs.Merge.Duplicates
import GoWeave.Proofs.Merge.Folding
import GoWeave.Proofs.Merge.Frame
import GoWeave.Proofs.Merge.Imports
import GoWeave.Proofs.Merge.Outcome
import GoWeave.Proofs.Merge.Registry
import GoWeave.Proofs.Merge.SelfMerge
import GoWeave.Proofs.Merge.Steps
import GoWeave.Proofs.Merge.Uniqueness
import GoWeave.Proofs.Scope.Blocks
import GoWeave.Proofs.Scope.Capture
import GoWeave.Proofs.Scope.Declarations
import GoWeave.Proofs.Scope.Interchange
import GoWeave.Proofs.Scope.Outline
import GoWeave.Proofs.Scope.References
import GoWeave.Proofs.Scope.Respelling
import GoWeave.Proofs.Scope.Reversal
import GoWeave.Proofs.Scope.TopLevel
import GoWeave.Proofs.Scope.Untouched
import GoWeave.Proofs.Settings.RoundTrip
import GoWeave.Proofs.Source.Values
import GoWeave.Proofs.Tagging
import GoWeave.Scope
import GoWeave.Scope.Free
import GoWeave.Scope.Rename
import GoWeave.Settings
import GoWeave.Source.Declarations
import GoWeave.Source.Expressions
import GoWeave.Source.File
import GoWeave.Source.Lexeme
import GoWeave.Source.Phrase
import GoWeave.Source.Space
import GoWeave.Source.Statements
import GoWeave.Source.Types
import GoWeave.Text.Blank
import GoWeave.Text.Identifier
import GoWeave.Text.Split
import GoWeave.Token
import GoWeave.Tree
import GoWeave.Tree.Mention
