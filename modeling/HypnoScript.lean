import HypnoScript.Main
import HypnoScript.Service
import HypnoScript.Toolbox
import HypnoScript.Proofs.Masking.Lines
import HypnoScript.Proofs.Text.Blanks
import HypnoScript.Proofs.Spacing.Cells
import HypnoScript.Proofs.Spacing.Marks
import HypnoScript.Proofs.Spacing.Masking
import HypnoScript.Proofs.Spacing.Settled
import HypnoScript.Proofs.Text.Tokens
import HypnoScript.Proofs.Spacing.Line
import HypnoScript.Proofs.Layout.Line
import HypnoScript.Proofs.Layout.Text
import HypnoScript.Proofs.Analysis.Tokens
import HypnoScript.Proofs.Analysis.Declarations
import HypnoScript.Proofs.Analysis.Lines
import HypnoScript.Proofs.Layout.Analysis
import HypnoScript.Proofs.QuickFix.Document
import HypnoScript.Proofs.Masking.Lexemes
import HypnoScript.Proofs.QuickFix.Lexemes
import HypnoScript.Proofs.Masking.Grammar
import HypnoScript.Proofs.QuickFix.Rewriting
import HypnoScript.Proofs.Analysis.Balance
import HypnoScript.Proofs.QuickFix.Terminated
import HypnoScript.Proofs.QuickFix.Convergence
import HypnoScript.Proofs.QuickFix.Balance
import HypnoScript.Proofs.Masking.Twice
import HypnoScript.Proofs.Analysis.Masked
import HypnoScript.Proofs.Analysis.Dyck
import HypnoScript.Proofs.Outline.Tokens
import HypnoScript.Proofs.Command.Sources
import HypnoScript.Proofs.Layout.Characters
import HypnoScript.Proofs.FileTree.Paths
import HypnoScript.Proofs.Command.Request
import HypnoScript.Proofs.Command.Rewriting
import HypnoScript.Proofs.Command.Formatting
import HypnoScript.Collection
import HypnoScript.Proofs.Analysis.Verdict
import HypnoScript.Proofs.Collection.History
import HypnoScript.Proofs.Command.Checking
import HypnoScript.Proofs.Edit.Clamping
import HypnoScript.Proofs.Service.Session
import HypnoScript.Proofs.Analysis.DeclaredNames
import HypnoScript.Proofs.Analysis.Partners
import HypnoScript.Proofs.Layout.Indentation
import HypnoScript.Proofs.Layout.Literals
import HypnoScript.Proofs.Analysis.UnusedNames
import HypnoScript.Proofs.Analysis.WrapperPlaces
import HypnoScript.Proofs.QuickFix.Offers
import HypnoScript.Proofs.QuickFix.Duplicates
import HypnoScript.Proofs.Outline.Ends
import HypnoScript.Proofs.Outline.Brackets
import HypnoScript.Proofs.Outline.Listed
import HypnoScript.Proofs.Outline.Members
import HypnoScript.Proofs.Outline.Tree
import HypnoScript.Proofs.Masking.Stretches
import HypnoScript.Proofs.Masking.Alignment
import HypnoScript.Proofs.Text.Spans
import HypnoScript.Proofs.Wire.Faithful
import HypnoScript.Proofs.Spacing.Frame
import HypnoScript.Proofs.Analysis.Introduced
import HypnoScript.Proofs.Layout.Cancellation
