import SyntaxCoverage.Arena.Describe
import SyntaxCoverage.Batch
import SyntaxCoverage.Proofs.Balance
import SyntaxCoverage.Proofs.Causes
import SyntaxCoverage.Proofs.Composition
import SyntaxCoverage.Proofs.Emission
import SyntaxCoverage.Proofs.Exchange
import SyntaxCoverage.Proofs.History
import SyntaxCoverage.Proofs.Iterations
import SyntaxCoverage.Proofs.Merging
import SyntaxCoverage.Proofs.Ownership
import SyntaxCoverage.Proofs.Persistence
import SyntaxCoverage.Proofs.Readback
import SyntaxCoverage.Proofs.Residue
import SyntaxCoverage.Proofs.Selections
import SyntaxCoverage.Proofs.Spelling
import SyntaxCoverage.Report.Codec
import SyntaxCoverage.Report.Rows
import SyntaxCoverage.Settings.Document
import SyntaxCoverage.Source.Snippet
import SyntaxCoverage.Tally
import SyntaxCoverage.Proofs.Traversal
import SyntaxCoverage.Proofs.Verdicts
import SyntaxCoverage.Proofs.Parentheses
import SyntaxCoverage.Proofs.Skips
import SyntaxCoverage.Proofs.Canonical
import SyntaxCoverage.Proofs.Positions
import SyntaxCoverage.Proofs.Rows
import SyntaxCoverage.Proofs.Sums
import SyntaxCoverage.Proofs.Outermost
import SyntaxCoverage.Proofs.Encoding
import SyntaxCoverage.Proofs.Snippets
import SyntaxCoverage.Proofs.Classification
import SyntaxCoverage.Proofs.Sequences
