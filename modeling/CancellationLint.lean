import CancellationLint.Main
import CancellationLint.Proofs.Splice
import CancellationLint.Proofs.Tokens
import CancellationLint.Proofs.Sound
import CancellationLint.Proofs.Place
import CancellationLint.Proofs.TreeCursors
import CancellationLint.Proofs.Shape
import CancellationLint.Proofs.Arrange
import CancellationLint.Proofs.Locate
import CancellationLint.Proofs.Plan
import CancellationLint.Proofs.Detected
import CancellationLint.Proofs.UpToLabels
import CancellationLint.Proofs.SameStarts
import CancellationLint.Proofs.Edits
import CancellationLint.Proofs.MendedTree
import CancellationLint.Proofs.LayoutAfterFixes
import CancellationLint.Proofs.PlacesAfterFixes
import CancellationLint.Proofs.SameScope
import CancellationLint.Proofs.RemainingChecks
import CancellationLint.Proofs.Lossless
import CancellationLint.Proofs.Overwrite
import CancellationLint.Proofs.LayoutPasses
import CancellationLint.Proofs.Indent
import CancellationLint.Proofs.InTurn
import CancellationLint.Proofs.Positions
import CancellationLint.Proofs.Replace
import CancellationLint.Proofs.UpToDate
import CancellationLint.Proofs.LayoutKeeps
import CancellationLint.Proofs.ErrorMarks
import CancellationLint.Proofs.Faults
import CancellationLint.Proofs.FileNames
import CancellationLint.Proofs.AllOrNone
import CancellationLint.Proofs.AnyOrder
import CancellationLint.Proofs.Spelling
import CancellationLint.Proofs.PlainStore
import CancellationLint.Proofs.Discovery
import CancellationLint.Proofs.Guarded
import CancellationLint.Proofs.Respelled
import CancellationLint.Proofs.Rounds
import CancellationLint.Proofs.StaleFixes
import CancellationLint.Proofs.Unharmed
import CancellationLint.Proofs.Declared
import CancellationLint.Proofs.RelatedCursors
import CancellationLint.Proofs.RelatedScopes
import CancellationLint.Proofs.SubtreeInContext
import CancellationLint.Proofs.Spacing
import CancellationLint.Proofs.SimpleName
import CancellationLint.Proofs.AtOffset
import CancellationLint.Proofs.CallText
import CancellationLint.Proofs.Attributed
import CancellationLint.Proofs.Realigned
import CancellationLint.Proofs.LineColumn
import CancellationLint.Proofs.Reported
import CancellationLint.Proofs.NewFaults
import CancellationLint.Proofs.LayoutChanges
import CancellationLint.Proofs.Ends
import CancellationLint.Proofs.Neighbours
import CancellationLint.Proofs.TriviaPieces
import CancellationLint.Proofs.TriviaScan
import CancellationLint.Proofs.OwnLine
