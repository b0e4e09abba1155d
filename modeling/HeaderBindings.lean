import HeaderBindings.CommandLine.FileTree
import HeaderBindings.Header.CursorStep
import HeaderBindings.Main
import HeaderBindings.Proofs.Keyed
import HeaderBindings.Proofs.TypeMembers
import HeaderBindings.Proofs.Classification.Places
import HeaderBindings.Proofs.Classification.SourceOrder
import HeaderBindings.Proofs.Classification.Accounting
import HeaderBindings.Proofs.Binding.Coverage
import HeaderBindings.Proofs.Binding.Emission
import HeaderBindings.Proofs.Binding.Conservation
import HeaderBindings.Proofs.Binding.Independence
import HeaderBindings.Proofs.Binding.FailureIsolation
import HeaderBindings.Proofs.Binding.Agreement
import HeaderBindings.Proofs.Header.Nesting
import HeaderBindings.Proofs.Classification.Verdict
import HeaderBindings.Proofs.Exclusion
import HeaderBindings.Proofs.Header.Comment
import HeaderBindings.Proofs.Header.Cursor
import HeaderBindings.Proofs.Header.RoundTrip
import HeaderBindings.Proofs.Header.Moves
import HeaderBindings.Proofs.Header.Outcomes
import HeaderBindings.Proofs.Header.Totality
import HeaderBindings.Proofs.HandWritten
import HeaderBindings.Proofs.Layout
import HeaderBindings.Proofs.Header.Spelling
import HeaderBindings.Proofs.Header.Lockstep
import HeaderBindings.Proofs.Header.LayoutFree
import HeaderBindings.Proofs.Header.Entries
import HeaderBindings.Proofs.Header.EnumRounds
import HeaderBindings.Proofs.Header.OutsideComments
import HeaderBindings.Proofs.Header.Provenance
import HeaderBindings.Proofs.Header.Written
import HeaderBindings.Proofs.Header.UnclosedBlock
import HeaderBindings.Proofs.Warnings
import HeaderBindings.Proofs.Header.EnumProvenance
import HeaderBindings.Proofs.Header.Stops
import HeaderBindings.Proofs.Header.TopLevelParts
import HeaderBindings.Proofs.Binding.EnumOutput
import HeaderBindings.Proofs.Mentions
import HeaderBindings.Proofs.Binding.MentionedNatives
import HeaderBindings.Proofs.Binding.Recognition
import HeaderBindings.Proofs.Binding.Attributes
import HeaderBindings.Proofs.OutputGroups
import HeaderBindings.Proofs.Header.Seams
import HeaderBindings.Proofs.Binding.Pairing
import HeaderBindings.Proofs.Classification.ReportOrder
import HeaderBindings.Proofs.TypeTable.Lineage
import HeaderBindings.Proofs.TypeTable.Verdict
import HeaderBindings.Proofs.TypeTable.Order
import HeaderBindings.Proofs.Header.CommentBytes
import HeaderBindings.Proofs.Identifier
import HeaderBindings.Proofs.Convention.EmptyName
import HeaderBindings.Proofs.EnumBlock.OwnName
import HeaderBindings.Proofs.EnumBlock.Collision
import HeaderBindings.Proofs.Convention.Kinds
import HeaderBindings.Proofs.Binding.Wrapping
import HeaderBindings.Proofs.Header.ParameterSpacing
import HeaderBindings.Proofs.Header.ParameterNames
import HeaderBindings.Proofs.HandWritten.Merging
import HeaderBindings.Proofs.Header.CursorRuns
import HeaderBindings.Proofs.Header.BlockMatching
import HeaderBindings.Proofs.Header.EnumStops
import HeaderBindings.Proofs.Header.CommentTail
import HeaderBindings.Proofs.Header.Splitting
import HeaderBindings.Proofs.Header.WordSearch
import HeaderBindings.Proofs.Header.BraceBlocks
