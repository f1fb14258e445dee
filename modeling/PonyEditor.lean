import PonyEditor.Command.Folder
import PonyEditor.Main
import PonyEditor.Text.ByteReader
import PonyEditor.Token.Stepper
import PonyEditor.Proofs.ByteOffsets
import PonyEditor.Proofs.DocumentRuns
import PonyEditor.Proofs.BatchNotices
import PonyEditor.Proofs.BatchAtomicity
import PonyEditor.Proofs.BracketGroups
import PonyEditor.Proofs.ByteExtents
import PonyEditor.Proofs.ByteScanning
import PonyEditor.Proofs.InertCharacters
import PonyEditor.Proofs.LinePositions
import PonyEditor.Proofs.StaleSnapshots
import PonyEditor.Proofs.JoinedLines
import PonyEditor.Proofs.TokenSlices
import PonyEditor.Proofs.UnreliableHosts
import PonyEditor.Proofs.IndependentChanges
import PonyEditor.Proofs.ReportLifetime
import PonyEditor.Proofs.DiagnosticLines
import PonyEditor.Proofs.CompilerOutput
import PonyEditor.Proofs.SpanQueries
import PonyEditor.Proofs.LineEndings
import PonyEditor.Proofs.BalancedMatches
import PonyEditor.Proofs.MarkedErrors
import PonyEditor.Proofs.NextTokens
import PonyEditor.Proofs.CommentNesting
import PonyEditor.Proofs.StringEnds
import PonyEditor.Proofs.LongestMatches
import PonyEditor.Proofs.TwoEndedWalks
import PonyEditor.Proofs.AcceptedLines
import PonyEditor.Proofs.Spellings
import PonyEditor.Proofs.NearestLines
import PonyEditor.Proofs.IndentArithmetic
import PonyEditor.Proofs.ResumedScans
