import NodeReshape.Text
import NodeReshape.Blank
import NodeReshape.Units
import NodeReshape.OldNode
import NodeReshape.Fragment
import NodeReshape.Render
import NodeReshape.Reshape
import NodeReshape.Matcher
import NodeReshape.Number
import NodeReshape.Value
import NodeReshape.ErrorLike
import NodeReshape.Raised
import NodeReshape.LetterCaseTable
import NodeReshape.LetterCase
import NodeReshape.Level
import NodeReshape.Path
import NodeReshape.Config
import NodeReshape.Utf8
import NodeReshape.Disk
import NodeReshape.QuotedText
import NodeReshape.DiskAccess
import NodeReshape.DiskView
import NodeReshape.RequestLike
import NodeReshape.JsonText
import NodeReshape.JsonReading
import NodeReshape.Log
import NodeReshape.RecordText
import NodeReshape.Logger
import NodeReshape.Report
import NodeReshape.Batch
import NodeReshape.Run
import NodeReshape.Main
import NodeReshape.Proofs.DocumentLayout
import NodeReshape.Proofs.NodePattern
import NodeReshape.Proofs.PendingNode
import NodeReshape.Proofs.NestedNodes
import NodeReshape.Proofs.RepeatedReshaping
import NodeReshape.Proofs.NestingDepth
import NodeReshape.Proofs.DiskWalk
import NodeReshape.Proofs.DiskChange
import NodeReshape.Proofs.FileMigration
import NodeReshape.Proofs.LinkFreeDisk
import NodeReshape.Proofs.BatchProgress
import NodeReshape.Proofs.InputPreservation
import NodeReshape.Proofs.MissingInput
import NodeReshape.Proofs.Delimiters
import NodeReshape.Proofs.DocumentCut
import NodeReshape.Proofs.PatternChoices
import NodeReshape.Proofs.UnitText
import NodeReshape.Proofs.UnitMatching
import NodeReshape.Proofs.DirectoryLookup
import NodeReshape.Proofs.EnsuredDirectory
import NodeReshape.Proofs.ListedFiles
import NodeReshape.Proofs.RepeatedMigration
import NodeReshape.Proofs.RunOutcome
import NodeReshape.Proofs.LevelNames
import NodeReshape.Proofs.Verbosity
import NodeReshape.Proofs.AppendedText
import NodeReshape.Proofs.ResolvedPaths
import NodeReshape.Proofs.OwnKeys
import NodeReshape.Proofs.SettingFaults
import NodeReshape.Proofs.RepetitionLengths
import NodeReshape.Proofs.NodeSpacing
import NodeReshape.Proofs.BalancedBrackets
import NodeReshape.Proofs.KeyCount
import NodeReshape.Proofs.BrokenBytes
import NodeReshape.Proofs.FileContents
import NodeReshape.Proofs.BytePatches
import NodeReshape.Proofs.FileNames
import NodeReshape.Proofs.BatchLog
import NodeReshape.Proofs.MatcherRow
import NodeReshape.Proofs.MatcherSearch
import NodeReshape.Proofs.WrappedFailures
import NodeReshape.Proofs.LevelRefusal
import NodeReshape.Proofs.StandIns
import NodeReshape.Proofs.OrderedEnds
import NodeReshape.Proofs.RenderedContents
import NodeReshape.Proofs.SearchProgress
import NodeReshape.Proofs.UnitDocuments
import NodeReshape.Proofs.UnitParts
import NodeReshape.Proofs.UnitSearch
import NodeReshape.Proofs.UnitSpacing
import NodeReshape.Proofs.UnitReshaping
