import ModalEdit.Action.Basic
import ModalEdit.Action.Builtin
import ModalEdit.Action.Id
import ModalEdit.Buffer.Basic
import ModalEdit.Buffer.Mark
import ModalEdit.Caret
import ModalEdit.Command
import ModalEdit.CommandLine
import ModalEdit.Edit.Execute
import ModalEdit.Edit.ModeChange
import ModalEdit.Edit.Movement
import ModalEdit.Edit.Operation
import ModalEdit.Edit.State
import ModalEdit.Edit.Typing
import ModalEdit.Editor.Basic
import ModalEdit.Editor.Event
import ModalEdit.Editor.Marked
import ModalEdit.Extension.Basic
import ModalEdit.Key.Basic
import ModalEdit.Key.Notation
import ModalEdit.Keymap.Basic
import ModalEdit.Keymap.Default
import ModalEdit.Keymap.Trie
import ModalEdit.Main
import ModalEdit.Mode.Basic
import ModalEdit.Mode.Machine
import ModalEdit.Motion.Basic
import ModalEdit.Operator.Basic
import ModalEdit.Operator.Range
import ModalEdit.Options
import ModalEdit.Options.File
import ModalEdit.Proofs.AimedColumns
import ModalEdit.Proofs.AnchoredCarets
import ModalEdit.Proofs.ArgumentBounds
import ModalEdit.Proofs.ArgumentDeletion
import ModalEdit.Proofs.AttunedInput
import ModalEdit.Proofs.BlockGeometry
import ModalEdit.Proofs.BoundSequence
import ModalEdit.Proofs.BracketScans
import ModalEdit.Proofs.CallArguments
import ModalEdit.Proofs.CancelledCommands
import ModalEdit.Proofs.CaretTable
import ModalEdit.Proofs.CaretVisits
import ModalEdit.Proofs.CaseTables
import ModalEdit.Proofs.ChangedLines
import ModalEdit.Proofs.CharacterSearch
import ModalEdit.Proofs.ClearStates
import ModalEdit.Proofs.Clicks
import ModalEdit.Proofs.CommandGrammar
import ModalEdit.Proofs.CountedMotions
import ModalEdit.Proofs.CountedSteps
import ModalEdit.Proofs.DisplayColumns
import ModalEdit.Proofs.DoubledOperators
import ModalEdit.Proofs.EditFrame
import ModalEdit.Proofs.EditSteps
import ModalEdit.Proofs.EditorFrame
import ModalEdit.Proofs.EscapeLaw
import ModalEdit.Proofs.ExecutedCommands
import ModalEdit.Proofs.FailedKeys
import ModalEdit.Proofs.FeedLines
import ModalEdit.Proofs.FirstBinding
import ModalEdit.Proofs.FramedArguments
import ModalEdit.Proofs.FramedLines
import ModalEdit.Proofs.GestureSteps
import ModalEdit.Proofs.GuardTokens
import ModalEdit.Proofs.HumpObject
import ModalEdit.Proofs.HumpTiling
import ModalEdit.Proofs.IdleCommands
import ModalEdit.Proofs.InsertTyping
import ModalEdit.Proofs.IntendedColumns
import ModalEdit.Proofs.KeyedRuns
import ModalEdit.Proofs.KeymapBinding
import ModalEdit.Proofs.KeymapTargets
import ModalEdit.Proofs.LastingAccounts
import ModalEdit.Proofs.LineDeletion
import ModalEdit.Proofs.LineEndSpans
import ModalEdit.Proofs.LineEnds
import ModalEdit.Proofs.LineGeometry
import ModalEdit.Proofs.LineTiling
import ModalEdit.Proofs.LineWords
import ModalEdit.Proofs.LinesAtCarets
import ModalEdit.Proofs.LinewiseCommands
import ModalEdit.Proofs.LoneCaret
import ModalEdit.Proofs.LoneSelection
import ModalEdit.Proofs.MarkAccounts
import ModalEdit.Proofs.MarkedCharacters
import ModalEdit.Proofs.MarkedRoundTrip
import ModalEdit.Proofs.Marks
import ModalEdit.Proofs.MaximalMunch
import ModalEdit.Proofs.ModeCoherence
import ModalEdit.Proofs.ModeObservers
import ModalEdit.Proofs.MotionCommands
import ModalEdit.Proofs.ObjectCommands
import ModalEdit.Proofs.OfferedActions
import ModalEdit.Proofs.OperatorAgreement
import ModalEdit.Proofs.OperatorLockstep
import ModalEdit.Proofs.Overwriting
import ModalEdit.Proofs.PartialInput
import ModalEdit.Proofs.PinnedRun
import ModalEdit.Proofs.ReadCommands
import ModalEdit.Proofs.RegisterHistory
import ModalEdit.Proofs.RemapTransparency
import ModalEdit.Proofs.Replay
import ModalEdit.Proofs.ReplayBudget
import ModalEdit.Proofs.ReprintedKeys
import ModalEdit.Proofs.ResolverStep
import ModalEdit.Proofs.RestingCarets
import ModalEdit.Proofs.ScanPaths
import ModalEdit.Proofs.SearchTurns
import ModalEdit.Proofs.SelectionAdoption
import ModalEdit.Proofs.SelectionAgreement
import ModalEdit.Proofs.SelectionGrammar
import ModalEdit.Proofs.SelectionReplacement
import ModalEdit.Proofs.SelectionSteps
import ModalEdit.Proofs.SelectionToggle
import ModalEdit.Proofs.SessionFrame
import ModalEdit.Proofs.ShiftedScans
import ModalEdit.Proofs.ShownSelections
import ModalEdit.Proofs.SoundSessions
import ModalEdit.Proofs.SpanMapping
import ModalEdit.Proofs.SpanUnion
import ModalEdit.Proofs.StandardSession
import ModalEdit.Proofs.StrandedCarets
import ModalEdit.Proofs.SuppressedReports
import ModalEdit.Proofs.TargetSpans
import ModalEdit.Proofs.TextPieces
import ModalEdit.Proofs.TextReplacement
import ModalEdit.Proofs.Transcript
import ModalEdit.Proofs.TrieLookup
import ModalEdit.Proofs.UnreadStrokes
import ModalEdit.Proofs.VerticalMotions
import ModalEdit.Proofs.WellFormedCommands
import ModalEdit.Proofs.WordDeletion
import ModalEdit.Proofs.WordMotions
import ModalEdit.Proofs.WordPlaces
import ModalEdit.Proofs.WordSpans
import ModalEdit.Proofs.WrittenKeys
import ModalEdit.Range
import ModalEdit.Register
import ModalEdit.Resolver.Basic
import ModalEdit.Resolver.Drain
import ModalEdit.Resolver.Pending
import ModalEdit.Session.Basic
import ModalEdit.Session.Event
import ModalEdit.Span.Basic
import ModalEdit.Suppression
import ModalEdit.Text.Basic
import ModalEdit.Text.CharClass
import ModalEdit.Text.Column
import ModalEdit.Text.Hump
import ModalEdit.Text.Line
import ModalEdit.Text.Step
import ModalEdit.Text.Word
import ModalEdit.TextObject.Argument
import ModalEdit.TextObject.Hump
import ModalEdit.TextObject.Word
import ModalEdit.Toml.Document
import ModalEdit.Toml.Line
import ModalEdit.Toml.Number
import ModalEdit.Toml.Quoted
import ModalEdit.Toml.Scalar
import ModalEdit.Toml.Table
import ModalEdit.Unicode.Alphabetic
import ModalEdit.Unicode.CaseMapping
import ModalEdit.Unicode.CodeRun
import ModalEdit.Unicode.LetterCase
import ModalEdit.Unicode.Numeric
import ModalEdit.Unicode.WhiteSpace
import ModalEdit.Unicode.Width
