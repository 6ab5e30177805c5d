import Sieve.Analyzer.AcceptedLog
import Sieve.Analyzer.Analyze
import Sieve.Analyzer.AnalyzeLog
import Sieve.Analyzer.AnalyzeRun
import Sieve.Analyzer.DecodedLines
import Sieve.Analyzer.EventGraph
import Sieve.Analyzer.HearWritePairs
import Sieve.Analyzer.LearnedLog
import Sieve.Analyzer.ParseLine
import Sieve.Analyzer.PreviousReads
import Sieve.Analyzer.ReadSets
import Sieve.Analyzer.ResourceKeys
import Sieve.Analyzer.RetrieveMasked
import Sieve.Analyzer.RoundGroups
import Sieve.Analyzer.SanityCheck
import Sieve.Client.CacheReads
import Sieve.Client.Common
import Sieve.Client.LearnClient
import Sieve.Client.PauseFilter
import Sieve.Client.ResourceKeys
import Sieve.Client.RestCalls
import Sieve.Client.TestClient
import Sieve.Event.Canonical
import Sieve.Event.CanonicalAgree
import Sieve.Event.CanonicalPairs
import Sieve.Event.DeepEqual
import Sieve.Event.DialectsAgree
import Sieve.Event.DiffDetermines
import Sieve.Event.DiffPairs
import Sieve.Event.DiffSpec
import Sieve.Event.Dumps
import Sieve.Event.Gains
import Sieve.Event.Loads
import Sieve.Event.MapKeys
import Sieve.Event.PartOf
import Sieve.Event.Paths
import Sieve.Event.Readings
import Sieve.Event.SameText
import Sieve.Instrumentation.Brackets
import Sieve.Instrumentation.Controller
import Sieve.Instrumentation.Enclosed
import Sieve.Instrumentation.Erased
import Sieve.Instrumentation.Instrumented
import Sieve.Instrumentation.Passes
import Sieve.Instrumentation.Runs
import Sieve.Instrumentation.Shapes
import Sieve.Instrumentation.Sound
import Sieve.Instrumentation.Syntax
import Sieve.Library.CallTrees
import Sieve.Library.DataTree
import Sieve.Library.Glob
import Sieve.Library.KeyLevels
import Sieve.Library.LastWrites
import Sieve.Library.Nesting
import Sieve.Library.OccurrenceCount
import Sieve.Library.PatternTable
import Sieve.Library.Runs
import Sieve.Library.Saturation
import Sieve.Library.SeriesParallel
import Sieve.Library.Traces
import Sieve.Library.TreeDiff
import Sieve.Oracle.APILog
import Sieve.Oracle.ControllerFamily
import Sieve.Oracle.ControllerFormMask
import Sieve.Oracle.HistoryDigest
import Sieve.Oracle.LivenessChecker
import Sieve.Oracle.MaskPaths
import Sieve.Oracle.MaskedDifferences
import Sieve.Oracle.SecondPassTrim
import Sieve.Oracle.StateMask
import Sieve.Oracle.StateReplay
import Sieve.Plan.Filtering
import Sieve.Plan.Generate
import Sieve.Plan.Load
import Sieve.Plan.Parse
import Sieve.Plan.ReadBack
import Sieve.Plan.Reports
import Sieve.Plan.SameTriggers
import Sieve.Plan.Survival
import Sieve.Policies.Common
import Sieve.Policies.EffectiveWrites
import Sieve.Policies.IntermediateState
import Sieve.Policies.OtherReconcilers
import Sieve.Policies.SameKeys
import Sieve.Policies.StaleState
import Sieve.Policies.UnobservedState
import Sieve.Replay.CanonicalStates
import Sieve.Replay.IntermediateState
import Sieve.Replay.ListReads
import Sieve.Replay.MaskLookups
import Sieve.Replay.PreviousObject
import Sieve.Replay.PreviousState
import Sieve.Replay.RestoredObject
import Sieve.Replay.TriggerAnswers
import Sieve.Replay.UnchangedObject
import Sieve.Replay.UnobservedState
import Sieve.Server.APIDiffs
import Sieve.Server.APIForm
import Sieve.Server.APIServerPauses
import Sieve.Server.APIStates
import Sieve.Server.AsyncActions
import Sieve.Server.Config
import Sieve.Server.ControllerPauses
import Sieve.Server.EventCycles
import Sieve.Server.ExpressionParse
import Sieve.Server.LearnKeys
import Sieve.Server.LearnLog
import Sieve.Server.LearnProgress
import Sieve.Server.LearnQueue
import Sieve.Server.LearnServer
import Sieve.Server.MalformedExpressions
import Sieve.Server.MaskedData
import Sieve.Server.ObjectMaps
import Sieve.Server.OngoingRead
import Sieve.Server.PauseScopes
import Sieve.Server.PlainKeys
import Sieve.Server.ResumeSend
import Sieve.Server.Rounds
import Sieve.Server.StateMachine
import Sieve.Server.StateMachineOrder
import Sieve.Server.StateMachineSafety
import Sieve.Server.StateTables
import Sieve.Server.TestCoordinator
import Sieve.Server.Timers
import Sieve.Server.TimersOwn
import Sieve.Server.TimersStarted
import Sieve.Server.TreeGraph
import Sieve.Server.TreeRebuild
import Sieve.Server.TriggerGraphSpec
import Sieve.Server.TriggerInterference
import Sieve.Server.TriggerOccurrence
import Sieve.Server.TwoTerminal
