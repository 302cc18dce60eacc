import Backbook.OutcomeRules
import Backbook.OrderedMaps
import Backbook.ByteParsers
import Backbook.PrefixCodes
import Backbook.Validations
import Backbook.JsonTrees
import Backbook.DecimalTexts
import Backbook.DecimalPoints
import Backbook.DigitTexts
import Backbook.DomainMoney
import Backbook.BoundedWalks
import Backbook.SortedSearch
import Backbook.DateOrder
import Backbook.DomainCalendar
import Backbook.SettlementLag
import Backbook.ModifiedFollowing
import Backbook.DomainTotals
import Backbook.LedgerAgreement
import Backbook.DomainPostingPolicy
import Backbook.DomainLimits
import Backbook.LimitAlgebra
import Backbook.DomainSettlement
import Backbook.SettlementNets
import Backbook.SettlementObligations
import Backbook.DomainState
import Backbook.VersionChain
import Backbook.StateTransitions
import Backbook.PositionMoves
import Backbook.PositionPostings
import Backbook.PositionBalances
import Backbook.StateRuns
import Backbook.ReachableStates
import Backbook.ConfirmationHistory
import Backbook.StateUnwinding
import Backbook.EndOfDay
import Backbook.HistoryFrames
import Backbook.OptimisticVersions
import Backbook.EndOfDayPaths
import Backbook.AmendRebook
import Backbook.JournalBatch
import Backbook.JournalFields
import Backbook.StateExport
import Backbook.JournalCodec
import Backbook.JournalPayload
import Backbook.CyclicCheck
import Backbook.FramedLog
import Backbook.JournalFrames
import Backbook.JournalScan
import Backbook.StorageJournal
import Backbook.JournalCorruption
import Backbook.JournalBursts
import Backbook.ServiceCommand
import Backbook.JournalReplay
import Backbook.ServiceEvaluator
import Backbook.EvaluatorReplay
import Backbook.ServiceExecute
import Backbook.ServiceRecovery
import Backbook.CrashRecovery
import Backbook.ServiceRuns
import Backbook.ExactlyOnce
import Backbook.RequestShapes
import Backbook.RequestIdentity
import Backbook.ServiceBounds
import Backbook.AllOrNothing
import Backbook.DateText
import Backbook.ServerJsonCodec
import Backbook.ServerFieldReaders
import Backbook.CommandDocuments
import Backbook.ServerResponses
import Backbook.BrowserDecoders
import Backbook.DecoderRules
import Backbook.BrowserViews
import Backbook.ResponseAgreement
import Backbook.NewestRequests
import Backbook.BrowserRefresh
import Backbook.BrowserCoherence
import Backbook.DateAgreement
import Backbook.AmountEntry
import Backbook.AmountAgreement
import Backbook.BrowserPolling
import Backbook.JournalHistories
import Backbook.AcceptedJournals
import Backbook.ServiceThreads
import Backbook.ThreadObservations
import Backbook.HttpRoutes
import Backbook.BrowserSubmissions
import Backbook.SubmissionRuns
import Backbook.KeyedMaps
import Backbook.TradeRegister
import Backbook.TradeDossiers
import Backbook.RegisterSteps
import Backbook.RegisterRefinement
import Backbook.TradeInterleavings
import Backbook.ConsoleRequests
import Backbook.TradeForms
import Backbook.ConsoleActions
import Backbook.TradeEvidence
import Backbook.SelectedRows
import Backbook.SeedFiles
import Backbook.SeedAttempts
