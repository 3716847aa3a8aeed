import NqmIrimager.Lib.StepRun
import NqmIrimager.Lib.StepProgress
import NqmIrimager.Lib.Framing
import NqmIrimager.Lib.Pattern
import NqmIrimager.Lib.SlotLedger
import NqmIrimager.Lib.Decimal
import NqmIrimager.Definitions
import NqmIrimager.StringRingBuffer
import NqmIrimager.RingCells
import NqmIrimager.IRLoggerParser
import NqmIrimager.IRLoggerReader
import NqmIrimager.Chrono
import NqmIrimager.ReaderThread
import NqmIrimager.Logger
import NqmIrimager.LoggerRouting
import NqmIrimager.LoggerThreads
import NqmIrimager.RunWithTimeout
import NqmIrimager.Shutdown
import NqmIrimager.IRLoggerToSpd
import NqmIrimager.WakeSignal
import NqmIrimager.ThermalFrame
import NqmIrimager.IRImagerRealImpl
import NqmIrimager.IRImager
import NqmIrimager.Proofs.RingContents
import NqmIrimager.Proofs.RingQueue
import NqmIrimager.Proofs.RingExact
import NqmIrimager.Proofs.RingBounds
import NqmIrimager.Proofs.RingFront
import NqmIrimager.Proofs.ParserLines
import NqmIrimager.Proofs.ParserFrames
import NqmIrimager.Proofs.ParserStream
import NqmIrimager.Proofs.ParserBounds
import NqmIrimager.Proofs.ParserThrows
import NqmIrimager.Proofs.LineGrammar
import NqmIrimager.Proofs.ReaderDelivers
import NqmIrimager.Proofs.ReaderReports
import NqmIrimager.Proofs.DateStrings
import NqmIrimager.Proofs.LogWindow
import NqmIrimager.Proofs.LogPaths
import NqmIrimager.Proofs.LogCollisions
import NqmIrimager.Proofs.LoggerRestores
import NqmIrimager.Proofs.LoggerRoutes
import NqmIrimager.Proofs.LoggerLocks
import NqmIrimager.Proofs.LoggerAccount
import NqmIrimager.Proofs.LoggerSingleton
import NqmIrimager.Proofs.LoggerEnds
import NqmIrimager.Proofs.TimeoutReports
import NqmIrimager.Proofs.TimeoutLifetime
import NqmIrimager.Proofs.ShutdownUnread
import NqmIrimager.Proofs.ShutdownEnds
import NqmIrimager.Proofs.LoopTurns
import NqmIrimager.Proofs.PipelineDelivers
import NqmIrimager.Proofs.LineReports
import NqmIrimager.Proofs.MockedRecords
import NqmIrimager.Proofs.WakeSignalKills
import NqmIrimager.Proofs.ThermalPixels
import NqmIrimager.Proofs.FrameFates
import NqmIrimager.Proofs.FrameOrder
import NqmIrimager.Proofs.FramePairs
import NqmIrimager.Proofs.ShutterRetry
import NqmIrimager.Proofs.FrameSession
import NqmIrimager.Proofs.IRImagerCopies
