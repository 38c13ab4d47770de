import GameServer.Lib.Machine
import GameServer.Lib.Exec
import GameServer.Lib.Blocks
import GameServer.Lib.Cursor
import GameServer.Lib.Moves
import GameServer.Lib.Fifo
import GameServer.Lib.Lines
import GameServer.Lib.Cuts
import GameServer.Lib.Positions
import GameServer.Lib.Words
import GameServer.Lib.Stream
import GameServer.Lib.FixedWidth
import GameServer.Lib.Potential
import GameServer.Lib.Transducer
import GameServer.Net.Buffer
import GameServer.Net.BufferRefinement
import GameServer.Net.BufferCapacity
import GameServer.Net.ReadRounds
import GameServer.Net.Session
import GameServer.Net.WriteOrder
import GameServer.Net.DelayedClose
import GameServer.Net.ClosedSession
import GameServer.Net.NetMessage
import GameServer.Net.MessageSession
import GameServer.Net.MessageFraming
import GameServer.Database.MySqlClient
import GameServer.Database.MySqlConnection
import GameServer.Database.MySqlTypeHack
import GameServer.Database.MySqlPreparedStatement
import GameServer.Database.ParameterBinding
import GameServer.Database.StatementValues
import GameServer.Database.StatementTable
import GameServer.Database.StatementArity
import GameServer.Database.PoolLookups
import GameServer.Database.ErrorHandling
import GameServer.Database.Preparation
import GameServer.Database.Execution
import GameServer.Database.TransactionReturns
import GameServer.Database.TransactionOutcome
import GameServer.Database.TransactionAtomicity
import GameServer.Database.Reconnect
import GameServer.Database.SqlTask
import GameServer.Database.QueryCallback
import GameServer.Database.CallbackRuns
import GameServer.Database.CallbackTypes
import GameServer.Database.ContinuationChain
import GameServer.Net.Server
import GameServer.Database.DatabaseWorkerPool
import GameServer.Database.PoolExclusion
import GameServer.Database.PoolOpening
import GameServer.Database.PoolReopening
import GameServer.Database.StatementOwnership
import GameServer.Database.TransactionSharing
import GameServer.Database.StatementDeletion
import GameServer.Util.MillSecTime
import GameServer.Database.TransactionRetry
import GameServer.Threading.ProducerConsumerQueue
import GameServer.Threading.QueueThreads
import GameServer.Threading.QueueHistory
import GameServer.Threading.StrandedTasks
import GameServer.Threading.WaitOverloads
import GameServer.Threading.WakeUps
import GameServer.Database.DatabaseWorker
import GameServer.Database.WorkerShutdown
import GameServer.Database.WorkerExceptions
import GameServer.Http.HttpCommon
import GameServer.Util.TimeUtil
import GameServer.Util.AsyncCallbackProcessor
import GameServer.Util.CallbackPasses
import GameServer.Http.PicoHttpParser
import GameServer.Http.HttpParser
import GameServer.Util.StringTo
import GameServer.Util.ToString
import GameServer.Database.SqlString
import GameServer.Util.LogFilename
import GameServer.Util.HtmlFormatSink
import GameServer.Util.LogSize
import GameServer.Util.LogRotation
import GameServer.Database.Field
import GameServer.Database.FieldConversion
import GameServer.Database.QueryResult
import GameServer.Database.ResultBuffer
import GameServer.Database.RowLoop
import GameServer.Database.ResultSet
import GameServer.Database.ResultCursor
import GameServer.Http.ParserReuse
import GameServer.Http.ContentLength
import GameServer.Http.QueryString
import GameServer.Http.QueryPositions
import GameServer.Http.HttpResponse
import GameServer.Http.HttpRouter
import GameServer.Http.Registrations
import GameServer.Http.HttpSession
import GameServer.Http.HandlerInvocation
import GameServer.Http.PicoPrefix
import GameServer.Http.Segmentation
import GameServer.Http.ResponseReuse
import GameServer.Http.ResponseFraming
import GameServer.Http.FailedHandler
import GameServer.Http.PicoResponse
import GameServer.Http.ResponseDecoding
import GameServer.Http.ChunkedDecoder
import GameServer.Http.ChunkedInPlace
import GameServer.Http.ChunkedMessage
import GameServer.Http.FastScan
import GameServer.Database.TransactionPipeline
import GameServer.Database.PipelineRuns
import GameServer.Net.WriteDrain
import GameServer.Http.SessionWire
import GameServer.Lib.Family
import GameServer.Net.ServerSessions
import GameServer.Lib.FreeStore
import GameServer.Database.ParameterMemory
import GameServer.Database.ResultMemory
import GameServer.Database.ResultTexts
import GameServer.Http.HttpServer
