import Muduo.Foundation.Exec
import Muduo.Foundation.Bytes
import Muduo.Foundation.Machine
import Muduo.Net.Buffer
import Muduo.Net.BufferDeque
import Muduo.Net.Channel
import Muduo.Net.EventLoop
import Muduo.Net.TcpConnection
import Muduo.Net.TcpStream
import Muduo.Net.TcpShutdown
import Muduo.Base.Timestamp
import Muduo.Foundation.Segment
import Muduo.Protorpc.RpcCodec
import Muduo.Base.Atomic
import Muduo.Protorpc.RpcChannel
import Muduo.Protorpc.RpcFraming
import Muduo.Protorpc.RpcDelivery
import Muduo.Foundation.SortedMap
import Muduo.Http.HttpRequest
import Muduo.Http.HttpParse
import Muduo.Http.HttpResponse
import Muduo.Http.HttpServer
import Muduo.Http.HttpRejection
import Muduo.Http.HttpGrammar
import Muduo.Http.HttpPipeline
import Muduo.Http.HttpSoundness
import Muduo.Foundation.SortedSet
import Muduo.Net.TimerQueue
import Muduo.Net.TimerRuns
import Muduo.Net.TimerCancel
import Muduo.Net.TimerDeadline
import Muduo.Net.Poller
import Muduo.Net.EPollPoller
import Muduo.Net.PollPoller
import Muduo.Net.PollerAgreement
import Muduo.Net.TcpLifecycle
import Muduo.Net.Connector
import Muduo.Net.ConnectorSockets
import Muduo.Net.TcpClient
import Muduo.Net.TcpClientRuns
import Muduo.Net.LoopFunctors
import Muduo.Net.LoopWakeup
import Muduo.Net.EventLoopThread
import Muduo.Net.EPollKernel
import Muduo.Foundation.SlotTable
import Muduo.Net.PollSlots
import Muduo.Foundation.Ownership
import Muduo.Base.AsyncLogging
import Muduo.Base.LogFlow
import Muduo.Base.AsyncBuffers
import Muduo.Base.AsyncLines
import Muduo.Base.AsyncStop
import Muduo.Base.BoundedBlockingQueue
import Muduo.Net.TimerDeletion
import Muduo.Net.TimerFiring
import Muduo.Foundation.Decimal
import Muduo.Net.TcpServer
import Muduo.Foundation.CInt
import Muduo.Foundation.Calendar
import Muduo.Base.Date
import Muduo.Http.HttpReset
import Muduo.Net.BufferIntegers
import Muduo.Net.BufferPieces
import Muduo.Foundation.Reader
import Muduo.Http.HttpFraming
import Muduo.Protorpc.RpcIntegrity
import Muduo.Net.WaterMark
import Muduo.Base.UtcTime
import Muduo.Foundation.Bisection
import Muduo.Base.TimeZone
import Muduo.Foundation.ByteFile
import Muduo.Base.TimeZoneFile
import Muduo.Net.Inspector
import Muduo.Foundation.Digits
import Muduo.Foundation.CharArray
import Muduo.Base.LogStream
import Muduo.Base.Logging
import Muduo.Base.LogFile
import Muduo.Foundation.Threads
import Muduo.Base.ThreadPool
import Muduo.Base.CountDownLatch
import Muduo.Base.BlockingQueue
import Muduo.Net.EventLoopThreadPool
import Muduo.Net.TcpServerLoops
import Muduo.Net.Acceptor
import Muduo.Net.TcpLink
import Muduo.Protorpc.RpcLink
import Muduo.Protorpc.RpcService
import Muduo.Foundation.TextOrder
import Muduo.Foundation.Stdio
import Muduo.Base.TimeText
import Muduo.Base.LogStore
import Muduo.Base.LogDelivery
import Muduo.Net.EventDispatch
import Muduo.Net.PollerReports
import Muduo.Net.TimerIntervals
import Muduo.Base.Mutex
import Muduo.Http.HttpAnswers
