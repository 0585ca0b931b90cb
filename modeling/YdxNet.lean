import YdxNet.Framework.Bytes
import YdxNet.Framework.Ring
import YdxNet.Framework.Machine
import YdxNet.Framework.OrderedSet
import YdxNet.Framework.Keyed
import YdxNet.Framework.Condition
import YdxNet.Framework.Numeral
import YdxNet.Impl.StreamBuffer
import YdxNet.Impl.StreamChecked
import YdxNet.Impl.StringPiece
import YdxNet.Impl.Buffer
import YdxNet.Impl.Receiver
import YdxNet.Impl.ReceiverThreads
import YdxNet.Impl.Poller
import YdxNet.Impl.TcpConnection
import YdxNet.Impl.EventLoop
import YdxNet.Impl.LoopThreads
import YdxNet.Impl.EpollerThread
import YdxNet.Impl.InetAddress
import YdxNet.Impl.TcpServer
import YdxNet.Impl.TimerSet
import YdxNet.Impl.TimerWheel
import YdxNet.Impl.ThreadPool
import YdxNet.Impl.TcpClient
import YdxNet.Impl.Connector
import YdxNet.Impl.ConnectorThreads
import YdxNet.Impl.ClientConnector
import YdxNet.Impl.ConnectionRefs
import YdxNet.Impl.Sender
import YdxNet.Impl.SenderDrain
import YdxNet.Impl.SenderWire
import YdxNet.Impl.LogStream
import YdxNet.Impl.Logging
import YdxNet.Impl.LogFile
import YdxNet.Impl.AsyncLogging
import YdxNet.Impl.CountDownLauch
import YdxNet.Impl.StreamThreads
import YdxNet.Impl.Acceptor
import YdxNet.Spec.MessageFifo
import YdxNet.Spec.ByteQueue
import YdxNet.Spec.LogText
import YdxNet.Proof.StreamBuffer
import YdxNet.Proof.StreamFifo
import YdxNet.Proof.StreamBytes
import YdxNet.Proof.StreamFailures
import YdxNet.Proof.StreamBounds
import YdxNet.Proof.StreamThreads
import YdxNet.Proof.Buffer
import YdxNet.Proof.Receiver
import YdxNet.Proof.DecoderLoop
import YdxNet.Proof.ReceiverThreads
import YdxNet.Proof.OutputStream
import YdxNet.Proof.GracefulClose
import YdxNet.Proof.Duplex
import YdxNet.Proof.Poller
import YdxNet.Proof.Destroyed
import YdxNet.Proof.LoopConnections
import YdxNet.Proof.Registration
import YdxNet.Proof.Lifecycle
import YdxNet.Proof.LoopThreads
import YdxNet.Proof.LoopProgress
import YdxNet.Proof.LoopQuit
import YdxNet.Proof.EpollerThread
import YdxNet.Proof.TcpServer
import YdxNet.Proof.ConnectionNames
import YdxNet.Proof.InetAddress
import YdxNet.Proof.LoopBalance
import YdxNet.Proof.Acceptor
import YdxNet.Proof.Stranded
import YdxNet.Proof.Connector
import YdxNet.Proof.ConnectorThreads
import YdxNet.Proof.ClientConnector
import YdxNet.Proof.ClientProgress
import YdxNet.Proof.ConnectionRefs
import YdxNet.Proof.TimerSet
import YdxNet.Proof.TimerRuns
import YdxNet.Proof.TimerBatch
import YdxNet.Proof.TimerHistory
import YdxNet.Proof.TimerCancel
import YdxNet.Proof.TimerReentry
import YdxNet.Proof.TimerWheel
import YdxNet.Proof.TimerWheelTimes
import YdxNet.Proof.TimerWheelRejected
import YdxNet.Proof.ThreadPool
import YdxNet.Proof.ThreadPoolProgress
import YdxNet.Proof.Sender
import YdxNet.Proof.SenderDrain
import YdxNet.Proof.SenderWakeup
import YdxNet.Proof.SenderWire
import YdxNet.Proof.Transfers
import YdxNet.Proof.Delivery
import YdxNet.Proof.TcpClient
import YdxNet.Proof.NumberText
import YdxNet.Proof.LogStream
import YdxNet.Proof.Logging
import YdxNet.Proof.LogFile
import YdxNet.Proof.AsyncBuffers
import YdxNet.Proof.AsyncLogging
import YdxNet.Proof.AsyncLoggingStop
import YdxNet.Proof.AsyncLoggingTurns
import YdxNet.Proof.CountDownLauch
import YdxNet.Proof.LogPipeline
