import ChatServer.Lib.CyclicList
import ChatServer.Lib.StreamDecoder
import ChatServer.RingBuffer
import ChatServer.PacketCodec
import ChatServer.Connection
import ChatServer.AttemptWrite
import ChatServer.ConnectionOps
import ChatServer.OutputStream
import ChatServer.ReceivePath
import ChatServer.Segmentation
import ChatServer.ChatApp
import ChatServer.ChatTables
import ChatServer.Lib.Runs
import ChatServer.LogicThread
import ChatServer.Directory
import ChatServer.Rooms
import ChatServer.ShardTask
import ChatServer.Broadcast
import ChatServer.BroadcastFlow
import ChatServer.BroadcastDelivery
import ChatServer.BroadcastOrder
import ChatServer.Notification
import ChatServer.FlowControl
import ChatServer.WriteInterest
import ChatServer.ReadInterest
import ChatServer.Lib.History
import ChatServer.LifeCycle
import ChatServer.AppendedPackets
import ChatServer.EventOrder
import ChatServer.Recipients
import ChatServer.LoginReply
import ChatServer.Lib.Shards
import ChatServer.ConnectionTable
import ChatServer.Descriptors
import ChatServer.Ownership
import ChatServer.StaleEvents
import ChatServer.IdleSweep
import ChatServer.TimeoutCount
import ChatServer.Lib.TokenBucket
import ChatServer.RateLimit
import ChatServer.FrameLimit
import ChatServer.BoundedQueue
import ChatServer.Lib.WireFormat
import ChatServer.ChatProto
import ChatServer.ClientReceive
import ChatServer.RoomKeys
import ChatServer.Confirmation
import ChatServer.ThreadPool
import ChatServer.Authenticity
import ChatServer.ClientInput
import ChatServer.RoomAgreement
import ChatServer.DroppedBroadcasts
import ChatServer.PoolDrain
import ChatServer.Shutdown
import ChatServer.ClientThreads
import ChatServer.ClientExit
import ChatServer.ClientSend
import ChatServer.AcceptLoop
import ChatServer.Registration
import ChatServer.MessageTasks
import ChatServer.MessageTasks.UsernameRelease
import ChatServer.MessageTasks.MessageOrder
import ChatServer.Lib.BoundedFifo
import ChatServer.RingBufferFifo
import ChatServer.Lib.DelimitedLines
import ChatServer.LineCodec
import ChatServer.LengthPrefixed
import ChatServer.ClientDecode
import ChatServer.JoinRoom
import ChatServer.MessageTasks.Departure
import ChatServer.LineServer
import ChatServer.LineServer.Connections
import ChatServer.LineServer.Usernames
import ChatServer.LineServer.TotalOrder
import ChatServer.LineServer.ChatLines
import ChatServer.LineServer.DescriptorClosing
import ChatServer.SweepTermination
import ChatServer.Lib.Mutex
import ChatServer.Lib.Monitor
import ChatServer.SafeQueue
import ChatServer.ObjectPool
import ChatServer.MessagePayloads
import ChatServer.AsyncLogger
import ChatServer.LineServer.EventLoop
import ChatServer.LineServer.ClientStream
import ChatServer.LineServer.Readiness
import ChatServer.MessageTasks.Sessions
import ChatServer.MessageTasks.ChatHistory
import ChatServer.Lib.Amortized
import ChatServer.MessageTasks.SpamCheck
import ChatServer.Lib.Fairness
import ChatServer.EchoServer
import ChatServer.EchoServer.Exactness
import ChatServer.EchoServer.Progress
import ChatServer.LineServer.LineClient
import ChatServer.LineServer.Agreement
import ChatServer.Downlink
import ChatServer.Provenance
import ChatServer.RoomPrivacy
import ChatServer.ChatNetwork
import ChatServer.ChatNetwork.Requests
import ChatServer.ChatNetwork.Delivery
import ChatServer.ChatNetwork.Genuine
import ChatServer.ChatNetwork.Conversation
import ChatServer.ChatNetwork.EndToEnd
