import EvoGw.ThreadPrograms
import EvoGw.ThreadPools
import EvoGw.PoolTraces
import EvoGw.SoloRuns
import EvoGw.SerialThreads
import EvoGw.StepConditions
import EvoGw.LockedHandoff
import EvoGw.HandoffFate
import EvoGw.ListHistories
import EvoGw.Deliveries
import EvoGw.DeliveryOrder
import EvoGw.WaitOrder
import EvoGw.PoolContracts
import EvoGw.LockDiscipline
import EvoGw.LockedViews
import EvoGw.WorkBudgets
import EvoGw.EffectScripts
import EvoGw.FailureCauses
import EvoGw.InsertionHash
import EvoGw.JsonValues
import EvoGw.GatewayCalls
import EvoGw.DevicesSender
import EvoGw.WebSocketHandler
import EvoGw.ServerRoute
import EvoGw.GatewayPool
import EvoGw.CommandDocuments
import EvoGw.CommandCourses
import EvoGw.CommandResults
import EvoGw.ReplyHandoff
import EvoGw.LostReply
import EvoGw.ReplyCorrelation
import EvoGw.UnsolicitedMessages
import EvoGw.LogAcknowledgement
import EvoGw.BatchStatus
import EvoGw.RouteIsolation
import EvoGw.SocketTurns
import EvoGw.ConnectionTable
import EvoGw.SubscriberChannels
import EvoGw.LogForwarding
import EvoGw.SubscriberRegistry
import EvoGw.ConcurrentStarts
import EvoGw.AwaitedCommands
import EvoGw.CommandEntrances
import EvoGw.BatchSequence
import EvoGw.AnsweredRequests
import EvoGw.BatchFailure
import EvoGw.BadBodies
import EvoGw.SerialLessMessages
import EvoGw.DeviceIdentity
import EvoGw.SubscriberPayloads
import EvoGw.UserIdentity
import EvoGw.KeyOrder
import EvoGw.GatewayProgress
import EvoGw.RoutingTable
import EvoGw.AcknowledgedRoutes
import EvoGw.ThreadScripts
import EvoGw.ApiCallService
import EvoGw.ConveyedReplies
import EvoGw.FrameDecoding
import EvoGw.SubscriberLives
import EvoGw.ThreadFailures
