import Dqueue.Wire
import Dqueue.Decoders
import Dqueue.ReceiveSafety
import Dqueue.SendOrder
import Dqueue.NodeDelivery
import Dqueue.NodeQueues
import Dqueue.ServerQueues
import Dqueue.Acknowledgement
import Dqueue.PublishOnce
import Dqueue.ServerBooks
import Dqueue.PublishRace
import Dqueue.LateMessages
import Dqueue.TagFiltering
import Dqueue.Reconnection
import Dqueue.OneConnection
import Dqueue.LoginAgreement
import Dqueue.PendingRequests
import Dqueue.ConnectionIds
import Dqueue.ForeignHandlers
import Dqueue.CreateRace
import Dqueue.DeliveryOrder
import Dqueue.ServerUnsubscribe
import Dqueue.Answers
import Dqueue.Noninterference
import Dqueue.LockOrder
import Dqueue.ResendOrder
import Dqueue.Owners
import Dqueue.NodeMaps
import Dqueue.Encodings
import Dqueue.AsyncCalls
import Dqueue.Disconnection
import Dqueue.QueueSize
import Dqueue.Channel
import Dqueue.Snapshots
import Dqueue.PublishMoments
import Dqueue.ServerDescriptions
import Dqueue.WaitAll
import Dqueue.Lifecycle
import Dqueue.Deployment
