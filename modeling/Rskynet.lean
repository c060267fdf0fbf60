import Rskynet.Bwos.Drop
import Rskynet.Handle.Refinement
import Rskynet.Scheduler.Shutdown
import Rskynet.Service.Answered
import Rskynet.Session.History
import Rskynet.Http.Failed
import Rskynet.Http.WebSocket
import Rskynet.Http.Delivery
import Rskynet.Tls.Index
import Rskynet.Tls.Answers
import Rskynet.Cluster.Agreement
import Rskynet.Net.Slots
import Rskynet.Net.Answers
import Rskynet.Http.Queue
import Rskynet.Http.Early
import Rskynet.Exclusive.Drain
import Rskynet.Exclusive.Fifo
import Rskynet.Monitor.Alarms
import Rskynet.Mq.Fairness
import Rskynet.Timer.Clock
import Rskynet.Logger.Rotation
