import ErizoController.Library.Machine
import ErizoController.Library.Table
import ErizoController.Library.RefCount
import ErizoController.Library.Program
import ErizoController.Library.Locked
import ErizoController.Library.Levels
import ErizoController.Library.Progress
import ErizoController.Library.Entering
import ErizoController.Library.Replay
import ErizoController.Library.Token
import ErizoController.Library.Monitor
import ErizoController.Library.LockMonitor
import ErizoController.Library.Serial
import ErizoController.Library.Series
import ErizoController.Library.Workers
import ErizoController.Library.Agenda
import ErizoController.Library.Regex
import ErizoController.Model.Json
import ErizoController.Model.Records
import ErizoController.Model.Codec
import ErizoController.Model.JsonText
import ErizoController.Model.Readers
import ErizoController.Model.World
import ErizoController.Redis.Helper
import ErizoController.Redis.Locker
import ErizoController.Redis.MutualExclusion
import ErizoController.Redis.KeyOwner
import ErizoController.Redis.LockCall
import ErizoController.Rabbitmq.Rpc
import ErizoController.Core.Handlers
import ErizoController.Core.Signaling
import ErizoController.Core.Bridges
import ErizoController.Core.Removal
import ErizoController.Core.Exactness
import ErizoController.Core.Retry
import ErizoController.Core.Footprint
import ErizoController.Core.Teardown
import ErizoController.Core.Publish
import ErizoController.Core.Subscribe
import ErizoController.Core.AllOrNothing
import ErizoController.Core.Heartbeat
import ErizoController.Core.HeartbeatLoop
import ErizoController.Core.Responsibility
import ErizoController.Core.Rooms
import ErizoController.Core.Sections
import ErizoController.Core.Counts
import ErizoController.Core.References
import ErizoController.Core.Following
import ErizoController.Core.Joining
import ErizoController.Core.SessionDiscipline
import ErizoController.Core.Serializable
import ErizoController.Core.Confluence
import ErizoController.Core.Visits
import ErizoController.Core.Registration
import ErizoController.Core.MediaPlane
import ErizoController.Core.Delivery
import ErizoController.Core.Ghosts
import ErizoController.Route.IpTable
import ErizoController.Route.Coverage
import ErizoController.Route.Address
import ErizoController.Route.IpTableFile
import ErizoController.Route.ClientAddress
import ErizoController.Redis.Keyspace
import ErizoController.Redis.TextStore
import ErizoController.Redis.TextCommands
import ErizoController.Redis.LockThreads
import ErizoController.Redis.LockProgress
import ErizoController.Core.RoomLocks
import ErizoController.Core.PlainJobs
import ErizoController.Core.TextThreads
import ErizoController.Websocket.ClientHandler
import ErizoController.Websocket.Server
import ErizoController.Core.Allocation
import ErizoController.Core.Routing
import ErizoController.Core.Gate
import ErizoController.Core.Listings
import ErizoController.Thread.ThreadPool
import ErizoController.Thread.SendThread
import ErizoController.Thread.Scheduler
import ErizoController.Common.Config
import ErizoController.Rabbitmq.Callbacks
import ErizoController.Rabbitmq.CallbackSections
import ErizoController.Rabbitmq.HandleCallback
import ErizoController.Rabbitmq.Cli
