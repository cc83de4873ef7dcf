import DjangoQueues.Redis.Workers
import DjangoQueues.Redis.Ownership
import DjangoQueues.Redis.Recovery
import DjangoQueues.Redis.EventRuns
import DjangoQueues.Redis.PriorityOrder
import DjangoQueues.Redis.PendingCheck
import DjangoQueues.Redis.FailedBeforeDispatch
import DjangoQueues.Redis.Pruning
import DjangoQueues.Agreement.Run
import DjangoQueues.Availability
import DjangoQueues.Duplicates
import DjangoQueues.Memory.EventRuns
import DjangoQueues.Observers.Order
import DjangoQueues.Observers.Activation
import DjangoQueues.PythonValues
import DjangoQueues.RestoreErrors
import DjangoQueues.Redis.RawQueue
import DjangoQueues.Transport
import DjangoQueues.Redis.DirectDequeue
import DjangoQueues.Redis.RecoveryDrain
import DjangoQueues.Memory.SkippedIds
import DjangoQueues.Worker.Listeners
import DjangoQueues.Worker.FirstSeen
import DjangoQueues.Worker.Runs
import DjangoQueues.Lifecycle
import DjangoQueues.TlsMerging
import DjangoQueues.Instants
import DjangoQueues.RefusedAdds
import DjangoQueues.Redis.Keys
import DjangoQueues.Clock.Refreshes
import DjangoQueues.Deployment.Serialised
import DjangoQueues.Notifications.Store
import DjangoQueues.Notifications.Memory
import DjangoQueues.Runtime.Shutdown
import DjangoQueues.Redis.Renewal
import DjangoQueues.Redis.PlainOrder
import DjangoQueues.Lib.Simulation
import DjangoQueues.ClaimLeases
import DjangoQueues.Redis.ClaimLeases
import DjangoQueues.Redis.EventFates
import DjangoQueues.Redis.EventWorkers
import DjangoQueues.Lib.FormEncoding
import DjangoQueues.Lib.SplitUrl
import DjangoQueues.UrlLocation
import DjangoQueues.UrlRedaction
