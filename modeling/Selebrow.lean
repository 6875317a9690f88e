import Selebrow.Capabilities.Twice
import Selebrow.Catalog.Views
import Selebrow.Config.ProxyHost
import Selebrow.Controllers.Errors
import Selebrow.Controllers.Events
import Selebrow.Controllers.ProxyPath
import Selebrow.Controllers.Upstream
import Selebrow.Docker.Env
import Selebrow.Docker.Order
import Selebrow.Docker.Ports
import Selebrow.Endpoints.Browsers
import Selebrow.Event.Delivery
import Selebrow.Event.Progress
import Selebrow.Kubernetes.Allocate
import Selebrow.Kubernetes.Deadlock
import Selebrow.Kubernetes.History
import Selebrow.Kubernetes.Returns
import Selebrow.Kubernetes.Unaltered
import Selebrow.Kubernetes.Wakeup
import Selebrow.Limited.Balance
import Selebrow.Managers.Running
import Selebrow.Pool.Name
import Selebrow.Pool.Shutdown
import Selebrow.Pool.Size
import Selebrow.Proxy.Dial
import Selebrow.Proxy.Isolation
import Selebrow.Proxy.Teardown
import Selebrow.Quota.External
import Selebrow.Quota.Waiting
import Selebrow.Session.Delete
import Selebrow.Session.Idle
import Selebrow.Session.Refines
import Selebrow.Signal.Exit
