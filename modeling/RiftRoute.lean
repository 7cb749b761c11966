import RiftRoute.Provider.LinuxRules
import RiftRoute.Safety.ApplyRuns
import RiftRoute.Safety.PanicRuns
import RiftRoute.Safety.Convergence
import RiftRoute.Safety.Quiesce
import RiftRoute.Safety.RecordRuns
import RiftRoute.Api.ConfigApply
import RiftRoute.Tunnel.Manager
import RiftRoute.Provider.PfRuns
import RiftRoute.Provider.PfConf
import RiftRoute.PerApp.Marker
import RiftRoute.Api.KillSwitch
import RiftRoute.SplitDns.Composed
import RiftRoute.Api.RouteOp
import RiftRoute.Server.Releases
import RiftRoute.Updater.InstallNow
import RiftRoute.Core.Explain
import RiftRoute.Dns.Names
import RiftRoute.Tunnel.Sessions
import RiftRoute.Tunnel.OvpnReading
import RiftRoute.Safety.Live
import RiftRoute.BuildInfo.Compare
import RiftRoute.Routing.KeyTexts
import RiftRoute.Safety.Refinement
import RiftRoute.Routing.Forwarding
import RiftRoute.Updater.Simulation
