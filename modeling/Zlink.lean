import Zlink.AutoHwm.Attach
import Zlink.Protocol.Reservations
import Zlink.Pipe.Bound
import Zlink.Pipe.Flow
import Zlink.Pipe.Monotone
import Zlink.Pipe.Termination
import Zlink.Pipe.Rollback
import Zlink.Pipe.Correlation
import Zlink.Protocol.RoundTrip
import Zlink.Queue.Fifo
import Zlink.ClientServer.Bounds
import Zlink.Transport.Renormalization
import Zlink.Subscription.Agreement
import Zlink.Subscription.Topics
import Zlink.Stream.Pump
import Zlink.Ledger.Balance
import Zlink.Ledger.Accounts
import Zlink.Ledger.Deferral
import Zlink.Protocol.Metadata
import Zlink.Protocol.Hello
import Zlink.Ledger.BlockedRatio
import Zlink.Locations.PagePrefix
import Zlink.Conflation.KeyIndex
import Zlink.Session.Global
import Zlink.Session.Ingress
import Zlink.Jobs.Sockets
import Zlink.Timers.Runs
import Zlink.Timers.Ticks
import Zlink.Mesh.Agreement
import Zlink.Mesh.LivenessProbes
import Zlink.Spots.Tracking
import Zlink.ServiceWire.FrozenAgreement
import Zlink.ServiceWire.ActivationHeader
import Zlink.Locations.AuthorityScans
import Zlink.Locations.Completion
import Zlink.Locations.AuthorityKeys
import Zlink.Spots.Requests
import Zlink.Spots.Deadlines
import Zlink.Distribution.Publish
import Zlink.LoadBalancer.Connected
import Zlink.FairQueue.Turns
