import HyperRpc.Compiler.Agreement
import HyperRpc.Config.Builder
import HyperRpc.Config.Capacity
import HyperRpc.Core.Intrusion
import HyperRpc.Core.Ledger
import HyperRpc.Core.RoundTrip
import HyperRpc.Endpoints.Assignment
import HyperRpc.Endpoints.Manager
import HyperRpc.Network.Progress
import HyperRpc.Network.Traffic
import HyperRpc.Process.Life
import HyperRpc.Process.Rest
import HyperRpc.Process.Routing
import HyperRpc.Session.Deadlines
import HyperRpc.Session.History
import HyperRpc.Session.Refinement
import HyperRpc.Session.Rejection
import HyperRpc.Session.Retries
