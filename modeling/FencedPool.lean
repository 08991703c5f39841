import FencedPool.Lock.Codec
import FencedPool.Main
import FencedPool.Proofs.Client.Placement
import FencedPool.Proofs.Client.ReadBack
import FencedPool.Proofs.Client.Sequenced
import FencedPool.Proofs.Client.Spellings
import FencedPool.Proofs.Config.RoundTrip
import FencedPool.Proofs.Lock.History
import FencedPool.Proofs.Node.Agreement
import FencedPool.Proofs.Node.RoundTrip
import FencedPool.Proofs.Path.Decomposition
import FencedPool.Proofs.Request.Schema
import FencedPool.Proofs.Scheduler.Addresses
import FencedPool.Proofs.Scheduler.Priority
import FencedPool.Proofs.Scheduler.Serving
import FencedPool.Proofs.Service.Expiry
import FencedPool.Proofs.Simulation.Cycle
import FencedPool.Proofs.Store.Children
import FencedPool.Proofs.Store.Watching
