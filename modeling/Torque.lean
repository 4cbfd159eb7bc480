import Torque.Attributes.Procct
import Torque.Attributes.Size
import Torque.Container.ListLinkRefinement
import Torque.Container.Ranked
import Torque.Container.Reverse
import Torque.Dependency.Registration
import Torque.Dis.ReplyRoundTrip
import Torque.Dis.Transport
import Torque.JobArrays.DependHolds
import Torque.JobArrays.Ghosts
import Torque.Node.Boards
import Torque.Node.Devices
import Torque.Node.Hierarchy
import Torque.Node.Recovery
import Torque.Node.SlotReservations
import Torque.Node.Stray
import Torque.Numa.Capacity
import Torque.Numa.Conserved
import Torque.Numa.Parts
import Torque.Numa.Rebuild
import Torque.Numa.Spread
import Torque.Requests.Ranks
import Torque.Scheduler.CycleCovers
import Torque.Scheduler.Decay
import Torque.Scheduler.Limits
import Torque.Server.CallAlone
import Torque.Server.Move
import Torque.Server.Route
import Torque.Server.Tasks
import Torque.Server.Track
import Torque.Server.UserCounts
import Torque.ThreadPool.Liveness
