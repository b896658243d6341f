import Colas.Library.Run
import Colas.Library.Quorum
import Colas.Library.Network
import Colas.Library.Register
import Colas.Library.Windows
import Colas.Library.Weight
import Colas.Library.Linearization
import Colas.Library.Simulation
import Colas.Utilities.Tag
import Colas.BaseProcess.ObjectStore
import Colas.BaseProcess.Client
import Colas.BaseProcess.Frames
import Colas.Utilities.TagBounds
import Colas.BaseProcess.Writers
import Colas.BaseProcess.Linearizable
import Colas.Abd.Server
import Colas.Abd.Client
import Colas.Abd.Register
import Colas.Abd.System
import Colas.Abd.Tags
import Colas.Abd.Quorums
import Colas.Abd.Atomicity
import Colas.Abd.Values
import Colas.Abd.Collection
import Colas.Abd.Linearizable
import Colas.Abd.Progress
import Colas.Codes.RlncRs
import Colas.Codes.RoundTrip
import Colas.Codes.Parameters
import Colas.Sodaw.Server
import Colas.Sodaw.Client
import Colas.Sodaw.Tables
import Colas.Sodaw.History
import Colas.Sodaw.Relays
import Colas.Sodaw.Store
import Colas.Sodaw.System
import Colas.Sodaw.Elements
import Colas.Sodaw.Tags
import Colas.Sodaw.Numbers
import Colas.Sodaw.Quorums
import Colas.Sodaw.Readers
import Colas.Sodaw.Atomicity
import Colas.Sodaw.Isolation
import Colas.Sodaw.Validity
import Colas.Sodaw.Registration
import Colas.Sodaw.Delivery
import Colas.Sodaw.Progress
import Colas.Sodaw.Linearizable
import Colas.Sodaw.Cost
import Colas.Sodaw.Forgotten
import Colas.ServerWorker
import Colas.Messages
import Colas.ServerFrames
import Colas.Abd.Limits
import Colas.Abd.Sizes
import Colas.Abd.Wire
import Colas.Sodaw.Limits
import Colas.Sodaw.Wire
import Colas.Sodaw.Refinement
import Colas.Sodaw.Sizes
import Colas.Shared.System
import Colas.Shared.Foreign
import Colas.Shared.Refinement
import Colas.Shared.Handled
import Colas.Daemons.Servers
import Colas.Daemons.Daemon
import Colas.Daemons.Opnums
import Colas.Daemons.Stopped
import Colas.Daemons.Routes
import Colas.Daemons.Directory
import Colas.Daemons.Cluster
import Colas.Daemons.Agreement
import Colas.Daemons.Stops
import Colas.Daemons.Deployment
import Colas.LogParser.TaskThroughput
import Colas.Registers
