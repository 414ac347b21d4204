import SnekCpp.Networking.Framing
import SnekCpp.Networking.TypedStack
import SnekCpp.Networking.Scramble
import SnekCpp.Networking.Outgoing
import SnekCpp.Networking.Queue
import SnekCpp.SnekServer.Snapshot
import SnekCpp.Game.GameStart
import SnekCpp.Game.System
import SnekCpp.Snek.FrameLoop
import SnekCpp.SnekServer.Extends
import SnekCpp.Game.Carries
import SnekCpp.Snek.OwnPlayer
import SnekCpp.Game.Reporting
import SnekCpp.Game.Sound
import SnekCpp.SnekServer.Outcomes
import SnekCpp.Game.Membership
import SnekCpp.Game.DeadPlayers
import SnekCpp.Game.News
import SnekCpp.Game.Departures
import SnekCpp.Game.Clients
import SnekCpp.Game.Deaths
import SnekCpp.Game.Roster
import SnekCpp.SnekServer.Transfer
import SnekCpp.SnekServer.Replication
import SnekCpp.SnekServer.Malformed
import SnekCpp.SnekServer.Confinement
import SnekCpp.Lib.History
import SnekCpp.Networking.Handshake
import SnekCpp.SnekServer.Process
import SnekCpp.SnekServer.Validation
import SnekCpp.SnekServer.Runs
import SnekCpp.SnekServer.Admission
import SnekCpp.SnekServer.Started
import SnekCpp.SnekServer.Gate
import SnekCpp.SnekServer.Traffic
import SnekCpp.Snek.Board
import SnekCpp.SnekServer.Board
import SnekCpp.Game.ByValue
import SnekCpp.Game.Board
import SnekCpp.Game.Replicas
import SnekCpp.Game.Powerups
import SnekCpp.SnekServer.Delivery
import SnekCpp.SnekServer.MessageClient
import SnekCpp.SnekServer.Collision
import SnekCpp.SnekServer.WordSize
import SnekCpp.Lib.Torus
import SnekCpp.Snek.Trail
import SnekCpp.Snek.Steering
import SnekCpp.SnekServer.Seats
import SnekCpp.SnekServer.Ownership
import SnekCpp.Game.Authority
import SnekCpp.SnekServer.FreeGrid
import SnekCpp.SnekServer.Placement
import SnekCpp.SnekServer.Drift
import SnekCpp.SnekServer.Room
import SnekCpp.Snek.Extrapolation
import SnekCpp.Game.Extrapolation
import SnekCpp.Lib.Processes
import SnekCpp.Game.Independence
import SnekCpp.Game.Quiescence
import SnekCpp.Lib.Mutex
import SnekCpp.Networking.SharedQueue
import SnekCpp.Networking.SharedQueueRuns
import SnekCpp.Lib.Chunks
import SnekCpp.Networking.Incoming
import SnekCpp.Game.Shown
import SnekCpp.Game.Relays
import SnekCpp.Networking.Duplex
import SnekCpp.Networking.Flow
import SnekCpp.Networking.Turns
import SnekCpp.Game.Wired
import SnekCpp.Game.Settled
import SnekCpp.Networking.Pairing
