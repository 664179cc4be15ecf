import Laps.Ranking.Model
import Laps.Ranking.FlatList
import Laps.Ranking.Handler
import Laps.Ranking.Isolation
import Laps.Ranking.TopN
import Laps.Ranking.Order
import Laps.Peering.InfoBase
import Laps.Lib.Chain
import Laps.Peering.Announces
import Laps.Client.State
import Laps.Client.Streams
import Laps.Client.Objects
import Laps.Client.Pipeline
import Laps.Client.PeerData
import Laps.Peering.Session
import Laps.Peering.Subscribes
import Laps.Relay.Model
import Laps.Lib.Flood
import Laps.Relay.Frame
import Laps.Flood.Announce
import Laps.Lib.Recall
import Laps.Flood.Withdraw
import Laps.Flood.Subscribe
import Laps.Relay.Interest
import Laps.Lib.Champion
import Laps.Peering.Nodes
import Laps.Peering.BestPath
import Laps.Peering.NodeSets
import Laps.Peering.DataContexts
import Laps.Relay.Origin
import Laps.Relay.Peers
import Laps.Relay.NodeMessages
import Laps.Lib.Weight
import Laps.Flood.NodeGraph
import Laps.Flood.NodeWithdraw
import Laps.Flood.NodePaths
import Laps.Relay.PeerSets
import Laps.Relay.Data
import Laps.Relay.Forwarding
import Laps.Lib.Runs
import Laps.Relay.ClientFib
import Laps.Relay.Installed
import Laps.Relay.Teardown
import Laps.Lib.Bytes
import Laps.Messages.Codec
import Laps.Messages.RoundTrip
import Laps.Messages.DataHeader
import Laps.Relay.PeerStreams
import Laps.Relay.Clients
import Laps.Relay.ClientCloses
import Laps.Relay.StreamPairs
import Laps.Relay.ReceivedData
import Laps.Relay.TrackStreams
import Laps.Lib.Framing
import Laps.Lib.Leases
import Laps.Messages.Control
import Laps.Lib.Walk
import Laps.Messages.Decoders
import Laps.Relay.DataBounds
import Laps.Relay.Changes
import Laps.Relay.Requests
import Laps.Relay.Indexes
import Laps.Relay.Local
import Laps.Relay.FanOut
import Laps.Relay.Closes
import Laps.Relay.Registered
import Laps.Lib.Mirror
import Laps.Relay.Mirrors
import Laps.Relay.Spares
import Laps.Relay.Handshake
import Laps.Relay.ActiveNamespaces
import Laps.Relay.PeerAnnounces
import Laps.Relay.DataIsolation
import Laps.Relay.SetUpdates
import Laps.Lib.HostOrder
import Laps.Messages.Hosts
import Laps.Lib.Text
import Laps.Messages.NodeId
import Laps.Lib.Clearing
import Laps.Messages.Malformed
import Laps.Messages.WireOrder
import Laps.Ranking.Wiring
import Laps.Ranking.Driven
import Laps.Ranking.OrderFree
import Laps.Relay.AnnounceRemovals
import Laps.Relay.OwnAnnounces
import Laps.Peering.NodeChanges
import Laps.Peering.PurgeOrder
import Laps.Peering.Reconnect
import Laps.Relay.SubgroupStreams
import Laps.Relay.Rehoming
import Laps.Relay.Syncing
import Laps.Lib.Sweep
import Laps.Relay.NamespaceLoop
import Laps.Ranking.Demotion
import Laps.Ranking.Notified
import Laps.Delivery.TwoPaths
import Laps.Delivery.Pausing
import Laps.Lib.Scan
import Laps.Delivery.Cache
import Laps.Delivery.Fetch
import Laps.Delivery.StartLocation
import Laps.Delivery.Cancel
import Laps.Lib.Gossip
import Laps.Relay.Growth
import Laps.Flood.Joining
import Laps.Flood.JoinSteps
import Laps.Flood.JoinNodes
import Laps.Flood.JoinSessions
import Laps.Flood.Agreement
import Laps.Lib.Throttle
import Laps.Ranking.Feed
import Laps.Ranking.Refresh
import Laps.Lib.Pipes
import Laps.Relay.Flows
import Laps.Multicast.Model
import Laps.Multicast.Flows
import Laps.Multicast.Peers
import Laps.Multicast.Carried
import Laps.Multicast.Safety
import Laps.Multicast.Routes
