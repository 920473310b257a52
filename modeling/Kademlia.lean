import Kademlia.Address
import Kademlia.Address.Numeric
import Kademlia.Address.Text
import Kademlia.Bencode
import Kademlia.Bucket
import Kademlia.Bytes
import Kademlia.Config
import Kademlia.Distance
import Kademlia.Error
import Kademlia.Faults
import Kademlia.Hex
import Kademlia.Id
import Kademlia.Link
import Kademlia.Lookup
import Kademlia.Loopback
import Kademlia.Message
import Kademlia.Message.Text
import Kademlia.Message.Wire
import Kademlia.Network
import Kademlia.Node
import Kademlia.Node.Values
import Kademlia.Peer
import Kademlia.PeerStore
import Kademlia.Proofs.Acquaintance
import Kademlia.Proofs.AddressText
import Kademlia.Proofs.Answering
import Kademlia.Proofs.BestFirst
import Kademlia.Proofs.Buckets
import Kademlia.Proofs.Candidates
import Kademlia.Proofs.Closest
import Kademlia.Proofs.Contacts
import Kademlia.Proofs.Correlation
import Kademlia.Proofs.Edits
import Kademlia.Proofs.Exhaustive
import Kademlia.Proofs.Frames
import Kademlia.Proofs.Grammar
import Kademlia.Proofs.Hearsay
import Kademlia.Proofs.HexText
import Kademlia.Proofs.Integrity
import Kademlia.Proofs.Joining
import Kademlia.Proofs.Lossless
import Kademlia.Proofs.Metric
import Kademlia.Proofs.Nearest
import Kademlia.Proofs.Numerals
import Kademlia.Proofs.Outcomes
import Kademlia.Proofs.Overlay
import Kademlia.Proofs.OverlaySearch
import Kademlia.Proofs.Packets
import Kademlia.Proofs.Picking
import Kademlia.Proofs.Placement
import Kademlia.Proofs.Prefixes
import Kademlia.Proofs.Provenance
import Kademlia.Proofs.Quorum
import Kademlia.Proofs.Ranking
import Kademlia.Proofs.Reachability
import Kademlia.Proofs.RemoteCalls
import Kademlia.Proofs.Replies
import Kademlia.Proofs.Retention
import Kademlia.Proofs.RoundTrip
import Kademlia.Proofs.Run
import Kademlia.Proofs.Search
import Kademlia.Proofs.Serving
import Kademlia.Proofs.Storers
import Kademlia.Proofs.Storing
import Kademlia.Proofs.Table
import Kademlia.Proofs.Takeover
import Kademlia.Proofs.WriteOnce
import Kademlia.Proofs.Xor
import Kademlia.Replication
import Kademlia.RoutingTable
import Kademlia.Selection
import Kademlia.Server
import Kademlia.Session
import Kademlia.Sha1
import Kademlia.Socket
import Kademlia.Storage
import Kademlia.Testnet
import Kademlia.Transport
