import Kademlia.Address
import Kademlia.Bytes

/-!
# Kademlia.Link

What the host is willing to send as a datagram.
-/

namespace Kademlia

/-- Tells of each packet, and the address it is for, whether the host sends it. -/
structure Link where
  sends : Address → Bytes → Bool

namespace Link

/-- The largest payload of a datagram. -/
def maxPayload : Nat := 65507

/-- A host that sends whatever fits a datagram to any IPv4 address with a port. -/
def ipv4 : Link where
  sends target packet :=
    match target.host with
    | .v4 _ => target.port != 0 && packet.length ≤ maxPayload
    | .v6 _ _ => false

/-- A host without a network: it sends nothing. -/
def down : Link where
  sends _ _ := false

end Link
end Kademlia
