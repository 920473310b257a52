/-!
# Kademlia.Address

Socket addresses: where a node can be reached by datagrams.
-/

namespace Kademlia

/-- The IP part of a socket address.  The flow information that a system keeps with
an IPv6 address is left out: no text shows it, and no packet carries it. -/
inductive Host where
  /-- Four octets. -/
  | v4 (octets : Vector UInt8 4)
  /-- Eight groups of 16 bits, and the zone that the address is local to. -/
  | v6 (groups : Vector UInt16 8) (scope : UInt32)
  deriving DecidableEq, Repr

/-- A socket address. -/
structure Address where
  host : Host
  port : UInt16
  deriving DecidableEq, Repr

namespace Host

/-- Whether the address stands for any interface: all its bits are zero. -/
def isUnspecified : Host → Bool
  | .v4 octets => octets.all (· == 0)
  | .v6 groups _ => groups.all (· == 0)

/-- Whether two hosts have the same IP, in whatever zone. -/
def sameIp : Host → Host → Bool
  | .v4 a, .v4 b => a == b
  | .v6 a _, .v6 b _ => a == b
  | _, _ => false

end Host

namespace Address

/-- An IPv4 socket address. -/
def ofIPv4 (a b c d : UInt8) (port : UInt16) : Address := ⟨.v4 #v[a, b, c, d], port⟩

/-- Whether a datagram from `source` may answer one sent to `target`: the
ports are equal, and so are the IPs unless the target is unspecified. -/
def answeredBy (target source : Address) : Bool :=
  target.port == source.port &&
    (target.host.isUnspecified || target.host.sameIp source.host)

end Address
end Kademlia
