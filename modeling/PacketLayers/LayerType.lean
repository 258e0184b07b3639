import PacketLayers.WireCode

/-! # Layer types

A layer type is a number that names a protocol layer.  Layers name the type of their payload with
it, and a decoder table is keyed by it.  Numbers without a name of their own are kept, so that
additional decoders may use them and nothing is lost when a number is read and written back.

`LayerType.number_ofNumber` says that reading a number loses nothing.
-/

namespace PacketLayers

/-- The protocol layer that a number stands for. -/
inductive LayerType where
  /-- The record of where and why decoding stopped. -/
  | decodeFailure
  /-- Trailing octets without further structure. -/
  | payload
  | ethernet
  /-- Loopback encapsulation with a four-octet protocol family. -/
  | loopback
  | ipv4
  | ipv6
  | icmpv6
  | icmpv6RouterSolicitation
  | icmpv6RouterAdvertisement
  | icmpv6NeighborSolicitation
  | icmpv6NeighborAdvertisement
  | icmpv6Redirect
  | tcp
  | udp
  | dns
  | enip
  | cip
  | unknown (number : UInt16)
  deriving DecidableEq, Ord, Repr, Inhabited

/-- The role a layer type plays in a packet. -/
inductive LayerClass where
  | link
  | network
  | transport
  | application
  /-- Control messages, plain payload and everything else. -/
  | other
  deriving DecidableEq, Repr, Inhabited

namespace LayerType

def ofNumber (n : UInt16) : LayerType :=
  match n with
  | 0 => .decodeFailure
  | 1 => .payload
  | 10 => .ethernet
  | 11 => .loopback
  | 20 => .ipv4
  | 21 => .ipv6
  | 30 => .icmpv6
  | 31 => .icmpv6RouterSolicitation
  | 32 => .icmpv6RouterAdvertisement
  | 33 => .icmpv6NeighborSolicitation
  | 34 => .icmpv6NeighborAdvertisement
  | 35 => .icmpv6Redirect
  | 40 => .tcp
  | 41 => .udp
  | 50 => .dns
  | 60 => .enip
  | 61 => .cip
  | n => .unknown n

def number : LayerType → UInt16
  | .decodeFailure => 0
  | .payload => 1
  | .ethernet => 10
  | .loopback => 11
  | .ipv4 => 20
  | .ipv6 => 21
  | .icmpv6 => 30
  | .icmpv6RouterSolicitation => 31
  | .icmpv6RouterAdvertisement => 32
  | .icmpv6NeighborSolicitation => 33
  | .icmpv6NeighborAdvertisement => 34
  | .icmpv6Redirect => 35
  | .tcp => 40
  | .udp => 41
  | .dns => 50
  | .enip => 60
  | .cip => 61
  | .unknown n => n

theorem number_ofNumber (n : UInt16) : (ofNumber n).number = n := by
  unfold ofNumber
  split <;> rfl

/-- The role of a layer type. -/
def layerClass : LayerType → LayerClass
  | .ethernet | .loopback => .link
  | .ipv4 | .ipv6 => .network
  | .tcp | .udp => .transport
  | .dns | .enip | .cip => .application
  | _ => .other

def text : LayerType → String
  | .decodeFailure => "DecodeFailure"
  | .payload => "Payload"
  | .ethernet => "Ethernet"
  | .loopback => "Loopback"
  | .ipv4 => "IPv4"
  | .ipv6 => "IPv6"
  | .icmpv6 => "ICMPv6"
  | .icmpv6RouterSolicitation => "ICMPv6RouterSolicitation"
  | .icmpv6RouterAdvertisement => "ICMPv6RouterAdvertisement"
  | .icmpv6NeighborSolicitation => "ICMPv6NeighborSolicitation"
  | .icmpv6NeighborAdvertisement => "ICMPv6NeighborAdvertisement"
  | .icmpv6Redirect => "ICMPv6Redirect"
  | .tcp => "TCP"
  | .udp => "UDP"
  | .dns => "DNS"
  | .enip => "ENIP"
  | .cip => "CIP"
  | .unknown n => s!"LayerType({n.toNat})"

/-- The identifier by which tables list a layer type. -/
def identifier : LayerType → String
  | .decodeFailure => "DecodeFailure"
  | .payload => "Payload"
  | .ethernet => "Ethernet"
  | .loopback => "Loopback"
  | .ipv4 => "Ipv4"
  | .ipv6 => "Ipv6"
  | .icmpv6 => "Icmpv6"
  | .icmpv6RouterSolicitation => "Icmpv6RouterSolicitation"
  | .icmpv6RouterAdvertisement => "Icmpv6RouterAdvertisement"
  | .icmpv6NeighborSolicitation => "Icmpv6NeighborSolicitation"
  | .icmpv6NeighborAdvertisement => "Icmpv6NeighborAdvertisement"
  | .icmpv6Redirect => "Icmpv6Redirect"
  | .tcp => "Tcp"
  | .udp => "Udp"
  | .dns => "Dns"
  | .enip => "Enip"
  | .cip => "Cip"
  | .unknown n => s!"Unknown({n.toNat})"

instance : WireCode LayerType where
  ofNat n := ofNumber (UInt16.ofNat n)
  unnamed n := .unknown (UInt16.ofNat n)
  toNat code := code.number.toNat
  identifier := identifier

end LayerType

namespace LayerClass

def identifier : LayerClass → String
  | .link => "Link"
  | .network => "Network"
  | .transport => "Transport"
  | .application => "Application"
  | .other => "Other"

end LayerClass

end PacketLayers
