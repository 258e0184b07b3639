import PacketLayers.LayerType
import PacketLayers.Octets

/-! # Protocols carried by IP

The number in the protocol field of an IPv4 header and in the next header field of an IPv6 header.
-/

namespace PacketLayers

/-- The protocol of an IP datagram. -/
inductive IpProtocol where
  | hopByHop
  | icmp
  | igmp
  | tcp
  | udp
  | ipv6Route
  | ipv6Frag
  | icmpv6
  | ipv6NoNxt
  | ipv6Opts
  | unknown (number : UInt8)
  deriving DecidableEq, Ord, Repr, Inhabited

namespace IpProtocol

def ofNumber (n : UInt8) : IpProtocol :=
  match n with
  | 0x00 => .hopByHop
  | 0x01 => .icmp
  | 0x02 => .igmp
  | 0x06 => .tcp
  | 0x11 => .udp
  | 0x2b => .ipv6Route
  | 0x2c => .ipv6Frag
  | 0x3a => .icmpv6
  | 0x3b => .ipv6NoNxt
  | 0x3c => .ipv6Opts
  | n => .unknown n

def number : IpProtocol → UInt8
  | .hopByHop => 0x00
  | .icmp => 0x01
  | .igmp => 0x02
  | .tcp => 0x06
  | .udp => 0x11
  | .ipv6Route => 0x2b
  | .ipv6Frag => 0x2c
  | .icmpv6 => 0x3a
  | .ipv6NoNxt => 0x3b
  | .ipv6Opts => 0x3c
  | .unknown n => n

theorem number_ofNumber (n : UInt8) : (ofNumber n).number = n := by
  unfold ofNumber
  split <;> rfl

/-- The layer type that decodes datagrams of this protocol. -/
def layerType : IpProtocol → LayerType
  | .tcp => .tcp
  | .udp => .udp
  | .icmpv6 => .icmpv6
  | _ => .payload

def text : IpProtocol → String
  | .hopByHop => "Hop-by-Hop"
  | .icmp => "ICMP"
  | .igmp => "IGMP"
  | .tcp => "TCP"
  | .udp => "UDP"
  | .ipv6Route => "IPv6-Route"
  | .ipv6Frag => "IPv6-Frag"
  | .icmpv6 => "ICMPv6"
  | .ipv6NoNxt => "IPv6-NoNxt"
  | .ipv6Opts => "IPv6-Opts"
  | .unknown n => "0x" ++ hexOctet n

def identifier : IpProtocol → String
  | .hopByHop => "HopByHop"
  | .icmp => "Icmp"
  | .igmp => "Igmp"
  | .tcp => "Tcp"
  | .udp => "Udp"
  | .ipv6Route => "Ipv6Route"
  | .ipv6Frag => "Ipv6Frag"
  | .icmpv6 => "Icmpv6"
  | .ipv6NoNxt => "Ipv6NoNxt"
  | .ipv6Opts => "Ipv6Opts"
  | .unknown n => s!"Unknown({n.toNat})"

instance : WireCode IpProtocol where
  ofNat n := ofNumber (UInt8.ofNat n)
  unnamed n := .unknown (UInt8.ofNat n)
  toNat code := code.number.toNat
  identifier := identifier

end IpProtocol

end PacketLayers
