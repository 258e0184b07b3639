import PacketLayers.Control.Icmpv6
import PacketLayers.Control.NeighborDiscovery
import PacketLayers.DecoderTable
import PacketLayers.Dns.Message
import PacketLayers.Industrial.Cip
import PacketLayers.Industrial.Enip
import PacketLayers.Link.Ethernet
import PacketLayers.Link.Loopback
import PacketLayers.Network.Ipv4
import PacketLayers.Network.Ipv6
import PacketLayers.Payload
import PacketLayers.Transport.Tcp
import PacketLayers.Transport.Udp

/-! # The built-in layers

The sum of all layers that this library decodes, and the decoder table with one decoder for each.
-/

namespace PacketLayers

/-- A layer of one of the built-in protocols. -/
inductive BuiltinLayer where
  | payload (layer : Payload)
  | ethernet (layer : Ethernet)
  | loopback (layer : Loopback)
  | ipv4 (layer : Ipv4)
  | ipv6 (layer : Ipv6)
  | icmpv6 (layer : Icmpv6)
  | routerSolicitation (layer : NeighborMessage RouterSolicitation)
  | routerAdvertisement (layer : NeighborMessage RouterAdvertisement)
  | neighborSolicitation (layer : NeighborMessage NeighborSolicitation)
  | neighborAdvertisement (layer : NeighborMessage NeighborAdvertisement)
  | redirect (layer : NeighborMessage Redirect)
  | tcp (layer : Tcp)
  | udp (layer : Udp)
  | dns (layer : DnsMessage)
  | enip (layer : Enip)
  | cip (layer : Cip)
  deriving DecidableEq, Repr

namespace BuiltinLayer

def layerType : BuiltinLayer → LayerType
  | .payload _ => .payload
  | .ethernet _ => .ethernet
  | .loopback _ => .loopback
  | .ipv4 _ => .ipv4
  | .ipv6 _ => .ipv6
  | .icmpv6 _ => .icmpv6
  | .routerSolicitation _ => .icmpv6RouterSolicitation
  | .routerAdvertisement _ => .icmpv6RouterAdvertisement
  | .neighborSolicitation _ => .icmpv6NeighborSolicitation
  | .neighborAdvertisement _ => .icmpv6NeighborAdvertisement
  | .redirect _ => .icmpv6Redirect
  | .tcp _ => .tcp
  | .udp _ => .udp
  | .dns _ => .dns
  | .enip _ => .enip
  | .cip _ => .cip

/-- Decode into a layer object of the same protocol. -/
def decode (layer : BuiltinLayer) (data : Octets) : Decoding BuiltinLayer :=
  match layer with
  | .payload l => (l.decode data).map .payload
  | .ethernet l => (l.decode data).map .ethernet
  | .loopback l => (l.decode data).map .loopback
  | .ipv4 l => (l.decode data).map .ipv4
  | .ipv6 l => (l.decode data).map .ipv6
  | .icmpv6 l => (l.decode data).map .icmpv6
  | .routerSolicitation l => (l.decode data).map .routerSolicitation
  | .routerAdvertisement l => (l.decode data).map .routerAdvertisement
  | .neighborSolicitation l => (l.decode data).map .neighborSolicitation
  | .neighborAdvertisement l => (l.decode data).map .neighborAdvertisement
  | .redirect l => (l.decode data).map .redirect
  | .tcp l => (l.decode data).map .tcp
  | .udp l => (l.decode data).map .udp
  | .dns l => (l.decode data).map .dns
  | .enip l => (l.decode data).map .enip
  | .cip l => (l.decode data).map .cip

/-- Where header and payload of the last successful decoding lie. -/
def extent : BuiltinLayer → Extent
  | .payload l => l.extent
  | .ethernet l => l.extent
  | .loopback l => l.extent
  | .ipv4 l => l.extent
  | .ipv6 l => l.extent
  | .icmpv6 l => l.extent
  | .routerSolicitation l => l.extent
  | .routerAdvertisement l => l.extent
  | .neighborSolicitation l => l.extent
  | .neighborAdvertisement l => l.extent
  | .redirect l => l.extent
  | .tcp l => l.extent
  | .udp l => l.extent
  | .dns l => l.extent
  | .enip l => l.extent
  | .cip l => l.extent

def next : BuiltinLayer → LayerType
  | .ethernet l => l.next
  | .loopback l => l.next
  | .ipv4 l => l.next
  | .ipv6 l => l.next
  | .icmpv6 l => l.next
  | .tcp l => l.next
  | .udp l => l.next
  | .enip l => l.next
  | _ => .payload

/-- The addresses of link, network and transport layers. -/
def flow : BuiltinLayer → Option Flow
  | .ethernet l => some l.flow
  | .ipv4 l => some l.flow
  | .ipv6 l => some l.flow
  | .tcp l => some l.flow
  | .udp l => some l.flow
  | _ => none

/-- Wrap the octets of the payload. -/
def serialize (layer : BuiltinLayer) (options : SerializeOptions) (inner : Octets) :
    Serialization BuiltinLayer :=
  match layer with
  | .payload l => (l.serialize options inner).map .payload
  | .ethernet l => (l.serialize options inner).map .ethernet
  | .loopback l => (l.serialize options inner).map .loopback
  | .ipv4 l => (l.serialize options inner).map .ipv4
  | .ipv6 l => (l.serialize options inner).map .ipv6
  | .icmpv6 l => (l.serialize options inner).map .icmpv6
  | .routerSolicitation l => (l.serialize options inner).map .routerSolicitation
  | .routerAdvertisement l => (l.serialize options inner).map .routerAdvertisement
  | .neighborSolicitation l => (l.serialize options inner).map .neighborSolicitation
  | .neighborAdvertisement l => (l.serialize options inner).map .neighborAdvertisement
  | .redirect l => (l.serialize options inner).map .redirect
  | .tcp l => (l.serialize options inner).map .tcp
  | .udp l => (l.serialize options inner).map .udp
  | .dns l => (l.serialize options inner).map .dns
  | .enip l => (l.serialize options inner).map .enip
  | .cip l => (l.serialize options inner).map .cip

instance : Layer BuiltinLayer where
  layerType := layerType
  decode := decode
  extent := extent
  next := next
  flow := flow
  serialize := serialize

/-- The addresses that an IP layer provides for transport checksums. -/
def pseudoHeader? : BuiltinLayer → Option PseudoHeader
  | .ipv4 l => some l.pseudoHeader
  | .ipv6 l => some l.pseudoHeader
  | _ => none

/-- The layer, with the addresses of the enclosing header if its checksum covers them. -/
def withNetwork (layer : BuiltinLayer) (network : PseudoHeader) : BuiltinLayer :=
  match layer with
  | .tcp l => .tcp (l.withNetwork network)
  | .udp l => .udp (l.withNetwork network)
  | .icmpv6 l => .icmpv6 (l.withNetwork network)
  | other => other

/-- The fresh decoders of all built-in layers. -/
def factories : List (LayerType × DecoderFactory BuiltinLayer) :=
  [(.payload, fun _ => .payload .fresh),
    (.ethernet, fun _ => .ethernet .fresh),
    (.loopback, fun _ => .loopback .fresh),
    (.ipv4, fun _ => .ipv4 .fresh),
    (.ipv6, fun _ => .ipv6 .fresh),
    (.icmpv6, fun _ => .icmpv6 .fresh),
    (.icmpv6RouterSolicitation, fun _ => .routerSolicitation .fresh),
    (.icmpv6RouterAdvertisement, fun _ => .routerAdvertisement .fresh),
    (.icmpv6NeighborSolicitation, fun _ => .neighborSolicitation .fresh),
    (.icmpv6NeighborAdvertisement, fun _ => .neighborAdvertisement .fresh),
    (.icmpv6Redirect, fun _ => .redirect .fresh),
    (.tcp, fun options =>
      .tcp (if options.streamsAsDatagrams then .withStreamPayloads else .fresh)),
    (.udp, fun _ => .udp .fresh),
    (.dns, fun _ => .dns .fresh),
    (.enip, fun _ => .enip .fresh),
    (.cip, fun _ => .cip .fresh)]

/-- The table of the built-in decoders. -/
def decoders : DecoderTable BuiltinLayer := ⟨factories⟩

end BuiltinLayer

end PacketLayers
