import PacketLayers.Network.Checksum

/-! # ICMPv6

The common header of four octets: type, code and checksum.  The message body is the payload; the
neighbor discovery messages have layers of their own.
-/

namespace PacketLayers

/-- The type of a control message. -/
inductive ControlMessage where
  | dstUnreachable
  | packetTooBig
  | timeExceeded
  | paramProblem
  | echoRequest
  | echoReply
  | routerSolicit
  | routerAdvert
  | neighborSolicit
  | neighborAdvert
  | redirect
  | unknown (number : UInt8)
  deriving DecidableEq, Ord, Repr

namespace ControlMessage

instance : Inhabited ControlMessage := ⟨.unknown 0⟩

def ofNumber (n : UInt8) : ControlMessage :=
  match n with
  | 1 => .dstUnreachable
  | 2 => .packetTooBig
  | 3 => .timeExceeded
  | 4 => .paramProblem
  | 128 => .echoRequest
  | 129 => .echoReply
  | 133 => .routerSolicit
  | 134 => .routerAdvert
  | 135 => .neighborSolicit
  | 136 => .neighborAdvert
  | 137 => .redirect
  | n => .unknown n

def number : ControlMessage → UInt8
  | .dstUnreachable => 1
  | .packetTooBig => 2
  | .timeExceeded => 3
  | .paramProblem => 4
  | .echoRequest => 128
  | .echoReply => 129
  | .routerSolicit => 133
  | .routerAdvert => 134
  | .neighborSolicit => 135
  | .neighborAdvert => 136
  | .redirect => 137
  | .unknown n => n

theorem number_ofNumber (n : UInt8) : (ofNumber n).number = n := by
  unfold ofNumber
  split <;> rfl

/-- The layer type that decodes the body of a neighbor discovery message. -/
def layerType : ControlMessage → LayerType
  | .routerSolicit => .icmpv6RouterSolicitation
  | .routerAdvert => .icmpv6RouterAdvertisement
  | .neighborSolicit => .icmpv6NeighborSolicitation
  | .neighborAdvert => .icmpv6NeighborAdvertisement
  | .redirect => .icmpv6Redirect
  | _ => .payload

def text : ControlMessage → String
  | .dstUnreachable => "destination unreachable"
  | .packetTooBig => "packet too big"
  | .timeExceeded => "time exceeded"
  | .paramProblem => "parameter problem"
  | .echoRequest => "echo request"
  | .echoReply => "echo reply"
  | .routerSolicit => "router solicitation"
  | .routerAdvert => "router advertisement"
  | .neighborSolicit => "neighbor solicitation"
  | .neighborAdvert => "neighbor advertisement"
  | .redirect => "redirect"
  | .unknown n => toString n.toNat

def identifier : ControlMessage → String
  | .dstUnreachable => "DstUnreachable"
  | .packetTooBig => "PacketTooBig"
  | .timeExceeded => "TimeExceeded"
  | .paramProblem => "ParamProblem"
  | .echoRequest => "EchoRequest"
  | .echoReply => "EchoReply"
  | .routerSolicit => "RouterSolicit"
  | .routerAdvert => "RouterAdvert"
  | .neighborSolicit => "NeighborSolicit"
  | .neighborAdvert => "NeighborAdvert"
  | .redirect => "Redirect"
  | .unknown n => s!"Unknown({n.toNat})"

instance : WireCode ControlMessage where
  ofNat n := ofNumber (UInt8.ofNat n)
  unnamed n := .unknown (UInt8.ofNat n)
  toNat code := code.number.toNat
  identifier := identifier

end ControlMessage

/-- The common header of a control message. -/
structure Icmpv6 where
  extent : Extent
  messageType : ControlMessage
  code : UInt8
  checksum : UInt16
  /-- The addresses of the enclosing header, without which no checksum is computed. -/
  network : Option PseudoHeader
  deriving DecidableEq, Repr

namespace Icmpv6

def headerLength : Nat := 4

/-- A header of the given type and code. -/
def ofTypeCode (messageType : ControlMessage) (code : UInt8) : Icmpv6 :=
  ⟨.empty, messageType, code, 0, none⟩

def fresh : Icmpv6 := ofTypeCode (.unknown 0) 0

instance : Inhabited Icmpv6 := ⟨fresh⟩

/-! ## Fields of the octets of a header -/

namespace Header

def messageType (data : Octets) : ControlMessage := .ofNumber (octetAt data 0)

def code (data : Octets) : UInt8 := octetAt data 1

def checksum (data : Octets) : UInt16 := be16At data 2

def setMessageType (data : Octets) (t : ControlMessage) : Octets := putOctet data 0 t.number

def setCode (data : Octets) (code : UInt8) : Octets := putOctet data 1 code

def setChecksum (data : Octets) (checksum : UInt16) : Octets := putBe16 data 2 checksum

end Header

/-! ## The layer -/

def withNetwork (m : Icmpv6) (network : PseudoHeader) : Icmpv6 := { m with network := some network }

/-- The layer type of the message body. -/
def next (m : Icmpv6) : LayerType := m.messageType.layerType

def decode (old : Icmpv6) (data : Octets) : Decoding Icmpv6 :=
  if data.length < headerLength then
    .reject old (.truncated .icmpv6 headerLength data.length)
  else
    .accept
      { old with
        messageType := Header.messageType data
        code := Header.code data
        checksum := Header.checksum data
        extent := .split headerLength data.length }

def toOctets (m : Icmpv6) : Octets := [m.messageType.number, m.code] ++ be16 m.checksum

/-- Write the header, with its checksum over the whole message if one is to be computed. -/
def serialize (m : Icmpv6) (options : SerializeOptions) (inner : Octets) : Serialization Icmpv6 :=
  match Checksum.forHeader .icmpv6 .icmpv6 options m.network m.checksum
      ({ m with checksum := 0 }.toOctets ++ inner) with
  | .error failure => .fail m failure
  | .ok sum =>
    let summed := { m with checksum := sum }
    .write summed summed.toOctets

end Icmpv6

end PacketLayers
