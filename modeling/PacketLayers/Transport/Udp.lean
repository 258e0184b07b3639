import PacketLayers.Network.Checksum

/-! # UDP

A header of eight octets: two ports, the length of header and payload, and a checksum.  A length of
zero stands for all octets present, and one beyond them signals truncation.  The DNS ports name the
next layer, the destination port first.
-/

namespace PacketLayers

/-- A UDP header. -/
structure Udp where
  extent : Extent
  sourcePort : UInt16
  destinationPort : UInt16
  /-- The length of header and payload. -/
  length : UInt16
  checksum : UInt16
  /-- The addresses of the enclosing header, without which no checksum is computed. -/
  network : Option PseudoHeader
  deriving DecidableEq, Repr

namespace Udp

def headerLength : Nat := 8

/-- A header between two ports. -/
def ofPorts (source destination : UInt16) : Udp := ⟨.empty, source, destination, 0, 0, none⟩

def fresh : Udp := ofPorts 0 0

instance : Inhabited Udp := ⟨fresh⟩

/-- The layer type of messages to or from a port. -/
def portLayerType (port : UInt16) : LayerType :=
  if port = 53 ∨ port = 5353 then .dns else .payload

/-! ## Fields of the octets of a header -/

namespace Header

def sourcePort (data : Octets) : UInt16 := be16At data 0

def destinationPort (data : Octets) : UInt16 := be16At data 2

/-- The length of header and payload. -/
def length (data : Octets) : UInt16 := be16At data 4

def checksum (data : Octets) : UInt16 := be16At data 6

def setSourcePort (data : Octets) (port : UInt16) : Octets := putBe16 data 0 port

def setDestinationPort (data : Octets) (port : UInt16) : Octets := putBe16 data 2 port

def setLength (data : Octets) (length : UInt16) : Octets := putBe16 data 4 length

def setChecksum (data : Octets) (checksum : UInt16) : Octets := putBe16 data 6 checksum

end Header

/-! ## The layer -/

def withNetwork (u : Udp) (network : PseudoHeader) : Udp := { u with network := some network }

def next (u : Udp) : LayerType :=
  match portLayerType u.destinationPort with
  | .payload => portLayerType u.sourcePort
  | other => other

def flow (u : Udp) : Flow := .ofPorts .udpPort u.sourcePort u.destinationPort

def readFixed (old : Udp) (data : Octets) : Udp :=
  { old with
    sourcePort := Header.sourcePort data
    destinationPort := Header.destinationPort data
    length := Header.length data
    checksum := Header.checksum data }

/-- Where the datagram ends, according to its length or else to the octets present. -/
def declaredEnd (u : Udp) (available : Nat) : Nat :=
  if u.length = 0 then available else u.length.toNat

/-- Decode a header; a length beyond the input signals truncation. -/
def decode (old : Udp) (data : Octets) : Decoding Udp :=
  if data.length < headerLength then
    .reject old (.truncated .udp headerLength data.length)
  else
    let read := readFixed old data
    if read.length ≠ 0 ∧ read.length.toNat < headerLength then
      .reject read (.malformed .udp "length shorter than header")
    else
      let stop := read.declaredEnd data.length
      { layer := { read with extent := .split headerLength (min stop data.length) }
        error := none
        truncated := data.length < stop }

def toOctets (u : Udp) : Octets :=
  be16 u.sourcePort ++ be16 u.destinationPort ++ be16 u.length ++ be16 u.checksum

/-- The header with the length of its payload, if lengths are to be fixed. -/
def withLength (u : Udp) (options : SerializeOptions) (payloadLength : Nat) :
    Except SerializeError Udp :=
  if options.fixLengths then
    if 65535 < headerLength + payloadLength then
      .error (.lengthFixupFailed .udp "payload exceeds 65527 octets")
    else
      .ok { u with length := UInt16.ofNat (headerLength + payloadLength) }
  else
    .ok u

/-- Write the header, with its checksum over the whole datagram if one is to be computed. -/
def serialize (u : Udp) (options : SerializeOptions) (inner : Octets) : Serialization Udp :=
  match u.withLength options inner.length with
  | .error error => .refuse u error
  | .ok sized =>
    match Checksum.forHeader .udp .udp options sized.network sized.checksum
        ({ sized with checksum := 0 }.toOctets ++ inner) with
    | .error failure => .fail sized failure
    | .ok sum =>
      let summed := { sized with checksum := sum }
      .write summed summed.toOctets

end Udp

end PacketLayers
