import PacketLayers.Network.Checksum

/-! # IPv6

The fixed header of 40 octets.  Extension headers are not decoded: a packet that carries them
continues with plain payload.  A payload length of zero is left by jumbograms and by segmentation
offload and stands for all octets present.
-/

namespace PacketLayers

/-- A fixed IPv6 header. -/
structure Ipv6 where
  extent : Extent
  version : UInt8
  trafficClass : UInt8
  flowLabel : UInt32
  /-- The octets behind the fixed header. -/
  length : UInt16
  nextHeader : IpProtocol
  hopLimit : UInt8
  source : Ipv6Address
  destination : Ipv6Address
  deriving DecidableEq, Repr

namespace Ipv6

/-- The octets of the fixed header. -/
def headerLength : Nat := 40

/-- A header between unspecified addresses, with a hop limit of 64. -/
def fresh : Ipv6 :=
  { extent := .empty
    version := 6
    trafficClass := 0
    flowLabel := 0
    length := 0
    nextHeader := .ipv6NoNxt
    hopLimit := 64
    source := .zero
    destination := .zero }

instance : Inhabited Ipv6 := ⟨fresh⟩

/-- The word that holds version, traffic class and flow label, cut to 4, 8 and 20 bits. -/
def flowWord (version trafficClass : UInt8) (flowLabel : UInt32) : UInt32 :=
  UInt32.ofNat (version.toNat % 16 * 268435456 + trafficClass.toNat * 1048576 +
    flowLabel.toNat % 1048576)

/-! ## Fields of the octets of a header -/

namespace Header

def version (data : Octets) : UInt8 := UInt8.ofNat ((be32At data 0).toNat / 268435456)

def trafficClass (data : Octets) : UInt8 := UInt8.ofNat ((be32At data 0).toNat / 1048576 % 256)

def flowLabel (data : Octets) : UInt32 := UInt32.ofNat ((be32At data 0).toNat % 1048576)

/-- The octets behind the header. -/
def payloadLength (data : Octets) : UInt16 := be16At data 4

/-- The protocol of the payload. -/
def nextHeader (data : Octets) : IpProtocol := .ofNumber (octetAt data 6)

def hopLimit (data : Octets) : UInt8 := octetAt data 7

def source (data : Octets) : Ipv6Address := .readAt data 8

def destination (data : Octets) : Ipv6Address := .readAt data 24

def setVersionClassLabel (data : Octets) (version trafficClass : UInt8) (flowLabel : UInt32) :
    Octets :=
  putBe32 data 0 (flowWord version trafficClass flowLabel)

def setPayloadLength (data : Octets) (length : UInt16) : Octets := putBe16 data 4 length

def setNextHeader (data : Octets) (protocol : IpProtocol) : Octets :=
  putOctet data 6 protocol.number

def setHopLimit (data : Octets) (hopLimit : UInt8) : Octets := putOctet data 7 hopLimit

def setSource (data : Octets) (a : Ipv6Address) : Octets := putAt data 8 a.toOctets

def setDestination (data : Octets) (a : Ipv6Address) : Octets := putAt data 24 a.toOctets

end Header

/-! ## The layer -/

/-- The addresses for the checksum of a transport segment. -/
def pseudoHeader (p : Ipv6) : PseudoHeader := ⟨.v6 p.source, .v6 p.destination⟩

def next (p : Ipv6) : LayerType := p.nextHeader.layerType

def flow (p : Ipv6) : Flow :=
  .ofVectors .ipv6 p.source.octets p.destination.octets (by decide)

def readFixed (old : Ipv6) (data : Octets) : Ipv6 :=
  { old with
    version := Header.version data
    trafficClass := Header.trafficClass data
    flowLabel := Header.flowLabel data
    length := Header.payloadLength data
    nextHeader := Header.nextHeader data
    hopLimit := Header.hopLimit data
    source := Header.source data
    destination := Header.destination data }

/-- Where the packet ends, according to its payload length or else to the octets present. -/
def declaredEnd (p : Ipv6) (available : Nat) : Nat :=
  if p.length = 0 then available else headerLength + p.length.toNat

/-- Decode a header; a payload length beyond the input signals truncation. -/
def decode (old : Ipv6) (data : Octets) : Decoding Ipv6 :=
  if data.length < headerLength then
    .reject old (.truncated .ipv6 headerLength data.length)
  else
    let read := readFixed old data
    if read.version ≠ 6 then
      .reject read (.malformed .ipv6 s!"invalid version {read.version.toNat}")
    else
      let stop := read.declaredEnd data.length
      { layer := { read with extent := .split headerLength (min stop data.length) }
        error := none
        truncated := data.length < stop }

def toOctets (p : Ipv6) : Octets :=
  be32 (flowWord p.version p.trafficClass p.flowLabel) ++ be16 p.length ++
    [p.nextHeader.number, p.hopLimit] ++ p.source.toOctets ++ p.destination.toOctets

def serialize (p : Ipv6) (options : SerializeOptions) (inner : Octets) : Serialization Ipv6 :=
  if options.fixLengths then
    if 65535 < inner.length then
      .refuse p (.lengthFixupFailed .ipv6 "payload exceeds 65535 octets")
    else
      let fixed := { p with length := UInt16.ofNat inner.length }
      .write fixed fixed.toOctets
  else
    .write p p.toOctets

end Ipv6

end PacketLayers
