import PacketLayers.Network.Checksum
import PacketLayers.Options.KindLength

/-! # IPv4

A header of 20 to 60 octets whose length counts words of four octets, followed by the payload up to
the total length.  A total length of zero is left by segmentation offload and stands for all octets
present; one beyond the octets present signals truncation.
-/

namespace PacketLayers

/-- One entry of the option list. -/
structure Ipv4Option where
  /-- The option kind, copy and class bits included. -/
  kind : UInt8
  data : Octets
  deriving DecidableEq, Repr, Inhabited

/-- An IPv4 header. -/
structure Ipv4 where
  extent : Extent
  version : UInt8
  /-- The header length in words of four octets. -/
  ihl : UInt8
  tos : UInt8
  /-- The length of header and payload. -/
  length : UInt16
  id : UInt16
  /-- The three bits in front of the fragment offset. -/
  flags : UInt8
  /-- The fragment offset in units of eight octets. -/
  fragmentOffset : UInt16
  ttl : UInt8
  protocol : IpProtocol
  checksum : UInt16
  source : Ipv4Address
  destination : Ipv4Address
  options : List Ipv4Option
  deriving DecidableEq, Repr

namespace Ipv4

def minHeaderLength : Nat := 20

/-- The octets of the longest header. -/
def maxHeaderLength : Nat := 60

/-- A header between unspecified addresses, with a time to live of 64. -/
def fresh : Ipv4 :=
  { extent := .empty
    version := 4
    ihl := 5
    tos := 0
    length := 0
    id := 0
    flags := 0
    fragmentOffset := 0
    ttl := 64
    protocol := .unknown 0xff
    checksum := 0
    source := .zero
    destination := .zero
    options := [] }

instance : Inhabited Ipv4 := ⟨fresh⟩

/-- The octet that holds version and header length; both are cut to four bits. -/
def versionOctet (version ihl : UInt8) : UInt8 :=
  UInt8.ofNat (version.toNat % 16 * 16 + ihl.toNat % 16)

/-- The word that holds flags and fragment offset, cut to three and thirteen bits. -/
def fragmentWord (flags : UInt8) (offset : UInt16) : UInt16 :=
  UInt16.ofNat (flags.toNat % 8 * 8192 + offset.toNat % 8192)

/-! ## Fields of the octets of a header -/

namespace Header

def version (data : Octets) : UInt8 := UInt8.ofNat ((octetAt data 0).toNat / 16)

/-- The header length in words. -/
def ihl (data : Octets) : UInt8 := UInt8.ofNat ((octetAt data 0).toNat % 16)

def tos (data : Octets) : UInt8 := octetAt data 1

/-- The length of header and payload. -/
def totalLength (data : Octets) : UInt16 := be16At data 2

def id (data : Octets) : UInt16 := be16At data 4

def flags (data : Octets) : UInt8 := UInt8.ofNat ((octetAt data 6).toNat / 32)

def fragmentOffset (data : Octets) : UInt16 := UInt16.ofNat ((be16At data 6).toNat % 8192)

def ttl (data : Octets) : UInt8 := octetAt data 8

/-- The protocol of the payload. -/
def protocol (data : Octets) : IpProtocol := .ofNumber (octetAt data 9)

def checksum (data : Octets) : UInt16 := be16At data 10

def source (data : Octets) : Ipv4Address := .readAt data 12

def destination (data : Octets) : Ipv4Address := .readAt data 16

def setVersionIhl (data : Octets) (version ihl : UInt8) : Octets :=
  putOctet data 0 (versionOctet version ihl)

def setTos (data : Octets) (tos : UInt8) : Octets := putOctet data 1 tos

def setTotalLength (data : Octets) (length : UInt16) : Octets := putBe16 data 2 length

def setId (data : Octets) (id : UInt16) : Octets := putBe16 data 4 id

def setFlagsFragmentOffset (data : Octets) (flags : UInt8) (offset : UInt16) : Octets :=
  putBe16 data 6 (fragmentWord flags offset)

def setTtl (data : Octets) (ttl : UInt8) : Octets := putOctet data 8 ttl

def setProtocol (data : Octets) (protocol : IpProtocol) : Octets :=
  putOctet data 9 protocol.number

def setChecksum (data : Octets) (checksum : UInt16) : Octets := putBe16 data 10 checksum

def setSource (data : Octets) (a : Ipv4Address) : Octets := putAt data 12 a.toOctets

def setDestination (data : Octets) (a : Ipv4Address) : Octets := putAt data 16 a.toOctets

/-- The checksum over the first octets of a packet, the checksum field taken as zero; there is none
where a sum does not fit. -/
def computeChecksum (data : Octets) (headerLength : Nat) : Option UInt16 := do
  let header := data.take headerLength
  let sum ← Checksum.combine
    [← Checksum.ofOctets (header.take 10), ← Checksum.ofOctets (header.drop 12)]
  return Checksum.complement sum

end Header

/-! ## The layer -/

def moreFragments (p : Ipv4) : Bool := p.flags.toNat.testBit 0

def dontFragment (p : Ipv4) : Bool := p.flags.toNat.testBit 1

/-- Whether the packet is one fragment of a larger datagram. -/
def isFragment (p : Ipv4) : Bool := p.moreFragments || p.fragmentOffset != 0

/-- The addresses for the checksum of a transport segment. -/
def pseudoHeader (p : Ipv4) : PseudoHeader := ⟨.v4 p.source, .v4 p.destination⟩

/-- The layer type of the payload; a fragment carries plain octets. -/
def next (p : Ipv4) : LayerType := if p.isFragment then .payload else p.protocol.layerType

def flow (p : Ipv4) : Flow :=
  .ofVectors .ipv4 p.source.octets p.destination.octets (by decide)

def text (p : Ipv4) : String :=
  s!"IPv4 src={p.source.text} dst={p.destination.text} proto={p.protocol.text} " ++
    s!"ttl={p.ttl.toNat} len={p.length.toNat}"

/-- The fixed fields of a header; there are no options yet. -/
def readFixed (old : Ipv4) (data : Octets) : Ipv4 :=
  { old with
    version := Header.version data
    ihl := Header.ihl data
    tos := Header.tos data
    length := Header.totalLength data
    id := Header.id data
    flags := Header.flags data
    fragmentOffset := Header.fragmentOffset data
    ttl := Header.ttl data
    protocol := Header.protocol data
    checksum := Header.checksum data
    source := Header.source data
    destination := Header.destination data
    options := [] }

def headerLength (p : Ipv4) : Nat := p.ihl.toNat * 4

/-- Where the packet ends, according to its total length or else to the octets present. -/
def declaredEnd (p : Ipv4) (available : Nat) : Nat :=
  if p.length = 0 then available else p.length.toNat

/-- Why the fixed fields rule out reading the options, if they do. -/
def headerError (p : Ipv4) (available : Nat) : Option DecodeError :=
  if p.version ≠ 4 then
    some (.malformed .ipv4 s!"invalid version {p.version.toNat}")
  else if p.ihl < 5 then
    some (.malformed .ipv4 s!"invalid (too small) header length {p.ihl.toNat}")
  else if p.length ≠ 0 ∧ p.length.toNat < p.headerLength then
    some (.malformed .ipv4 "total length shorter than header")
  else if available < p.headerLength then
    some (.truncated .ipv4 p.headerLength available)
  else
    none

/-- Decode a header.  Truncation is signalled for a total length beyond the input even if an option
then turns out to be invalid; the options in front of that one are kept. -/
def decode (old : Ipv4) (data : Octets) : Decoding Ipv4 :=
  if data.length < minHeaderLength then
    .reject old (.truncated .ipv4 minHeaderLength data.length)
  else
    let read := readFixed old data
    match read.headerError data.length with
    | some error => .reject read error
    | none =>
      let stop := read.declaredEnd data.length
      let walked := OptionWalk.collect .kindLength .ipv4
        (slice data minHeaderLength read.headerLength)
      let found : Ipv4 :=
        { read with options := walked.layer.map fun o => ⟨o.tag.toUInt8, o.data⟩ }
      { layer :=
          match walked.error with
          | some _ => found
          | none => { found with extent := .split read.headerLength (min stop data.length) }
        error := walked.error
        truncated := data.length < stop || walked.truncated }

def toOctets (p : Ipv4) (encodedOptions : Octets) : Octets :=
  [versionOctet p.version p.ihl, p.tos] ++ be16 p.length ++ be16 p.id ++
    be16 (fragmentWord p.flags p.fragmentOffset) ++ [p.ttl, p.protocol.number] ++
    be16 p.checksum ++ p.source.toOctets ++ p.destination.toOctets ++ encodedOptions

/-- The option list as it is written. -/
def encodedOptions (p : Ipv4) : Except SerializeError Octets :=
  match KindLength.encode (p.options.map fun o => (o.kind, o.data)) with
  | none => .error (.invalidField .ipv4 "option data too long")
  | some encoded =>
    if maxHeaderLength < minHeaderLength + encoded.length then
      .error (.invalidField .ipv4 "options exceed 40 octets")
    else
      .ok encoded

/-- The header with the checksum of its octets, if there is one and checksums are to be computed. -/
def withChecksum (p : Ipv4) (options : SerializeOptions) (encoded : Octets) : Option Ipv4 :=
  if options.computeChecksums then
    (Header.computeChecksum (p.toOctets encoded) (minHeaderLength + encoded.length)).map
      fun sum => { p with checksum := sum }
  else
    some p

/-- Write the header with its checksum. -/
def serializeHeader (p : Ipv4) (options : SerializeOptions) (encoded : Octets) :
    Serialization Ipv4 :=
  match p.withChecksum options encoded with
  | none => .fail p .overflow
  | some summed => .write summed (summed.toOctets encoded)

/-- Write the header; a header length that was fixed stays if the total length does not fit. -/
def serialize (p : Ipv4) (options : SerializeOptions) (inner : Octets) : Serialization Ipv4 :=
  match p.encodedOptions with
  | .error error => .refuse p error
  | .ok encoded =>
    let headerLength := minHeaderLength + encoded.length
    let total := headerLength + inner.length
    if options.fixLengths then
      let sized := { p with ihl := UInt8.ofNat (headerLength / 4) }
      if 65535 < total then
        .refuse sized (.lengthFixupFailed .ipv4 "payload exceeds 65535 octets")
      else
        { sized with length := UInt16.ofNat total }.serializeHeader options encoded
    else
      p.serializeHeader options encoded

end Ipv4

end PacketLayers
