import PacketLayers.Network.Checksum
import PacketLayers.Options.KindLength

/-! # TCP

A header of 20 to 60 octets whose length, the data offset, counts words of four octets.  Everything
behind it is payload.  The payload is plain octets unless the decoder is told that every message fits
a segment; then the EtherNet/IP port names the next layer.
-/

namespace PacketLayers

/-- The control bits of a segment. -/
structure TcpFlags where
  bits : UInt16
  deriving DecidableEq, Repr, Inhabited

namespace TcpFlags

/-- Whether all bits of another set are set. -/
def contains (a b : TcpFlags) : Bool := a.bits &&& b.bits == b.bits

/-- The bits of both sets. -/
def union (a b : TcpFlags) : TcpFlags := ⟨a.bits ||| b.bits⟩

/-- The nine named bits, lowest first. -/
def names : List (TcpFlags × String) :=
  [(⟨0x001⟩, "FIN"), (⟨0x002⟩, "SYN"), (⟨0x004⟩, "RST"), (⟨0x008⟩, "PSH"), (⟨0x010⟩, "ACK"),
    (⟨0x020⟩, "URG"), (⟨0x040⟩, "ECE"), (⟨0x080⟩, "CWR"), (⟨0x100⟩, "NS")]

/-- The names of the bits that are set, joined by commas. -/
def text (flags : TcpFlags) : String :=
  ",".intercalate ((names.filter fun entry => flags.contains entry.1).map (·.2))

end TcpFlags

/-- The kind of a TCP option. -/
inductive TcpOptionKind where
  | endOfList
  | noOperation
  | maxSegmentSize
  | windowScale
  | sackPermitted
  | sackRange
  | timestamps
  | unknown (number : UInt8)
  deriving DecidableEq, Ord, Repr, Inhabited

namespace TcpOptionKind

def ofNumber (n : UInt8) : TcpOptionKind :=
  match n with
  | 0 => .endOfList
  | 1 => .noOperation
  | 2 => .maxSegmentSize
  | 3 => .windowScale
  | 4 => .sackPermitted
  | 5 => .sackRange
  | 8 => .timestamps
  | n => .unknown n

def number : TcpOptionKind → UInt8
  | .endOfList => 0
  | .noOperation => 1
  | .maxSegmentSize => 2
  | .windowScale => 3
  | .sackPermitted => 4
  | .sackRange => 5
  | .timestamps => 8
  | .unknown n => n

theorem number_ofNumber (n : UInt8) : (ofNumber n).number = n := by
  unfold ofNumber
  split <;> rfl

def identifier : TcpOptionKind → String
  | .endOfList => "EndOfList"
  | .noOperation => "NoOperation"
  | .maxSegmentSize => "MaxSegmentSize"
  | .windowScale => "WindowScale"
  | .sackPermitted => "SackPermitted"
  | .sackRange => "SackRange"
  | .timestamps => "Timestamps"
  | .unknown n => s!"Unknown({n.toNat})"

instance : WireCode TcpOptionKind where
  ofNat n := ofNumber (UInt8.ofNat n)
  unnamed n := .unknown (UInt8.ofNat n)
  toNat code := code.number.toNat
  identifier := identifier

end TcpOptionKind

/-- One entry of the option list. -/
structure TcpOption where
  kind : TcpOptionKind
  data : Octets
  deriving DecidableEq, Repr, Inhabited

/-- A TCP header. -/
structure Tcp where
  extent : Extent
  sourcePort : UInt16
  destinationPort : UInt16
  seq : UInt32
  ack : UInt32
  /-- The header length in words of four octets. -/
  dataOffset : UInt8
  flags : TcpFlags
  window : UInt16
  checksum : UInt16
  urgent : UInt16
  options : List TcpOption
  /-- The addresses of the enclosing header, without which no checksum is computed. -/
  network : Option PseudoHeader
  /-- Whether the payload of a segment is handed to an application decoder. -/
  streamPayloads : Bool
  deriving DecidableEq, Repr

namespace Tcp

def minHeaderLength : Nat := 20

/-- The octets of the longest header. -/
def maxHeaderLength : Nat := 60

/-- The port of EtherNet/IP explicit messages. -/
def enipPort : UInt16 := 44818

def fresh : Tcp :=
  { extent := .empty
    sourcePort := 0
    destinationPort := 0
    seq := 0
    ack := 0
    dataOffset := 0
    flags := ⟨0⟩
    window := 0
    checksum := 0
    urgent := 0
    options := []
    network := none
    streamPayloads := false }

instance : Inhabited Tcp := ⟨fresh⟩

/-- A header without options between two ports. -/
def ofPorts (source destination : UInt16) : Tcp :=
  { fresh with sourcePort := source, destinationPort := destination, dataOffset := 5 }

/-- A decoder that hands payloads to application decoders.  As nothing puts streams together, it is
right only if every message fits a single segment. -/
def withStreamPayloads : Tcp := { fresh with streamPayloads := true }

/-- The word that holds data offset and flags, cut to four and nine bits. -/
def offsetWord (dataOffset : UInt8) (flags : TcpFlags) : UInt16 :=
  UInt16.ofNat (dataOffset.toNat % 16 * 4096 + flags.bits.toNat % 512)

/-! ## Fields of the octets of a header -/

namespace Header

def sourcePort (data : Octets) : UInt16 := be16At data 0

def destinationPort (data : Octets) : UInt16 := be16At data 2

def seq (data : Octets) : UInt32 := be32At data 4

def ack (data : Octets) : UInt32 := be32At data 8

/-- The data offset in words. -/
def dataOffset (data : Octets) : UInt8 := UInt8.ofNat ((octetAt data 12).toNat / 16)

def flags (data : Octets) : TcpFlags := ⟨UInt16.ofNat ((be16At data 12).toNat % 512)⟩

def window (data : Octets) : UInt16 := be16At data 14

def checksum (data : Octets) : UInt16 := be16At data 16

def urgent (data : Octets) : UInt16 := be16At data 18

def setSourcePort (data : Octets) (port : UInt16) : Octets := putBe16 data 0 port

def setDestinationPort (data : Octets) (port : UInt16) : Octets := putBe16 data 2 port

def setSeq (data : Octets) (seq : UInt32) : Octets := putBe32 data 4 seq

def setAck (data : Octets) (ack : UInt32) : Octets := putBe32 data 8 ack

def setOffsetFlags (data : Octets) (dataOffset : UInt8) (flags : TcpFlags) : Octets :=
  putBe16 data 12 (offsetWord dataOffset flags)

def setWindow (data : Octets) (window : UInt16) : Octets := putBe16 data 14 window

def setChecksum (data : Octets) (checksum : UInt16) : Octets := putBe16 data 16 checksum

def setUrgent (data : Octets) (urgent : UInt16) : Octets := putBe16 data 18 urgent

end Header

/-! ## The layer -/

def withNetwork (t : Tcp) (network : PseudoHeader) : Tcp := { t with network := some network }

def next (t : Tcp) : LayerType :=
  if t.streamPayloads ∧ (t.sourcePort = enipPort ∨ t.destinationPort = enipPort) then .enip
  else .payload

def flow (t : Tcp) : Flow := .ofPorts .tcpPort t.sourcePort t.destinationPort

/-- The fixed fields of a header; there are no options yet. -/
def readFixed (old : Tcp) (data : Octets) : Tcp :=
  { old with
    sourcePort := Header.sourcePort data
    destinationPort := Header.destinationPort data
    seq := Header.seq data
    ack := Header.ack data
    dataOffset := Header.dataOffset data
    flags := Header.flags data
    window := Header.window data
    checksum := Header.checksum data
    urgent := Header.urgent data
    options := [] }

def headerLength (t : Tcp) : Nat := t.dataOffset.toNat * 4

/-- Decode a header; the options in front of an invalid one are kept. -/
def decode (old : Tcp) (data : Octets) : Decoding Tcp :=
  if data.length < minHeaderLength then
    .reject old (.truncated .tcp minHeaderLength data.length)
  else
    let read := readFixed old data
    if read.dataOffset < 5 then
      .reject read (.malformed .tcp s!"invalid data offset {read.dataOffset.toNat}")
    else if data.length < read.headerLength then
      .reject read (.truncated .tcp read.headerLength data.length)
    else
      let walked := OptionWalk.collect .kindLength .tcp
        (slice data minHeaderLength read.headerLength)
      let found : Tcp :=
        { read with options := walked.layer.map fun o => ⟨.ofNumber o.tag.toUInt8, o.data⟩ }
      { layer :=
          match walked.error with
          | some _ => found
          | none => { found with extent := .split read.headerLength data.length }
        error := walked.error
        truncated := walked.truncated }

def toOctets (t : Tcp) (encodedOptions : Octets) : Octets :=
  be16 t.sourcePort ++ be16 t.destinationPort ++ be32 t.seq ++ be32 t.ack ++
    be16 (offsetWord t.dataOffset t.flags) ++ be16 t.window ++ be16 t.checksum ++ be16 t.urgent ++
    encodedOptions

/-- The option list as it is written. -/
def encodedOptions (t : Tcp) : Except SerializeError Octets :=
  match KindLength.encode (t.options.map fun o => (o.kind.number, o.data)) with
  | none => .error (.invalidField .tcp "option data too long")
  | some encoded =>
    if maxHeaderLength < minHeaderLength + encoded.length then
      .error (.invalidField .tcp "options exceed 40 octets")
    else
      .ok encoded

/-- The header with the data offset that its options imply, if lengths are to be fixed. -/
def withDataOffset (t : Tcp) (options : SerializeOptions) (encoded : Octets) : Tcp :=
  if options.fixLengths then
    { t with dataOffset := UInt8.ofNat ((minHeaderLength + encoded.length) / 4) }
  else
    t

/-- Write the header, with its checksum over the whole segment if one is to be computed. -/
def serialize (t : Tcp) (options : SerializeOptions) (inner : Octets) : Serialization Tcp :=
  match t.encodedOptions with
  | .error error => .refuse t error
  | .ok encoded =>
    let sized := t.withDataOffset options encoded
    match Checksum.forHeader .tcp .tcp options sized.network sized.checksum
        ({ sized with checksum := 0 }.toOctets encoded ++ inner) with
    | .error failure => .fail sized failure
    | .ok sum =>
      let summed := { sized with checksum := sum }
      .write summed (summed.toOctets encoded)

end Tcp

end PacketLayers
