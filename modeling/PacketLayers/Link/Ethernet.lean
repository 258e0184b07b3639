import PacketLayers.Layer

/-! # Ethernet

An Ethernet II or 802.3 frame header: two link addresses and a 16-bit number, which is a protocol
type from 0x0600 on and the length of the payload below.  An 802.3 length ends the payload; without
one the payload reaches to the end of the frame.
-/

namespace PacketLayers

/-- The protocol type of a frame. -/
inductive EtherType where
  | ipv4
  | arp
  | ipv6
  | jumboFrame
  | unknown (number : UInt16)
  deriving DecidableEq, Ord, Repr

namespace EtherType

instance : Inhabited EtherType := ⟨.unknown 0⟩

def ofNumber (n : UInt16) : EtherType :=
  match n with
  | 0x0800 => .ipv4
  | 0x0806 => .arp
  | 0x86dd => .ipv6
  | 0x8870 => .jumboFrame
  | n => .unknown n

def number : EtherType → UInt16
  | .ipv4 => 0x0800
  | .arp => 0x0806
  | .ipv6 => 0x86dd
  | .jumboFrame => 0x8870
  | .unknown n => n

theorem number_ofNumber (n : UInt16) : (ofNumber n).number = n := by
  unfold ofNumber
  split <;> rfl

/-- The layer type that decodes frames of this type. -/
def layerType : EtherType → LayerType
  | .ipv4 => .ipv4
  | .ipv6 => .ipv6
  | _ => .payload

/-- Whether the number is an 802.3 length instead of a type. -/
def isLength (t : EtherType) : Bool := t.number < 0x0600

def text : EtherType → String
  | .ipv4 => "IPv4"
  | .ipv6 => "IPv6"
  | .arp => "ARP"
  | .jumboFrame => "JumboFrame"
  | .unknown n => "0x" ++ hexText (be16 n)

def identifier : EtherType → String
  | .ipv4 => "Ipv4"
  | .arp => "Arp"
  | .ipv6 => "Ipv6"
  | .jumboFrame => "JumboFrame"
  | .unknown n => s!"Unknown({n.toNat})"

instance : WireCode EtherType where
  ofNat n := ofNumber (UInt16.ofNat n)
  unnamed n := .unknown (UInt16.ofNat n)
  toNat code := code.number.toNat
  identifier := identifier

end EtherType

/-- A frame header. -/
structure Ethernet where
  extent : Extent
  source : MacAddress
  destination : MacAddress
  /-- The protocol type, or the length of an 802.3 frame. -/
  etherType : EtherType
  deriving DecidableEq, Repr

namespace Ethernet

def headerLength : Nat := 14

/-- Frames are padded to this length, not counting the frame check sequence. -/
def minFrameLength : Nat := 60

def fresh : Ethernet := ⟨.empty, .zero, .zero, .unknown 0⟩

instance : Inhabited Ethernet := ⟨fresh⟩

/-! ## Fields of the octets of a header -/

namespace Header

def destination (data : Octets) : MacAddress := .readAt data 0

def source (data : Octets) : MacAddress := .readAt data 6

def etherType (data : Octets) : EtherType := .ofNumber (be16At data 12)

def setDestination (data : Octets) (a : MacAddress) : Octets := putAt data 0 a.toOctets

def setSource (data : Octets) (a : MacAddress) : Octets := putAt data 6 a.toOctets

def setEtherType (data : Octets) (t : EtherType) : Octets := putBe16 data 12 t.number

end Header

/-! ## The layer -/

/-- The length of an 802.3 frame. -/
def length? (e : Ethernet) : Option UInt16 :=
  if e.etherType.isLength then some e.etherType.number else none

/-- Where the payload of a frame ends, according to its length or else to the octets present. -/
def declaredEnd (e : Ethernet) (available : Nat) : Nat :=
  match e.length? with
  | some length => headerLength + length.toNat
  | none => available

/-- Decode a frame header; a declared end behind the input signals truncation. -/
def decode (old : Ethernet) (data : Octets) : Decoding Ethernet :=
  if data.length < headerLength then
    .reject old (.truncated .ethernet headerLength data.length)
  else
    let read : Ethernet :=
      { old with
        destination := Header.destination data
        source := Header.source data
        etherType := Header.etherType data }
    let stop := read.declaredEnd data.length
    { layer := { read with extent := .split headerLength (min stop data.length) }
      error := none
      truncated := data.length < stop }

def next (e : Ethernet) : LayerType := e.etherType.layerType

def flow (e : Ethernet) : Flow :=
  .ofVectors .mac e.source.octets e.destination.octets (by decide)

def toOctets (e : Ethernet) : Octets :=
  e.destination.toOctets ++ e.source.toOctets ++ be16 e.etherType.number

/-- The header with the length of its payload, where it holds a length. -/
def withLength (e : Ethernet) (payloadLength : Nat) : Except SerializeError Ethernet :=
  if e.etherType.isLength then
    if payloadLength < 0x0600 then
      .ok { e with etherType := .ofNumber (UInt16.ofNat payloadLength) }
    else
      .error (.lengthFixupFailed .ethernet "802.3 payload too long")
  else
    .ok e

/-- Write the header; with fixed lengths a short frame is padded with zero octets. -/
def serialize (e : Ethernet) (options : SerializeOptions) (inner : Octets) :
    Serialization Ethernet :=
  if options.fixLengths then
    match e.withLength inner.length with
    | .error error => .refuse e error
    | .ok fixed =>
      let pad := minFrameLength - (headerLength + inner.length)
      ⟨fixed, .ok ⟨fixed.toOctets, List.replicate pad 0⟩⟩
  else
    .write e e.toOctets

end Ethernet

end PacketLayers
