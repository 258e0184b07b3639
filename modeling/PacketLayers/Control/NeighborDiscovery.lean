import PacketLayers.Options.Walk

/-! # Neighbor discovery

The bodies of the five neighbor discovery messages, behind the common ICMPv6 header.  Each has a
fixed part of its own and then options that count their length in units of eight octets.  A
`NeighborBody` describes the fixed part; everything else is shared.  These layers can only be
decoded.
-/

namespace PacketLayers

/-- The type of a neighbor discovery option. -/
inductive NeighborOptionKind where
  | sourceLinkLayerAddr
  | targetLinkLayerAddr
  | prefixInformation
  | redirectedHeader
  | mtu
  | unknown (number : UInt8)
  deriving DecidableEq, Ord, Repr, Inhabited

namespace NeighborOptionKind

def ofNumber (n : UInt8) : NeighborOptionKind :=
  match n with
  | 1 => .sourceLinkLayerAddr
  | 2 => .targetLinkLayerAddr
  | 3 => .prefixInformation
  | 4 => .redirectedHeader
  | 5 => .mtu
  | n => .unknown n

def number : NeighborOptionKind → UInt8
  | .sourceLinkLayerAddr => 1
  | .targetLinkLayerAddr => 2
  | .prefixInformation => 3
  | .redirectedHeader => 4
  | .mtu => 5
  | .unknown n => n

theorem number_ofNumber (n : UInt8) : (ofNumber n).number = n := by
  unfold ofNumber
  split <;> rfl

def identifier : NeighborOptionKind → String
  | .sourceLinkLayerAddr => "SourceLinkLayerAddr"
  | .targetLinkLayerAddr => "TargetLinkLayerAddr"
  | .prefixInformation => "PrefixInformation"
  | .redirectedHeader => "RedirectedHeader"
  | .mtu => "Mtu"
  | .unknown n => s!"Unknown({n.toNat})"

instance : WireCode NeighborOptionKind where
  ofNat n := ofNumber (UInt8.ofNat n)
  unnamed n := .unknown (UInt8.ofNat n)
  toNat code := code.number.toNat
  identifier := identifier

end NeighborOptionKind

/-- A neighbor discovery option. -/
structure NeighborOption where
  kind : NeighborOptionKind
  /-- The octets that the option takes, header included. -/
  length : Nat
  data : Octets
  deriving DecidableEq, Repr, Inhabited

/-- The option that raw octets stand for. -/
def NeighborOption.ofRaw (o : RawOption) : NeighborOption :=
  ⟨.ofNumber o.tag.toUInt8, o.length, o.data⟩

/-- The fixed part of a neighbor discovery message. -/
class NeighborBody (B : Type) where
  /-- The type of the layer with this body. -/
  layerType : LayerType
  /-- The octets of the fixed part. -/
  length : Nat
  /-- The fields of the fixed part. -/
  read : Octets → B
  /-- The fields of a message that has not decoded anything. -/
  fresh : B

/-- A neighbor discovery message with a given fixed part. -/
structure NeighborMessage (B : Type) where
  extent : Extent
  body : B
  /-- The options in order of appearance. -/
  options : List NeighborOption
  deriving DecidableEq, Repr, Inhabited

namespace NeighborMessage

variable {B : Type}

/-- The first option of a kind. -/
def option? (m : NeighborMessage B) (kind : NeighborOptionKind) : Option NeighborOption :=
  m.options.find? (·.kind == kind)

variable [NeighborBody B]

/-- A message that has not decoded anything. -/
def fresh : NeighborMessage B := ⟨.empty, NeighborBody.fresh, []⟩

/-- The type of the layer. -/
def layerType (_ : NeighborMessage B) : LayerType := NeighborBody.layerType B

/-- Decode a message body.  Input that is too short for the fixed part changes nothing; the options
in front of an invalid one are kept. -/
def decode (old : NeighborMessage B) (data : Octets) : Decoding (NeighborMessage B) :=
  let fixed := NeighborBody.length B
  if data.length < fixed then
    .reject old (.truncated (NeighborBody.layerType B) fixed data.length)
  else
    let walked := OptionWalk.collect .neighborDiscovery (NeighborBody.layerType B) (data.drop fixed)
    { layer :=
        { extent :=
            match walked.error with
            | some _ => old.extent
            | none => .whole data.length
          body := NeighborBody.read data
          options := walked.layer.map NeighborOption.ofRaw }
      error := walked.error
      truncated := walked.truncated }

def serialize (m : NeighborMessage B) (_ : SerializeOptions) (_ : Octets) :
    Serialization (NeighborMessage B) :=
  .refuse m (.unsupportedLayer m.layerType)

end NeighborMessage

/-- Sent by hosts to request router advertisements. -/
structure RouterSolicitation where
  deriving DecidableEq, Repr, Inhabited

instance : NeighborBody RouterSolicitation where
  layerType := .icmpv6RouterSolicitation
  length := 4
  read _ := {}
  fresh := {}

/-- Announces a router and the parameters of its link. -/
structure RouterAdvertisement where
  hopLimit : UInt8
  flags : UInt8
  /-- The seconds for which the router may be used as default router. -/
  routerLifetime : UInt16
  /-- The milliseconds for which a neighbor is considered reachable. -/
  reachableTime : UInt32
  /-- The milliseconds between repeated solicitations. -/
  retransTimer : UInt32
  deriving DecidableEq, Repr, Inhabited

namespace RouterAdvertisement

/-- Whether addresses are available through a configuration service. -/
def managed (b : RouterAdvertisement) : Bool := b.flags.toNat.testBit 7

/-- Whether other configuration is available through a configuration service. -/
def otherConfig (b : RouterAdvertisement) : Bool := b.flags.toNat.testBit 6

end RouterAdvertisement

instance : NeighborBody RouterAdvertisement where
  layerType := .icmpv6RouterAdvertisement
  length := 12
  read data := ⟨octetAt data 0, octetAt data 1, be16At data 2, be32At data 4, be32At data 8⟩
  fresh := ⟨0, 0, 0, 0, 0⟩

/-- Asks for the link layer address of a target. -/
structure NeighborSolicitation where
  target : Ipv6Address
  deriving DecidableEq, Repr, Inhabited

instance : NeighborBody NeighborSolicitation where
  layerType := .icmpv6NeighborSolicitation
  length := 20
  read data := ⟨.readAt data 4⟩
  fresh := ⟨.zero⟩

/-- Answers a solicitation, or announces a changed link layer address. -/
structure NeighborAdvertisement where
  flags : UInt8
  target : Ipv6Address
  deriving DecidableEq, Repr, Inhabited

namespace NeighborAdvertisement

def router (b : NeighborAdvertisement) : Bool := b.flags.toNat.testBit 7

def solicited (b : NeighborAdvertisement) : Bool := b.flags.toNat.testBit 6

/-- Whether the message should replace an existing cache entry. -/
def replaces (b : NeighborAdvertisement) : Bool := b.flags.toNat.testBit 5

end NeighborAdvertisement

instance : NeighborBody NeighborAdvertisement where
  layerType := .icmpv6NeighborAdvertisement
  length := 20
  read data := ⟨octetAt data 0, .readAt data 4⟩
  fresh := ⟨0, .zero⟩

/-- Informs a host of a better first hop. -/
structure Redirect where
  target : Ipv6Address
  destination : Ipv6Address
  deriving DecidableEq, Repr, Inhabited

instance : NeighborBody Redirect where
  layerType := .icmpv6Redirect
  length := 36
  read data := ⟨.readAt data 4, .readAt data 20⟩
  fresh := ⟨.zero, .zero⟩

end PacketLayers
