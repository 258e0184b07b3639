import PacketLayers.Address

/-! # Endpoint types and their registry

An endpoint type is a number that says what kind of address an endpoint carries.  A registry maps
numbers to a display name and to a function that renders raw octets.  The six built-in types are
always present, and a number keeps the metadata of its first registration: `Registry.register`
refuses a number in use and leaves the registry as it was.
-/

namespace PacketLayers

/-- A number for the kind of address that an endpoint carries. -/
structure EndpointType where
  number : UInt16
  deriving DecidableEq, Ord, Repr, Inhabited

namespace EndpointType

/-- The type of the empty endpoint. -/
def invalid : EndpointType := ⟨0⟩

def ipv4 : EndpointType := ⟨1⟩

def ipv6 : EndpointType := ⟨2⟩

def mac : EndpointType := ⟨3⟩

def tcpPort : EndpointType := ⟨4⟩

def udpPort : EndpointType := ⟨5⟩

/-- The number, shown independently of any registry. -/
def inspect (kind : EndpointType) : String := s!"EndpointType({kind.number.toNat})"

/-- The first number that is meant for additional types. -/
def firstCustom : UInt16 := 1000

end EndpointType

/-- What a registry knows about an endpoint type. -/
structure EndpointMetadata where
  /-- The display name of the type. -/
  name : String
  /-- Renders the raw octets of an endpoint of the type. -/
  render : Octets → String

/-- Why an endpoint type could not be registered. -/
inductive RegistrationError where
  /-- The number is already in use. -/
  | duplicate (number : UInt16)
  deriving DecidableEq, Repr, Inhabited

def RegistrationError.identifier : RegistrationError → String
  | .duplicate _ => "Duplicate"

/-- The text of a registration error. -/
def RegistrationError.message : RegistrationError → String
  | .duplicate number => s!"endpoint type number {number.toNat} already in use"

namespace EndpointMetadata

/-- Renders four octets as a dotted quad and anything else as a list. -/
def renderIpv4 (raw : Octets) : String :=
  if raw.length = 4 then (Ipv4Address.readAt raw 0).text else listText raw

/-- Renders sixteen octets as an IPv6 address and anything else as a list. -/
def renderIpv6 (raw : Octets) : String :=
  if raw.length = 16 then (Ipv6Address.readAt raw 0).text else listText raw

/-- Renders two octets as a big-endian number and anything else as a list. -/
def renderPort (raw : Octets) : String :=
  if raw.length = 2 then toString (be16At raw 0).toNat else listText raw

end EndpointMetadata

/-- The registered endpoint types, in the order of their registration. -/
structure Registry where
  entries : List (EndpointType × EndpointMetadata)

namespace Registry

/-- The registry of the built-in types. -/
def builtin : Registry :=
  ⟨[(.invalid, ⟨"invalid", listText⟩),
    (.ipv4, ⟨"IPv4", EndpointMetadata.renderIpv4⟩),
    (.ipv6, ⟨"IPv6", EndpointMetadata.renderIpv6⟩),
    (.mac, ⟨"MAC", colonHexText⟩),
    (.tcpPort, ⟨"TCP", EndpointMetadata.renderPort⟩),
    (.udpPort, ⟨"UDP", EndpointMetadata.renderPort⟩)]⟩

/-- The metadata of a type, if it is registered. -/
def metadata? (registry : Registry) (kind : EndpointType) : Option EndpointMetadata :=
  registry.entries.lookup kind

/-- Add a type under a free number. -/
def register (registry : Registry) (number : UInt16) (metadata : EndpointMetadata) :
    Except RegistrationError Registry :=
  match registry.metadata? ⟨number⟩ with
  | some _ => .error (.duplicate number)
  | none => .ok ⟨registry.entries ++ [(⟨number⟩, metadata)]⟩

/-- The registered name of a type, or its number. -/
def typeText (registry : Registry) (kind : EndpointType) : String :=
  match registry.metadata? kind with
  | some metadata => metadata.name
  | none => toString kind.number.toNat

/-- Raw octets as the type renders them; an unregistered type shows its number and a list. -/
def render (registry : Registry) (kind : EndpointType) (raw : Octets) : String :=
  match registry.metadata? kind with
  | some metadata => metadata.render raw
  | none => s!"{kind.number.toNat}:" ++ listText raw

end Registry

end PacketLayers
