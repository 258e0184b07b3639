import PacketLayers.Layer

/-! # Loopback encapsulation

A four-octet protocol family in the byte order of the capturing host precedes the packet.  Families
are small numbers, so a value with two leading zero octets is read as big-endian and any other as
little-endian.  Headers are always written little-endian.
-/

namespace PacketLayers

/-- The address family of the encapsulated packet. -/
inductive ProtocolFamily where
  | ipv4
  /-- IPv6 as numbered by NetBSD and OpenBSD. -/
  | ipv6Bsd
  /-- IPv6 as numbered by FreeBSD. -/
  | ipv6FreeBsd
  /-- IPv6 as numbered by Darwin. -/
  | ipv6Darwin
  | unknown (number : UInt32)
  deriving DecidableEq, Ord, Repr

namespace ProtocolFamily

instance : Inhabited ProtocolFamily := ⟨.unknown 0⟩

def ofNumber (n : UInt32) : ProtocolFamily :=
  match n with
  | 2 => .ipv4
  | 24 => .ipv6Bsd
  | 28 => .ipv6FreeBsd
  | 30 => .ipv6Darwin
  | n => .unknown n

def number : ProtocolFamily → UInt32
  | .ipv4 => 2
  | .ipv6Bsd => 24
  | .ipv6FreeBsd => 28
  | .ipv6Darwin => 30
  | .unknown n => n

theorem number_ofNumber (n : UInt32) : (ofNumber n).number = n := by
  unfold ofNumber
  split <;> rfl

/-- The layer type that decodes packets of this family. -/
def layerType : ProtocolFamily → LayerType
  | .ipv4 => .ipv4
  | .ipv6Bsd | .ipv6FreeBsd | .ipv6Darwin => .ipv6
  | .unknown _ => .payload

def identifier : ProtocolFamily → String
  | .ipv4 => "Ipv4"
  | .ipv6Bsd => "Ipv6Bsd"
  | .ipv6FreeBsd => "Ipv6FreeBsd"
  | .ipv6Darwin => "Ipv6Darwin"
  | .unknown n => s!"Unknown({n.toNat})"

instance : WireCode ProtocolFamily where
  ofNat n := ofNumber (UInt32.ofNat n)
  unnamed n := .unknown (UInt32.ofNat n)
  toNat code := code.number.toNat
  identifier := identifier

end ProtocolFamily

/-- A loopback header. -/
structure Loopback where
  extent : Extent
  family : ProtocolFamily
  deriving DecidableEq, Repr

namespace Loopback

/-- The octets of a loopback header. -/
def headerLength : Nat := 4

/-- A header of the given family. -/
def ofFamily (family : ProtocolFamily) : Loopback := ⟨.empty, family⟩

/-- A header of family zero. -/
def fresh : Loopback := ofFamily (.unknown 0)

instance : Inhabited Loopback := ⟨fresh⟩

/-- The family number at the start of a header, its byte order guessed. -/
def familyNumber (data : Octets) : UInt32 :=
  if octetAt data 0 = 0 ∧ octetAt data 1 = 0 then be32At data 0 else le32At data 0

def decode (old : Loopback) (data : Octets) : Decoding Loopback :=
  if data.length < headerLength then
    .reject old (.truncated .loopback headerLength data.length)
  else
    .accept ⟨.split headerLength data.length, .ofNumber (familyNumber data)⟩

def next (l : Loopback) : LayerType := l.family.layerType

def serialize (l : Loopback) (_ : SerializeOptions) (_ : Octets) : Serialization Loopback :=
  .write l (le32 l.family.number)

end Loopback

end PacketLayers
