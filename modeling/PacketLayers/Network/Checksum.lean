import PacketLayers.Address
import PacketLayers.Layer
import PacketLayers.Network.IpProtocol

/-! # Internet checksums

The ones' complement sum of the big-endian 16-bit words of a string, in the sense of RFC 1071, taken
in a 32-bit accumulator whose carries are folded back at the end.  Every addition to the accumulator
is checked: a string has no checksum where the sum of its words does not fit.  Transport checksums
also cover a pseudo header with the addresses of the enclosing IP header.
-/

namespace PacketLayers

/-- An address of either IP version. -/
inductive IpAddress where
  | v4 (address : Ipv4Address)
  | v6 (address : Ipv6Address)
  deriving DecidableEq, Repr, Inhabited

/-- The text of the address. -/
def IpAddress.text : IpAddress → String
  | .v4 address => address.text
  | .v6 address => address.text

/-- The addresses of the enclosing IP header. -/
structure PseudoHeader where
  source : IpAddress
  destination : IpAddress
  deriving DecidableEq, Repr, Inhabited

namespace Checksum

/-- The least sum that a 32-bit accumulator cannot hold. -/
def capacity : Nat := 4294967296

/-- Why there is no checksum. -/
inductive Failure where
  /-- The addresses are of different versions. -/
  | mixedFamilies
  /-- A sum does not fit the accumulator. -/
  | overflow
  deriving DecidableEq, Repr, Inhabited

/-- What a layer reports where there is no checksum. -/
def Failure.forLayer (layer : LayerType) : Failure → SerializeFailure
  | .mixedFamilies => .refused (.invalidField layer "mixed address families")
  | .overflow => .overflow

/-- The sum of two 32-bit words, unless it leaves the 32 bits. -/
def checkedAdd (sum word : UInt32) : Option UInt32 :=
  if sum.toNat + word.toNat < capacity then some (sum + word) else none

/-- The sum of 32-bit words, unless it leaves the 32 bits. -/
def checkedSum (words : List UInt32) : Option UInt32 := words.foldlM checkedAdd 0

/-- Add the big-endian words of a string to a 32-bit sum; an odd last octet is padded with zero. -/
def accumulate (sum : UInt32) : Octets → Option UInt32
  | [] => some sum
  | [a] => checkedAdd sum (UInt32.ofNat (a.toNat * 256))
  | a :: b :: rest =>
    match checkedAdd sum (UInt32.ofNat (a.toNat * 256 + b.toNat)) with
    | none => none
    | some sum => accumulate sum rest

/-- Add the high half of a sum to its low half, twice. -/
def foldCarries (sum : UInt32) : UInt16 :=
  let once := sum.toNat / 65536 + sum.toNat % 65536
  UInt16.ofNat (once / 65536 + once % 65536)

/-- The checksum of a string, not complemented. -/
def ofOctets (data : Octets) : Option UInt16 := (accumulate 0 data).map foldCarries

/-- The checksum of several parts from the checksums of each. -/
def combine (parts : List UInt16) : Option UInt16 :=
  (checkedSum (parts.map UInt16.toUInt32)).map foldCarries

/-- The ones' complement of a word. -/
def complement (w : UInt16) : UInt16 := UInt16.ofNat (0xffff - w.toNat)

/-- A sum that was taken, or the failure of there being none. -/
def orOverflow : Option UInt16 → Except Failure UInt16
  | some sum => .ok sum
  | none => .error .overflow

/-- The octets of protocol and segment length in a pseudo header. -/
def pseudoTail (header : PseudoHeader) (protocol : IpProtocol) (length : Nat) : Option Octets :=
  match header.source, header.destination with
  | .v4 _, .v4 _ => some ([0, protocol.number] ++ be16 (UInt16.ofNat length))
  | .v6 _, .v6 _ => some (be32 (UInt32.ofNat length) ++ [0, 0, 0, protocol.number])
  | _, _ => none

/-- The octets of an address. -/
def addressOctets : IpAddress → Octets
  | .v4 address => address.toOctets
  | .v6 address => address.toOctets

/-- The checksum of a pseudo header; there is none for addresses of different versions. -/
def pseudoHeader (header : PseudoHeader) (protocol : IpProtocol) (length : Nat) :
    Except Failure UInt16 :=
  match pseudoTail header protocol length with
  | none => .error .mixedFamilies
  | some tail => orOverflow do
    combine [← ofOctets (addressOctets header.source),
      ← ofOctets (addressOctets header.destination), ← ofOctets tail]

/-- The checksum of a transport segment and its pseudo header.  A sum of zero is sent as all ones,
since zero stands for an absent checksum. -/
def transport (header : PseudoHeader) (protocol : IpProtocol) (segment : Octets) :
    Except Failure UInt16 := do
  let pseudo ← pseudoHeader header protocol segment.length
  let sum ← orOverflow do combine [pseudo, ← ofOctets segment]
  return if complement sum = 0 then 0xffff else complement sum

/-- The checksum that a transport header carries: computed where that is asked for and the addresses
are known, and the stored one otherwise.  The segment holds zero in its checksum field. -/
def forHeader (layer : LayerType) (protocol : IpProtocol) (options : SerializeOptions)
    (network : Option PseudoHeader) (stored : UInt16) (segment : Octets) :
    Except SerializeFailure UInt16 :=
  match options.computeChecksums, network with
  | true, some addresses =>
    (transport addresses protocol segment).mapError (·.forLayer layer)
  | _, _ => .ok stored

end Checksum

end PacketLayers
