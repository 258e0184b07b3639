import PacketLayers.EndpointType

/-! # Endpoints

An endpoint is a typed address of at most sixteen octets.  Endpoints are ordered by the number of
their type and then lexicographically by their octets.  Their hash folds the octets into the eight
byte lanes of a 64-bit word; the type does not enter it.
-/

namespace PacketLayers

/-- The largest number of octets in a raw address, enough for an IPv6 address. -/
def maxAddressLength : Nat := 16

/-- The octets of an address. -/
structure RawAddress where
  octets : Octets
  length_le : octets.length ≤ maxAddressLength
  deriving DecidableEq, Repr

/-- Why an endpoint or a flow could not be made. -/
inductive ConstructionError where
  /-- The address has more octets than an endpoint holds. -/
  | addressTooLong (length : Nat)
  /-- The two ends of a flow have different types. -/
  | endpointTypeMismatch (src dst : EndpointType)
  deriving DecidableEq, Repr, Inhabited

def ConstructionError.identifier : ConstructionError → String
  | .addressTooLong _ => "AddressTooLong"
  | .endpointTypeMismatch .. => "EndpointTypeMismatch"

/-- The text of a construction error; endpoint types are shown as the registry names them. -/
def ConstructionError.message (registry : Registry) : ConstructionError → String
  | .addressTooLong length =>
    s!"raw byte length {length} greater than {maxAddressLength}"
  | .endpointTypeMismatch src dst =>
    s!"mismatched endpoint types: {registry.typeText src}->{registry.typeText dst}"

namespace RawAddress

def empty : RawAddress := ⟨[], by decide⟩

instance : Inhabited RawAddress := ⟨empty⟩

/-- The address with the given octets, unless they are too many. -/
def ofOctets (octets : Octets) : Except ConstructionError RawAddress :=
  if h : octets.length ≤ maxAddressLength then .ok ⟨octets, h⟩
  else .error (.addressTooLong octets.length)

/-- A block of fixed size as an address. -/
def ofVector {n : Nat} (v : Vector UInt8 n) (h : n ≤ maxAddressLength) : RawAddress :=
  ⟨v.toList, by simpa using h⟩

/-- A big-endian port number as an address. -/
def ofPort (port : UInt16) : RawAddress := ⟨be16 port, by simp [maxAddressLength]⟩

end RawAddress

/-- Octet strings in lexicographic order, a proper beginning first. -/
def compareOctets : Octets → Octets → Ordering
  | [], [] => .eq
  | [], _ :: _ => .lt
  | _ :: _, [] => .gt
  | a :: as, b :: bs => (compare a b).then (compareOctets as bs)

/-- A typed network address. -/
structure Endpoint where
  kind : EndpointType
  address : RawAddress
  deriving DecidableEq, Repr, Inhabited

namespace Endpoint

/-- The endpoint of the invalid type without octets. -/
def invalid : Endpoint := ⟨.invalid, .empty⟩

/-- An endpoint of a type with the given raw octets. -/
def make (kind : EndpointType) (raw : Octets) : Except ConstructionError Endpoint :=
  (RawAddress.ofOctets raw).map (⟨kind, ·⟩)

/-- The raw octets of the address. -/
def raw (e : Endpoint) : Octets := e.address.octets

/-- Order by type number, then by octets. -/
protected def compare (a b : Endpoint) : Ordering :=
  (compare a.kind.number b.kind.number).then (compareOctets a.raw b.raw)

instance : Ord Endpoint := ⟨Endpoint.compare⟩

def lessThan (a b : Endpoint) : Bool := (compare a b).isLT

/-- Octet `i` shifted into lane `i mod 8`, all combined by exclusive or. -/
def foldLanes (raw : Octets) : UInt64 :=
  raw.zipIdx.foldl
    (fun hash entry => hash ^^^ (entry.1.toUInt64 <<< UInt64.ofNat (8 * (entry.2 % 8)))) 0

/-- A cheap hash of the raw octets. -/
def fastHash (e : Endpoint) : UInt64 := foldLanes e.raw

/-- The type number and the raw octets, shown independently of any registry. -/
def inspect (e : Endpoint) : String :=
  "Endpoint \x7b typ: " ++ e.kind.inspect ++ ", raw: " ++ listText e.raw ++ " \x7d"

/-- The address as the registry renders it. -/
def text (registry : Registry) (e : Endpoint) : String := registry.render e.kind e.raw

end Endpoint

end PacketLayers
