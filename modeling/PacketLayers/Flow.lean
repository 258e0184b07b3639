import PacketLayers.Endpoint

/-! # Flows

A flow is an ordered pair of endpoints of one type.  Its hash is the same in both directions, which
keeps the two halves of a conversation together: the octets of either address are folded into the
even byte lanes of a word, the larger word stays, and the smaller one is added shifted by a lane.
-/

namespace PacketLayers

/-- A source and a destination address of one type. -/
structure Flow where
  kind : EndpointType
  source : RawAddress
  destination : RawAddress
  deriving DecidableEq, Repr, Inhabited

namespace Flow

/-- The flow of the invalid type between empty addresses. -/
def invalid : Flow := ⟨.invalid, .empty, .empty⟩

/-- A flow of a type between two raw addresses; the source is checked first. -/
def make (kind : EndpointType) (source destination : Octets) : Except ConstructionError Flow :=
  match RawAddress.ofOctets source, RawAddress.ofOctets destination with
  | .error e, _ => .error e
  | .ok _, .error e => .error e
  | .ok s, .ok d => .ok ⟨kind, s, d⟩

/-- A flow between two endpoints, which must have the same type. -/
def ofEndpoints (source destination : Endpoint) : Except ConstructionError Flow :=
  if source.kind = destination.kind then
    .ok ⟨source.kind, source.address, destination.address⟩
  else
    .error (.endpointTypeMismatch source.kind destination.kind)

/-- A flow between two addresses of one fixed size. -/
def ofVectors {n : Nat} (kind : EndpointType) (source destination : Vector UInt8 n)
    (h : n ≤ maxAddressLength) : Flow :=
  ⟨kind, .ofVector source h, .ofVector destination h⟩

/-- A flow between two ports. -/
def ofPorts (kind : EndpointType) (source destination : UInt16) : Flow :=
  ⟨kind, .ofPort source, .ofPort destination⟩

def src (f : Flow) : Endpoint := ⟨f.kind, f.source⟩

def dst (f : Flow) : Endpoint := ⟨f.kind, f.destination⟩

/-- The same flow in the opposite direction. -/
def reverse (f : Flow) : Flow := ⟨f.kind, f.destination, f.source⟩

@[simp] theorem reverse_reverse (f : Flow) : f.reverse.reverse = f := rfl

/-- Octet `i` counted from the end, shifted into 16-bit lane `i mod 4`, combined by exclusive or. -/
def foldReversed (raw : Octets) : UInt64 :=
  raw.reverse.zipIdx.foldl
    (fun hash entry => hash ^^^ (entry.1.toUInt64 <<< UInt64.ofNat (16 * (entry.2 % 4)))) 0

/-- A cheap hash that both directions of a flow share. -/
def fastHash (f : Flow) : UInt64 :=
  let a := foldReversed f.source.octets
  let b := foldReversed f.destination.octets
  if b < a then a + (b <<< 8) else b + (a <<< 8)

/-- Order by source, then by destination. -/
protected def compare (f g : Flow) : Ordering :=
  (compare f.src g.src).then (compare f.dst g.dst)

instance : Ord Flow := ⟨Flow.compare⟩

/-- The type number and the raw octets of both ends, shown independently of any registry. -/
def inspect (f : Flow) : String :=
  "Flow \x7b typ: " ++ f.kind.inspect ++ ", src: " ++ listText f.source.octets ++
    ", dst: " ++ listText f.destination.octets ++ " \x7d"

/-- The two addresses as the registry renders them, joined by an arrow. -/
def text (registry : Registry) (f : Flow) : String :=
  f.src.text registry ++ "->" ++ f.dst.text registry

end Flow

end PacketLayers
