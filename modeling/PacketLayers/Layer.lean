import PacketLayers.Error
import PacketLayers.Flow

/-! # The layer contract

A layer decodes one protocol header from the front of a string of octets.  It records which octets
were its own header (the contents) and which it carries for the next protocol (the payload), and it
names the layer type of the payload.  In the other direction it wraps the octets of its payload
into a header and, for padded links, a trailer.

Decoding and serializing are functions from a layer to a layer: a decoder may be reused, and what it
held before matters where decoding fails early; serializing stores fixed lengths and computed
checksums.
-/

namespace PacketLayers

/-- A range of positions, from `start` up to, not including, `stop`. -/
structure Span where
  start : Nat
  stop : Nat
  deriving DecidableEq, Repr, Inhabited

/-- Where the header and the payload of a layer lie in its input. -/
structure Extent where
  contents : Span
  payload : Span
  deriving DecidableEq, Repr, Inhabited

namespace Extent

/-- The extent of a layer that has not decoded anything. -/
def empty : Extent := ⟨⟨0, 0⟩, ⟨0, 0⟩⟩

/-- A header of the given length, followed by payload up to `stop`. -/
def split (headerLength stop : Nat) : Extent := ⟨⟨0, headerLength⟩, ⟨headerLength, stop⟩⟩

/-- A layer that takes all of its input and carries nothing. -/
def whole (length : Nat) : Extent := ⟨⟨0, length⟩, ⟨length, length⟩⟩

end Extent

/-- What one call of a decoder leaves behind. -/
structure Decoding (L : Type) where
  /-- The layer after the call, also after a failed one. -/
  layer : L
  /-- The error of a failed call. -/
  error : Option DecodeError
  /-- Whether the call signalled that the input ended before the data of the layer did. -/
  truncated : Bool
  deriving DecidableEq, Repr

namespace Decoding

variable {L M : Type}

/-- A successful call that saw all of the layer's data. -/
def accept (layer : L) : Decoding L := ⟨layer, none, false⟩

/-- A failed call; truncation is signalled exactly for errors of missing input. -/
def reject (layer : L) (error : DecodeError) : Decoding L := ⟨layer, some error, error.isTruncated⟩

/-- The same call seen through a function on layers. -/
def map (f : L → M) (d : Decoding L) : Decoding M := ⟨f d.layer, d.error, d.truncated⟩

end Decoding

/-- How derived fields are filled while serializing. -/
structure SerializeOptions where
  fixLengths : Bool
  /-- Compute checksums instead of writing the stored ones. -/
  computeChecksums : Bool
  deriving DecidableEq, Repr, Inhabited

/-- Fix lengths and compute checksums. -/
def SerializeOptions.fixAll : SerializeOptions := ⟨true, true⟩

/-- What a layer writes around the octets of its payload. -/
structure Wrapping where
  header : Octets
  trailer : Octets
  deriving DecidableEq, Repr, Inhabited

/-- What one call of an encoder leaves behind. -/
structure Serialization (L : Type) where
  /-- The layer with the lengths and checksums that were stored, also after a failed call. -/
  layer : L
  outcome : Except SerializeFailure Wrapping

namespace Serialization

variable {L M : Type}

/-- A call that wrote a header and no trailer. -/
def write (layer : L) (header : Octets) : Serialization L := ⟨layer, .ok ⟨header, []⟩⟩

/-- A call that wrote nothing. -/
def fail (layer : L) (failure : SerializeFailure) : Serialization L := ⟨layer, .error failure⟩

def refuse (layer : L) (error : SerializeError) : Serialization L :=
  ⟨layer, .error (.refused error)⟩

/-- The same call seen through a function on layers. -/
def map (f : L → M) (s : Serialization L) : Serialization M := ⟨f s.layer, s.outcome⟩

end Serialization

/-- What the packet pipeline and the stack encoder ask of a layer. -/
class Layer (L : Type) where
  /-- The type under which the layer is known. -/
  layerType : L → LayerType
  decode : L → Octets → Decoding L
  /-- Where header and payload of the last successful decoding lie. -/
  extent : L → Extent
  /-- The layer type that should decode the payload. -/
  next : L → LayerType
  /-- The addresses of link, network and transport layers. -/
  flow : L → Option Flow
  /-- Wrap the octets of the payload. -/
  serialize : L → SerializeOptions → Octets → Serialization L

/-- Layers of two kinds side by side. -/
instance {L M : Type} [Layer L] [Layer M] : Layer (L ⊕ M) where
  layerType
    | .inl l => Layer.layerType l
    | .inr m => Layer.layerType m
  decode layer data :=
    match layer with
    | .inl l => (Layer.decode l data).map .inl
    | .inr m => (Layer.decode m data).map .inr
  extent
    | .inl l => Layer.extent l
    | .inr m => Layer.extent m
  next
    | .inl l => Layer.next l
    | .inr m => Layer.next m
  flow
    | .inl l => Layer.flow l
    | .inr m => Layer.flow m
  serialize layer options inner :=
    match layer with
    | .inl l => (Layer.serialize l options inner).map .inl
    | .inr m => (Layer.serialize m options inner).map .inr

end PacketLayers
