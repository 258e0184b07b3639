import PacketLayers.Layer

/-! # Layers without protocol structure

`Payload` holds the octets at the end of a packet.  `DecodeFailure` records where and why decoding
stopped; its contents are all the octets that the failing decoder was given.
-/

namespace PacketLayers

/-- Plain octets at the end of a packet. -/
structure Payload where
  extent : Extent
  data : Octets
  deriving DecidableEq, Repr, Inhabited

namespace Payload

/-- A payload that writes the given octets. -/
def ofOctets (data : Octets) : Payload := ⟨.empty, data⟩

def fresh : Payload := ofOctets []

def decode (_ : Payload) (data : Octets) : Decoding Payload := .accept ⟨.whole data.length, data⟩

def serialize (p : Payload) (_ : SerializeOptions) (_ : Octets) : Serialization Payload :=
  .write p p.data

end Payload

/-- The record of the error that stopped the decoding of a packet. -/
structure DecodeFailure where
  extent : Extent
  /-- The layer type whose decoder failed. -/
  failed : LayerType
  cause : DecodeError
  deriving DecidableEq, Repr, Inhabited

namespace DecodeFailure

/-- The record of a decoder that failed on an input of the given length. -/
def record (failed : LayerType) (cause : DecodeError) (length : Nat) : DecodeFailure :=
  ⟨.whole length, failed, cause⟩

/-- Cover all octets; the recorded error stays. -/
def decode (f : DecodeFailure) (data : Octets) : Decoding DecodeFailure :=
  .accept { f with extent := .whole data.length }

/-- A record has no form on the wire. -/
def serialize (f : DecodeFailure) (_ : SerializeOptions) (_ : Octets) :
    Serialization DecodeFailure :=
  .refuse f (.unsupportedLayer .decodeFailure)

end DecodeFailure

end PacketLayers
