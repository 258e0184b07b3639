import PacketLayers.LayerType
import PacketLayers.Octets

/-! # Errors of decoding and serializing

Each error is a value that names its cause; `message` is the one place where it becomes a text.
Missing input is kept apart from inconsistent input: only the former is a `DecodeError.truncated`.

A layer that cannot be written is refused with an error.  Beside that, arithmetic in words of the
machine is checked: where a sum does not fit its word, writing stops and there is no error to return
(`SerializeFailure.overflow`).
-/

namespace PacketLayers

/-- Why a possibly compressed domain name could not be read. -/
inductive NameError where
  /-- The name would start at or behind the end of the message. -/
  | offsetTooHigh (offset length : Nat)
  /-- A label reaches beyond the end of the message; `index` is the position of its length. -/
  | invalidIndex (index : Nat)
  /-- A compression pointer is incomplete or leaves the message. -/
  | pointerTooHigh (position : Nat)
  /-- A compression pointer does not point strictly backwards. -/
  | pointerLoop (position target : Nat)
  /-- The message ended before the root label. -/
  | indexOutOfRange
  /-- The name has more than 255 octets. -/
  | nameTooLong
  /-- An announced record is missing, or a pointer led to no labels. -/
  | noData
  /-- A label starts with one of the two reserved bit patterns. -/
  | unsupportedLabel (bits : UInt8)
  deriving DecidableEq, Repr, Inhabited

namespace NameError

def identifier : NameError → String
  | .offsetTooHigh .. => "OffsetTooHigh"
  | .invalidIndex _ => "InvalidIndex"
  | .pointerTooHigh _ => "PointerTooHigh"
  | .pointerLoop .. => "PointerLoop"
  | .indexOutOfRange => "IndexOutOfRange"
  | .nameTooLong => "NameTooLong"
  | .noData => "NoData"
  | .unsupportedLabel _ => "UnsupportedLabel"

/-- The text of a name error. -/
def message : NameError → String
  | .offsetTooHigh offset length => s!"dns name offset too high: {offset} >= {length}"
  | .invalidIndex index => s!"dns name uncomputable: invalid index {index}"
  | .pointerTooHigh position => s!"dns offset pointer too high at {position}"
  | .pointerLoop position target =>
    s!"dns compression pointer at {position} does not point backwards to {target}"
  | .indexOutOfRange => "dns index walked out of range"
  | .nameTooLong => "dns name is too long"
  | .noData => "no dns data found for name"
  | .unsupportedLabel bits => s!"dns label type 0x{hexOctet bits} unsupported"

end NameError

/-- Why a layer could not be decoded. -/
inductive DecodeError where
  /-- The input ended before a field that the layer requires. -/
  | truncated (layer : LayerType) (needed available : Nat)
  /-- A field holds a value that makes the rest of the layer uninterpretable. -/
  | malformed (layer : LayerType) (reason : String)
  /-- No decoder is registered for the layer type. -/
  | unsupported (layer : LayerType)
  /-- A domain name could not be read. -/
  | name (error : NameError)
  deriving DecidableEq, Repr, Inhabited

namespace DecodeError

def identifier : DecodeError → String
  | .truncated .. => "Truncated"
  | .malformed .. => "Malformed"
  | .unsupported _ => "Unsupported"
  | .name error => error.identifier

/-- The text of a decoding error. -/
def message : DecodeError → String
  | .truncated layer needed available =>
    s!"{layer.text} truncated: needed {needed} octets, {available} available"
  | .malformed layer reason => s!"malformed {layer.text}: {reason}"
  | .unsupported layer => s!"no decoder for layer type {layer.text}"
  | .name error => error.message

def isTruncated : DecodeError → Bool
  | .truncated .. => true
  | _ => false

end DecodeError

/-- Why a layer could not be written. -/
inductive SerializeError where
  /-- The layer type can only be decoded. -/
  | unsupportedLayer (layer : LayerType)
  /-- A length or count field cannot hold the actual value. -/
  | lengthFixupFailed (layer : LayerType) (reason : String)
  /-- A field value has no form on the wire. -/
  | invalidField (layer : LayerType) (reason : String)
  deriving DecidableEq, Repr, Inhabited

namespace SerializeError

def identifier : SerializeError → String
  | .unsupportedLayer _ => "UnsupportedLayer"
  | .lengthFixupFailed .. => "LengthFixupFailed"
  | .invalidField .. => "InvalidField"

/-- The text of a serialization error. -/
def message : SerializeError → String
  | .unsupportedLayer layer => s!"serialization of {layer.text} is not supported"
  | .lengthFixupFailed layer reason => s!"cannot fix {layer.text} lengths: {reason}"
  | .invalidField layer reason => s!"invalid {layer.text} field: {reason}"

end SerializeError

/-- Why nothing was written. -/
inductive SerializeFailure where
  /-- The layer was refused with an error. -/
  | refused (error : SerializeError)
  /-- A sum left the width of its word; the program stops, and no error reaches a caller. -/
  | overflow
  deriving DecidableEq, Repr, Inhabited

end PacketLayers
