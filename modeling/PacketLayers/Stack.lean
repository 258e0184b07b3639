import PacketLayers.Buffer
import PacketLayers.Layer

/-! # Serializing a stack of layers

A stack is written innermost first, so that each layer wraps its complete payload.  The layers come
back with the lengths and checksums that were stored.  When one of them cannot be written, the layers
outside of it are left as they were.
-/

namespace PacketLayers

/-- What serializing a stack of layers leaves behind. -/
structure StackWriting (L : Type) where
  layers : List L
  outcome : Except SerializeFailure Buffer

/-- The outcome as a string of octets. -/
def StackWriting.octets {L : Type} (s : StackWriting L) : Except SerializeFailure Octets :=
  s.outcome.map Buffer.octets

/-- Put the header and the trailer of a layer around the octets of its payload. -/
def Buffer.wrap (b : Buffer) (w : Wrapping) : Buffer := (b.prepend w.header).append w.trailer

/-- Write a stack of layers, outermost first, into an empty buffer. -/
def serializeStack {L : Type} [Layer L] (options : SerializeOptions) : List L → StackWriting L
  | [] => ⟨[], .ok .empty⟩
  | outer :: inner =>
    let below := serializeStack options inner
    match below.outcome with
    | .error failure => ⟨outer :: below.layers, .error failure⟩
    | .ok buffer =>
      let written := Layer.serialize outer options buffer.octets
      ⟨written.layer :: below.layers, written.outcome.map buffer.wrap⟩

end PacketLayers
