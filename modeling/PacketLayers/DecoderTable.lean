import PacketLayers.Layer

/-! # Decoder tables

A table maps layer types to factories of fresh decoders.  Its entries are kept in the order of the
layer types, and registering a type again replaces its factory.
-/

namespace PacketLayers

/-- How a packet decodes its octets. -/
structure DecodeOptions where
  /-- Decode layers only when an answer needs them. -/
  lazy : Bool
  /-- Share the input instead of copying it; values are never changed in place, so answers are the
  same either way. -/
  noCopy : Bool
  streamsAsDatagrams : Bool
  deriving DecidableEq, Repr, Inhabited

namespace DecodeOptions

/-- Eager decoding of a shared input. -/
def standard : DecodeOptions := ⟨false, true, false⟩

/-- Lazy decoding of a shared input. -/
def onDemand : DecodeOptions := { standard with lazy := true }

/-- Eager decoding of a copy of the input. -/
def copying : DecodeOptions := { standard with noCopy := false }

end DecodeOptions

/-- Makes a fresh decoder. -/
abbrev DecoderFactory (L : Type) := DecodeOptions → L

/-- The decoders that a packet consults for each layer type, in the order of the types. -/
structure DecoderTable (L : Type) where
  entries : List (LayerType × DecoderFactory L)

namespace DecoderTable

variable {L : Type}

def empty : DecoderTable L := ⟨[]⟩

/-- Insert an entry at its place, or replace the one of the same type. -/
def insertEntry (layerType : LayerType) (factory : DecoderFactory L) :
    List (LayerType × DecoderFactory L) → List (LayerType × DecoderFactory L)
  | [] => [(layerType, factory)]
  | entry :: entries =>
    match compare layerType entry.1 with
    | .lt => (layerType, factory) :: entry :: entries
    | .eq => (layerType, factory) :: entries
    | .gt => entry :: insertEntry layerType factory entries

/-- Whether there is a decoder for a layer type. -/
def contains (table : DecoderTable L) (layerType : LayerType) : Bool :=
  (table.entries.lookup layerType).isSome

/-- The table with the decoder of a layer type set. -/
def register (table : DecoderTable L) (layerType : LayerType) (factory : DecoderFactory L) :
    DecoderTable L :=
  ⟨insertEntry layerType factory table.entries⟩

/-- A fresh decoder for a layer type. -/
def create (table : DecoderTable L) (layerType : LayerType) (options : DecodeOptions) : Option L :=
  (table.entries.lookup layerType).map fun factory => factory options

/-- The same decoders, their layers seen as layers of another type. -/
def map {M : Type} (f : L → M) (table : DecoderTable L) : DecoderTable M :=
  ⟨table.entries.map fun entry => (entry.1, fun options => f (entry.2 options))⟩

/-- The registered types in braces, in order. -/
def text (table : DecoderTable L) : String :=
  "\x7b" ++ ", ".intercalate (table.entries.map (·.1.identifier)) ++ "\x7d"

end DecoderTable

end PacketLayers
