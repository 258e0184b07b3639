import PacketLayers.DecoderTable
import PacketLayers.Payload

/-! # Packets

A packet starts at a declared root type and hands the octets left to the decoder of the type that the
previous layer names, until a layer has no payload or a decoder fails.  A failure discards nothing: a
final `DecodeFailure` record covers the octets that the failing decoder was given.

The pipeline does not trust a decoder.  A layer is kept only if its ranges lie in order inside its
input and its payload is shorter than its input (`Extent.defect?`), so each input is shorter than the
one before and the pipeline ends (`Packet.decodeNext_decreases`).

Accessors decode as far as their answer needs and return the packet as it is then.
-/

namespace PacketLayers

/-- A layer of a packet: one that was decoded, or the record of a failure. -/
inductive PacketLayer (L : Type) where
  | decoded (layer : L)
  | failure (record : DecodeFailure)
  deriving DecidableEq, Repr

namespace PacketLayer

variable {L : Type}

/-- The record of a failure, if the layer is one. -/
def failure? : PacketLayer L → Option DecodeFailure
  | .decoded _ => none
  | .failure record => some record

/-- The decoded layer, if there is one. -/
def decoded? : PacketLayer L → Option L
  | .decoded layer => some layer
  | .failure _ => none

instance [Layer L] : Layer (PacketLayer L) where
  layerType
    | .decoded layer => Layer.layerType layer
    | .failure _ => .decodeFailure
  decode layer data :=
    match layer with
    | .decoded layer => (Layer.decode layer data).map .decoded
    | .failure record => (record.decode data).map .failure
  extent
    | .decoded layer => Layer.extent layer
    | .failure record => record.extent
  next
    | .decoded layer => Layer.next layer
    | .failure _ => .payload
  flow
    | .decoded layer => Layer.flow layer
    | .failure _ => none
  serialize layer options inner :=
    match layer with
    | .decoded layer => (Layer.serialize layer options inner).map .decoded
    | .failure record => (record.serialize options inner).map .failure

end PacketLayer

namespace Span

/-- The number of positions in a range. -/
def length (s : Span) : Nat := s.stop - s.start

end Span

namespace Extent

/-- Whether contents and payload lie in order inside an input of the given length. -/
def isOrdered (e : Extent) (length : Nat) : Bool :=
  e.contents.start ≤ e.contents.stop && e.contents.stop ≤ e.payload.start &&
    e.payload.start ≤ e.payload.stop && e.payload.stop ≤ length

/-- What makes an extent unacceptable for an input of the given length, if anything does. -/
def defect? (e : Extent) (length : Nat) : Option String :=
  if ¬ e.isOrdered length then
    some "layer ranges outside of its data"
  else if e.payload.length ≠ 0 ∧ e.payload.length = length then
    some "layer consumed no data"
  else
    none

/-- An acceptable payload that is not empty is shorter than the input. -/
theorem payload_length_lt_of_defect?_eq_none {e : Extent} {length : Nat}
    (h : e.defect? length = none) (hpos : e.payload.length ≠ 0) : e.payload.length < length := by
  unfold defect? at h
  split at h
  · simp at h
  · next hordered =>
    split at h
    · simp at h
    · next hshort =>
      simp only [isOrdered, Bool.and_eq_true, decide_eq_true_eq, Decidable.not_not] at hordered
      simp only [Span.length] at *
      omega

end Extent

/-- How far the pipeline has come. -/
inductive PacketState where
  /-- The octets from `offset` up to `stop` are left for a decoder of type `next`. -/
  | pending (offset stop : Nat) (next : LayerType)
  | done
  /-- A decoder failed; its record is the layer at `index`. -/
  | failed (index : Nat) (error : DecodeError)
  deriving DecidableEq, Repr, Inhabited

/-- A layer with the position of its input in the octets of the packet. -/
structure PlacedLayer (L : Type) where
  layer : PacketLayer L
  offset : Nat
  deriving DecidableEq, Repr

/-- Octets with the layers decoded from them so far. -/
structure Packet (L : Type) where
  data : Octets
  layers : List (PlacedLayer L)
  state : PacketState
  truncated : Bool
  options : DecodeOptions
  decoders : DecoderTable L

namespace Packet

variable {L : Type} [Layer L]

/-! ## The pipeline -/

/-- Decode one layer from its input: the layer or why there is none, and whether truncation was
signalled. -/
def attempt (decoders : DecoderTable L) (options : DecodeOptions) (next : LayerType)
    (input : Octets) : Except DecodeError L × Bool :=
  match decoders.create next options with
  | none => (.error (.unsupported next), false)
  | some fresh =>
    let decoding := Layer.decode fresh input
    let outcome : Except DecodeError L :=
      match decoding.error with
      | some error => .error error
      | none =>
        match (Layer.extent decoding.layer).defect? input.length with
        | some reason => .error (.malformed (Layer.layerType decoding.layer) reason)
        | none => .ok decoding.layer
    (outcome, decoding.truncated)

/-- The state behind an accepted layer whose input starts at an offset. -/
def stateBehind (offset : Nat) (layer : L) : PacketState :=
  let payload := (Layer.extent layer).payload
  if payload.length = 0 then .done
  else .pending (offset + payload.start) (offset + payload.stop) (Layer.next layer)

/-- Decode one more layer, unless the pipeline has come to its end. -/
def decodeNext (p : Packet L) : Option (Packet L) :=
  match p.state with
  | .pending offset stop next =>
    let input := slice p.data offset stop
    let attempted := attempt p.decoders p.options next input
    let truncated := p.truncated || attempted.2
    match attempted.1 with
    | .ok layer =>
      some
        { p with
          layers := p.layers ++ [⟨.decoded layer, offset⟩]
          state := stateBehind offset layer
          truncated := truncated }
    | .error error =>
      some
        { p with
          layers := p.layers ++ [⟨.failure (.record next error input.length), offset⟩]
          state := .failed p.layers.length error
          truncated := truncated }
  | .done | .failed .. => none

/-- A bound on the number of layers still to come. -/
def stepsLeft (p : Packet L) : Nat :=
  match p.state with
  | .pending offset stop _ => stop - offset + 1
  | .done | .failed .. => 0

/-- A layer that was accepted has no defect. -/
theorem defect?_eq_none_of_attempt {decoders : DecoderTable L} {options : DecodeOptions}
    {next : LayerType} {input : Octets} {layer : L}
    (h : (attempt decoders options next input).1 = .ok layer) :
    (Layer.extent layer).defect? input.length = none := by
  unfold attempt at h
  split at h
  · simp at h
  · simp only at h
    split at h
    · simp at h
    · split at h
      · simp at h
      · next hdefect =>
        simp only [Except.ok.injEq] at h
        rw [← h]
        exact hdefect

/-- Every step uses up one of the steps left. -/
theorem decodeNext_decreases {p q : Packet L} (h : p.decodeNext = some q) :
    q.stepsLeft < p.stepsLeft := by
  unfold decodeNext at h
  split at h
  · next offset stop next hstate =>
    simp only at h
    have hinput : (slice p.data offset stop).length ≤ stop - offset := by
      simp only [slice, List.length_take]
      omega
    split at h
    · next layer hok =>
      simp only [Option.some.injEq] at h
      subst h
      have hdefect := defect?_eq_none_of_attempt hok
      simp only [stepsLeft, hstate, stateBehind]
      split
      · next hpending =>
        split at hpending
        · simp at hpending
        · next hpos =>
          have hlt := Extent.payload_length_lt_of_defect?_eq_none hdefect hpos
          simp only [PacketState.pending.injEq] at hpending
          simp only [Span.length] at hlt
          omega
      · omega
      · omega
    · simp only [Option.some.injEq] at h
      subst h
      simp [stepsLeft, hstate]
  · simp at h
  · simp at h

/-- Decode layers until there are enough, or the pipeline has come to its end. -/
def decodeUntil (enough : Packet L → Bool) (p : Packet L) : Packet L :=
  if enough p then
    p
  else
    match _step : p.decodeNext with
    | none => p
    | some q => decodeUntil enough q
  termination_by p.stepsLeft
  decreasing_by exact decodeNext_decreases _step

def decodeAll (p : Packet L) : Packet L := p.decodeUntil fun _ => false

/-- The packet of some octets in front of its first layer. -/
def start (data : Octets) (root : LayerType) (options : DecodeOptions)
    (decoders : DecoderTable L) : Packet L :=
  { data := data
    layers := []
    state := .pending 0 data.length root
    truncated := false
    options := options
    decoders := decoders }

/-- The packet of some octets that start with a layer of type `root`; lazy options leave its layers
for later. -/
def make (data : Octets) (root : LayerType) (options : DecodeOptions)
    (decoders : DecoderTable L) : Packet L :=
  let p := start data root options decoders
  if options.lazy then p else p.decodeAll

/-! ## Octets of a layer -/

/-- The header octets of a layer of the packet. -/
def contents (p : Packet L) (placed : PlacedLayer L) : Octets :=
  let span := (Layer.extent placed.layer).contents
  slice p.data (placed.offset + span.start) (placed.offset + span.stop)

/-- The octets that a layer of the packet carries for the next one. -/
def payload (p : Packet L) (placed : PlacedLayer L) : Octets :=
  let span := (Layer.extent placed.layer).payload
  slice p.data (placed.offset + span.start) (placed.offset + span.stop)

/-! ## Accessors -/

/-- The same packet, independent of the octets it was made from. -/
def detach (p : Packet L) : Packet L := p

/-- All layers, a final failure included. -/
def allLayers (p : Packet L) : List (PlacedLayer L) × Packet L :=
  let q := p.decodeAll
  (q.layers, q)

/-- The types of all layers, in order. -/
def layerTypes (p : Packet L) : List LayerType × Packet L :=
  let q := p.decodeAll
  (q.layers.map fun placed => Layer.layerType placed.layer, q)

/-- The layer at an index. -/
def layerAt (p : Packet L) (index : Nat) : Option (PlacedLayer L) × Packet L :=
  let q := p.decodeUntil fun r => index < r.layers.length
  (q.layers[index]?, q)

/-- The first layer that a test accepts. -/
def find (p : Packet L) (test : PacketLayer L → Bool) : Option (PlacedLayer L) × Packet L :=
  let q := p.decodeUntil fun r => r.layers.any fun placed => test placed.layer
  (q.layers.find? fun placed => test placed.layer, q)

/-- The first layer of a type. -/
def layerOfType (p : Packet L) (layerType : LayerType) : Option (PlacedLayer L) × Packet L :=
  p.find fun layer => Layer.layerType layer == layerType

/-- The first layer that a projection accepts, projected. -/
def layerAs {A : Type} (p : Packet L) (project : PacketLayer L → Option A) : Option A × Packet L :=
  let found := p.find fun layer => (project layer).isSome
  (found.1.bind fun placed => project placed.layer, found.2)

/-- The record of the failure that ended decoding, if one did. -/
def failure (p : Packet L) : Option DecodeFailure × Packet L :=
  let q := p.decodeAll
  let found :=
    match q.state with
    | .failed index _ => q.layers[index]?.bind (·.layer.failure?)
    | .pending .. | .done => none
  (found, q)

/-- Whether the data of any layer was cut short. -/
def isTruncated (p : Packet L) : Bool × Packet L :=
  let q := p.decodeAll
  (q.truncated, q)

/-- The flow of the first layer of a class. -/
def classFlow (p : Packet L) (layerClass : LayerClass) : Option Flow × Packet L :=
  let found := p.find fun layer => (Layer.layerType layer).layerClass == layerClass
  (found.1.bind fun placed => Layer.flow placed.layer, found.2)

/-- The flow of the first link layer. -/
def linkFlow (p : Packet L) : Option Flow × Packet L := p.classFlow .link

/-- The flow of the first network layer. -/
def networkFlow (p : Packet L) : Option Flow × Packet L := p.classFlow .network

/-- The flow of the first transport layer. -/
def transportFlow (p : Packet L) : Option Flow × Packet L := p.classFlow .transport

end Packet

end PacketLayers
