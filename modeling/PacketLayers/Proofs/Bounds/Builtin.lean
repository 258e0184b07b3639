import PacketLayers.Builtin
import PacketLayers.Proofs.Bounds.Dns
import PacketLayers.Proofs.Bounds.Headers
import PacketLayers.Proofs.Bounds.Industrial
import PacketLayers.Proofs.Packet.Placement

/-!
# The built-in layers tile their packet

Every built-in decoder reads inside its input, and the input of one that succeeds
starts with its header and goes on with its payload.  The pipeline therefore
never refuses what a built-in decoder accepted, and the contents of the layers of
a packet, put one behind the other, are the octets that the packet starts with.

`Packet.Tiles` says that contents lie one behind the other, and `Packet.Tiled` is
what a run preserves for every table whose decoders split their input.  The main
statement is `builtin_layers_tile`.
-/

namespace PacketLayers

variable {data : Octets}

/-! ## Every built-in decoder -/

namespace Extent

/-- The pipeline accepts a header at the start of the input with the payload
right behind it. -/
theorem Splits.defect?_eq_none {e : Extent} {length : Nat} (h : e.Splits length) :
    e.defect? length = none := by
  obtain ⟨hstart, hmeet, hpayload, hstop, hheader⟩ := h
  refine Extent.defect?_eq_none_iff.mpr ⟨by omega, ?_⟩
  by_cases hempty : e.payload.start < e.payload.stop
  · have hconsumed := hheader hempty
    simp only [Span.length]
    omega
  · simp only [Span.length]
    omega

end Extent

namespace BuiltinLayer

/-- Decode into a layer object of the same protocol with checked readers. -/
def decode? (layer : BuiltinLayer) (data : Octets) : Option (Decoding BuiltinLayer) :=
  match layer with
  | .payload l => some ((l.decode data).map .payload)
  | .ethernet l => (l.decode? data).map fun d => d.map .ethernet
  | .loopback l => (l.decode? data).map fun d => d.map .loopback
  | .ipv4 l => (l.decode? data).map fun d => d.map .ipv4
  | .ipv6 l => (l.decode? data).map fun d => d.map .ipv6
  | .icmpv6 l => (l.decode? data).map fun d => d.map .icmpv6
  | .routerSolicitation l => (l.decode? data).map fun d => d.map .routerSolicitation
  | .routerAdvertisement l => (l.decode? data).map fun d => d.map .routerAdvertisement
  | .neighborSolicitation l => (l.decode? data).map fun d => d.map .neighborSolicitation
  | .neighborAdvertisement l => (l.decode? data).map fun d => d.map .neighborAdvertisement
  | .redirect l => (l.decode? data).map fun d => d.map .redirect
  | .tcp l => (l.decode? data).map fun d => d.map .tcp
  | .udp l => (l.decode? data).map fun d => d.map .udp
  | .dns l => (l.decode? data).map fun d => d.map .dns
  | .enip l => (l.decode? data).map fun d => d.map .enip
  | .cip l => (l.decode? data).map fun d => d.map .cip

/-- No built-in decoder reads outside of its input, whatever its layer object
held before. -/
theorem decode?_eq (layer : BuiltinLayer) (data : Octets) :
    layer.decode? data = some (layer.decode data) := by
  cases layer with
  | payload l => rfl
  | ethernet l => simp only [decode?, decode, Ethernet.decode?_eq, Option.map_some]
  | loopback l => simp only [decode?, decode, Loopback.decode?_eq, Option.map_some]
  | ipv4 l => simp only [decode?, decode, Ipv4.decode?_eq, Option.map_some]
  | ipv6 l => simp only [decode?, decode, Ipv6.decode?_eq, Option.map_some]
  | icmpv6 l => simp only [decode?, decode, Icmpv6.decode?_eq, Option.map_some]
  | tcp l => simp only [decode?, decode, Tcp.decode?_eq, Option.map_some]
  | udp l => simp only [decode?, decode, Udp.decode?_eq, Option.map_some]
  | dns l => simp only [decode?, decode, DnsMessage.decode?_eq, Option.map_some]
  | enip l => simp only [decode?, decode, Enip.decode?_eq, Option.map_some]
  | cip l => simp only [decode?, decode, Cip.decode?_eq, Option.map_some]
  | _ l => simp only [decode?, decode, NeighborMessage.decode?_eq, Option.map_some]

/-- A built-in decoder that succeeds splits its input. -/
theorem splits_of_decode {layer : BuiltinLayer} (h : (layer.decode data).error = none) :
    (layer.decode data).layer.extent.Splits data.length := by
  cases layer with
  | payload l => exact Extent.splits_whole data.length
  | ethernet l => exact Ethernet.splits_of_decode h
  | loopback l => exact Loopback.splits_of_decode h
  | ipv4 l => exact Ipv4.splits_of_decode h
  | ipv6 l => exact Ipv6.splits_of_decode h
  | icmpv6 l => exact Icmpv6.splits_of_decode h
  | tcp l => exact Tcp.splits_of_decode h
  | udp l => exact Udp.splits_of_decode h
  | dns l => exact DnsMessage.splits_of_decode h
  | enip l => exact Enip.splits_of_decode h
  | cip l => exact Cip.splits_of_decode h
  | _ l => exact NeighborMessage.splits_of_decode h

end BuiltinLayer

/-! ## Contents one behind the other -/

theorem take_append_slice {start stop : Nat} (h : start ≤ stop) :
    data.take start ++ slice data start stop = data.take stop := by
  obtain ⟨length, rfl⟩ := Nat.exists_eq_add_of_le h
  rw [slice, Nat.add_sub_cancel_left, List.take_add]

namespace Packet

variable {L : Type} [Layer L] {p : Packet L} {root : LayerType}

/-- The contents of the layers take the positions from `start` up to `stop`: the
first contents begin at `start`, each begin where the ones in front of them end,
and the last end at `stop`. -/
def Tiles : List (PlacedLayer L) → Nat → Nat → Prop
  | [], start, stop => start = stop
  | placed :: rest, start, stop =>
      let span := (Layer.extent placed.layer).contents
      placed.offset + span.start = start ∧ span.start ≤ span.stop ∧
        Tiles rest (placed.offset + span.stop) stop

/-- Layers with one more behind them take the positions of the further one too. -/
theorem Tiles.append_singleton
    {layers : List (PlacedLayer L)} {placed : PlacedLayer L} {start middle stop : Nat}
    (h : Tiles layers start middle) (hlast : Tiles [placed] middle stop) :
    Tiles (layers ++ [placed]) start stop := by
  induction layers generalizing start with
  | nil =>
      obtain rfl : start = middle := h
      exact hlast
  | cons first rest ih =>
      obtain ⟨hstart, hspan, hrest⟩ := h
      exact ⟨hstart, hspan, ih hrest⟩

/-- Contents that end inside of some bound leave nothing behind it. -/
theorem Tiles.stop_le
    {layers : List (PlacedLayer L)} {start stop bound : Nat}
    (h : Tiles layers start stop) (hstart : start ≤ bound)
    (hinside : ∀ placed ∈ layers,
      placed.offset + (Layer.extent placed.layer).contents.stop ≤ bound) :
    stop ≤ bound := by
  induction layers generalizing start with
  | nil =>
      obtain rfl : start = stop := h
      exact hstart
  | cons first rest ih =>
      obtain ⟨-, -, hrest⟩ := h
      refine ih hrest (hinside first List.mem_cons_self) ?_
      intro placed hmem
      exact hinside placed (List.mem_cons_of_mem first hmem)

/-- The contents of such layers continue the octets up to where they begin. -/
theorem Tiles.take_append_contents
    {layers : List (PlacedLayer L)} {start stop : Nat} (h : Tiles layers start stop) :
    p.data.take start ++ (layers.map p.contents).flatten = p.data.take stop := by
  induction layers generalizing start with
  | nil =>
      obtain rfl : start = stop := h
      simp
  | cons first rest ih =>
      obtain ⟨rfl, hspan, hrest⟩ := h
      simp only [List.map_cons, List.flatten_cons, ← List.append_assoc]
      rw [contents, take_append_slice (Nat.add_le_add_left hspan first.offset)]
      exact ih hrest

/-- Whether every layer that a table's decoders give splits its input. -/
def Splitting (decoders : DecoderTable L) (options : DecodeOptions) : Prop :=
  ∀ type input layer, (attempt decoders options type input).1 = .ok layer →
    (Layer.extent layer).Splits input.length

/-- The contents of the layers take the first positions of the packet; while the
pipeline runs, the octets that are left begin right behind them. -/
def Tiled (p : Packet L) : Prop :=
  ∃ n, Tiles p.layers 0 n ∧ ∀ offset stop type, p.state = .pending offset stop type → n = offset

theorem tiled_start
    (data : Octets) (root : LayerType) (options : DecodeOptions) (decoders : DecoderTable L) :
    (start data root options decoders).Tiled := by
  refine ⟨0, rfl, ?_⟩
  intro offset stop type hstate
  exact (PacketState.pending.inj hstate).1

/-- A layer whose contents begin where the octets that are left begin keeps the
packet tiled. -/
theorem Tiled.push
    (h : p.Tiled) {offset stop : Nat} {type : LayerType} {layer : PacketLayer L}
    {state : PacketState} {truncated : Bool}
    (hstate : p.state = .pending offset stop type)
    (hstart : (Layer.extent layer).contents.start = 0)
    (hnext : ∀ offset' stop' type', state = .pending offset' stop' type' →
      offset' = offset + (Layer.extent layer).contents.stop) :
    (p.push ⟨layer, offset⟩ state truncated).Tiled := by
  obtain ⟨n, htiles, hn⟩ := h
  obtain rfl := hn offset stop type hstate
  refine ⟨n + (Layer.extent layer).contents.stop, ?_, ?_⟩
  · refine htiles.append_singleton ⟨?_, ?_, rfl⟩
    · simp only [hstart, Nat.add_zero]
    · simp only [hstart, Nat.zero_le]
  · intro offset' stop' type' hpending
    exact (hnext offset' stop' type' hpending).symm

theorem Tiled.advance (h : p.Tiled) (hsplit : Splitting p.decoders p.options) :
    p.advance.Tiled := by
  refine advance_cases (motive := fun _ q => q.Tiled) p (fun _ => h) ?_
  intro q hnext
  obtain ⟨offset, stop, type, hstate, ⟨layer, hok, rfl⟩ | ⟨error, -, rfl⟩⟩ :=
    decodeNext_eq_some hnext
  · obtain ⟨hstart, hmeet, -, -, -⟩ := hsplit _ _ _ hok
    refine h.push hstate hstart ?_
    intro offset' stop' type' hbehind
    simp only [stateBehind] at hbehind
    split at hbehind
    · cases hbehind
    · have hoffset := (PacketState.pending.inj hbehind).1
      simp only [Layer.extent, hmeet]
      exact hoffset.symm
  -- The record of a failure takes all that is left and ends the run.
  · refine h.push hstate rfl ?_
    intro offset' stop' type' hbehind
    cases hbehind

theorem Tiled.iterate (h : p.Tiled) (hsplit : Splitting p.decoders p.options) (n : Nat) :
    (Packet.advance^[n] p).Tiled := by
  induction n generalizing p with
  | zero => exact h
  | succ n ih =>
      rw [Function.iterate_succ_apply]
      refine ih (h.advance hsplit) ?_
      rw [(advance_frame p).2.1, (advance_frame p).2.2]
      exact hsplit

end Packet

/-- Whatever the pipeline asks of the built-in decoders, they split it. -/
theorem BuiltinLayer.splitting_decoders (options : DecodeOptions) :
    Packet.Splitting BuiltinLayer.decoders options := by
  intro type input layer hok
  unfold Packet.attempt at hok
  split at hok
  · cases hok
  · next fresh hfresh =>
      simp only at hok
      split at hok
      · cases hok
      · next herror =>
          split at hok
          · cases hok
          · obtain rfl := Except.ok.inj hok
            exact BuiltinLayer.splits_of_decode herror

namespace Packet

/-- Built-in decoders read inside their input and split it, so that the pipeline
never refuses their layers.  The contents of all layers of a packet, with the
record of a failure, lie one behind the other from its first octet on, and are a
prefix of its octets. -/
theorem builtin_layers_tile :
    (∀ (layer : BuiltinLayer) (data : Octets),
      layer.decode? data = some (Layer.decode layer data) ∧
        ((Layer.decode layer data).error = none →
          (Layer.extent (Layer.decode layer data).layer).Splits data.length ∧
            (Layer.extent (Layer.decode layer data).layer).defect? data.length = none)) ∧
    ∀ (data : Octets) (root : LayerType) (options : DecodeOptions),
      let p := (make data root options BuiltinLayer.decoders).decodeAll
      (p.state = .done ∨ ∃ index error, p.state = .failed index error) ∧
        ∃ n ≤ data.length, Tiles p.layers 0 n ∧
          (p.layers.map p.contents).flatten = data.take n := by
  constructor
  · intro layer data
    refine ⟨BuiltinLayer.decode?_eq layer data, ?_⟩
    intro herror
    have hsplits : (layer.decode data).layer.extent.Splits data.length :=
      BuiltinLayer.splits_of_decode herror
    exact ⟨hsplits, hsplits.defect?_eq_none⟩
  · intro data root options p
    have hall : p = (start data root options BuiltinLayer.decoders).decodeAll :=
      decodeAll_make data root options BuiltinLayer.decoders
    obtain ⟨steps, hrun, hend⟩ :=
      exists_steps_decodeAll (start data root options BuiltinLayer.decoders)
    rw [← hall] at hrun hend
    have hdata : p.data = data := by
      rw [hrun, (iterate_advance_frame steps _).1]
      rfl
    have hplaced : p.Placed root := by
      rw [hrun]
      exact (placed_start data root options BuiltinLayer.decoders).iterate steps
    have htiled : p.Tiled := by
      rw [hrun]
      exact (tiled_start data root options BuiltinLayer.decoders).iterate
        (BuiltinLayer.splitting_decoders options) steps
    constructor
    · exact state_of_decodeNext_eq_none hend
    · obtain ⟨n, htiles, -⟩ := htiled
      refine ⟨n, ?_, htiles, ?_⟩
      · refine htiles.stop_le (Nat.zero_le _) ?_
        intro placed hmem
        obtain ⟨-, hgap, hpayload, hinside⟩ := hplaced.toLaid.inside placed hmem
        rw [hdata] at hinside
        omega
      · have hcontents := htiles.take_append_contents (p := p)
        rw [List.take_zero, List.nil_append, hdata] at hcontents
        exact hcontents

end Packet
end PacketLayers
