import PacketLayers.Proofs.Headers.Network
import PacketLayers.Proofs.Headers.Transport
import PacketLayers.Proofs.Packet.Reads
import PacketLayers.Proofs.Stack.Wrapping

/-!
# Decoded layers, written again

What a link, network or transport decoder of a packet accepted is written again, with
the lengths and checksums that it holds, as the octets that it was read from.
`BuiltinLayer.Rewritable` names the few headers for which this is not so: they hold
something for which the layer has no field.

The layers of a packet lie one behind the other.  Written as a stack they are
therefore the octets that the packet starts with; what is left out are the octets
behind them that belong to no layer.
-/

namespace PacketLayers

variable {data : Octets}

/-! ## One layer -/

namespace BuiltinLayer

/-- Whether a layer was read from a header that is written the same way: it is plain
octets or a link, network or transport layer, a family number was not read as
big-endian, an option list ends in padding that the encoder writes, and the reserved
bits of a segment are zero. -/
def Rewritable (layer : BuiltinLayer) (header : Octets) : Prop :=
  match layer with
  | .payload _ | .ethernet _ | .ipv6 _ | .icmpv6 _ | .udp _ => True
  | .loopback _ =>
      ¬ (octetAt header 0 = 0 ∧ octetAt header 1 = 0 ∧
        (octetAt header 2 ≠ 0 ∨ octetAt header 3 ≠ 0))
  | .ipv4 _ => KindLength.EndsLate .ipv4 (header.drop Ipv4.minHeaderLength)
  | .tcp _ =>
      octetAt header 12 &&& 0x0e = 0 ∧
        KindLength.EndsLate .tcp (header.drop Tcp.minHeaderLength)
  | _ => False

instance (layer : BuiltinLayer) (header : Octets) : Decidable (layer.Rewritable header) :=
  match layer with
  | .payload _ | .ethernet _ | .ipv6 _ | .icmpv6 _ | .udp _ => inferInstanceAs (Decidable True)
  | .loopback _ => inferInstanceAs (Decidable (¬ _))
  | .ipv4 _ => inferInstanceAs (Decidable (KindLength.EndsLate .ipv4 _))
  | .tcp _ => inferInstanceAs (Decidable (_ ∧ _))
  | .routerSolicitation _ | .routerAdvertisement _ | .neighborSolicitation _
  | .neighborAdvertisement _ | .redirect _ | .dns _ | .enip _ | .cip _ =>
      inferInstanceAs (Decidable False)

theorem octetAt_take {n i : Nat} (h : i < n) : octetAt (data.take n) i = octetAt data i := by
  rw [octetAt, octetAt, List.getD_eq_getElem?_getD, List.getD_eq_getElem?_getD,
    List.getElem?_take_of_lt h]

theorem drop_take_eq_slice (start stop : Nat) :
    (data.take stop).drop start = slice data start stop := by
  rw [slice, List.drop_take]

/-- A layer that was read from such a header is written as that header, whatever it
carries. -/
theorem serialize_of_decode {old : BuiltinLayer} (h : (old.decode data).error = none)
    (hrewritable : (old.decode data).layer.Rewritable
      (data.take (old.decode data).layer.extent.contents.stop))
    (inner : Octets) :
    (old.decode data).layer.serialize .asStored inner =
      .write (old.decode data).layer
        (data.take (old.decode data).layer.extent.contents.stop) := by
  cases old with
  | payload l => exact Serialization.map_eq_write BuiltinLayer.payload (l.serialize_of_decode inner)
  | ethernet l =>
      exact Serialization.map_eq_write BuiltinLayer.ethernet (Ethernet.serialize_of_decode h inner)
  | loopback l =>
      have hstop : (Loopback.decode l data).layer.extent.contents.stop = 4 := by
        by_cases hshort : data.length < Loopback.headerLength
        · simp [decode, Loopback.decode, hshort, Decoding.map, Decoding.reject] at h
        · simp only [Loopback.decode, hshort, if_false]
          rfl
      simp only [decode, Decoding.map, Rewritable, extent, hstop] at hrewritable
      rw [octetAt_take (by decide), octetAt_take (by decide), octetAt_take (by decide),
        octetAt_take (by decide)] at hrewritable
      exact Serialization.map_eq_write BuiltinLayer.loopback
        (Loopback.serialize_of_decode h hrewritable inner)
  | ipv4 l =>
      obtain ⟨-, -, -, hlayer⟩ := Ipv4.of_decode h
      have hstop : (Ipv4.decode l data).layer.extent.contents.stop =
          (Ipv4.decode l data).layer.headerLength := by
        rw [hlayer]
        rfl
      simp only [decode, Decoding.map, Rewritable, extent, hstop, drop_take_eq_slice]
        at hrewritable
      exact Serialization.map_eq_write BuiltinLayer.ipv4
        (Ipv4.serialize_of_decode h hrewritable inner)
  | ipv6 l => exact Serialization.map_eq_write BuiltinLayer.ipv6 (Ipv6.serialize_of_decode h inner)
  | icmpv6 l =>
      exact Serialization.map_eq_write BuiltinLayer.icmpv6 (Icmpv6.serialize_of_decode h inner)
  | tcp l =>
      obtain ⟨-, hoffset, -, -, hlayer⟩ := Tcp.of_decode h
      have hstop : (Tcp.decode l data).layer.extent.contents.stop =
          (Tcp.decode l data).layer.headerLength := by
        rw [hlayer]
        rfl
      have hmin : 20 ≤ (Tcp.decode l data).layer.headerLength := by
        rw [hlayer]
        exact Tcp.minHeaderLength_le hoffset
      simp only [decode, Decoding.map, Rewritable, extent, hstop, drop_take_eq_slice]
        at hrewritable
      rw [octetAt_take (by omega)] at hrewritable
      exact Serialization.map_eq_write BuiltinLayer.tcp
        (Tcp.serialize_of_decode h hrewritable.1 hrewritable.2 inner)
  | udp l => exact Serialization.map_eq_write BuiltinLayer.udp (Udp.serialize_of_decode h inner)
  | _ l => exact absurd hrewritable (by simp [decode, Decoding.map, Rewritable])

end BuiltinLayer

/-! ## The layers of a packet -/

namespace Packet

variable {options : DecodeOptions} {type : LayerType} {truncated : Bool}

/-- A layer that a built-in decoder gives is written as its header. -/
theorem serialize_of_attempt {layer : BuiltinLayer}
    (h : attempt BuiltinLayer.decoders options type data = (.ok layer, truncated))
    (hrewritable : layer.Rewritable (headerOf layer data)) (inner : Octets) :
    layer.serialize .asStored inner = .write layer (headerOf layer data) := by
  obtain ⟨fresh, -, herror, rfl⟩ := exists_decode_of_attempt h
  obtain ⟨hstart, -⟩ := BuiltinLayer.splits_of_decode herror
  have hheader : headerOf (Layer.decode fresh data).layer data =
      data.take (Layer.decode fresh data).layer.extent.contents.stop := by
    have hstart' : (Layer.extent (Layer.decode fresh data).layer).contents.start = 0 := hstart
    rw [headerOf, hstart', slice, List.drop_zero, Nat.sub_zero]
    rfl
  rw [hheader] at hrewritable ⊢
  exact BuiltinLayer.serialize_of_decode herror hrewritable inner

/-- Layers that were read one inside the other are written as their headers, one
behind the other. -/
theorem serializeStack_of_reads {layers : List (BuiltinLayer × Octets)}
    (h : Reads BuiltinLayer.decoders options type data layers truncated)
    (hrewritable : ∀ read ∈ layers, read.1.Rewritable read.2) :
    let stack := (layers.map asDecoded).map Prod.fst
    (serializeStack .asStored stack).octets = .ok (layers.map Prod.snd).flatten ∧
      (serializeStack .asStored stack).layers = stack := by
  induction h with
  | @last type data layer truncated hattempt hempty =>
      have hwrite := serialize_of_attempt hattempt (hrewritable _ List.mem_cons_self) []
      have houter : Layer.serialize (PacketLayer.decoded layer) .asStored [] =
          .write (.decoded layer) (headerOf layer data) :=
        Serialization.map_eq_write PacketLayer.decoded hwrite
      exact serializeStack_cons_of_write serializeStack_nil_octets houter
  | @more type data layer truncated layers behind hattempt hpayload hrest ih =>
      obtain ⟨hoctets, hlayers⟩ :=
        ih fun read hmem => hrewritable read (List.mem_cons_of_mem _ hmem)
      have hwrite := serialize_of_attempt hattempt (hrewritable _ List.mem_cons_self)
        (layers.map Prod.snd).flatten
      have houter : Layer.serialize (PacketLayer.decoded layer) .asStored
          (layers.map Prod.snd).flatten = .write (.decoded layer) (headerOf layer data) :=
        Serialization.map_eq_write PacketLayer.decoded hwrite
      have hcons := serializeStack_cons_of_write hoctets houter
      rw [hlayers] at hcons
      exact hcons

/-- The layers of a packet lie one behind the other from its first octet on. -/
theorem exists_tiles_make (data : Octets) (root : LayerType) :
    let p := make data root .standard BuiltinLayer.decoders
    ∃ n ≤ data.length, Tiles p.layers 0 n ∧ (p.layers.map p.contents).flatten = data.take n := by
  intro p
  obtain ⟨steps, hrun, -⟩ :=
    exists_steps_decodeAll (start data root .standard BuiltinLayer.decoders)
  have hall : p = advance^[steps] (start data root .standard BuiltinLayer.decoders) := hrun
  have hdata : p.data = data := by
    rw [hall, (iterate_advance_frame steps _).1]
    rfl
  obtain ⟨n, htiles, -⟩ : p.Tiled := by
    rw [hall]
    exact (tiled_start data root .standard BuiltinLayer.decoders).iterate
      (BuiltinLayer.splitting_decoders .standard) steps
  have hplaced : p.Placed root := by
    rw [hall]
    exact (placed_start data root .standard BuiltinLayer.decoders).iterate steps
  refine ⟨n, ?_, htiles, ?_⟩
  · refine htiles.stop_le (Nat.zero_le _) ?_
    intro placed hmem
    obtain ⟨-, hgap, hpayload, hinside⟩ := hplaced.toLaid.inside placed hmem
    rw [hdata] at hinside
    omega
  · have hcontents := htiles.take_append_contents (p := p)
    rw [List.take_zero, List.nil_append, hdata] at hcontents
    exact hcontents

/-- The layers of a packet that was decoded without a failure are written again, with
the lengths and checksums that they hold, as the octets from the first one up to the
end of the last contents. -/
theorem serialize_decoded_layers {root : LayerType}
    (hdone : (make data root .standard BuiltinLayer.decoders).state = .done)
    (hrewritable : ∀ placed ∈ (make data root .standard BuiltinLayer.decoders).layers,
      ∀ layer ∈ placed.layer.decoded?,
        layer.Rewritable ((make data root .standard BuiltinLayer.decoders).contents placed)) :
    let p := make data root .standard BuiltinLayer.decoders
    let stack := p.layers.map fun placed => placed.layer
    ∃ n ≤ data.length, Tiles p.layers 0 n ∧ (p.layers.map p.contents).flatten = data.take n ∧
      (serializeStack .asStored stack).octets = .ok (data.take n) ∧
      (serializeStack .asStored stack).layers = stack := by
  intro p stack
  have heager : DecodeOptions.standard.lazy = false := rfl
  obtain ⟨layers, truncated, hreads⟩ := reads_of_make heager hdone
  obtain ⟨-, -, hlayers⟩ := make_of_reads hreads heager
  have hstack : (layers.map asDecoded).map Prod.fst = stack := by
    rw [← hlayers, readLayers, List.map_map]
    rfl
  have hheaders : layers.map Prod.snd = p.layers.map p.contents := by
    have hsnd : layers.map Prod.snd = (layers.map asDecoded).map Prod.snd := by
      rw [List.map_map]
      rfl
    rw [hsnd, ← hlayers, readLayers, List.map_map]
    rfl
  have hall : ∀ read ∈ layers, read.1.Rewritable read.2 := by
    intro read hmem
    have hread : asDecoded read ∈ p.readLayers := by
      rw [hlayers]
      exact List.mem_map_of_mem hmem
    obtain ⟨placed, hplaced, heq⟩ := List.mem_map.mp hread
    obtain ⟨hlayer, hcontents⟩ := Prod.mk.inj heq
    have hdecoded : read.1 ∈ placed.layer.decoded? := by
      rw [hlayer]
      rfl
    rw [← hcontents]
    exact hrewritable placed hplaced read.1 hdecoded
  obtain ⟨hoctets, hsame⟩ := serializeStack_of_reads hreads hall
  obtain ⟨n, hn, htiles, hcontents⟩ := exists_tiles_make data root
  rw [hstack, hheaders, hcontents] at hoctets
  rw [hstack] at hsame
  exact ⟨n, hn, htiles, hcontents, hoctets, hsame⟩

/-- A frame with options in both headers, and with two octets behind the total length
of its IPv4 packet. -/
def trailedFrame : Octets :=
  [0, 1, 2, 3, 4, 5, 6, 7, 8, 9, 10, 11, 0x08, 0x00] ++
    [0x46, 0, 0, 50, 0, 1, 0, 0, 64, 6, 0xab, 0xcd, 10, 0, 0, 1, 10, 0, 0, 2, 1, 0, 0, 0] ++
    [0, 80, 0, 81, 0, 0, 0, 1, 0, 0, 0, 2, 0x61, 0x02, 0, 9, 0x12, 0x34, 0, 0, 2, 4, 5, 0xb4] ++
    [104, 105, 0xee, 0xee]

/-- The two octets that belong to no layer are left out. -/
theorem serialize_trailedFrame :
    let p := make trailedFrame .ethernet .standard BuiltinLayer.decoders
    (p.layers.map fun placed => Layer.layerType placed.layer) =
        [.ethernet, .ipv4, .tcp, .payload] ∧
      ∃ n ≤ trailedFrame.length, Tiles p.layers 0 n ∧
        (p.layers.map p.contents).flatten = trailedFrame.take n ∧
        (serializeStack .asStored (p.layers.map fun placed => placed.layer)).octets =
          .ok (trailedFrame.take n) ∧
        (serializeStack .asStored (p.layers.map fun placed => placed.layer)).layers =
          p.layers.map fun placed => placed.layer :=
  ⟨by decide +kernel, serialize_decoded_layers (by decide +kernel) (by decide +kernel)⟩

end Packet
end PacketLayers
