import Mathlib.Data.Fintype.Card
import PacketLayers.Proofs.Decoding.ErrorSource
import PacketLayers.Proofs.Packet.Accessors
import PacketLayers.Proofs.Packet.Reads

/-!
# The order of the built-in protocols

What a built-in layer names for its payload depends on the octets that were decoded: on types,
ports, message types, item lists.  All of it stays within one acyclic order of the protocols: from
link to network, to transport and control, to messages and to what they carry.

`LayerType.carried` lists what the layers of a type may name, and `LayerType.stage` is the measure
that makes the order acyclic: it grows from layer to layer and has five values.  The main statement
is `Packet.layers_in_protocol_order`.
-/

namespace PacketLayers

namespace LayerType

/-- The types that a layer of a type may name for its payload. -/
def carried : LayerType → List LayerType
  | .ethernet | .loopback => [.ipv4, .ipv6, .payload]
  | .ipv4 | .ipv6 => [.icmpv6, .tcp, .udp, .payload]
  | .icmpv6 =>
    [.icmpv6RouterSolicitation, .icmpv6RouterAdvertisement, .icmpv6NeighborSolicitation,
      .icmpv6NeighborAdvertisement, .icmpv6Redirect, .payload]
  | .tcp => [.enip, .payload]
  | .udp => [.dns, .payload]
  | .enip => [.cip, .payload]
  | _ => [.payload]

/-- How far up in a packet the layers of a type stand; nothing stands above the last stage. -/
def stage : LayerType → Fin 5
  | .ethernet | .loopback => 0
  | .ipv4 | .ipv6 => 1
  | .icmpv6 | .tcp | .udp => 2
  | .icmpv6RouterSolicitation | .icmpv6RouterAdvertisement | .icmpv6NeighborSolicitation
  | .icmpv6NeighborAdvertisement | .icmpv6Redirect | .dns | .enip => 3
  | .cip | .payload | .decodeFailure | .unknown _ => 4

/-- A layer type that has no place in the order of the numbers. -/
def IsFinal (type : LayerType) : Prop := type = .payload ∨ type = .decodeFailure

instance (type : LayerType) : Decidable type.IsFinal := inferInstanceAs (Decidable (_ ∨ _))

/-- A layer of the one type may stand in front of a layer of the other. -/
def Before (a b : LayerType) : Prop := a.stage < b.stage ∧ (b.IsFinal ∨ a.number < b.number)

instance (a b : LayerType) : Decidable (a.Before b) := inferInstanceAs (Decidable (_ ∧ _))

variable {a b c : LayerType}

theorem IsFinal.stage_eq (h : a.IsFinal) : a.stage = 4 := by
  rcases h with rfl | rfl
  · rfl
  · rfl

/-- Nothing stands behind a final layer. -/
theorem Before.not_isFinal (h : a.Before b) : ¬ a.IsFinal := by
  intro hfinal
  have hstage := h.1
  rw [hfinal.stage_eq] at hstage
  exact absurd (Fin.le_last b.stage) (Fin.not_le.mpr hstage)

theorem Before.trans (hab : a.Before b) (hbc : b.Before c) : a.Before c := by
  refine ⟨hab.1.trans hbc.1, ?_⟩
  rcases hbc.2 with hfinal | hnumber
  · exact .inl hfinal
  · exact .inr (UInt16.lt_trans (hab.2.resolve_left hbc.not_isFinal) hnumber)

/-- Where a layer may stand, the record of its failure may. -/
theorem Before.decodeFailure (h : a.Before b) : a.Before .decodeFailure :=
  ⟨h.1.trans_le (Fin.le_last b.stage), .inl (.inr rfl)⟩

theorem before_of_mem_carried (h : b ∈ a.carried) (hstage : a.stage ≠ 4) : a.Before b := by
  revert b
  cases a with
  | payload | decodeFailure | cip => exact absurd rfl hstage
  | unknown n => exact absurd rfl hstage
  | _ => decide

/-- The layers that have addresses of a class stand on one stage. -/
theorem stage_of_layerClass (type : LayerType) :
    (type.layerClass = .link → type.stage = 0) ∧ (type.layerClass = .network → type.stage = 1) ∧
      (type.layerClass = .transport → type.stage = 2) := by
  cases type <;> simp [layerClass, stage]

/-- No two layers with addresses of one class stand in one packet. -/
theorem Before.layerClass_ne {layerClass : LayerClass} (h : a.Before b)
    (hclass : layerClass ∈ [LayerClass.link, .network, .transport])
    (ha : a.layerClass = layerClass) : b.layerClass ≠ layerClass := by
  intro hb
  obtain ⟨halink, hanetwork, hatransport⟩ := stage_of_layerClass a
  obtain ⟨hblink, hbnetwork, hbtransport⟩ := stage_of_layerClass b
  have hsame : a.stage = b.stage := by
    simp only [List.mem_cons, List.not_mem_nil, or_false] at hclass
    rcases hclass with rfl | rfl | rfl
    · rw [halink ha, hblink hb]
    · rw [hanetwork ha, hbnetwork hb]
    · rw [hatransport ha, hbtransport hb]
  exact absurd h.1 (hsame ▸ lt_irrefl a.stage)

/-- Of types in order only the last may be a final one, and the numbers of the others increase. -/
theorem exists_increasing {types : List LayerType} (h : types.Pairwise Before) :
    ∃ increasing final, types = increasing ++ final ∧
      increasing.Pairwise (fun a b => a.number < b.number) ∧ (∀ type ∈ increasing, ¬ type.IsFinal) ∧
      (final = [] ∨ final = [.payload] ∨ final = [.decodeFailure]) := by
  rcases types.eq_nil_or_concat with rfl | ⟨earlier, last, rfl⟩
  · exact ⟨[], [], rfl, .nil, nofun, .inl rfl⟩
  · rw [List.concat_eq_append] at h ⊢
    obtain ⟨hearlier, -, hlast⟩ := List.pairwise_append.mp h
    have hbefore : ∀ type ∈ earlier, type.Before last :=
      fun type hmem => hlast type hmem last (List.mem_singleton_self last)
    have hnumbers : earlier.Pairwise fun a b => a.number < b.number :=
      hearlier.imp_of_mem fun _ hb hab => hab.2.resolve_left (hbefore _ hb).not_isFinal
    have hnot : ∀ type ∈ earlier, ¬ type.IsFinal :=
      fun type hmem => (hbefore type hmem).not_isFinal
    by_cases hfinal : last.IsFinal
    · refine ⟨earlier, [last], rfl, hnumbers, hnot, ?_⟩
      rcases hfinal with rfl | rfl
      · exact .inr (.inl rfl)
      · exact .inr (.inr rfl)
    · refine ⟨earlier ++ [last], [], (List.append_nil _).symm, ?_, ?_, .inl rfl⟩
      · refine List.pairwise_append.mpr ⟨hnumbers, List.pairwise_singleton _ _, ?_⟩
        intro type hmem type' hmem'
        obtain rfl := List.mem_singleton.mp hmem'
        exact (hbefore type hmem).2.resolve_left hfinal
      · intro type hmem
        rcases List.mem_append.mp hmem with hold | hnew
        · exact hnot type hold
        · exact List.mem_singleton.mp hnew ▸ hfinal

end LayerType

/-! ## What the built-in layers name -/

theorem EtherType.layerType_mem (e : EtherType) :
    e.layerType ∈ [LayerType.ipv4, .ipv6, .payload] := by
  cases e <;> simp [layerType]

theorem ProtocolFamily.layerType_mem (f : ProtocolFamily) :
    f.layerType ∈ [LayerType.ipv4, .ipv6, .payload] := by
  cases f <;> simp [layerType]

theorem IpProtocol.layerType_mem (p : IpProtocol) :
    p.layerType ∈ [LayerType.icmpv6, .tcp, .udp, .payload] := by
  cases p <;> simp [layerType]

theorem ControlMessage.layerType_mem (m : ControlMessage) :
    m.layerType ∈ LayerType.icmpv6.carried := by
  cases m <;> simp [layerType, LayerType.carried]

/-- A message takes all of its input. -/
theorem Cip.extent_of_decode {old : Cip} {data : Octets} (h : (old.decode data).error = none) :
    (old.decode data).layer.extent = .whole data.length := by
  cases data with
  | nil => cases h
  | cons first tail =>
      simp only [decode] at h ⊢
      split
      · next read error houtcome =>
          simp only [houtcome] at h
          cases h
      · rfl

theorem Udp.portLayerType_mem (port : UInt16) :
    portLayerType port ∈ [LayerType.dns, .payload] := by
  unfold portLayerType
  split <;> simp

namespace BuiltinLayer

variable {options : DecodeOptions} {type : LayerType} {data : Octets} {layer fresh : BuiltinLayer}

/-- Whatever a layer holds, it names a type that layers of its own type carry. -/
theorem next_mem_carried (layer : BuiltinLayer) : layer.next ∈ layer.layerType.carried := by
  cases layer with
  | ethernet l => exact l.etherType.layerType_mem
  | loopback l => exact l.family.layerType_mem
  | ipv4 l =>
      simp only [next, Ipv4.next, layerType]
      split
      · simp [LayerType.carried]
      · exact l.protocol.layerType_mem
  | ipv6 l => exact l.nextHeader.layerType_mem
  | icmpv6 l => exact l.messageType.layerType_mem
  | tcp l =>
      simp only [next, Tcp.next, layerType, LayerType.carried]
      split <;> simp
  | udp l =>
      simp only [next, Udp.next, layerType]
      split
      · exact Udp.portLayerType_mem l.sourcePort
      · exact Udp.portLayerType_mem l.destinationPort
  | enip l =>
      simp only [next, Enip.next, layerType, LayerType.carried]
      split <;> simp
  | _ => simp [next, layerType, LayerType.carried]

/-- The table has a decoder for whatever a layer of one of its types carries. -/
theorem contains_of_mem_carried {carrier : LayerType} (h : type ∈ carrier.carried) :
    decoders.contains type = true := by
  revert type
  cases carrier with
  | unknown n =>
      intro type h
      obtain rfl := List.mem_singleton.mp h
      rfl
  | _ => decide

theorem layerType_decode (layer : BuiltinLayer) (data : Octets) :
    (layer.decode data).layer.layerType = layer.layerType := by
  cases layer <;> rfl

theorem exists_create_of_contains (h : decoders.contains type = true) (options : DecodeOptions) :
    ∃ fresh, decoders.create type options = some fresh ∧ fresh.layerType = type := by
  cases type with
  | decodeFailure => cases h
  | unknown n => cases h
  | _ => exact ⟨_, rfl, rfl⟩

/-- Nothing stands behind a layer of the last stage. -/
theorem payload_of_decode (h : (layer.decode data).error = none)
    (hlast : layer.layerType.stage = 4) : (layer.decode data).layer.extent.payload.length = 0 := by
  cases layer with
  | payload l => exact Nat.sub_self data.length
  | cip l =>
      have hextent : (l.decode data).layer.extent = .whole data.length := Cip.extent_of_decode h
      simp only [decode, Decoding.map, extent, hextent]
      exact Nat.sub_self data.length
  | _ => cases hlast

/-- A layer that the table's decoder of a type gives is of that type, and what it names for its
payload, if it has one, is a later type that the table has a decoder for too. -/
theorem carries_of_attempt (hcontains : decoders.contains type = true)
    (h : (Packet.attempt decoders options type data).1 = .ok layer) :
    layer.layerType = type ∧ decoders.contains layer.next = true ∧
      (layer.extent.payload.length ≠ 0 → type.Before layer.next) := by
  obtain ⟨fresh, hfresh, herror, rfl⟩ := Packet.exists_decode_of_attempt (Prod.ext h rfl)
  obtain ⟨made, hmade, hmadeType⟩ := exists_create_of_contains hcontains options
  obtain rfl := Option.some.inj (hfresh.symm.trans hmade)
  have htype : (fresh.decode data).layer.layerType = type :=
    (layerType_decode fresh data).trans hmadeType
  have hnext := next_mem_carried (fresh.decode data).layer
  refine ⟨htype, contains_of_mem_carried hnext, ?_⟩
  intro hcarried
  rw [htype] at hnext
  apply LayerType.before_of_mem_carried hnext
  intro hlast
  exact hcarried (payload_of_decode herror (hmadeType ▸ hlast))

/-- Where the table has a decoder, nothing is unsupported. -/
theorem supported_of_attempt {error : DecodeError} (hcontains : decoders.contains type = true)
    (h : (Packet.attempt decoders options type data).1 = .error error) :
    ∀ unsupported, error ≠ .unsupported unsupported := by
  obtain ⟨fresh, hfresh, -⟩ := exists_create_of_contains hcontains options
  unfold Packet.attempt at h
  simp only [hfresh] at h
  split at h
  · next herror =>
      obtain rfl := Except.error.inj h
      exact (concerns_of_decode herror).ne_unsupported
  · split at h
    · obtain rfl := Except.error.inj h
      exact fun _ => nofun
    · cases h

end BuiltinLayer

/-! ## Runs of the pipeline -/

namespace Packet

variable {p : Packet BuiltinLayer}

/-- What every step preserves: the layers stand in the order of their types, and so does the type
that is to be decoded next, which has a decoder. -/
structure InOrder (p : Packet BuiltinLayer) : Prop where
  builtin : p.decoders = BuiltinLayer.decoders
  ordered : p.layers.Pairwise fun a b =>
    (Layer.layerType a.layer).Before (Layer.layerType b.layer)
  pending : ∀ offset stop type, p.state = .pending offset stop type →
    BuiltinLayer.decoders.contains type = true ∧
      ∀ placed ∈ p.layers, (Layer.layerType placed.layer).Before type
  supported : ∀ index error, p.state = .failed index error →
    ∀ unsupported, error ≠ .unsupported unsupported

theorem inOrder_start {data : Octets} {root : LayerType} {options : DecodeOptions}
    (hroot : BuiltinLayer.decoders.contains root = true) :
    (start data root options BuiltinLayer.decoders).InOrder where
  builtin := rfl
  ordered := .nil
  pending := by
    intro offset stop type hstate
    obtain ⟨-, -, rfl⟩ := PacketState.pending.inj hstate
    exact ⟨hroot, fun placed hmem => absurd hmem List.not_mem_nil⟩
  supported := by
    intro index error hstate
    cases hstate

theorem InOrder.ordered_append (h : p.InOrder) {last : PlacedLayer BuiltinLayer}
    (hbefore : ∀ placed ∈ p.layers,
      (Layer.layerType placed.layer).Before (Layer.layerType last.layer)) :
    (p.layers ++ [last]).Pairwise fun a b =>
      (Layer.layerType a.layer).Before (Layer.layerType b.layer) := by
  refine List.pairwise_append.mpr ⟨h.ordered, List.pairwise_singleton _ _, ?_⟩
  intro a ha b hb
  obtain rfl := List.mem_singleton.mp hb
  exact hbefore a ha

theorem InOrder.advance (h : p.InOrder) : p.advance.InOrder := by
  refine advance_cases (motive := fun _ q => q.InOrder) p (fun _ => h) ?_
  intro q hnext
  obtain ⟨offset, stop, type, hstate, hstep⟩ := decodeNext_eq_some hnext
  obtain ⟨hcontains, hbefore⟩ := h.pending offset stop type hstate
  simp only [h.builtin] at hstep
  obtain ⟨layer, hok, rfl⟩ | ⟨error, herror, rfl⟩ := hstep
  · obtain ⟨rfl, hdecoder, hcarried⟩ := BuiltinLayer.carries_of_attempt hcontains hok
    constructor
    case builtin => rfl
    case ordered => exact h.ordered_append hbefore
    case pending =>
      intro offset' stop' type' hbehind
      simp only [stateBehind] at hbehind
      split at hbehind
      · cases hbehind
      · next hpayload =>
          obtain ⟨-, -, rfl⟩ := PacketState.pending.inj hbehind
          refine ⟨hdecoder, ?_⟩
          intro placed hmem
          rcases List.mem_append.mp hmem with hold | hnew
          · exact (hbefore placed hold).trans (hcarried hpayload)
          · obtain rfl := List.mem_singleton.mp hnew
            exact hcarried hpayload
    case supported =>
      intro index error hbehind
      simp only [stateBehind] at hbehind
      split at hbehind
      · cases hbehind
      · cases hbehind
  · constructor
    case builtin => rfl
    case ordered =>
      exact h.ordered_append fun placed hmem => (hbefore placed hmem).decodeFailure
    case pending =>
      intro offset' stop' type' hfailed
      cases hfailed
    case supported =>
      intro index error' hfailed
      obtain ⟨-, rfl⟩ := PacketState.failed.inj hfailed
      exact BuiltinLayer.supported_of_attempt hcontains herror

theorem InOrder.iterate (h : p.InOrder) (n : Nat) : (Packet.advance^[n] p).InOrder := by
  induction n generalizing p with
  | zero => exact h
  | succ n ih =>
      rw [Function.iterate_succ_apply]
      exact ih h.advance

theorem InOrder.decodeAll (h : p.InOrder) : p.decodeAll.InOrder := by
  obtain ⟨n, hrun, -⟩ := exists_steps_decodeAll p
  rw [hrun]
  exact h.iterate n

/-! ## What the order says of a packet -/

/-- A packet has at most one layer of a class, and this is the flow of that layer. -/
def FlowOfOnly (p : Packet BuiltinLayer) (layerClass : LayerClass) (flow : Option Flow) : Prop :=
  match p.layers.filter fun placed => (Layer.layerType placed.layer).layerClass == layerClass with
  | [] => flow = none
  | [placed] => flow = Layer.flow placed.layer
  | _ => False

/-- There are no more layers than stages. -/
theorem InOrder.length_layers_le (h : p.InOrder) : p.layers.length ≤ 5 := by
  have hnodup : (p.layers.map fun placed => (Layer.layerType placed.layer).stage).Nodup := by
    apply List.pairwise_map.mpr
    exact h.ordered.imp fun hbefore => ne_of_lt hbefore.1
  simpa using hnodup.length_le_card

/-- The flow of a class is that of its only layer. -/
theorem InOrder.flowOfOnly (h : p.decodeAll.InOrder) {layerClass : LayerClass}
    (hclass : layerClass ∈ [LayerClass.link, .network, .transport]) :
    p.decodeAll.FlowOfOnly layerClass (p.classFlow layerClass).1 := by
  rw [Accessor.classFlow_eq_readFlow, Accessor.readFlow, ← List.head?_filter, FlowOfOnly]
  have hordered := h.ordered.filter fun placed =>
    (Layer.layerType placed.layer).layerClass == layerClass
  have hsame : ∀ placed ∈ p.decodeAll.layers.filter fun placed =>
      (Layer.layerType placed.layer).layerClass == layerClass,
      (Layer.layerType placed.layer).layerClass = layerClass :=
    fun placed hmem => eq_of_beq (List.mem_filter.mp hmem).2
  generalize (p.decodeAll.layers.filter fun placed =>
    (Layer.layerType placed.layer).layerClass == layerClass) = found at hordered hsame
  -- a second layer of the class would be of a later stage, and each class has only one
  rcases found with _ | ⟨first, _ | ⟨second, more⟩⟩
  · rfl
  · rfl
  · have hbefore := (List.pairwise_cons.mp hordered).1 second List.mem_cons_self
    have hfirst := hsame first List.mem_cons_self
    have hsecond := hsame second (List.mem_cons_of_mem first List.mem_cons_self)
    exact absurd hsecond (hbefore.layerClass_ne hclass hfirst)

/-- Packets of built-in layers follow one acyclic order of the protocols.  The numbers of the layer
types increase from layer to layer, except that the last one may be plain payload or the record of a
failure; there are at most five layers, and no failure is for want of a decoder, since the table has
one for whatever a layer names.  There is at most one link, one network and one transport layer, and
the flow of the packet is that of this layer. -/
theorem layers_in_protocol_order (data : Octets) (root : LayerType) (options : DecodeOptions)
    (hroot : BuiltinLayer.decoders.contains root = true) :
    let packet := make data root options BuiltinLayer.decoders
    let p := packet.decodeAll
    (∃ increasing final, packet.layerTypes.1 = increasing ++ final ∧
        increasing.Pairwise (fun a b => a.number < b.number) ∧
        (∀ type ∈ increasing, type ≠ .payload ∧ type ≠ .decodeFailure) ∧
        (final = [] ∨ final = [.payload] ∨ final = [.decodeFailure])) ∧
      p.layers.length ≤ 5 ∧
      (∀ index error, p.state = .failed index error →
        ∀ unsupported, error ≠ .unsupported unsupported) ∧
      (∀ layer : BuiltinLayer, BuiltinLayer.decoders.contains (Layer.next layer) = true) ∧
      p.FlowOfOnly .link packet.linkFlow.1 ∧ p.FlowOfOnly .network packet.networkFlow.1 ∧
      p.FlowOfOnly .transport packet.transportFlow.1 := by
  intro packet p
  have horder : p.InOrder := by
    have hall : p = (start data root options BuiltinLayer.decoders).decodeAll :=
      decodeAll_make data root options BuiltinLayer.decoders
    rw [hall]
    exact (inOrder_start hroot).decodeAll
  refine ⟨?_, horder.length_layers_le, horder.supported, ?_, horder.flowOfOnly (by simp),
    horder.flowOfOnly (by simp), horder.flowOfOnly (by simp)⟩
  · obtain ⟨increasing, final, htypes, hnumbers, hfinal, hlast⟩ :=
      LayerType.exists_increasing (List.pairwise_map.mpr horder.ordered)
    refine ⟨increasing, final, htypes, hnumbers, ?_, hlast⟩
    exact fun type hmem => not_or.mp (hfinal type hmem)
  · intro layer
    exact BuiltinLayer.contains_of_mem_carried layer.next_mem_carried

/-- An IPv4 packet with a TCP segment to the port of EtherNet/IP, in which an explicit message
carries a CIP request. -/
def industrialOctets : Octets :=
  [0x45, 0, 0, 78, 0, 0, 0, 0, 64, 6, 0, 0, 10, 0, 0, 1, 10, 0, 0, 2] ++
    [0, 9, 0xaf, 0x12, 0, 0, 0, 0, 0, 0, 0, 0, 0x50, 0x10, 0, 0, 0, 0, 0, 0] ++
    ([0x6f, 0, 14, 0] ++ List.replicate 20 0) ++
    [0, 0, 0, 0, 0, 0, 1, 0, 0xb2, 0, 2, 0, 1, 0]

theorem layers_in_protocol_order_industrial :
    let options : DecodeOptions := { DecodeOptions.standard with streamsAsDatagrams := true }
    let packet := make industrialOctets .ipv4 options BuiltinLayer.decoders
    BuiltinLayer.decoders.contains .ipv4 = true ∧
      packet.layerTypes.1 = [.ipv4, .tcp, .enip, .cip] ∧ packet.decodeAll.layers.length ≤ 5 ∧
      packet.decodeAll.FlowOfOnly .network packet.networkFlow.1 ∧
      packet.decodeAll.FlowOfOnly .transport packet.transportFlow.1 := by
  intro options packet
  have hroot : BuiltinLayer.decoders.contains .ipv4 = true := rfl
  obtain ⟨-, hcount, -, -, -, hnetwork, htransport⟩ :=
    layers_in_protocol_order industrialOctets .ipv4 options hroot
  have htypes : packet.layerTypes.1 = [.ipv4, .tcp, .enip, .cip] := by decide +kernel
  exact ⟨hroot, htypes, hcount, hnetwork, htransport⟩

end Packet
end PacketLayers
