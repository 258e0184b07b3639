import PacketLayers.Proofs.Headers.FixedLengths
import PacketLayers.Proofs.Packet.Reads
import PacketLayers.Proofs.Stack.Wrapping

/-!
# Stacks, written and decoded

A stack of a link, a network and a transport layer over plain octets, written with
fixed lengths and computed checksums, is decoded as the same four layers with the
fields that the writing left in them.  Only a link pads what it writes, and the
length of the network layer keeps the padding out of its payload.

`ReadBack` says of one layer what a packet makes of octets that start with the header
that was written for it, and the layers of a stack are put together with
`Packet.Reads`.  The main statement is `Packet.decode_serialized_stack`.
-/

namespace PacketLayers

variable {inner : Octets} {w : Wrapping}

/-! ## What a packet makes of a written layer -/

namespace BuiltinLayer

/-- The layer without what its octets do not hold: where it lay in an input, and what
its decoder was told about the enclosing header and about streams. -/
def wireFields : BuiltinLayer → BuiltinLayer
  | .payload l => .payload { l with extent := .empty }
  | .ethernet l => .ethernet { l with extent := .empty }
  | .loopback l => .loopback { l with extent := .empty }
  | .ipv4 l => .ipv4 { l with extent := .empty }
  | .ipv6 l => .ipv6 { l with extent := .empty }
  | .icmpv6 l => .icmpv6 { l with extent := .empty, network := none }
  | .routerSolicitation l => .routerSolicitation { l with extent := .empty }
  | .routerAdvertisement l => .routerAdvertisement { l with extent := .empty }
  | .neighborSolicitation l => .neighborSolicitation { l with extent := .empty }
  | .neighborAdvertisement l => .neighborAdvertisement { l with extent := .empty }
  | .redirect l => .redirect { l with extent := .empty }
  | .tcp l => .tcp { l with extent := .empty, network := none, streamPayloads := false }
  | .udp l => .udp { l with extent := .empty, network := none }
  | .dns l => .dns { l with extent := .empty }
  | .enip l => .enip { l with extent := .empty }
  | .cip l => .cip { l with extent := .empty }

theorem layerType_wireFields (l : BuiltinLayer) : l.wireFields.layerType = l.layerType := by
  cases l <;> rfl

/-- Whether the fields of a link, network or transport layer have the values that its
header has room for: numbers go by their names, and options have the form in which a
walk hands them out. -/
def Fits : BuiltinLayer → Prop
  | .ethernet e => IsCanonical EtherType.ofNumber e.etherType
  | .loopback l => IsCanonical ProtocolFamily.ofNumber l.family
  | .ipv4 p => p.Fits
  | .ipv6 p => p.Fits
  | .tcp t => t.Fits
  | .udp _ => True
  | .icmpv6 m => IsCanonical ControlMessage.ofNumber m.messageType
  | _ => False

/-- The length to which the frames of a layer are padded. -/
def minFrameLength : BuiltinLayer → Nat
  | .ethernet _ => Ethernet.minFrameLength
  | _ => 0

/-- A packet makes of some octets a layer with the fields of a written one, which has
the header that was written and carries these octets for a layer of the next type. -/
def ReadBack (written : BuiltinLayer) (data header carried : Octets) (next : LayerType) : Prop :=
  ∃ read : BuiltinLayer,
    Packet.attempt decoders .standard written.layerType data = (.ok read, false) ∧
      read.wireFields = written.wireFields ∧ read.next = next ∧
      Packet.headerOf read data = header ∧ Packet.payloadOf read data = carried

theorem decode_eq_accept {L : Type} (f : L → BuiltinLayer) {d : Decoding L} {read : L}
    (h : d = .accept read) : d.map f = .accept (f read) := by
  rw [h]
  rfl

/-- It does so if a fresh decoder finds the layer with its header in front of what it
carries. -/
theorem readBack_of_decode (written fresh : BuiltinLayer) {read : BuiltinLayer} (behind : Octets)
    {data header carried : Octets} {next : LayerType} (hdecode : fresh.decode data = .accept read)
    (hfresh : decoders.create written.layerType .standard = some fresh)
    (hdata : data = header ++ (carried ++ behind)) (hheader : header ≠ [])
    (hextent : read.extent = .split header.length (header.length + carried.length))
    (hfields : read.wireFields = written.wireFields) (hnext : read.next = next) :
    ReadBack written data header carried next := by
  have hpos : 0 < header.length := List.length_pos_iff.mpr hheader
  have hlength : header.length + carried.length ≤ data.length := by
    rw [hdata, List.length_append, List.length_append]
    omega
  have hspan : Layer.extent read = .split header.length (header.length + carried.length) := hextent
  have hdefect : (Layer.extent read).defect? data.length = none := by
    rw [hspan]
    exact (Extent.splits_split hpos (Nat.le_add_right _ _) hlength).defect?_eq_none
  have hlayer : Layer.decode fresh data = .accept read := hdecode
  refine ⟨read, ?_, hfields, hnext, ?_, ?_⟩
  · simp only [Packet.attempt, hfresh, hlayer, Decoding.accept, hdefect]
  · rw [Packet.headerOf, hspan, Extent.split, slice, hdata, List.drop_zero, Nat.sub_zero,
      List.take_left]
  · rw [Packet.payloadOf, hspan, Extent.split, slice, hdata, List.drop_left,
      Nat.add_sub_cancel_left, List.take_left]

/-! ### The three kinds of layers -/

variable {l : BuiltinLayer}

theorem layerType_serialize (l : BuiltinLayer) (options : SerializeOptions) (inner : Octets) :
    (l.serialize options inner).layer.layerType = l.layerType := by
  cases l <;> rfl

/-- A link layer is read back with all that is behind its header, its own padding
included. -/
theorem readBack_link (htype : l.layerType ∈ [.ethernet, .loopback]) (hfits : l.Fits)
    (hnext : l.next ≠ .payload) (h : (l.serialize .fixAll inner).outcome = .ok w) :
    w.trailer = List.replicate (l.minFrameLength - (w.header.length + inner.length)) 0 ∧
      ReadBack (l.serialize .fixAll inner).layer (w.header ++ (inner ++ w.trailer)) w.header
        (inner ++ w.trailer) l.next := by
  cases l with
  | ethernet e =>
      have hlength : e.etherType.isLength = false := by
        cases hcase : e.etherType with
        | unknown n =>
            rw [next, Ethernet.next, hcase] at hnext
            exact absurd rfl hnext
        | _ => rfl
      have hwritten : (BuiltinLayer.ethernet e).serialize .fixAll inner =
          ⟨.ethernet e, .ok ⟨e.toOctets, List.replicate
            (Ethernet.minFrameLength - (Ethernet.headerLength + inner.length)) 0⟩⟩ := by
        rw [serialize, Ethernet.of_serialize_fixAll hlength]
        rfl
      rw [hwritten] at h ⊢
      obtain rfl := Except.ok.inj h
      have hheader := Ethernet.length_toOctets e
      have hdecode := Ethernet.decode_of_stands .fresh (stands_append e.toOctets
        (inner ++ List.replicate
          (Ethernet.minFrameLength - (Ethernet.headerLength + inner.length)) 0)) hfits hlength
      refine ⟨by rw [hheader]; rfl, ?_⟩
      refine readBack_of_decode (.ethernet e) (.ethernet .fresh) []
        (decode_eq_accept BuiltinLayer.ethernet hdecode) rfl
        (by simp only [List.append_nil]) ?_ ?_ rfl rfl
      · apply List.ne_nil_of_length_pos
        rw [hheader]
        decide
      · rw [List.length_append, hheader]
        rfl
  | loopback f =>
      have hwritten : (BuiltinLayer.loopback f).serialize .fixAll inner =
          ⟨.loopback f, .ok ⟨le32 f.family.number, []⟩⟩ := rfl
      rw [hwritten] at h ⊢
      obtain rfl := Except.ok.inj h
      have hdecode := Loopback.decode_of_stands .fresh
        (stands_append (le32 f.family.number) (inner ++ [])) hnext
      refine ⟨by simp [minFrameLength], ?_⟩
      refine readBack_of_decode (.loopback f) (.loopback .fresh) []
        (decode_eq_accept BuiltinLayer.loopback hdecode) rfl
        (by simp only [List.append_nil]) (List.cons_ne_nil _ _) ?_ rfl rfl
      rw [List.length_append]
      rfl
  | _ => simp [layerType] at htype

/-- An IPv6 header is read back with the octets that its decoder takes for its payload. -/
theorem readBack_of_decode_ipv6 {p : Ipv6} {data carried : Octets} (behind : Octets)
    (h : (p.serialize .fixAll inner).outcome = .ok w)
    (hdecode : Ipv6.decode .fresh data = .accept
      { (p.serialize .fixAll inner).layer with
        extent := .split w.header.length (w.header.length + carried.length) })
    (hdata : data = w.header ++ (carried ++ behind)) :
    ReadBack ((BuiltinLayer.ipv6 p).serialize .fixAll inner).layer data w.header carried p.next := by
  obtain ⟨-, hwritten, hw⟩ := Ipv6.of_serialize_fixAll h
  have hheader : w.header ≠ [] := by
    rw [hw]
    exact List.cons_ne_nil _ _
  have hnext : (p.serialize .fixAll inner).layer.next = p.next := by
    rw [hwritten]
    rfl
  exact readBack_of_decode (.ipv6 (p.serialize .fixAll inner).layer) (.ipv6 .fresh) behind
    (decode_eq_accept BuiltinLayer.ipv6 hdecode) rfl hdata hheader rfl rfl hnext

/-- A network layer is read back with what it carries; octets behind that are left
out. -/
theorem readBack_network (htype : l.layerType ∈ [.ipv4, .ipv6]) (hfits : l.Fits)
    (hinner : inner ≠ []) (h : (l.serialize .fixAll inner).outcome = .ok w) (behind : Octets) :
    w.trailer = [] ∧
      ReadBack (l.serialize .fixAll inner).layer (w.header ++ (inner ++ behind)) w.header inner
        l.next := by
  cases l with
  | ipv4 p =>
      obtain ⟨htrailer, hdecode⟩ := Ipv4.decode_serialize hfits h .fresh behind
      obtain ⟨encoded, sum, -, -, hwritten, hw⟩ := Ipv4.of_serialize_fixAll h
      have hheader : w.header ≠ [] := by
        rw [hw]
        exact List.cons_ne_nil _ _
      have hnext : (p.serialize .fixAll inner).layer.next = p.next := by
        rw [hwritten]
        rfl
      refine ⟨htrailer, ?_⟩
      exact readBack_of_decode (.ipv4 (p.serialize .fixAll inner).layer) (.ipv4 .fresh) behind
        (decode_eq_accept BuiltinLayer.ipv4 hdecode) rfl rfl hheader rfl rfl hnext
  | ipv6 p =>
      obtain ⟨htrailer, hdecode⟩ := Ipv6.decode_serialize hfits hinner h .fresh behind
      exact ⟨htrailer, readBack_of_decode_ipv6 behind h hdecode rfl⟩
  | _ => simp [layerType] at htype

/-- A transport layer over plain octets is read back with all that is behind its
header. -/
theorem readBack_transport (htype : l.layerType ∈ [.tcp, .udp, .icmpv6]) (hfits : l.Fits)
    (hnext : l.next = .payload) (h : (l.serialize .fixAll inner).outcome = .ok w) :
    w.trailer = [] ∧
      ReadBack (l.serialize .fixAll inner).layer (w.header ++ inner) w.header inner .payload := by
  cases l with
  | tcp t =>
      obtain ⟨htrailer, hdecode⟩ := Tcp.decode_serialize hfits h .fresh
      obtain ⟨encoded, sum, -, -, hw⟩ := Tcp.of_serialize_fixAll h
      have hheader : w.header ≠ [] := by
        rw [hw]
        exact List.cons_ne_nil _ _
      refine ⟨htrailer, ?_⟩
      exact readBack_of_decode (.tcp (t.serialize .fixAll inner).layer) (.tcp .fresh) []
        (decode_eq_accept BuiltinLayer.tcp hdecode) rfl (by simp only [List.append_nil]) hheader
        rfl rfl rfl
  | udp u =>
      obtain ⟨htrailer, hdecode⟩ := Udp.decode_serialize h .fresh
      obtain ⟨sum, -, hwritten, hw⟩ := Udp.of_serialize_fixAll h
      have hheader : w.header ≠ [] := by
        rw [hw]
        exact List.cons_ne_nil _ _
      have hports : (u.serialize .fixAll inner).layer.next = .payload := by
        rw [hwritten]
        exact hnext
      refine ⟨htrailer, ?_⟩
      exact readBack_of_decode (.udp (u.serialize .fixAll inner).layer) (.udp .fresh) []
        (decode_eq_accept BuiltinLayer.udp hdecode) rfl (by simp only [List.append_nil]) hheader
        rfl rfl hports
  | icmpv6 m =>
      obtain ⟨htrailer, hdecode⟩ := Icmpv6.decode_serialize hfits h .fresh
      obtain ⟨sum, hwritten, hw⟩ := Icmpv6.of_serialize_fixAll h
      have hheader : w.header ≠ [] := by
        rw [hw]
        exact List.cons_ne_nil _ _
      have hmessage : (m.serialize .fixAll inner).layer.next = .payload := by
        rw [hwritten]
        exact hnext
      refine ⟨htrailer, ?_⟩
      exact readBack_of_decode (.icmpv6 (m.serialize .fixAll inner).layer) (.icmpv6 .fresh) []
        (decode_eq_accept BuiltinLayer.icmpv6 hdecode) rfl (by simp only [List.append_nil]) hheader
        rfl rfl hmessage
  | _ => simp [layerType] at htype

/-! ## Whole stacks -/

variable {type : LayerType}

/-- A layer that is read back is read with the layers that are read from what it
carries. -/
theorem ReadBack.reads {written : BuiltinLayer} {data header carried : Octets}
    {layers : List (BuiltinLayer × Octets)} (h : ReadBack written data header carried type)
    (hcarried : carried ≠ []) (hrest : Packet.Reads decoders .standard type carried layers false) :
    ∃ read : BuiltinLayer, read.wireFields = written.wireFields ∧
      Packet.Reads decoders .standard written.layerType data ((read, header) :: layers) false := by
  obtain ⟨read, hattempt, hfields, rfl, rfl, rfl⟩ := h
  exact ⟨read, hfields, .more hattempt (Packet.payload_length_ne_zero hcarried) hrest⟩

/-- Plain octets are read as themselves. -/
theorem reads_payload (data : Octets) :
    Packet.Reads decoders .standard .payload data [(.payload ⟨.whole data.length, data⟩, data)]
      false := by
  have hattempt : Packet.attempt decoders .standard .payload data =
      (.ok (.payload ⟨.whole data.length, data⟩), false) := by
    have hfresh : decoders.create .payload .standard = some (.payload .fresh) := rfl
    have hdecode : Layer.decode (BuiltinLayer.payload .fresh) data =
        .accept (.payload ⟨.whole data.length, data⟩) := rfl
    have hdefect : (Layer.extent (BuiltinLayer.payload ⟨.whole data.length, data⟩)).defect?
        data.length = none := Extent.defect?_whole data.length
    simp only [Packet.attempt, hfresh, hdecode, Decoding.accept, hdefect]
  have hreads := Packet.Reads.last hattempt (Nat.sub_self _)
  have hheader : Packet.headerOf (BuiltinLayer.payload ⟨.whole data.length, data⟩) data = data :=
    slice_zero_length data
  rw [hheader] at hreads
  exact hreads

/-- A link, a network and a transport layer that name each other, with fields that
their headers have room for, over octets that nothing else is read from. -/
structure Stackable (link network transport : BuiltinLayer) (payload : Payload) : Prop where
  link_type : link.layerType ∈ [.ethernet, .loopback]
  network_type : network.layerType ∈ [.ipv4, .ipv6]
  transport_type : transport.layerType ∈ [.tcp, .udp, .icmpv6]
  link_next : link.next = network.layerType
  network_next : network.next = transport.layerType
  transport_next : transport.next = .payload
  link_fits : link.Fits
  network_fits : network.Fits
  transport_fits : transport.Fits
  payload_ne_nil : payload.data ≠ []

variable {link network transport : BuiltinLayer} {payload : Payload} {octets : Octets}

/-- What is read from the octets of a stack: the four headers with the fields that
the writing left in the layers, and behind them only the padding of the link. -/
theorem Stackable.reads (hstack : Stackable link network transport payload)
    (h : (serializeStack .fixAll [link, network, transport, .payload payload]).octets =
      .ok octets) :
    ∃ layers : List (BuiltinLayer × Octets),
      Packet.Reads decoders .standard link.layerType octets layers false ∧
        layers.map (fun read => read.1.wireFields) =
          (serializeStack .fixAll [link, network, transport, .payload payload]).layers.map
            wireFields ∧
        octets = (layers.map Prod.snd).flatten ++
          List.replicate (link.minFrameLength - (layers.map Prod.snd).flatten.length) 0 := by
  obtain ⟨packet, wl, hpacket, hlink, hoctets⟩ := serializeStack_cons_octets_iff.mp h
  obtain ⟨segment, wn, hsegment, hnetwork, hpacketEq⟩ := serializeStack_cons_octets_iff.mp hpacket
  obtain ⟨body, wt, hbody, htransport, hsegmentEq⟩ := serializeStack_cons_octets_iff.mp hsegment
  obtain rfl : body = payload.data := by
    obtain ⟨none, wp, hnone, hpayload, hbodyEq⟩ := serializeStack_cons_octets_iff.mp hbody
    obtain rfl := Except.ok.inj hnone
    obtain rfl := Except.ok.inj hpayload
    simpa using hbodyEq
  have hlayers : (serializeStack .fixAll [link, network, transport, .payload payload]).layers =
      [(link.serialize .fixAll packet).layer, (network.serialize .fixAll segment).layer,
        (transport.serialize .fixAll payload.data).layer, .payload payload] := by
    rw [serializeStack_cons_layers hpacket, serializeStack_cons_layers hsegment,
      serializeStack_cons_layers hbody]
    rfl
  -- From the inside out, each header is read in front of what was written before.
  obtain ⟨hnone, hback⟩ := readBack_transport hstack.transport_type hstack.transport_fits
    hstack.transport_next htransport
  rw [hnone, List.append_nil] at hsegmentEq
  rw [← hsegmentEq] at hback
  obtain ⟨t, htfields, htreads⟩ := hback.reads hstack.payload_ne_nil (reads_payload payload.data)
  rw [layerType_serialize, ← hstack.network_next] at htreads
  have hsegment_ne : segment ≠ [] := by
    rw [hsegmentEq]
    exact List.append_ne_nil_of_right_ne_nil _ hstack.payload_ne_nil
  obtain ⟨hnone, hback⟩ := readBack_network hstack.network_type hstack.network_fits hsegment_ne
    hnetwork wl.trailer
  rw [hnone, List.append_nil] at hpacketEq
  rw [← List.append_assoc, ← hpacketEq] at hback
  obtain ⟨n, hnfields, hnreads⟩ := hback.reads hsegment_ne htreads
  rw [layerType_serialize, ← hstack.link_next] at hnreads
  have hpacket_ne : packet ++ wl.trailer ≠ [] := by
    rw [hpacketEq]
    simp [hsegment_ne]
  have hnext : link.next ≠ .payload := by
    rw [hstack.link_next]
    intro hpayload
    have htype := hstack.network_type
    rw [hpayload] at htype
    exact absurd htype (by decide)
  obtain ⟨hpadding, hback⟩ := readBack_link hstack.link_type hstack.link_fits hnext hlink
  obtain ⟨l, hlfields, hlreads⟩ := hback.reads hpacket_ne hnreads
  rw [layerType_serialize, ← hoctets] at hlreads
  refine ⟨_, hlreads, ?_, ?_⟩
  · rw [hlayers]
    simp only [List.map_cons, List.map_nil, hlfields, hnfields, htfields]
    rfl
  · have hflatten : (([(l, wl.header), (n, wn.header), (t, wt.header),
        (.payload ⟨.whole payload.data.length, payload.data⟩, payload.data)] :
          List (BuiltinLayer × Octets)).map Prod.snd).flatten = wl.header ++ packet := by
      simp [hpacketEq, hsegmentEq]
    rw [hflatten, hoctets, List.append_assoc, List.length_append, ← hpadding]

end BuiltinLayer

namespace Packet

open BuiltinLayer (wireFields)

/-- Writing a stack leaves each layer one of its protocol. -/
theorem layerTypes_serializeStack (options : SerializeOptions) (stack : List BuiltinLayer) :
    (serializeStack options stack).layers.map BuiltinLayer.layerType =
      stack.map BuiltinLayer.layerType := by
  induction stack with
  | nil => rfl
  | cons outer inner ih =>
      rw [serializeStack]
      cases (serializeStack options inner).outcome with
      | error error => simp [ih]
      | ok buffer =>
          have houter : (Layer.serialize outer options buffer.octets).layer.layerType =
              outer.layerType := BuiltinLayer.layerType_serialize outer options buffer.octets
          simp [ih, houter]

variable {link network transport : BuiltinLayer} {payload : Payload} {octets : Octets}

/-- A stack that was written with fixed lengths and computed checksums is decoded as
the same four layers, with the fields that the writing left in them; all that is left
over of its octets is the padding of the link. -/
theorem decode_serialized_stack (hstack : link.Stackable network transport payload)
    (h : (serializeStack .fixAll [link, network, transport, .payload payload]).octets =
      .ok octets) :
    let written := (serializeStack .fixAll [link, network, transport, .payload payload]).layers
    let p := make octets link.layerType .standard BuiltinLayer.decoders
    p.state = .done ∧ p.truncated = false ∧
      (p.layers.map fun placed => Layer.layerType placed.layer) =
        [link.layerType, network.layerType, transport.layerType, .payload] ∧
      (p.layers.map fun placed => placed.layer.decoded?.map wireFields) =
        written.map (fun layer => some layer.wireFields) ∧
      octets = (p.layers.map p.contents).flatten ++
        List.replicate (link.minFrameLength - (p.layers.map p.contents).flatten.length) 0 := by
  intro written p
  obtain ⟨layers, hreads, hfields, hoctets⟩ := hstack.reads h
  obtain ⟨hdone, htruncated, hlayers⟩ := make_of_reads hreads rfl
  have htypes : layers.map (fun read => read.1.layerType) =
      [link.layerType, network.layerType, transport.layerType, .payload] := by
    have hmap := congrArg (List.map BuiltinLayer.layerType) hfields
    simp only [List.map_map, Function.comp_def, BuiltinLayer.layerType_wireFields] at hmap
    rw [hmap, layerTypes_serializeStack]
    rfl
  have hcontents : p.layers.map p.contents = layers.map Prod.snd := by
    have hsnd := congrArg (List.map Prod.snd) hlayers
    rw [readLayers, List.map_map, List.map_map] at hsnd
    exact hsnd
  refine ⟨hdone, htruncated, ?_, ?_, ?_⟩
  · have hfst := congrArg (List.map fun read => Layer.layerType read.1) hlayers
    rw [readLayers, List.map_map, List.map_map] at hfst
    exact hfst.trans htypes
  · have hfst := congrArg (List.map fun read => read.1.decoded?.map wireFields) hlayers
    rw [readLayers, List.map_map, List.map_map] at hfst
    have hsome := congrArg (List.map some) hfields
    rw [List.map_map, List.map_map] at hsome
    exact hfst.trans hsome
  · rw [hcontents]
    exact hoctets

/-- A datagram with an unfilled option list, in a frame that has to be padded. -/
def paddedStack : BuiltinLayer × BuiltinLayer × BuiltinLayer × Payload :=
  let source : Ipv4Address := ⟨#v[10, 0, 0, 1]⟩
  let destination : Ipv4Address := ⟨#v[10, 0, 0, 2]⟩
  (.ethernet ⟨.empty, ⟨#v[6, 7, 8, 9, 10, 11]⟩, ⟨#v[0, 1, 2, 3, 4, 5]⟩, .ipv4⟩,
    .ipv4 { Ipv4.fresh with
      protocol := .udp, flags := 2, source := source, destination := destination
      options := [⟨0x94, [0, 0]⟩, ⟨1, []⟩, ⟨0, []⟩] },
    .udp { Udp.ofPorts 1024 80 with network := some ⟨.v4 source, .v4 destination⟩ },
    .ofOctets [104, 105])

/-- The octets of its frame, eight of them padding. -/
def paddedOctets : Octets :=
  [0, 1, 2, 3, 4, 5, 6, 7, 8, 9, 10, 11, 8, 0] ++
    [71, 0, 0, 38, 0, 0, 64, 0, 64, 17, 143, 192, 10, 0, 0, 1, 10, 0, 0, 2] ++
    [148, 4, 0, 0, 1, 0, 0, 0] ++ [4, 0, 0, 80, 0, 10, 127, 30] ++ [104, 105] ++
    [0, 0, 0, 0, 0, 0, 0, 0]

theorem stackable_paddedStack :
    paddedStack.1.Stackable paddedStack.2.1 paddedStack.2.2.1 paddedStack.2.2.2 where
  link_type := by decide
  network_type := by decide
  transport_type := by decide
  link_next := rfl
  network_next := rfl
  transport_next := rfl
  link_fits := ⟨0x0800, rfl⟩
  network_fits := ⟨rfl, by decide, by decide, ⟨17, rfl⟩,
    by decide, by decide, fun _ => ⟨(0, []), rfl, rfl⟩⟩
  transport_fits := trivial
  payload_ne_nil := List.cons_ne_nil _ _

/-- The frame is decoded as the four layers that were written. -/
theorem decode_paddedOctets :
    let stack := [paddedStack.1, paddedStack.2.1, paddedStack.2.2.1, .payload paddedStack.2.2.2]
    let p := make paddedOctets .ethernet .standard BuiltinLayer.decoders
    (serializeStack .fixAll stack).octets = .ok paddedOctets ∧
      p.state = .done ∧ p.truncated = false ∧
      (p.layers.map fun placed => Layer.layerType placed.layer) =
        [.ethernet, .ipv4, .udp, .payload] ∧
      (p.layers.map fun placed => placed.layer.decoded?.map wireFields) =
        (serializeStack .fixAll stack).layers.map (fun layer => some layer.wireFields) ∧
      paddedOctets = (p.layers.map p.contents).flatten ++
        List.replicate (60 - (p.layers.map p.contents).flatten.length) 0 := by
  have hwritten : (serializeStack .fixAll
      [paddedStack.1, paddedStack.2.1, paddedStack.2.2.1, .payload paddedStack.2.2.2]).octets =
        .ok paddedOctets := by
    rw [StackWriting.octets_eq_ok_iff]
    decide +kernel
  exact ⟨hwritten, decode_serialized_stack stackable_paddedStack hwritten⟩

end Packet

end PacketLayers
