import PacketLayers.Proofs.Stack.InPlace
import PacketLayers.Proofs.Stack.Padding

/-!
# What a layer puts around its payload

The header that a layer writes has a length that is known beforehand from the layer alone
(`BuiltinLayer.headerLength?`), and only a frame with fixed lengths has something behind its
payload (`BuiltinLayer.padding`).  Between the two are the octets that were in the buffer.

From layer to layer this adds up.  Wherever a stack is divided, the octets of the layers inside
stand unchanged in the octets of the whole, behind the headers of the layers outside and in
front of their padding (`serializeStack_append`).
-/

namespace PacketLayers

variable {options : SerializeOptions} {inner : Octets} {w : Wrapping}

namespace BuiltinLayer

/-- The length of the header that a layer writes.  There is none for a layer without a form on
the wire, or with an option that has none. -/
def headerLength? : BuiltinLayer → Option Nat
  | .payload p => some p.data.length
  | .ethernet _ => some 14
  | .loopback _ => some 4
  | .ipv4 p =>
    (KindLength.encode (p.options.map fun o => (o.kind, o.data))).map fun encoded =>
      20 + encoded.length
  | .ipv6 _ => some 40
  | .icmpv6 _ => some 4
  | .tcp t =>
    (KindLength.encode (t.options.map fun o => (o.kind.number, o.data))).map fun encoded =>
      20 + encoded.length
  | .udp _ => some 8
  | .dns d => some d.encodedLength
  | _ => none

/-- The octets that a layer writes behind a payload. -/
def padding (layer : BuiltinLayer) (options : SerializeOptions) (inner : Octets) : Octets :=
  match layer with
  | .ethernet _ => if options.fixLengths then Ethernet.padding inner else []
  | _ => []

theorem eq_zero_of_mem_padding {layer : BuiltinLayer} {octet : UInt8}
    (h : octet ∈ layer.padding options inner) : octet = 0 := by
  unfold padding at h
  split at h
  · split at h
    · exact List.eq_of_mem_replicate h
    · cases h
  · cases h

end BuiltinLayer

/-! ## Headers and trailers -/

namespace Ethernet

theorem of_serialize {e : Ethernet} (h : (e.serialize options inner).outcome = .ok w) :
    w.header.length = headerLength ∧
      w.trailer = if options.fixLengths then padding inner else [] := by
  unfold serialize at h
  split at h
  · next hfix =>
      rw [if_pos hfix]
      split at h
      · cases h
      · next fixed _ =>
          obtain rfl := Except.ok.inj h
          exact ⟨fixed.length_toOctets, rfl⟩
  · next hfix =>
      rw [if_neg hfix]
      obtain rfl := Except.ok.inj h
      exact ⟨e.length_toOctets, rfl⟩

end Ethernet

namespace Ipv6

theorem of_serialize {p : Ipv6} (h : (p.serialize options inner).outcome = .ok w) :
    w.header.length = headerLength ∧ w.trailer = [] := by
  unfold serialize at h
  split at h
  · split at h
    · cases h
    · obtain rfl := Except.ok.inj h
      exact ⟨length_toOctets _, rfl⟩
  · obtain rfl := Except.ok.inj h
    exact ⟨length_toOctets _, rfl⟩

end Ipv6

namespace BuiltinLayer

/-- A layer that could be written has a header of the known length, and only its padding
behind the payload. -/
theorem of_serialize {layer : BuiltinLayer} (h : (layer.serialize options inner).outcome = .ok w) :
    layer.headerLength? = some w.header.length ∧ w.trailer = layer.padding options inner := by
  cases layer with
  | payload p | loopback l =>
      obtain rfl := Except.ok.inj h
      exact ⟨rfl, rfl⟩
  | ethernet e =>
      obtain ⟨hheader, htrailer⟩ := Ethernet.of_serialize h
      exact ⟨congrArg some hheader.symm, htrailer⟩
  | ipv4 p =>
      obtain ⟨q, encoded, summed, hencoded, -, -, -, rfl⟩ := Ipv4.of_serialize h
      obtain ⟨hencode, -⟩ := Ipv4.encode_of_encodedOptions hencoded
      rw [headerLength?, hencode, Ipv4.length_toOctets]
      exact ⟨rfl, rfl⟩
  | ipv6 p =>
      obtain ⟨hheader, htrailer⟩ := Ipv6.of_serialize h
      exact ⟨congrArg some hheader.symm, htrailer⟩
  | icmpv6 m =>
      obtain ⟨sum, -, -, rfl⟩ := Icmpv6.of_serialize h
      exact ⟨rfl, rfl⟩
  | tcp t =>
      obtain ⟨encoded, sum, hencoded, -, -, rfl⟩ := Tcp.of_serialize h
      obtain ⟨hencode, -⟩ := Tcp.encode_of_encodedOptions hencoded
      rw [headerLength?, hencode, Tcp.length_toOctets]
      exact ⟨rfl, rfl⟩
  | udp u =>
      obtain ⟨sized, sum, -, -, -, rfl⟩ := Udp.of_serialize h
      exact ⟨rfl, rfl⟩
  | dns d =>
      obtain ⟨hheader, htrailer⟩ := DnsMessage.of_serialize h
      exact ⟨congrArg some hheader.symm, htrailer⟩
  | routerSolicitation l | routerAdvertisement l | neighborSolicitation l
  | neighborAdvertisement l | redirect l | enip l | cip l => cases h

/-- In place, a layer puts a header of the known length in front of the octets in the buffer and
its padding behind them, and is stored as `serialize` stores it. -/
theorem of_writeInto {layer : BuiltinLayer} {b : Buffer} {octets : Octets}
    (h : (layer.writeInto options b).octets = .ok octets) :
    ∃ header, layer.headerLength? = some header.length ∧
      octets = header ++ (b.octets ++ layer.padding options b.octets) ∧
      layer.serialize options b.octets =
        ⟨(layer.writeInto options b).layer, .ok ⟨header, layer.padding options b.octets⟩⟩ := by
  obtain ⟨hlayer, hoctets⟩ := layer.writeInto_agrees options b
  obtain ⟨w, hw, hwrapped⟩ := Dns.except_map_eq_ok_iff.mp (hoctets.symm.trans h)
  obtain ⟨hheader, htrailer⟩ := of_serialize hw
  rw [← htrailer, hlayer]
  exact ⟨w.header, hheader, hwrapped.symm, congrArg (Serialization.mk _) hw⟩

end BuiltinLayer

/-! ## Stacks -/

/-- The octets of the inner layers of a stack are part of the octets of the stack: in front of
them are the headers of the outer layers, and behind them is nothing but padding. -/
theorem serializeStack_append {outer inner : List BuiltinLayer} {octets : Octets}
    (h : (serializeStack options (outer ++ inner)).octets = .ok octets) :
    ∃ (headers body behind : Octets) (lengths : List Nat),
      (serializeStack options inner).octets = .ok body ∧
      octets = headers ++ (body ++ behind) ∧
      outer.map (·.headerLength?) = lengths.map some ∧ headers.length = lengths.sum ∧
      ∀ octet ∈ behind, octet = 0 := by
  induction outer generalizing octets with
  | nil =>
      refine ⟨[], octets, [], [], h, ?_, rfl, rfl, fun octet hmem => absurd hmem List.not_mem_nil⟩
      rw [List.nil_append, List.append_nil]
  | cons layer outer ih =>
      obtain ⟨carried, w, hcarried, hw, rfl⟩ := serializeStack_cons_octets_iff.mp h
      obtain ⟨headers, body, behind, lengths, hbody, rfl, hlengths, hsum, hzero⟩ := ih hcarried
      obtain ⟨hheader, htrailer⟩ := BuiltinLayer.of_serialize hw
      refine ⟨w.header ++ headers, body, behind ++ w.trailer, w.header.length :: lengths, hbody,
        ?_, ?_, ?_, ?_⟩
      · simp only [List.append_assoc]
      · rw [List.map_cons, List.map_cons, hheader, hlengths]
      · rw [List.length_append, List.sum_cons, hsum]
      · rw [List.forall_mem_append]
        refine ⟨hzero, fun octet hmem => ?_⟩
        rw [htrailer] at hmem
        exact BuiltinLayer.eq_zero_of_mem_padding hmem

/-- No layer alters what the layers inside of it wrote.  Written in place, a layer leaves the octets
of the buffer between a header of its own length and its padding; a stack that is written so, layer
by layer, is the stack that `serializeStack` gives; and wherever it is divided, the octets of the
inner layers stand in its octets as one piece. -/
theorem inner_octets_kept (options : SerializeOptions) :
    (∀ (layer : BuiltinLayer) (b : Buffer) (octets : Octets),
      (layer.writeInto options b).octets = .ok octets →
      ∃ header, layer.headerLength? = some header.length ∧
        octets = header ++ (b.octets ++ layer.padding options b.octets) ∧
        layer.serialize options b.octets =
          ⟨(layer.writeInto options b).layer, .ok ⟨header, layer.padding options b.octets⟩⟩) ∧
    (∀ stack : List BuiltinLayer,
      (writeStack options stack).layers = (serializeStack options stack).layers ∧
        (writeStack options stack).octets = (serializeStack options stack).octets) ∧
    ∀ (outer inner : List BuiltinLayer) (octets : Octets),
      (serializeStack options (outer ++ inner)).octets = .ok octets →
      ∃ (headers body behind : Octets) (lengths : List Nat),
        (serializeStack options inner).octets = .ok body ∧
        octets = headers ++ (body ++ behind) ∧
        outer.map (·.headerLength?) = lengths.map some ∧ headers.length = lengths.sum ∧
        ∀ octet ∈ behind, octet = 0 :=
  ⟨fun _ _ _ h => BuiltinLayer.of_writeInto h, writeStack_agrees options,
    fun _ _ _ h => serializeStack_append h⟩

namespace BuiltinLayer

/-- A frame header of a packet. -/
def alertLink : BuiltinLayer := ethernet { Ethernet.fresh with etherType := .ipv4 }

/-- An IPv4 header with an option. -/
def alertNetwork : BuiltinLayer :=
  ipv4 { Ipv4.fresh with protocol := .udp, options := [⟨148, [0, 0]⟩] }

/-- A datagram with one octet. -/
def alertDatagram : List BuiltinLayer := [udp (.ofPorts 1 2), payload (.ofOctets [42])]

/-- The octets of the frame around the datagram, thirteen of them padding. -/
def alertOctets : Octets :=
  List.replicate 12 0 ++ [8, 0] ++
    [70, 0, 0, 33, 0, 0, 0, 0, 64, 17, 229, 200, 0, 0, 0, 0, 0, 0, 0, 0, 148, 4, 0, 0] ++
    [0, 1, 0, 2, 0, 9, 0, 0, 42] ++ List.replicate 13 0

/-- A frame around one octet, and the datagram behind 14 and 24 octets of headers. -/
theorem inner_octets_kept_alert :
    let b := Buffer.empty.prepend [42]
    let frame := List.replicate 12 0 ++ [8, 0, 42] ++ List.replicate 45 0
    (alertLink.writeInto .fixAll b).octets = .ok frame ∧
      (∃ header, alertLink.headerLength? = some header.length ∧
        frame = header ++ (b.octets ++ alertLink.padding .fixAll b.octets) ∧
        alertLink.serialize .fixAll b.octets =
          ⟨(alertLink.writeInto .fixAll b).layer,
            .ok ⟨header, alertLink.padding .fixAll b.octets⟩⟩) ∧
      (serializeStack .fixAll ([alertLink, alertNetwork] ++ alertDatagram)).octets =
        .ok alertOctets ∧
      ∃ (headers body behind : Octets) (lengths : List Nat),
        (serializeStack .fixAll alertDatagram).octets = .ok body ∧
        alertOctets = headers ++ (body ++ behind) ∧
        [alertLink, alertNetwork].map (·.headerLength?) = lengths.map some ∧
        headers.length = lengths.sum ∧ ∀ octet ∈ behind, octet = 0 := by
  intro b frame
  have hframe : (alertLink.writeInto .fixAll b).octets = .ok frame := by
    rw [(alertLink.writeInto_agrees .fixAll b).octets, Buffer.octets_prepend]
    rfl
  have hstack : (serializeStack .fixAll ([alertLink, alertNetwork] ++ alertDatagram)).octets =
      .ok alertOctets := by
    rw [serializeStack_octets_eq_ok_iff]
    decide +kernel
  obtain ⟨hlayer, -, hdivided⟩ := inner_octets_kept .fixAll
  exact ⟨hframe, hlayer alertLink b frame hframe, hstack, hdivided _ _ _ hstack⟩

end BuiltinLayer

end PacketLayers
