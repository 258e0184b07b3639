import PacketLayers.Proofs.Stack.RoundTrip

/-!
# Padding behind a network layer

A link pads short frames, and the length in an IPv6 header is what keeps the padding out of the
payload.  There is one length that does not: zero, which a decoder takes for a length that was
left open.  A header that is written around an empty payload has just that length.

So of a frame around an IPv6 header the payload is read back as it was written, unless it is
empty; then the padding of the frame is read in its place.  The main statement is
`Packet.ipv6_payload_of_frame`.
-/

namespace PacketLayers

variable {data inner : Octets} {w : Wrapping}

/-! ## Headers around a payload -/

namespace Ethernet

/-- The padding of a frame behind what it carries. -/
def padding (inner : Octets) : Octets :=
  List.replicate (minFrameLength - (headerLength + inner.length)) 0

theorem serialize_outcome {e : Ethernet} (htype : e.etherType.isLength = false) :
    (e.serialize .fixAll inner).outcome = .ok ⟨e.toOctets, padding inner⟩ := by
  rw [of_serialize_fixAll htype]
  rfl

end Ethernet

namespace Ipv6

/-- The header with the length of a payload. -/
def withLengthOf (p : Ipv6) (inner : Octets) : Ipv6 :=
  { p with length := UInt16.ofNat inner.length }

theorem serialize_eq_write {p : Ipv6} (hlength : inner.length ≤ 65535) :
    p.serialize .fixAll inner = .write (p.withLengthOf inner) (p.withLengthOf inner).toOctets := by
  simp only [serialize, SerializeOptions.fixAll, if_true, Nat.not_lt.mpr hlength, if_false,
    withLengthOf]

/-- A header with a length of zero is read back with all octets behind it. -/
theorem decode_of_stands_of_length_zero {p : Ipv6} (old : Ipv6) (h : Stands data 0 p.toOctets)
    (hfits : p.Fits) (hzero : p.length = 0) :
    decode old data = .accept { p with extent := .split headerLength data.length } := by
  have hlength : headerLength ≤ data.length := by
    simpa [length_toOctets] using h.add_length_le (Nat.zero_le _)
  have hread := readFixed_of_stands old h hfits
  simp only [decode, Nat.not_lt.mpr hlength, if_false, hread, hfits.version, ne_eq,
    not_true_eq_false, declaredEnd, hzero, if_true, Nat.min_self, Nat.lt_irrefl, decide_false,
    Decoding.accept]

/-- A header that was written around an empty payload is read back with whatever is behind it. -/
theorem decode_serialize_nil {p : Ipv6} (hfits : p.Fits)
    (h : (p.serialize .fixAll []).outcome = .ok w) (old : Ipv6) (behind : Octets) :
    w.trailer = [] ∧ decode old (w.header ++ behind) =
      .accept
        { (p.serialize .fixAll []).layer with
          extent := .split w.header.length (w.header.length + behind.length) } := by
  obtain ⟨-, hwritten, rfl⟩ := of_serialize_fixAll h
  generalize (p.serialize .fixAll []).layer = written at hwritten ⊢
  have hwell : written.Fits := by
    rw [hwritten]
    exact ⟨hfits.version, hfits.flowLabel, hfits.nextHeader⟩
  have hzero : written.length = 0 := by
    rw [hwritten]
    rfl
  refine ⟨rfl, ?_⟩
  rw [decode_of_stands_of_length_zero old (stands_append _ _) hwell hzero, List.length_append,
    length_toOctets]

end Ipv6

/-! ## What is read back -/

namespace BuiltinLayer

/-- An IPv6 header is read back with the payload it was written for, and with the octets behind
that payload only if it is empty. -/
theorem readBack_ipv6 {p : Ipv6} (hfits : p.Fits)
    (h : ((BuiltinLayer.ipv6 p).serialize .fixAll inner).outcome = .ok w) (behind : Octets) :
    w.trailer = [] ∧
      ReadBack ((BuiltinLayer.ipv6 p).serialize .fixAll inner).layer
        (w.header ++ (inner ++ behind)) w.header (if inner = [] then behind else inner)
        p.next := by
  by_cases hempty : inner = []
  · subst hempty
    obtain ⟨htrailer, hdecode⟩ := Ipv6.decode_serialize_nil hfits h .fresh behind
    have hdata : w.header ++ ([] ++ behind) = w.header ++ (behind ++ []) := by
      rw [List.nil_append, List.append_nil]
    rw [if_pos rfl]
    exact ⟨htrailer, readBack_of_decode_ipv6 [] h hdecode hdata⟩
  · have htype : (BuiltinLayer.ipv6 p).layerType ∈ [.ipv4, .ipv6] :=
      List.mem_cons_of_mem _ (List.mem_singleton.mpr rfl)
    rw [if_neg hempty]
    exact readBack_network htype hfits hempty h behind

/-- A layer that is read back from what another one carries is the second one of the packet. -/
theorem ReadBack.second {outer inner : BuiltinLayer}
    {data outerHeader carried header payload : Octets} {type : LayerType}
    (houter : ReadBack outer data outerHeader carried inner.layerType)
    (hinner : ReadBack inner carried header payload type) (hcarried : carried ≠ []) :
    let p := Packet.make data outer.layerType .standard decoders
    ∃ placed read, p.layers[1]? = some placed ∧ placed.layer = .decoded read ∧
      read.wireFields = inner.wireFields ∧ p.payload placed = payload := by
  obtain ⟨first, hfirst, -, hnext, -, rfl⟩ := houter
  obtain ⟨read, hread, hfields, -, -, rfl⟩ := hinner
  rw [← hnext] at hread
  obtain ⟨placed, hplaced, hlayer, -, hpayload⟩ :=
    Packet.exists_second_of_attempt hfirst hcarried hread
  exact ⟨placed, read, hplaced, hlayer, hfields, hpayload⟩

end BuiltinLayer

/-! ## Frames around an IPv6 header -/

namespace Packet

variable {e : Ethernet} {p : Ipv6} {body : Payload}

/-- The octets of a frame around an IPv6 header and a payload. -/
theorem octets_ipv6Frame (htype : e.etherType = .ipv6) (hlength : body.data.length ≤ 65535) :
    let packet := (p.withLengthOf body.data).toOctets ++ body.data
    (serializeStack .fixAll [BuiltinLayer.ethernet e, .ipv6 p, .payload body]).octets =
      .ok (e.toOctets ++ (packet ++ Ethernet.padding packet)) := by
  intro packet
  have hpayload : Layer.serialize (BuiltinLayer.payload body) .fixAll [] =
      .write (.payload body) body.data := rfl
  have hbody : (serializeStack .fixAll [BuiltinLayer.payload body]).octets = .ok body.data := by
    rw [(serializeStack_cons_of_write serializeStack_nil_octets hpayload).1, List.append_nil]
  have hnetwork : Layer.serialize (BuiltinLayer.ipv6 p) .fixAll body.data = _ :=
    Serialization.map_eq_write BuiltinLayer.ipv6 (Ipv6.serialize_eq_write hlength)
  have hlink : (e.serialize .fixAll packet).outcome = _ :=
    Ethernet.serialize_outcome (by rw [htype]; decide)
  obtain ⟨hpacket, -⟩ := serializeStack_cons_of_write hbody hnetwork
  exact serializeStack_cons_octets_iff.mpr ⟨packet, _, hpacket, hlink, rfl⟩

/-- A frame that is written around an IPv6 header and a payload gives back the header, with the
length that was fixed, and the payload.  Only an empty payload is not given back: the six octets
of padding that its frame needs are read in its place. -/
theorem ipv6_payload_of_frame (htype : e.etherType = .ipv6) (hfits : p.Fits)
    (hlength : body.data.length ≤ 65535) :
    ∃ octets,
      (serializeStack .fixAll [BuiltinLayer.ethernet e, .ipv6 p, .payload body]).octets =
        .ok octets ∧
      let packet := make octets .ethernet .standard BuiltinLayer.decoders
      ∃ placed read, packet.layers[1]? = some placed ∧ placed.layer = .decoded read ∧
        read.wireFields = (BuiltinLayer.ipv6 (p.withLengthOf body.data)).wireFields ∧
        packet.payload placed = if body.data = [] then List.replicate 6 0 else body.data := by
  let packet := (p.withLengthOf body.data).toOctets ++ body.data
  have hnext : (BuiltinLayer.ethernet e).next = .ipv6 := by
    rw [BuiltinLayer.next, Ethernet.next, htype]
    rfl
  have hcode : (BuiltinLayer.ethernet e).Fits := ⟨0x86dd, by rw [htype]; rfl⟩
  have hlink : ((BuiltinLayer.ethernet e).serialize .fixAll packet).outcome = _ :=
    Ethernet.serialize_outcome (by rw [htype]; decide)
  have hwritten : (BuiltinLayer.ipv6 p).serialize .fixAll body.data = _ :=
    Serialization.map_eq_write BuiltinLayer.ipv6 (Ipv6.serialize_eq_write hlength)
  have hnetwork : ((BuiltinLayer.ipv6 p).serialize .fixAll body.data).outcome =
      .ok ⟨(p.withLengthOf body.data).toOctets, []⟩ := by
    rw [hwritten]
    rfl
  obtain ⟨-, hframe⟩ :=
    BuiltinLayer.readBack_link (List.mem_cons_self ..) hcode (by rw [hnext]; decide) hlink
  obtain ⟨-, hpacket⟩ := BuiltinLayer.readBack_ipv6 hfits hnetwork (Ethernet.padding packet)
  rw [hnext] at hframe
  rw [hwritten, ← List.append_assoc] at hpacket
  have hcarried : packet ++ Ethernet.padding packet ≠ [] := List.cons_ne_nil _ _
  obtain ⟨placed, read, hplaced, hlayer, hfields, hpayload⟩ := hframe.second hpacket hcarried
  refine ⟨_, octets_ipv6Frame htype hlength, placed, read, hplaced, hlayer, hfields, ?_⟩
  apply hpayload.trans
  split
  · next hempty =>
      -- A header of 14 and one of 40 octets leave six of the least length of a frame.
      simp only [packet, hempty, List.append_nil, Ethernet.padding, Ipv6.length_toOctets]
      rfl
  · rfl

/-- The one octet that a frame carries behind an IPv6 header is read back. -/
theorem ipv6_payload_of_frame_single :
    let link : Ethernet := { Ethernet.fresh with etherType := .ipv6 }
    let body : Payload := .ofOctets [42]
    link.etherType = .ipv6 ∧ Ipv6.fresh.Fits ∧ body.data.length ≤ 65535 ∧
      ∃ octets,
        (serializeStack .fixAll [BuiltinLayer.ethernet link, .ipv6 .fresh, .payload body]).octets =
          .ok octets ∧
        let packet := make octets .ethernet .standard BuiltinLayer.decoders
        ∃ placed read, packet.layers[1]? = some placed ∧ placed.layer = .decoded read ∧
          read.wireFields = (BuiltinLayer.ipv6 { Ipv6.fresh with length := 1 }).wireFields ∧
          packet.payload placed = [42] := by
  intro link body
  have hfits : Ipv6.fresh.Fits := ⟨rfl, by decide, ⟨59, rfl⟩⟩
  exact ⟨rfl, hfits, by decide, ipv6_payload_of_frame rfl hfits (by decide)⟩

/-- A frame around an IPv6 header without a payload. -/
def bareIpv6Frame : Octets :=
  List.replicate 12 0 ++ [0x86, 0xdd, 0x60, 0, 0, 0, 0, 0, 59, 64] ++ List.replicate 38 0

/-- Six octets of padding are read where nothing was written. -/
theorem padding_read_as_payload :
    let link : Ethernet := { Ethernet.fresh with etherType := .ipv6 }
    let stack := [BuiltinLayer.ethernet link, .ipv6 .fresh, .payload (.ofOctets [])]
    let packet := make bareIpv6Frame .ethernet .standard BuiltinLayer.decoders
    Ipv6.fresh.Fits ∧ (serializeStack .fixAll stack).octets = .ok bareIpv6Frame ∧
      packet.layers[1]?.map packet.payload = some [0, 0, 0, 0, 0, 0] := by
  refine ⟨⟨rfl, by decide, ⟨59, rfl⟩⟩, ?_, by decide +kernel⟩
  rw [StackWriting.octets_eq_ok_iff]
  decide +kernel

end Packet

end PacketLayers
