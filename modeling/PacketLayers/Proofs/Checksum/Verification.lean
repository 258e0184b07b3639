import PacketLayers.Proofs.Checksum.OnesComplement
import PacketLayers.Proofs.Headers.FixedLengths

/-!
# Computed checksums verify

A receiver adds up the words of what it was sent, checksum included, and expects all
ones.  For an IPv4 header it adds the words of the header; for a transport segment also
those of a pseudo header with the addresses, which are laid out differently in the two
IP versions (`PseudoHeader.toOctets?`).

In each of these headers the checksum is a word between octets that do not depend on
it, at an even position.  Hence the sum with the checksum is the sum with zero in its
place, for which the checksum was computed, plus the checksum.  The main statement is
`computed_checksums_verify`.
-/

namespace PacketLayers

/-- The pseudo header of a segment of the given length, for addresses of one version. -/
def PseudoHeader.toOctets? (header : PseudoHeader) (protocol : IpProtocol) (length : Nat) :
    Option Octets :=
  match header.source, header.destination with
  | .v4 source, .v4 destination =>
    some (source.toOctets ++ destination.toOctets ++ [0, protocol.number] ++
      be16 (UInt16.ofNat length))
  | .v6 source, .v6 destination =>
    some (source.toOctets ++ destination.toOctets ++ be32 (UInt32.ofNat length) ++
      [0, 0, 0, protocol.number])
  | _, _ => none

namespace Checksum

/-- The checksum that is sent for a sum: its complement, and all ones instead of zero. -/
def sentFor (sum : Nat) : Nat := if sum = 65535 then 65535 else 65535 - sum

/-- What a receiver finds of a segment that was sent between two addresses. -/
structure SegmentVerifies (network : PseudoHeader) (protocol : IpProtocol) (segment : Octets)
    (onWire stored : UInt16) : Prop where
  /-- The checksum in the header is the one that the layer holds. -/
  onWire_eq : onWire = stored
  /-- Zero would say that there is no checksum. -/
  ne_zero : stored ≠ 0
  /-- The sum of pseudo header and segment is all ones. -/
  sum : segment.length ≤ 65535 →
    ∃ pseudo, network.toOctets? protocol segment.length = some pseudo ∧
      onesSum (pseudo ++ segment) = 0xffff

variable {header : PseudoHeader} {protocol : IpProtocol} {front back pseudo segment : Octets}
  {length : Nat} {sum : UInt16}

/-! ## Computing a checksum -/

theorem orOverflow_bind {α : Type} {sum : Option UInt16} {w : UInt16} (h : sum = some w)
    (f : UInt16 → Except Failure α) : orOverflow sum >>= f = f w := by
  rw [h]
  rfl

/-- The octets of a pseudo header are those of the addresses and what follows them. -/
theorem exists_pseudoTail (h : header.toOctets? protocol length = some pseudo) :
    ∃ tail, pseudoTail header protocol length = some tail ∧
      (addressOctets header.source).length % 2 = 0 ∧
      (addressOctets header.destination).length % 2 = 0 ∧ tail.length % 2 = 0 ∧
      pseudo.length ≤ 40 ∧
      pseudo = addressOctets header.source ++ (addressOctets header.destination ++ tail) := by
  obtain ⟨source, destination⟩ := header
  cases source <;> cases destination
  case v4.v4 | v6.v6 =>
    obtain rfl := Option.some.inj h
    refine ⟨_, rfl, ?_⟩
    simp [addressOctets]
  case v4.v6 | v6.v4 => cases h

/-- Addresses of one version have a checksum, and it is the sum of the pseudo header. -/
theorem exists_pseudoHeader (h : header.toOctets? protocol length = some pseudo) :
    pseudo.length % 2 = 0 ∧
      ∃ sum, pseudoHeader header protocol length = .ok sum ∧ Sums sum pseudo := by
  obtain ⟨tail, htail, hsource, hdestination, heven, hshort, rfl⟩ := exists_pseudoTail h
  simp only [List.length_append] at hshort ⊢
  obtain ⟨first, hfirst, hfirst'⟩ :=
    exists_ofOctets_of_length (by omega : (addressOctets header.source).length ≤ 131074)
  obtain ⟨second, hsecond, hsecond'⟩ :=
    exists_ofOctets_of_length (by omega : (addressOctets header.destination).length ≤ 131074)
  obtain ⟨third, hthird, hthird'⟩ := exists_ofOctets_of_length (by omega : tail.length ≤ 131074)
  obtain ⟨sum, hsum, hsums⟩ := sums_combine (.cons hfirst' (.cons hsecond' (.cons hthird' .nil)))
    (by simp [hsource, hdestination]) (by simp)
  refine ⟨by omega, sum, ?_, by simpa using hsums⟩
  simp only [pseudoHeader, htail, hfirst, hsecond, hthird, Option.bind_eq_bind, Option.bind_some,
    hsum, orOverflow]

/-- There is no pseudo header for addresses of different versions. -/
theorem transport_of_mixed (h : header.toOctets? protocol segment.length = none) :
    transport header protocol segment = .error .mixedFamilies := by
  obtain ⟨source, destination⟩ := header
  cases source <;> cases destination
  case v4.v4 | v6.v6 => cases h
  case v4.v6 | v6.v4 => rfl

theorem toNat_sent (w : UInt16) :
    (if complement w = 0 then (0xffff : UInt16) else complement w).toNat = sentFor w.toNat := by
  have hw : w.toNat < 65536 := w.toNat_lt
  have hvalue := toNat_complement w
  rw [sentFor]
  split
  · next hzero =>
      rw [hzero, UInt16.toNat_zero] at hvalue
      rw [if_pos (by omega)]
      rfl
  · next hnonzero =>
      have hpos : (complement w).toNat ≠ 0 := fun hzero =>
        hnonzero (UInt16.toNat_inj.mp hzero)
      rw [if_neg (by omega), hvalue]

/-- Up to the capacity of the accumulator, a transport checksum is that of the sum of pseudo
header and segment. -/
theorem transport_of_fits (h : header.toOctets? protocol segment.length = some pseudo)
    (hfits : wordSum segment < capacity) :
    ∃ sum, transport header protocol segment = .ok sum ∧
      sum.toNat = sentFor (onesSum (pseudo ++ segment)) := by
  obtain ⟨heven, first, hfirst, hfirst'⟩ := exists_pseudoHeader h
  obtain ⟨second, hsecond, hsecond'⟩ := exists_ofOctets hfits
  obtain ⟨sum, hsum, hsums⟩ := sums_combine_pair hfirst' hsecond' heven
  have hboth : (do combine [first, ← ofOctets segment]) = some sum := by
    rw [hsecond]
    exact hsum
  refine ⟨_, ?_, (toNat_sent sum).trans (congrArg sentFor hsums)⟩
  rw [transport, hfirst]
  exact orOverflow_bind hboth _

/-- Beyond it there is none. -/
theorem transport_of_overflow (h : header.toOctets? protocol segment.length = some pseudo)
    (hlarge : capacity ≤ wordSum segment) :
    transport header protocol segment = .error .overflow := by
  obtain ⟨-, first, hfirst, -⟩ := exists_pseudoHeader h
  rw [transport, hfirst, ofOctets_eq_none_iff.mpr hlarge]
  rfl

/-- A transport checksum is not zero, and that of the sum of pseudo header and segment. -/
theorem of_transport (h : transport header protocol segment = .ok sum) :
    sum ≠ 0 ∧ ∃ pseudo, header.toOctets? protocol segment.length = some pseudo ∧
      pseudo.length % 2 = 0 ∧ sum.toNat = sentFor (onesSum (pseudo ++ segment)) := by
  cases hpseudo : header.toOctets? protocol segment.length with
  | none =>
      rw [transport_of_mixed hpseudo] at h
      cases h
  | some pseudo =>
      obtain ⟨heven, -⟩ := exists_pseudoHeader hpseudo
      by_cases hfits : wordSum segment < capacity
      · obtain ⟨taken, htaken, hvalue⟩ := transport_of_fits hpseudo hfits
        rw [htaken] at h
        obtain rfl := Except.ok.inj h
        refine ⟨?_, pseudo, rfl, heven, hvalue⟩
        rintro rfl
        have hle : onesSum (pseudo ++ segment) ≤ 65535 := (endAround_spec _).1
        rw [UInt16.toNat_zero, sentFor] at hvalue
        split at hvalue <;> omega
      · rw [transport_of_overflow hpseudo (Nat.not_lt.mp hfits)] at h
        cases h

/-- A checksum that was computed over a segment with zero in its place verifies. -/
theorem segmentVerifies_of_transport (hfront : front.length % 2 = 0)
    (h : transport header protocol (front ++ (be16 0 ++ back)) = .ok sum) :
    SegmentVerifies header protocol (front ++ (be16 sum ++ back))
      (be16At (front ++ (be16 sum ++ back)) front.length) sum := by
  obtain ⟨hne, pseudo, hpseudo, heven, hvalue⟩ := of_transport h
  have hlength : (front ++ (be16 0 ++ back)).length = (front ++ (be16 sum ++ back)).length := by
    simp
  rw [hlength] at hpseudo
  refine ⟨?_, hne, fun _ => ⟨pseudo, hpseudo, ?_⟩⟩
  · refine Stands.be16At_eq ?_
    rw [Stands, List.drop_left]
    exact List.prefix_append _ _
  · have hboth : (pseudo ++ front).length % 2 = 0 := by
      rw [List.length_append]
      omega
    rw [← List.append_assoc, onesSum_insert hboth, UInt16.toNat_zero, Nat.add_zero,
      sentFor] at hvalue
    rw [← List.append_assoc, onesSum_insert hboth, hvalue]
    -- All ones were sent for a complement of zero, and are a second zero to the sum.
    split
    · next hones => rw [endAround_add_ones (endAround_eq_ones_iff.mp hones).2, hones]
    · exact endAround_add_complement _

/-- Where addresses are known and checksums computed, a header is to carry the transport
checksum. -/
theorem forHeader_computed {layer : LayerType} {options : SerializeOptions} {stored : UInt16}
    (hcompute : options.computeChecksums = true) :
    forHeader layer protocol options (some header) stored segment =
      (transport header protocol segment).mapError (·.forLayer layer) := by
  simp only [forHeader, hcompute]

/-- Where no checksum is to be computed, or none can be for want of addresses, a header carries the
stored one. -/
theorem forHeader_stored {options : SerializeOptions} {network : Option PseudoHeader}
    (h : ¬ (options.computeChecksums = true ∧ network.isSome)) (layer : LayerType)
    (protocol : IpProtocol) (stored : UInt16) (segment : Octets) :
    forHeader layer protocol options network stored segment = .ok stored := by
  unfold forHeader
  split
  · next hcompute => exact absurd ⟨hcompute, rfl⟩ h
  · rfl

/-- A computed checksum verifies in the header that carries it. -/
theorem segmentVerifies_of_forHeader {layer : LayerType} {options : SerializeOptions}
    {stored : UInt16} (hcompute : options.computeChecksums = true)
    (hfront : front.length % 2 = 0)
    (h : forHeader layer protocol options (some header) stored (front ++ (be16 0 ++ back)) =
      .ok sum) :
    SegmentVerifies header protocol (front ++ (be16 sum ++ back))
      (be16At (front ++ (be16 sum ++ back)) front.length) sum := by
  rw [forHeader_computed hcompute] at h
  cases htransport : transport header protocol (front ++ (be16 0 ++ back)) with
  | error failure =>
      rw [htransport] at h
      cases h
  | ok computed =>
      rw [htransport] at h
      obtain rfl := Except.ok.inj h
      exact segmentVerifies_of_transport hfront htransport

end Checksum

/-! ## The words around a checksum -/

variable {options : SerializeOptions} {inner : Octets} {w : Wrapping}

namespace Ipv4

variable {p : Ipv4}

/-- A header is written around its checksum. -/
theorem toOctets_around_checksum (p : Ipv4) (encoded : Octets) :
    ∃ front back : Octets, front.length = 10 ∧ back.length = 8 + encoded.length ∧
      ∀ sum : UInt16,
        { p with checksum := sum }.toOctets encoded = front ++ (be16 sum ++ back) := by
  refine ⟨[versionOctet p.version p.ihl, p.tos] ++ be16 p.length ++ be16 p.id ++
      be16 (fragmentWord p.flags p.fragmentOffset) ++ [p.ttl, p.protocol.number],
    p.source.toOctets ++ (p.destination.toOctets ++ encoded), by simp, ?_, ?_⟩
  · rw [List.length_append, List.length_append, Ipv4Address.length_toOctets,
      Ipv4Address.length_toOctets]
    omega
  · intro sum
    simp only [toOctets, List.append_assoc]

/-- The computed checksum is the complement of the sum around it, which a header cannot make too
large. -/
theorem exists_computeChecksum (p : Ipv4) {encoded : Octets}
    (hlength : encoded.length ≤ maxHeaderLength) :
    ∃ sum, Header.computeChecksum (p.toOctets encoded) (minHeaderLength + encoded.length) =
        some sum ∧
      Checksum.onesSum ({ p with checksum := sum }.toOctets encoded) = 0xffff := by
  obtain ⟨front, back, hfront, hback, hparts⟩ := toOctets_around_checksum p encoded
  rw [maxHeaderLength] at hlength
  have hwhole : (p.toOctets encoded).take (minHeaderLength + encoded.length) =
      front ++ (be16 p.checksum ++ back) := by
    rw [← length_toOctets p encoded, List.take_length, ← hparts p.checksum]
  have hbefore : (front ++ (be16 p.checksum ++ back)).take 10 = front := by
    rw [← hfront, List.take_left]
  have hbehind : (front ++ (be16 p.checksum ++ back)).drop 12 = back := by
    rw [← List.append_assoc]
    exact List.drop_left' (by simp [hfront])
  obtain ⟨first, hfirst, hfirst'⟩ :=
    Checksum.exists_ofOctets_of_length (by omega : front.length ≤ 131074)
  obtain ⟨second, hsecond, hsecond'⟩ :=
    Checksum.exists_ofOctets_of_length (by omega : back.length ≤ 131074)
  obtain ⟨sum, hsum, hsums⟩ := Checksum.sums_combine_pair hfirst' hsecond' (by omega)
  have hvalue : (Checksum.complement sum).toNat = 65535 - Checksum.onesSum (front ++ back) := by
    rw [Checksum.toNat_complement, hsums]
  refine ⟨Checksum.complement sum, ?_, ?_⟩
  · simp only [Header.computeChecksum, hwhole, hbefore, hbehind, hfirst, hsecond,
      Option.bind_eq_bind, Option.bind_some, hsum]
    rfl
  · rw [hparts, Checksum.onesSum_insert (by simp [hfront]), hvalue]
    exact Checksum.endAround_add_complement _

/-- There is always a checksum for a header. -/
theorem exists_withChecksum (p : Ipv4) {encoded : Octets}
    (hlength : encoded.length ≤ maxHeaderLength) (options : SerializeOptions) :
    ∃ summed, p.withChecksum options encoded = some summed := by
  obtain ⟨sum, hsum, -⟩ := exists_computeChecksum p hlength
  rw [withChecksum, hsum]
  split <;> exact ⟨_, rfl⟩

/-- What a receiver finds of a written header. -/
theorem verifies_of_serialize (hcompute : options.computeChecksums = true)
    (h : (p.serialize options inner).outcome = .ok w) :
    Checksum.onesSum w.header = 0xffff ∧
      Header.checksum w.header = (p.serialize options inner).layer.checksum := by
  obtain ⟨q, encoded, summed, hencoded, -, hsummed, hlayer, rfl⟩ := of_serialize h
  obtain ⟨front, back, hfront, -, hparts⟩ := toOctets_around_checksum q encoded
  have hshort := (encode_of_encodedOptions hencoded).2
  obtain ⟨sum, hsum, hones⟩ := exists_computeChecksum q (by omega : encoded.length ≤ _)
  rw [withChecksum, if_pos hcompute, hsum] at hsummed
  obtain rfl := Option.some.inj hsummed
  rw [hlayer]
  refine ⟨hones, Stands.be16At_eq ?_⟩
  rw [hparts, Stands, ← hfront, List.drop_left]
  exact List.prefix_append _ _

end Ipv4

namespace Tcp

variable {t : Tcp} {network : PseudoHeader}

/-- A header is written around its checksum. -/
theorem toOctets_around_checksum (t : Tcp) (encoded : Octets) :
    ∃ front back : Octets, front.length = 16 ∧
      ∀ sum : UInt16,
        { t with checksum := sum }.toOctets encoded = front ++ (be16 sum ++ back) := by
  refine ⟨be16 t.sourcePort ++ be16 t.destinationPort ++ be32 t.seq ++ be32 t.ack ++
      be16 (offsetWord t.dataOffset t.flags) ++ be16 t.window, be16 t.urgent ++ encoded,
    by simp, ?_⟩
  intro sum
  simp only [toOctets, List.append_assoc]

/-- What a receiver finds of a written segment. -/
theorem verifies_of_serialize (hcompute : options.computeChecksums = true)
    (hnetwork : t.network = some network) (h : (t.serialize options inner).outcome = .ok w) :
    Checksum.SegmentVerifies network .tcp (w.header ++ (inner ++ w.trailer))
      (Header.checksum (w.header ++ (inner ++ w.trailer)))
      (t.serialize options inner).layer.checksum := by
  obtain ⟨encoded, sum, -, hsum, hlayer, rfl⟩ := of_serialize h
  have hsized : (t.withDataOffset options encoded).network = some network := by
    rw [← hnetwork, withDataOffset]
    split <;> rfl
  obtain ⟨front, back, hfront, hparts⟩ :=
    toOctets_around_checksum (t.withDataOffset options encoded) encoded
  rw [hparts, hsized, List.append_assoc, List.append_assoc] at hsum
  have hverifies := Checksum.segmentVerifies_of_forHeader hcompute (by simp [hfront]) hsum
  rw [hfront] at hverifies
  rw [hlayer, List.append_nil, hparts, List.append_assoc, List.append_assoc]
  exact hverifies

end Tcp

namespace Udp

variable {u : Udp} {network : PseudoHeader}

theorem network_of_withLength {sized : Udp} {length : Nat}
    (h : u.withLength options length = .ok sized) : sized.network = u.network := by
  unfold withLength at h
  split at h
  · split at h
    · cases h
    · rw [← Except.ok.inj h]
  · rw [← Except.ok.inj h]

/-- What a receiver finds of a written datagram. -/
theorem verifies_of_serialize (hcompute : options.computeChecksums = true)
    (hnetwork : u.network = some network) (h : (u.serialize options inner).outcome = .ok w) :
    Checksum.SegmentVerifies network .udp (w.header ++ (inner ++ w.trailer))
      (Header.checksum (w.header ++ (inner ++ w.trailer)))
      (u.serialize options inner).layer.checksum := by
  obtain ⟨sized, sum, hsized, hsum, hlayer, rfl⟩ := of_serialize h
  rw [network_of_withLength hsized, hnetwork, toOctets, List.append_assoc] at hsum
  rw [hlayer, List.append_nil, toOctets, List.append_assoc]
  exact Checksum.segmentVerifies_of_forHeader hcompute (by simp) hsum

end Udp

namespace Icmpv6

variable {m : Icmpv6} {network : PseudoHeader}

/-- What a receiver finds of a written message. -/
theorem verifies_of_serialize (hcompute : options.computeChecksums = true)
    (hnetwork : m.network = some network) (h : (m.serialize options inner).outcome = .ok w) :
    Checksum.SegmentVerifies network .icmpv6 (w.header ++ (inner ++ w.trailer))
      (Header.checksum (w.header ++ (inner ++ w.trailer)))
      (m.serialize options inner).layer.checksum := by
  obtain ⟨sum, hsum, hlayer, rfl⟩ := of_serialize h
  rw [hnetwork, toOctets, List.append_assoc] at hsum
  rw [hlayer, List.append_nil, toOctets, List.append_assoc]
  exact Checksum.segmentVerifies_of_forHeader hcompute (by simp) hsum

end Icmpv6

/-! ## At the receiver -/

/-- What an encoder computes, a receiver verifies.  For an IPv4 header the sum of its octets is all
ones, options included.  For a transport segment whose addresses are known, the checksum is not
zero, and the sum of pseudo header and segment is all ones where the segment has at most 65535
octets. -/
theorem computed_checksums_verify (options : SerializeOptions)
    (hcompute : options.computeChecksums = true) (inner : Octets) :
    (∀ (p : Ipv4) (w : Wrapping), (p.serialize options inner).outcome = .ok w →
      Checksum.onesSum w.header = 0xffff ∧
        Ipv4.Header.checksum w.header = (p.serialize options inner).layer.checksum) ∧
    (∀ (t : Tcp) (network : PseudoHeader) (w : Wrapping), t.network = some network →
      (t.serialize options inner).outcome = .ok w →
        Checksum.SegmentVerifies network .tcp (w.header ++ (inner ++ w.trailer))
          (Tcp.Header.checksum (w.header ++ (inner ++ w.trailer)))
          (t.serialize options inner).layer.checksum) ∧
    (∀ (u : Udp) (network : PseudoHeader) (w : Wrapping), u.network = some network →
      (u.serialize options inner).outcome = .ok w →
        Checksum.SegmentVerifies network .udp (w.header ++ (inner ++ w.trailer))
          (Udp.Header.checksum (w.header ++ (inner ++ w.trailer)))
          (u.serialize options inner).layer.checksum) ∧
    (∀ (m : Icmpv6) (network : PseudoHeader) (w : Wrapping), m.network = some network →
      (m.serialize options inner).outcome = .ok w →
        Checksum.SegmentVerifies network .icmpv6 (w.header ++ (inner ++ w.trailer))
          (Icmpv6.Header.checksum (w.header ++ (inner ++ w.trailer)))
          (m.serialize options inner).layer.checksum) :=
  ⟨fun _ _ h => Ipv4.verifies_of_serialize hcompute h,
    fun _ _ _ hnetwork h => Tcp.verifies_of_serialize hcompute hnetwork h,
    fun _ _ _ hnetwork h => Udp.verifies_of_serialize hcompute hnetwork h,
    fun _ _ _ hnetwork h => Icmpv6.verifies_of_serialize hcompute hnetwork h⟩

/-- With one octet of payload, the words of this datagram and of its pseudo header add up to
all ones. -/
def zeroSumDatagram : Udp :=
  (Udp.ofPorts 0x4332 53).withNetwork
    ⟨.v6 ⟨#v[0x20, 1, 0x0d, 0xb8, 0, 0, 0, 0, 0, 0, 0, 0, 0, 0, 0, 1]⟩,
      .v6 ⟨#v[0x20, 1, 0x0d, 0xb8, 0, 0, 0, 0, 0, 0, 0, 0, 0, 0, 0, 2]⟩⟩

theorem zeroSumDatagram_verifies :
    (zeroSumDatagram.serialize .fixAll [0x61]).outcome =
        .ok ⟨[0x43, 0x32, 0, 53, 0, 9, 0xff, 0xff], []⟩ ∧
      ∃ network, zeroSumDatagram.network = some network ∧
        Checksum.SegmentVerifies network .udp [0x43, 0x32, 0, 53, 0, 9, 0xff, 0xff, 0x61]
          0xffff (zeroSumDatagram.serialize .fixAll [0x61]).layer.checksum :=
  ⟨rfl, _, rfl, (computed_checksums_verify .fixAll rfl [0x61]).2.2.1 zeroSumDatagram _
    ⟨[0x43, 0x32, 0, 53, 0, 9, 0xff, 0xff], []⟩ rfl rfl⟩

end PacketLayers
