import PacketLayers.Proofs.Headers.Network
import PacketLayers.Proofs.Headers.Transport

/-!
# Headers written with fixed lengths and computed checksums

What writing changes in a layer are its lengths and its checksum (`of_serialize`), and
where lengths are fixed they are then those of the header and of the payload that it was
written for (`of_serialize_fixAll`).  In front of that payload the header is read back
(`decode_serialize`): a network layer leaves out whatever is behind its payload, and a
transport layer carries all that is behind its header.
-/

namespace PacketLayers

variable {options : SerializeOptions} {inner : Octets} {w : Wrapping}

theorem stands_append (part behind : Octets) : Stands (part ++ behind) 0 part :=
  stands_zero_iff.mpr (List.prefix_append _ _)

namespace Ethernet

theorem of_serialize_fixAll {e : Ethernet} (htype : e.etherType.isLength = false) :
    e.serialize .fixAll inner =
      ⟨e, .ok ⟨e.toOctets,
        List.replicate (minFrameLength - (headerLength + inner.length)) 0⟩⟩ := by
  simp [serialize, SerializeOptions.fixAll, withLength, htype]

end Ethernet

namespace Ipv4

/-- A header with its checksum is written as it is. -/
theorem of_serializeHeader {p : Ipv4} {encoded : Octets}
    (h : (p.serializeHeader options encoded).outcome = .ok w) :
    ∃ summed, p.withChecksum options encoded = some summed ∧
      (p.serializeHeader options encoded).layer = summed ∧
      w = ⟨summed.toOctets encoded, []⟩ := by
  unfold serializeHeader at h ⊢
  split at h
  · cases h
  · next summed hsummed => exact ⟨summed, hsummed, rfl, (Except.ok.inj h).symm⟩

/-- What is written is a header with the options of the layer, and with its lengths where they
are to be fixed. -/
theorem of_serialize {p : Ipv4} (h : (p.serialize options inner).outcome = .ok w) :
    ∃ (q : Ipv4) (encoded : Octets) (summed : Ipv4), p.encodedOptions = .ok encoded ∧
      (options.fixLengths = true →
        minHeaderLength + encoded.length + inner.length ≤ 65535 ∧
        q =
          { p with
            ihl := UInt8.ofNat ((minHeaderLength + encoded.length) / 4)
            length := UInt16.ofNat (minHeaderLength + encoded.length + inner.length) }) ∧
      q.withChecksum options encoded = some summed ∧
      (p.serialize options inner).layer = summed ∧
      w = ⟨summed.toOctets encoded, []⟩ := by
  unfold serialize at h ⊢
  split at h
  · cases h
  · next encoded hencoded =>
      simp only at h ⊢
      split at h
      · next hfix =>
          split at h
          · cases h
          · next hfits =>
              obtain ⟨summed, hsummed, hlayer, hw⟩ := of_serializeHeader h
              rw [if_pos hfix, if_neg hfits]
              exact ⟨_, encoded, summed, hencoded, fun _ => ⟨Nat.le_of_not_lt hfits, rfl⟩,
                hsummed, hlayer, hw⟩
      · next hfix =>
          obtain ⟨summed, hsummed, hlayer, hw⟩ := of_serializeHeader h
          rw [if_neg hfix]
          exact ⟨p, encoded, summed, hencoded, fun hfix' => absurd hfix' hfix, hsummed, hlayer,
            hw⟩

/-- A checksum is all that it changes in a layer. -/
theorem of_withChecksum {p summed : Ipv4} {encoded : Octets}
    (h : p.withChecksum options encoded = some summed) :
    ∃ sum, summed = { p with checksum := sum } := by
  unfold withChecksum at h
  split at h
  · obtain ⟨sum, -, rfl⟩ := Option.map_eq_some_iff.mp h
    exact ⟨sum, rfl⟩
  · obtain rfl := Option.some.inj h
    exact ⟨p.checksum, rfl⟩

/-- Only the lengths and the checksum change, and they are those of the header. -/
theorem of_serialize_fixAll {p : Ipv4} (h : (p.serialize .fixAll inner).outcome = .ok w) :
    let written := (p.serialize .fixAll inner).layer
    ∃ encoded sum, p.encodedOptions = .ok encoded ∧
      minHeaderLength + encoded.length + inner.length ≤ 65535 ∧
      written =
        { p with
          ihl := UInt8.ofNat ((minHeaderLength + encoded.length) / 4)
          length := UInt16.ofNat (minHeaderLength + encoded.length + inner.length)
          checksum := sum } ∧
      w = ⟨written.toOctets encoded, []⟩ := by
  intro written
  obtain ⟨q, encoded, summed, hencoded, hfixed, hsummed, hwritten, hw⟩ := of_serialize h
  obtain ⟨hfits, rfl⟩ := hfixed rfl
  obtain ⟨sum, rfl⟩ := of_withChecksum hsummed
  rw [← hwritten] at hw
  exact ⟨encoded, sum, hencoded, hfits, hwritten, hw⟩

/-- A written header is read back from in front of its payload, whatever is behind. -/
theorem decode_serialize {p : Ipv4} (hfits : p.Fits)
    (h : (p.serialize .fixAll inner).outcome = .ok w) (old : Ipv4) (behind : Octets) :
    w.trailer = [] ∧ decode old (w.header ++ (inner ++ behind)) =
      .accept
        { (p.serialize .fixAll inner).layer with
          extent := .split w.header.length (w.header.length + inner.length) } := by
  obtain ⟨encoded, sum, hencoded, htotal, hwritten, rfl⟩ := of_serialize_fixAll h
  obtain ⟨hencode, hfit⟩ := encode_of_encodedOptions hencoded
  have hwords := KindLength.length_encode hencode
  simp only [minHeaderLength, maxHeaderLength] at htotal hfit hwritten
  generalize (p.serialize .fixAll inner).layer = written at hwritten ⊢
  have hwell : written.Fits := by
    rw [hwritten]
    exact ⟨hfits.version, hfits.flags, hfits.fragmentOffset, hfits.protocol, hfits.options⟩
  have hoptions : written.encodedOptions = .ok encoded := by
    rw [hwritten]
    exact hencoded
  have hheader : written.headerLength = 20 + encoded.length := by
    rw [hwritten, headerLength, UInt8.toNat_ofNat', Nat.mod_eq_of_lt (by omega)]
    omega
  have hnumber : written.length.toNat = 20 + encoded.length + inner.length := by
    rw [hwritten, UInt16.toNat_ofNat', Nat.mod_eq_of_lt (by omega)]
  have hlength : (written.toOctets encoded).length = 20 + encoded.length :=
    length_toOctets written encoded
  refine ⟨rfl, ?_⟩
  rw [decode_of_stands old (stands_append _ _) hwell hoptions hheader, hheader, hnumber, hlength]
  · omega
  · rw [List.length_append, List.length_append, hlength]
    omega

end Ipv4

namespace Ipv6

/-- Only the length changes, and it is that of the payload. -/
theorem of_serialize_fixAll {p : Ipv6} (h : (p.serialize .fixAll inner).outcome = .ok w) :
    let written := (p.serialize .fixAll inner).layer
    inner.length ≤ 65535 ∧ written = { p with length := UInt16.ofNat inner.length } ∧
      w = ⟨written.toOctets, []⟩ := by
  intro written
  by_cases hlong : 65535 < inner.length
  · simp only [serialize, SerializeOptions.fixAll, if_true, hlong, Serialization.refuse] at h
    cases h
  · simp only [written, serialize, SerializeOptions.fixAll, if_true, hlong, if_false,
      Serialization.write, Except.ok.injEq] at h ⊢
    exact ⟨Nat.le_of_not_lt hlong, trivial, h.symm⟩

/-- A written header is read back from in front of its payload, whatever is behind. -/
theorem decode_serialize {p : Ipv6} (hfits : p.Fits) (hinner : inner ≠ [])
    (h : (p.serialize .fixAll inner).outcome = .ok w) (old : Ipv6) (behind : Octets) :
    w.trailer = [] ∧ decode old (w.header ++ (inner ++ behind)) =
      .accept
        { (p.serialize .fixAll inner).layer with
          extent := .split w.header.length (w.header.length + inner.length) } := by
  obtain ⟨hlong, hwritten, rfl⟩ := of_serialize_fixAll h
  have hpos : 0 < inner.length := List.length_pos_iff.mpr hinner
  generalize (p.serialize .fixAll inner).layer = written at hwritten ⊢
  have hwell : written.Fits := by
    rw [hwritten]
    exact ⟨hfits.version, hfits.flowLabel, hfits.nextHeader⟩
  have hnumber : written.length.toNat = inner.length := by
    rw [hwritten, UInt16.toNat_ofNat', Nat.mod_eq_of_lt (by omega)]
  have hnonzero : written.length ≠ 0 := by
    intro hzero
    rw [hzero, UInt16.toNat_zero] at hnumber
    omega
  have hlength := length_toOctets written
  refine ⟨rfl, ?_⟩
  rw [decode_of_stands old (stands_append _ _) hwell hnonzero, hnumber, hlength]
  rw [List.length_append, List.length_append, hlength]
  omega

end Ipv6

namespace Tcp

/-- With its options encoded, a header depends on its checksum alone. -/
theorem outcome_serialize {t sized : Tcp} {encoded : Octets} (h : t.encodedOptions = .ok encoded)
    (hsized : t.withDataOffset options encoded = sized) :
    (t.serialize options inner).outcome =
      (Checksum.forHeader .tcp .tcp options sized.network sized.checksum
        ({ sized with checksum := 0 }.toOctets encoded ++ inner)).map fun sum =>
          ⟨{ sized with checksum := sum }.toOctets encoded, []⟩ := by
  simp only [serialize, h, hsized]
  cases Checksum.forHeader .tcp .tcp options sized.network sized.checksum
    ({ sized with checksum := 0 }.toOctets encoded ++ inner) <;> rfl

/-- What is written is a header with the options of the layer, around the checksum that it is
to carry. -/
theorem of_serialize {t : Tcp} (h : (t.serialize options inner).outcome = .ok w) :
    ∃ encoded sum, t.encodedOptions = .ok encoded ∧
      let sized := t.withDataOffset options encoded
      Checksum.forHeader .tcp .tcp options sized.network sized.checksum
        ({ sized with checksum := 0 }.toOctets encoded ++ inner) = .ok sum ∧
      (t.serialize options inner).layer = { sized with checksum := sum } ∧
      w = ⟨{ sized with checksum := sum }.toOctets encoded, []⟩ := by
  unfold serialize at h ⊢
  split at h
  · cases h
  · next encoded hencoded =>
      simp only at h ⊢
      split at h
      · cases h
      · next sum hsum =>
          exact ⟨encoded, sum, hencoded, hsum, rfl, (Except.ok.inj h).symm⟩

/-- Only the data offset and the checksum change. -/
theorem of_serialize_fixAll {t : Tcp} (h : (t.serialize .fixAll inner).outcome = .ok w) :
    let written := (t.serialize .fixAll inner).layer
    ∃ encoded sum, t.encodedOptions = .ok encoded ∧
      written =
        { t with
          dataOffset := UInt8.ofNat ((minHeaderLength + encoded.length) / 4)
          checksum := sum } ∧
      w = ⟨written.toOctets encoded, []⟩ := by
  intro written
  obtain ⟨encoded, sum, hencoded, -, hwritten, hw⟩ := of_serialize h
  rw [← hwritten] at hw
  exact ⟨encoded, sum, hencoded, hwritten, hw⟩

/-- A written header is read back from in front of its payload. -/
theorem decode_serialize {t : Tcp} (hfits : t.Fits)
    (h : (t.serialize .fixAll inner).outcome = .ok w) (old : Tcp) :
    w.trailer = [] ∧ decode old (w.header ++ inner) =
      .accept
        { (t.serialize .fixAll inner).layer with
          extent := .split w.header.length (w.header.length + inner.length)
          network := old.network
          streamPayloads := old.streamPayloads } := by
  obtain ⟨encoded, sum, hencoded, hwritten, rfl⟩ := of_serialize_fixAll h
  obtain ⟨hencode, hfit⟩ := encode_of_encodedOptions hencoded
  have hwords := KindLength.length_encode hencode
  simp only [minHeaderLength, maxHeaderLength] at hfit hwritten
  generalize (t.serialize .fixAll inner).layer = written at hwritten ⊢
  have hwell : written.Fits := by
    rw [hwritten]
    exact ⟨hfits.flags, hfits.kinds, hfits.options⟩
  have hoptions : written.encodedOptions = .ok encoded := by
    rw [hwritten]
    exact hencoded
  have hheader : written.headerLength = 20 + encoded.length := by
    rw [hwritten, headerLength, UInt8.toNat_ofNat', Nat.mod_eq_of_lt (by omega)]
    omega
  have hlength : (written.toOctets encoded).length = 20 + encoded.length :=
    length_toOctets written encoded
  refine ⟨rfl, ?_⟩
  rw [decode_of_stands old (stands_append _ _) hwell hoptions hheader, hheader, List.length_append,
    hlength]

end Tcp

namespace Udp

/-- With its length settled, a header depends on its checksum alone. -/
theorem outcome_serialize {u sized : Udp} (h : u.withLength options inner.length = .ok sized) :
    (u.serialize options inner).outcome =
      (Checksum.forHeader .udp .udp options sized.network sized.checksum
        ({ sized with checksum := 0 }.toOctets ++ inner)).map fun sum =>
          ⟨{ sized with checksum := sum }.toOctets, []⟩ := by
  simp only [serialize, h]
  cases Checksum.forHeader .udp .udp options sized.network sized.checksum
    ({ sized with checksum := 0 }.toOctets ++ inner) <;> rfl

/-- What is written is the header of the datagram, around the checksum that it is to carry. -/
theorem of_serialize {u : Udp} (h : (u.serialize options inner).outcome = .ok w) :
    ∃ (sized : Udp) (sum : UInt16), u.withLength options inner.length = .ok sized ∧
      Checksum.forHeader .udp .udp options sized.network sized.checksum
        ({ sized with checksum := 0 }.toOctets ++ inner) = .ok sum ∧
      (u.serialize options inner).layer = { sized with checksum := sum } ∧
      w = ⟨{ sized with checksum := sum }.toOctets, []⟩ := by
  unfold serialize at h ⊢
  split at h
  · cases h
  · next sized hsized =>
      simp only at h ⊢
      split at h
      · cases h
      · next sum hsum =>
          exact ⟨sized, sum, hsized, hsum, rfl, (Except.ok.inj h).symm⟩

/-- Only the length and the checksum change, and the length is that of the datagram. -/
theorem of_serialize_fixAll {u : Udp} (h : (u.serialize .fixAll inner).outcome = .ok w) :
    let written := (u.serialize .fixAll inner).layer
    ∃ sum, headerLength + inner.length ≤ 65535 ∧
      written =
        { u with length := UInt16.ofNat (headerLength + inner.length), checksum := sum } ∧
      w = ⟨written.toOctets, []⟩ := by
  intro written
  obtain ⟨sized, sum, hsized, -, hwritten, hw⟩ := of_serialize h
  simp only [withLength, SerializeOptions.fixAll, if_true] at hsized
  split at hsized
  · cases hsized
  · next hlong =>
      obtain rfl := Except.ok.inj hsized
      rw [← hwritten] at hw
      exact ⟨sum, Nat.le_of_not_lt hlong, hwritten, hw⟩

/-- A written header is read back from in front of its payload. -/
theorem decode_serialize {u : Udp} (h : (u.serialize .fixAll inner).outcome = .ok w)
    (old : Udp) :
    w.trailer = [] ∧ decode old (w.header ++ inner) =
      .accept
        { (u.serialize .fixAll inner).layer with
          extent := .split w.header.length (w.header.length + inner.length)
          network := old.network } := by
  obtain ⟨sum, hlong, hwritten, rfl⟩ := of_serialize_fixAll h
  generalize (u.serialize .fixAll inner).layer = written at hwritten ⊢
  have hnumber : written.length.toNat = headerLength + inner.length := by
    rw [hwritten, UInt16.toNat_ofNat', Nat.mod_eq_of_lt (by omega)]
  have hlength := length_toOctets written
  refine ⟨rfl, ?_⟩
  rw [decode_of_stands old (stands_append _ _), hnumber, hlength]
  · omega
  · rw [List.length_append, hlength]
    omega

end Udp

namespace Icmpv6

/-- A header depends on its checksum alone. -/
theorem outcome_serialize (m : Icmpv6) :
    (m.serialize options inner).outcome =
      (Checksum.forHeader .icmpv6 .icmpv6 options m.network m.checksum
        ({ m with checksum := 0 }.toOctets ++ inner)).map fun sum =>
          ⟨{ m with checksum := sum }.toOctets, []⟩ := by
  rw [serialize]
  cases Checksum.forHeader .icmpv6 .icmpv6 options m.network m.checksum
    ({ m with checksum := 0 }.toOctets ++ inner) <;> rfl

/-- What is written is the header of the message, around the checksum that it is to carry. -/
theorem of_serialize {m : Icmpv6} (h : (m.serialize options inner).outcome = .ok w) :
    ∃ sum, Checksum.forHeader .icmpv6 .icmpv6 options m.network m.checksum
        ({ m with checksum := 0 }.toOctets ++ inner) = .ok sum ∧
      (m.serialize options inner).layer = { m with checksum := sum } ∧
      w = ⟨{ m with checksum := sum }.toOctets, []⟩ := by
  unfold serialize at h ⊢
  split at h
  · cases h
  · next sum hsum =>
      exact ⟨sum, hsum, rfl, (Except.ok.inj h).symm⟩

/-- Only the checksum changes. -/
theorem of_serialize_fixAll {m : Icmpv6} (h : (m.serialize .fixAll inner).outcome = .ok w) :
    let written := (m.serialize .fixAll inner).layer
    ∃ sum, written = { m with checksum := sum } ∧ w = ⟨written.toOctets, []⟩ := by
  intro written
  obtain ⟨sum, -, hwritten, hw⟩ := of_serialize h
  rw [← hwritten] at hw
  exact ⟨sum, hwritten, hw⟩

/-- A written header is read back from in front of its payload. -/
theorem decode_serialize {m : Icmpv6} (htype : IsCanonical ControlMessage.ofNumber m.messageType)
    (h : (m.serialize .fixAll inner).outcome = .ok w) (old : Icmpv6) :
    w.trailer = [] ∧ decode old (w.header ++ inner) =
      .accept
        { (m.serialize .fixAll inner).layer with
          extent := .split w.header.length (w.header.length + inner.length)
          network := old.network } := by
  obtain ⟨sum, hwritten, rfl⟩ := of_serialize_fixAll h
  generalize (m.serialize .fixAll inner).layer = written at hwritten ⊢
  have hwell : IsCanonical ControlMessage.ofNumber written.messageType := by
    rw [hwritten]
    exact htype
  refine ⟨rfl, ?_⟩
  rw [decode_of_stands old (stands_append _ _) hwell, List.length_append, length_toOctets]

end Icmpv6

end PacketLayers
