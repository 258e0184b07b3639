import PacketLayers.Network.Ipv4
import PacketLayers.Network.Ipv6
import PacketLayers.Proofs.Bounds.Headers
import PacketLayers.Proofs.Headers.Link
import PacketLayers.Proofs.Options.Normal

/-!
# Network headers, written and read

An IPv4 header whose fields fit their bits and whose options have the form in which
a walk hands them out is read back from its octets, with its payload cut at the
length that it declares; so is an IPv6 header.  A header that was read is written
again as the octets it was read from, for IPv4 if the octets behind an end of the
option list are padding that the encoder writes.
-/

namespace PacketLayers

variable {data encoded : Octets} {i : Nat}

/-! ## Addresses -/

namespace Ipv4Address

@[simp] theorem length_toOctets (a : Ipv4Address) : a.toOctets.length = 4 := by
  rw [toOctets, Vector.length_toList]

theorem readAt_of_stands {a : Ipv4Address} (h : Stands data i a.toOctets) :
    readAt data i = a := by
  rw [readAt, h.blockAt_eq]

theorem stands_readAt (h : i + 4 ≤ data.length) : Stands data i (readAt data i).toOctets :=
  stands_blockAt h

end Ipv4Address

namespace Ipv6Address

@[simp] theorem length_toOctets (a : Ipv6Address) : a.toOctets.length = 16 := by
  rw [toOctets, Vector.length_toList]

theorem readAt_of_stands {a : Ipv6Address} (h : Stands data i a.toOctets) :
    readAt data i = a := by
  rw [readAt, h.blockAt_eq]

theorem stands_readAt (h : i + 16 ≤ data.length) : Stands data i (readAt data i).toOctets :=
  stands_blockAt h

end Ipv6Address

/-! ## IPv4 -/

namespace Ipv4

/-- The values that an IPv4 header has room for, with the options as a walk hands
them out. -/
structure Fits (p : Ipv4) : Prop where
  version : p.version = 4
  flags : p.flags.toNat < 8
  fragmentOffset : p.fragmentOffset.toNat < 8192
  protocol : IsCanonical IpProtocol.ofNumber p.protocol
  options : KindLength.DecodedForm (p.options.map fun o => (o.kind, o.data))

theorem length_toOctets (p : Ipv4) (encoded : Octets) :
    (p.toOctets encoded).length = minHeaderLength + encoded.length := by
  simp [toOctets, minHeaderLength]
  omega

/-- The fields of a header stand one behind the other, the options at the end. -/
theorem stands_toOctets_iff {p : Ipv4} :
    Stands data i (p.toOctets encoded) ↔
      Stands data i [versionOctet p.version p.ihl] ∧ Stands data (i + 1) [p.tos] ∧
        Stands data (i + 2) (be16 p.length) ∧ Stands data (i + 4) (be16 p.id) ∧
        Stands data (i + 6) (be16 (fragmentWord p.flags p.fragmentOffset)) ∧
        Stands data (i + 8) [p.ttl] ∧ Stands data (i + 9) [p.protocol.number] ∧
        Stands data (i + 10) (be16 p.checksum) ∧ Stands data (i + 12) p.source.toOctets ∧
        Stands data (i + 16) p.destination.toOctets ∧ Stands data (i + 20) encoded := by
  have hcons (b c : UInt8) (j : Nat) :
      Stands data j [b, c] ↔ Stands data j [b] ∧ Stands data (j + 1) [c] := stands_cons_iff
  simp only [toOctets, stands_append_iff, hcons, length_be16, Ipv4Address.length_toOctets,
    List.length_append, List.length_cons, List.length_nil, and_assoc, Nat.add_assoc,
    Nat.reduceAdd]

/-! ### Fields that share octets -/

theorem version_of_stands {version ihl : UInt8} (h : Stands data 0 [versionOctet version ihl])
    (hversion : version.toNat < 16) : Header.version data = version := by
  apply UInt8.toNat_inj.mp
  rw [Header.version, h.octetAt_eq, versionOctet]
  simp
  omega

theorem ihl_of_stands {version ihl : UInt8} (h : Stands data 0 [versionOctet version ihl])
    (hihl : ihl.toNat < 16) : Header.ihl data = ihl := by
  apply UInt8.toNat_inj.mp
  rw [Header.ihl, h.octetAt_eq, versionOctet]
  simp
  omega

theorem flags_of_stands {flags : UInt8} {offset : UInt16}
    (h : Stands data 6 (be16 (fragmentWord flags offset))) (hflags : flags.toNat < 8) :
    Header.flags data = flags := by
  obtain ⟨hhigh, -⟩ := stands_cons_iff.mp h
  apply UInt8.toNat_inj.mp
  rw [Header.flags, hhigh.octetAt_eq, fragmentWord]
  simp
  omega

theorem fragmentOffset_of_stands {flags : UInt8} {offset : UInt16}
    (h : Stands data 6 (be16 (fragmentWord flags offset))) (hoffset : offset.toNat < 8192) :
    Header.fragmentOffset data = offset := by
  apply UInt16.toNat_inj.mp
  rw [Header.fragmentOffset, h.be16At_eq, fragmentWord]
  simp
  omega

theorem versionOctet_header (data : Octets) :
    versionOctet (Header.version data) (Header.ihl data) = octetAt data 0 := by
  have hoctet : (octetAt data 0).toNat < 256 := (octetAt data 0).toNat_lt
  apply UInt8.toNat_inj.mp
  rw [versionOctet, Header.version, Header.ihl]
  simp
  omega

theorem fragmentWord_header (data : Octets) :
    fragmentWord (Header.flags data) (Header.fragmentOffset data) = be16At data 6 := by
  have hhigh : (octetAt data 6).toNat < 256 := (octetAt data 6).toNat_lt
  have hlow : (octetAt data 7).toNat < 256 := (octetAt data 7).toNat_lt
  apply UInt16.toNat_inj.mp
  rw [fragmentWord, Header.flags, Header.fragmentOffset, be16At]
  simp
  omega

/-! ### Written, then read -/

/-- The fixed fields of a header are read back. -/
theorem readFixed_of_stands {p : Ipv4} (old : Ipv4) (h : Stands data 0 (p.toOctets encoded))
    (hfits : p.Fits) (hihl : p.ihl.toNat < 16) :
    readFixed old data = { p with extent := old.extent, options := [] } := by
  obtain ⟨hversion, htos, hlength, hid, hfragment, httl, hprotocol, hchecksum, hsource,
    hdestination, -⟩ := stands_toOctets_iff.mp h
  have hfour : p.version.toNat < 16 := by
    rw [hfits.version]
    decide
  have hread : IpProtocol.ofNumber (octetAt data 9) = p.protocol := by
    rw [Stands.octetAt_eq hprotocol, hfits.protocol.ofNumber_number IpProtocol.number_ofNumber]
  simp only [readFixed, version_of_stands hversion hfour, ihl_of_stands hversion hihl,
    flags_of_stands hfragment hfits.flags, fragmentOffset_of_stands hfragment hfits.fragmentOffset,
    Header.tos, Header.totalLength, Header.id, Header.ttl, Header.protocol, Header.checksum,
    Header.source, Header.destination, Stands.octetAt_eq htos, Stands.be16At_eq hlength,
    Stands.be16At_eq hid, Stands.octetAt_eq httl, hread, Stands.be16At_eq hchecksum,
    Ipv4Address.readAt_of_stands hsource, Ipv4Address.readAt_of_stands hdestination]

theorem encode_of_encodedOptions {p : Ipv4} (h : p.encodedOptions = .ok encoded) :
    KindLength.encode (p.options.map fun o => (o.kind, o.data)) = some encoded ∧
      minHeaderLength + encoded.length ≤ maxHeaderLength := by
  unfold encodedOptions at h
  split at h
  · cases h
  · next encoded' hencode =>
      split at h
      · cases h
      · next hfit =>
          obtain rfl := Except.ok.inj h
          exact ⟨hencode, Nat.le_of_not_lt hfit⟩

/-- The conditions under which the options of a header are read. -/
theorem headerError_eq_none {p : Ipv4} {available : Nat} (hversion : p.version = 4)
    (hihl : ¬ p.ihl < 5) (htotal : p.length ≠ 0 → p.headerLength ≤ p.length.toNat)
    (hinside : p.headerLength ≤ available) : p.headerError available = none := by
  have hless : ¬ (p.length ≠ 0 ∧ p.length.toNat < p.headerLength) := by
    rintro ⟨hset, hlow⟩
    exact absurd (htotal hset) (Nat.not_le.mpr hlow)
  simp only [headerError, hversion, ne_eq, not_true_eq_false, if_false, hihl]
  rw [if_neg hless, if_neg (Nat.not_lt.mpr hinside)]

/-- A header whose lengths are those of its options is not refused, and the options are looked for
where they stand. -/
theorem area_of_stands {p : Ipv4} (old : Ipv4) (h : Stands data 0 (p.toOctets encoded))
    (hversion : p.version = 4) (hheader : p.headerLength = minHeaderLength + encoded.length)
    (hfit : minHeaderLength + encoded.length ≤ maxHeaderLength)
    (htotal : p.headerLength ≤ p.length.toNat) :
    let read := readFixed old data
    minHeaderLength ≤ data.length ∧ read.headerError data.length = none ∧
      slice data minHeaderLength read.headerLength = encoded := by
  intro read
  obtain ⟨hfirst, -, hlength, -, -, -, -, -, -, -, hoptions⟩ := stands_toOctets_iff.mp h
  have hinside := h.add_length_le (Nat.zero_le _)
  rw [length_toOctets] at hinside
  simp only [headerLength, minHeaderLength, maxHeaderLength, Nat.zero_add]
    at hheader hfit htotal hinside hoptions hlength
  have hfour : read.version = 4 := by
    rw [← hversion]
    exact version_of_stands hfirst (by rw [hversion]; decide)
  have hihl : read.ihl = p.ihl := ihl_of_stands hfirst (by omega)
  have hnumber : read.length = p.length := hlength.be16At_eq
  rw [minHeaderLength]
  refine ⟨by omega, headerError_eq_none hfour ?_ ?_ ?_, ?_⟩
  · rw [hihl, UInt8.not_lt, UInt8.le_iff_toNat_le]
    simp
    omega
  · rw [headerLength, hihl, hnumber]
    exact fun _ => htotal
  · rw [headerLength, hihl]
    omega
  · rw [headerLength, hihl, hheader]
    exact hoptions.eq_slice.symm

/-- A header that fits is read back, its payload cut at the total length. -/
theorem decode_of_stands {p : Ipv4} (old : Ipv4) (h : Stands data 0 (p.toOctets encoded))
    (hfits : p.Fits) (hencoded : p.encodedOptions = .ok encoded)
    (hheader : p.headerLength = minHeaderLength + encoded.length)
    (htotal : p.headerLength ≤ p.length.toNat) (hinside : p.length.toNat ≤ data.length) :
    decode old data = .accept { p with extent := .split p.headerLength p.length.toNat } := by
  obtain ⟨hencode, hfit⟩ := encode_of_encodedOptions hencoded
  obtain ⟨hlong, herror, harea⟩ := area_of_stands old h hfits.version hheader hfit htotal
  have hsmall : p.ihl.toNat < 16 := by
    simp only [headerLength, minHeaderLength, maxHeaderLength] at hheader hfit
    omega
  have hread := readFixed_of_stands old h hfits hsmall
  have hnonzero : p.length ≠ 0 := by
    intro hzero
    rw [hheader, minHeaderLength, hzero, UInt16.toNat_zero] at htotal
    omega
  have hcollect := KindLength.collect_of_encode .ipv4 hfits.options hencode
  simp only [decode, Nat.not_lt.mpr hlong, if_false, herror, harea, hcollect]
  simp only [hread, headerLength, declaredEnd, hnonzero, if_false, Decoding.accept,
    Nat.min_eq_left hinside, Nat.not_lt.mpr hinside, decide_false, Bool.or_false]
  simp [KindLength.toRaw, Function.comp_def]

/-! ### Read, then written -/

/-- What a successful call has read and found. -/
theorem of_decode {old : Ipv4} (h : (decode old data).error = none) :
    let read := readFixed old data
    let walked := OptionWalk.collect .kindLength .ipv4 (slice data minHeaderLength read.headerLength)
    minHeaderLength ≤ data.length ∧ read.headerError data.length = none ∧ walked.error = none ∧
      (decode old data).layer =
        { read with
          options := walked.layer.map fun o => ⟨o.tag.toUInt8, o.data⟩
          extent := .split read.headerLength (min (read.declaredEnd data.length) data.length) } := by
  intro read walked
  by_cases hshort : data.length < minHeaderLength
  · simp [decode, hshort, Decoding.reject] at h
  · simp only [decode, hshort, if_false] at h ⊢
    cases herror : (readFixed old data).headerError data.length with
    | some error => simp [herror, Decoding.reject] at h
    | none =>
        simp only [herror] at h ⊢
        refine ⟨Nat.le_of_not_lt hshort, trivial, h, ?_⟩
        simp only [h]
        rfl

/-- The options of a header that was read fill whole words, which a header has room for. -/
theorem area_of_decode {old : Ipv4} (h : (decode old data).error = none) :
    let header := (readFixed old data).headerLength
    let area := slice data minHeaderLength header
    minHeaderLength + area.length = header ∧ area.length % 4 = 0 ∧
      minHeaderLength + area.length ≤ maxHeaderLength := by
  intro header area
  obtain ⟨-, herror, -, -⟩ := of_decode h
  obtain ⟨hmin, hinside, -⟩ := bounds_of_headerError herror
  have hlength : area.length = header - minHeaderLength := length_slice hinside
  have hihl : (readFixed old data).ihl.toNat < 16 := by
    simp [readFixed, Header.ihl]
    omega
  have hheader : header = (readFixed old data).ihl.toNat * 4 := rfl
  have hfour : 20 ≤ header := hmin
  rw [hlength, maxHeaderLength, minHeaderLength]
  exact ⟨by omega, by omega, by omega⟩

/-- A header that was read is written again, if only padding is left behind an end
of its option list. -/
theorem serialize_of_decode {old : Ipv4} (h : (decode old data).error = none)
    (hlate : KindLength.EndsLate .ipv4
      (slice data minHeaderLength (decode old data).layer.headerLength))
    (inner : Octets) :
    (decode old data).layer.serialize .asStored inner =
      .write (decode old data).layer
        (data.take (decode old data).layer.extent.contents.stop) := by
  obtain ⟨hlong, -, hwalked, hlayer⟩ := of_decode h
  obtain ⟨hlength, hwords, hfit⟩ := area_of_decode h
  rw [minHeaderLength] at hlong
  rw [hlayer] at hlate ⊢
  have hencode := KindLength.encode_of_collect hwords hlate hwalked
  have hmap : ∀ found : List RawOption,
      (found.map fun o => (⟨o.tag.toUInt8, o.data⟩ : Ipv4Option)).map (fun o => (o.kind, o.data)) =
        found.map KindLength.ofRaw := by
    intro found
    rw [List.map_map]
    rfl
  simp only [serialize, encodedOptions, hmap, hencode, Nat.not_lt.mpr hfit, if_false,
    SerializeOptions.asStored, Bool.false_eq_true, serializeHeader, withChecksum, Extent.split]
  congr 1
  refine Stands.eq_take ?_ ?_
  · rw [stands_toOctets_iff]
    simp only [readFixed, versionOctet_header, fragmentWord_header, Header.tos, Header.totalLength,
      Header.id, Header.ttl, Header.protocol, Header.checksum, Header.source, Header.destination,
      IpProtocol.number_ofNumber, Nat.zero_add]
    exact ⟨stands_octetAt (by omega), stands_octetAt (by omega), stands_be16At (by omega),
      stands_be16At (by omega), stands_be16At (by omega), stands_octetAt (by omega),
      stands_octetAt (by omega), stands_be16At (by omega), Ipv4Address.stands_readAt (by omega),
      Ipv4Address.stands_readAt (by omega), stands_slice⟩
  · exact (length_toOctets _ _).trans hlength

end Ipv4

/-! ## IPv6 -/

namespace Ipv6

/-- The values that an IPv6 header has room for. -/
structure Fits (p : Ipv6) : Prop where
  version : p.version = 6
  flowLabel : p.flowLabel.toNat < 1048576
  nextHeader : IsCanonical IpProtocol.ofNumber p.nextHeader

theorem length_toOctets (p : Ipv6) : p.toOctets.length = headerLength := by
  simp [toOctets, headerLength]

/-- The fields of a header stand one behind the other. -/
theorem stands_toOctets_iff {p : Ipv6} :
    Stands data i p.toOctets ↔
      Stands data i (be32 (flowWord p.version p.trafficClass p.flowLabel)) ∧
        Stands data (i + 4) (be16 p.length) ∧ Stands data (i + 6) [p.nextHeader.number] ∧
        Stands data (i + 7) [p.hopLimit] ∧ Stands data (i + 8) p.source.toOctets ∧
        Stands data (i + 24) p.destination.toOctets := by
  have hcons (b c : UInt8) (j : Nat) :
      Stands data j [b, c] ↔ Stands data j [b] ∧ Stands data (j + 1) [c] := stands_cons_iff
  simp only [toOctets, stands_append_iff, hcons, length_be16, length_be32,
    Ipv6Address.length_toOctets, List.length_append, List.length_cons, List.length_nil, and_assoc,
    Nat.add_assoc, Nat.reduceAdd]

/-! ### Fields that share octets -/

theorem toNat_flowWord {version trafficClass : UInt8} {flowLabel : UInt32}
    (hversion : version.toNat < 16) (hlabel : flowLabel.toNat < 1048576) :
    (flowWord version trafficClass flowLabel).toNat =
      version.toNat * 268435456 + trafficClass.toNat * 1048576 + flowLabel.toNat := by
  have hclass : trafficClass.toNat < 256 := trafficClass.toNat_lt
  rw [flowWord, Nat.mod_eq_of_lt hversion, Nat.mod_eq_of_lt hlabel, UInt32.toNat_ofNat',
    Nat.mod_eq_of_lt (by omega)]

theorem flowWord_header (data : Octets) :
    flowWord (Header.version data) (Header.trafficClass data) (Header.flowLabel data) =
      be32At data 0 := by
  have hword : (be32At data 0).toNat < 4294967296 := (be32At data 0).toNat_lt
  apply UInt32.toNat_inj.mp
  rw [flowWord, Header.version, Header.trafficClass, Header.flowLabel]
  simp
  omega

/-! ### Written, then read -/

/-- A header that fits is read back into any layer object. -/
theorem readFixed_of_stands {p : Ipv6} (old : Ipv6) (h : Stands data 0 p.toOctets)
    (hfits : p.Fits) : readFixed old data = { p with extent := old.extent } := by
  obtain ⟨hflow, hlength, hnext, hhop, hsource, hdestination⟩ := stands_toOctets_iff.mp h
  have hsix : p.version.toNat < 16 := by
    rw [hfits.version]
    decide
  have hclass : p.trafficClass.toNat < 256 := p.trafficClass.toNat_lt
  have hlabel := hfits.flowLabel
  have hword : (be32At data 0).toNat =
      p.version.toNat * 268435456 + p.trafficClass.toNat * 1048576 + p.flowLabel.toNat := by
    rw [Stands.be32At_eq hflow, toNat_flowWord hsix hlabel]
  have hversion : Header.version data = p.version := by
    rw [Header.version, hword, ← UInt8.ofNat_toNat (x := p.version)]
    congr 1
    rw [UInt8.ofNat_toNat]
    omega
  have htraffic : Header.trafficClass data = p.trafficClass := by
    apply UInt8.toNat_inj.mp
    rw [Header.trafficClass, hword]
    simp
    omega
  have hflowLabel : Header.flowLabel data = p.flowLabel := by
    apply UInt32.toNat_inj.mp
    rw [Header.flowLabel, hword]
    simp
    omega
  have hread : IpProtocol.ofNumber (octetAt data 6) = p.nextHeader := by
    rw [Stands.octetAt_eq hnext, hfits.nextHeader.ofNumber_number IpProtocol.number_ofNumber]
  simp only [readFixed, hversion, htraffic, hflowLabel, Header.payloadLength, Header.nextHeader,
    Header.hopLimit, Header.source, Header.destination, Stands.be16At_eq hlength, hread,
    Stands.octetAt_eq hhop, Ipv6Address.readAt_of_stands hsource,
    Ipv6Address.readAt_of_stands hdestination]

/-- A header that fits is read back, its payload cut at the payload length. -/
theorem decode_of_stands {p : Ipv6} (old : Ipv6) (h : Stands data 0 p.toOctets) (hfits : p.Fits)
    (hnonzero : p.length ≠ 0) (hinside : headerLength + p.length.toNat ≤ data.length) :
    decode old data =
      .accept { p with extent := .split headerLength (headerLength + p.length.toNat) } := by
  have hshort : ¬ data.length < headerLength := by omega
  have hread := readFixed_of_stands old h hfits
  simp only [decode, hshort, if_false, hread, hfits.version, ne_eq, not_true_eq_false, declaredEnd,
    hnonzero, Nat.min_eq_left hinside, Nat.not_lt.mpr hinside, decide_false, Decoding.accept]

/-! ### Read, then written -/

/-- A header that was read is written again. -/
theorem serialize_of_decode {old : Ipv6} (h : (decode old data).error = none)
    (inner : Octets) :
    (decode old data).layer.serialize .asStored inner =
      .write (decode old data).layer
        (data.take (decode old data).layer.extent.contents.stop) := by
  by_cases hshort : data.length < headerLength
  · simp [decode, hshort, Decoding.reject] at h
  · by_cases hversion : (readFixed old data).version ≠ 6
    · simp [decode, hshort, hversion, Decoding.reject] at h
    · have hlength : 40 ≤ data.length := Nat.le_of_not_lt hshort
      simp only [decode, hshort, hversion, if_false, serialize, SerializeOptions.asStored,
        Bool.false_eq_true, Extent.split]
      congr 1
      refine Stands.eq_take ?_ (length_toOctets _)
      rw [stands_toOctets_iff]
      simp only [readFixed, flowWord_header, Header.payloadLength, Header.nextHeader,
        Header.hopLimit, Header.source, Header.destination, IpProtocol.number_ofNumber,
        Nat.zero_add]
      exact ⟨stands_be32At (by omega), stands_be16At (by omega), stands_octetAt (by omega),
        stands_octetAt (by omega), Ipv6Address.stands_readAt (by omega),
        Ipv6Address.stands_readAt (by omega)⟩

end Ipv6

end PacketLayers
