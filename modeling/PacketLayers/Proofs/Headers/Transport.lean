import PacketLayers.Control.Icmpv6
import PacketLayers.Proofs.Bounds.Headers
import PacketLayers.Proofs.Headers.Link
import PacketLayers.Proofs.Options.Normal
import PacketLayers.Transport.Tcp
import PacketLayers.Transport.Udp

/-!
# Transport headers, written and read

TCP, UDP and ICMPv6 headers are read back from their octets, for a TCP header if its
fields fit their bits and its options have the form in which a walk hands them out.
What a decoder was told about the enclosing header is no field of the octets and
stays as it was.

A header that was read is written again as the octets it was read from; a TCP header
only if its reserved bits are zero, for which it has no field.
-/

namespace PacketLayers

variable {data encoded : Octets} {i : Nat}

/-! ## TCP -/

namespace Tcp

/-- The values that a TCP header has room for, with the options as a walk hands them
out. -/
structure Fits (t : Tcp) : Prop where
  flags : t.flags.bits.toNat < 512
  kinds : ∀ option ∈ t.options, IsCanonical TcpOptionKind.ofNumber option.kind
  options : KindLength.DecodedForm (t.options.map fun o => (o.kind.number, o.data))

theorem length_toOctets (t : Tcp) (encoded : Octets) :
    (t.toOctets encoded).length = minHeaderLength + encoded.length := by
  simp [toOctets, minHeaderLength]
  omega

/-- The fields of a header stand one behind the other, the options at the end. -/
theorem stands_toOctets_iff {t : Tcp} :
    Stands data i (t.toOctets encoded) ↔
      Stands data i (be16 t.sourcePort) ∧ Stands data (i + 2) (be16 t.destinationPort) ∧
        Stands data (i + 4) (be32 t.seq) ∧ Stands data (i + 8) (be32 t.ack) ∧
        Stands data (i + 12) (be16 (offsetWord t.dataOffset t.flags)) ∧
        Stands data (i + 14) (be16 t.window) ∧ Stands data (i + 16) (be16 t.checksum) ∧
        Stands data (i + 18) (be16 t.urgent) ∧ Stands data (i + 20) encoded := by
  simp only [toOctets, stands_append_iff, length_be16, length_be32, List.length_append, and_assoc,
    Nat.reduceAdd]

/-! ### Fields that share octets -/

theorem dataOffset_of_stands {dataOffset : UInt8} {flags : TcpFlags}
    (h : Stands data 12 (be16 (offsetWord dataOffset flags))) (hoffset : dataOffset.toNat < 16) :
    Header.dataOffset data = dataOffset := by
  obtain ⟨hhigh, -⟩ := stands_cons_iff.mp h
  apply UInt8.toNat_inj.mp
  rw [Header.dataOffset, hhigh.octetAt_eq, offsetWord]
  simp
  omega

theorem flags_of_stands {dataOffset : UInt8} {flags : TcpFlags}
    (h : Stands data 12 (be16 (offsetWord dataOffset flags))) (hflags : flags.bits.toNat < 512) :
    Header.flags data = flags := by
  have hbits : (offsetWord dataOffset flags).toNat % 512 = flags.bits.toNat := by
    rw [offsetWord]
    simp
    omega
  rw [Header.flags, h.be16At_eq, hbits, UInt16.ofNat_toNat]

/-- Data offset and flags are all of their word, except for the reserved bits. -/
theorem offsetWord_header (hreserved : octetAt data 12 &&& 0x0e = 0) :
    offsetWord (Header.dataOffset data) (Header.flags data) = be16At data 12 := by
  have hhigh : (octetAt data 12).toNat < 256 := (octetAt data 12).toNat_lt
  have hlow : (octetAt data 13).toNat < 256 := (octetAt data 13).toNat_lt
  have hmask : ∀ n < 16, n &&& 14 = 0 → n < 2 := by decide
  have hzero : (octetAt data 12).toNat &&& 14 = 0 := by
    have hnat := congrArg UInt8.toNat hreserved
    simpa using hnat
  have hnibble : (octetAt data 12).toNat % 16 &&& 14 = 0 := by
    have hmod := Nat.and_mod_two_pow (a := (octetAt data 12).toNat) (b := 14) (n := 4)
    rw [hzero] at hmod
    exact hmod.symm
  have hclear := hmask _ (Nat.mod_lt _ (by decide)) hnibble
  apply UInt16.toNat_inj.mp
  rw [offsetWord, Header.dataOffset, Header.flags, be16At]
  simp
  omega

/-! ### Written, then read -/

/-- The fixed fields of a header are read back. -/
theorem readFixed_of_stands {t : Tcp} (old : Tcp) (h : Stands data 0 (t.toOctets encoded))
    (hfits : t.Fits) (hoffset : t.dataOffset.toNat < 16) :
    readFixed old data =
      { t with
        extent := old.extent
        options := []
        network := old.network
        streamPayloads := old.streamPayloads } := by
  obtain ⟨hsource, hdestination, hseq, hack, hword, hwindow, hchecksum, hurgent, -⟩ :=
    stands_toOctets_iff.mp h
  simp only [readFixed, Header.sourcePort, Header.destinationPort, Header.seq, Header.ack,
    Header.window, Header.checksum, Header.urgent, dataOffset_of_stands hword hoffset,
    flags_of_stands hword hfits.flags, Stands.be16At_eq hsource, Stands.be16At_eq hdestination,
    Stands.be32At_eq hseq, Stands.be32At_eq hack, Stands.be16At_eq hwindow,
    Stands.be16At_eq hchecksum, Stands.be16At_eq hurgent]

theorem encode_of_encodedOptions {t : Tcp} (h : t.encodedOptions = .ok encoded) :
    KindLength.encode (t.options.map fun o => (o.kind.number, o.data)) = some encoded ∧
      minHeaderLength + encoded.length ≤ maxHeaderLength := by
  unfold encodedOptions at h
  split at h
  · cases h
  · next encoded' hencode =>
      split at h
      · cases h
      · next hfit =>
          obtain rfl := Except.ok.inj h
          exact ⟨hencode, Nat.le_of_not_lt hfit⟩

/-- Options with canonical kinds are what a walk over them gives. -/
theorem map_toRaw_eq {options : List TcpOption}
    (hkinds : ∀ option ∈ options, IsCanonical TcpOptionKind.ofNumber option.kind) :
    ((options.map fun o => (o.kind.number, o.data)).map KindLength.toRaw).map
      (fun o => (⟨.ofNumber o.tag.toUInt8, o.data⟩ : TcpOption)) = options := by
  rw [List.map_map, List.map_map]
  conv =>
    rhs
    rw [← List.map_id options]
  apply List.map_congr_left
  intro option hmem
  have hkind := (hkinds option hmem).ofNumber_number TcpOptionKind.number_ofNumber
  simp [KindLength.toRaw, hkind]

/-- A header whose data offset is that of its options is not refused, and the options are looked
for where they stand. -/
theorem area_of_stands {t : Tcp} (old : Tcp) (h : Stands data 0 (t.toOctets encoded))
    (hheader : t.headerLength = minHeaderLength + encoded.length)
    (hfit : minHeaderLength + encoded.length ≤ maxHeaderLength) :
    let read := readFixed old data
    minHeaderLength ≤ data.length ∧ ¬ read.dataOffset < 5 ∧ read.headerLength ≤ data.length ∧
      slice data minHeaderLength read.headerLength = encoded := by
  intro read
  obtain ⟨-, -, -, -, hword, -, -, -, hoptions⟩ := stands_toOctets_iff.mp h
  have hinside := h.add_length_le (Nat.zero_le _)
  rw [length_toOctets] at hinside
  simp only [headerLength, minHeaderLength, maxHeaderLength, Nat.zero_add]
    at hheader hfit hinside hoptions hword
  have hread : read.dataOffset = t.dataOffset := dataOffset_of_stands hword (by omega)
  rw [minHeaderLength, headerLength, hread]
  refine ⟨by omega, ?_, by omega, ?_⟩
  · rw [UInt8.not_lt, UInt8.le_iff_toNat_le]
    simp
    omega
  · rw [hheader]
    exact hoptions.eq_slice.symm

/-- A header that fits is read back, with all that is behind it as its payload. -/
theorem decode_of_stands {t : Tcp} (old : Tcp) (h : Stands data 0 (t.toOctets encoded))
    (hfits : t.Fits) (hencoded : t.encodedOptions = .ok encoded)
    (hheader : t.headerLength = minHeaderLength + encoded.length) :
    decode old data =
      .accept
        { t with
          extent := .split t.headerLength data.length
          network := old.network
          streamPayloads := old.streamPayloads } := by
  obtain ⟨hencode, hfit⟩ := encode_of_encodedOptions hencoded
  obtain ⟨hlong, hoffset, hinside, harea⟩ := area_of_stands old h hheader hfit
  have hsmall : t.dataOffset.toNat < 16 := by
    simp only [headerLength, minHeaderLength, maxHeaderLength] at hheader hfit
    omega
  have hread := readFixed_of_stands old h hfits hsmall
  have hcollect := KindLength.collect_of_encode .tcp hfits.options hencode
  simp only [decode, Nat.not_lt.mpr hlong, if_false, hoffset, Nat.not_lt.mpr hinside, harea,
    hcollect]
  simp only [hread, headerLength, Decoding.accept, map_toRaw_eq hfits.kinds]

/-! ### Read, then written -/

/-- What a successful call has read and found. -/
theorem of_decode {old : Tcp} (h : (decode old data).error = none) :
    let read := readFixed old data
    let walked := OptionWalk.collect .kindLength .tcp (slice data minHeaderLength read.headerLength)
    minHeaderLength ≤ data.length ∧ ¬ read.dataOffset < 5 ∧ read.headerLength ≤ data.length ∧
      walked.error = none ∧
      (decode old data).layer =
        { read with
          options := walked.layer.map fun o => ⟨.ofNumber o.tag.toUInt8, o.data⟩
          extent := .split read.headerLength data.length } := by
  intro read walked
  by_cases hshort : data.length < minHeaderLength
  · simp [decode, hshort, Decoding.reject] at h
  · by_cases hoffset : (readFixed old data).dataOffset < 5
    · simp [decode, hshort, hoffset, Decoding.reject] at h
    · by_cases hcut : data.length < (readFixed old data).headerLength
      · simp [decode, hshort, hoffset, hcut, Decoding.reject] at h
      · simp only [decode, hshort, hoffset, hcut, if_false] at h ⊢
        refine ⟨Nat.le_of_not_lt hshort, hoffset, Nat.le_of_not_lt hcut, h, ?_⟩
        simp only [h]
        rfl

/-- The options of a header that was read fill whole words, which a header has room for. -/
theorem area_of_decode {old : Tcp} (h : (decode old data).error = none) :
    let header := (readFixed old data).headerLength
    let area := slice data minHeaderLength header
    minHeaderLength + area.length = header ∧ area.length % 4 = 0 ∧
      minHeaderLength + area.length ≤ maxHeaderLength := by
  intro header area
  obtain ⟨-, hoffset, hinside, -, -⟩ := of_decode h
  have hmin := minHeaderLength_le hoffset
  have hlength : area.length = header - minHeaderLength := length_slice hinside
  have hsmall : (readFixed old data).dataOffset.toNat < 16 := by
    have hoctet : (octetAt data 12).toNat < 256 := (octetAt data 12).toNat_lt
    simp [readFixed, Header.dataOffset]
    omega
  have hheader : header = (readFixed old data).dataOffset.toNat * 4 := rfl
  have hfour : 20 ≤ header := hmin
  rw [hlength, maxHeaderLength, minHeaderLength]
  exact ⟨by omega, by omega, by omega⟩

/-- A header that was read is written again, if its reserved bits are zero and only
padding is left behind an end of its option list. -/
theorem serialize_of_decode {old : Tcp} (h : (decode old data).error = none)
    (hreserved : octetAt data 12 &&& 0x0e = 0)
    (hlate : KindLength.EndsLate .tcp
      (slice data minHeaderLength (decode old data).layer.headerLength))
    (inner : Octets) :
    (decode old data).layer.serialize .asStored inner =
      .write (decode old data).layer
        (data.take (decode old data).layer.extent.contents.stop) := by
  obtain ⟨hlong, -, -, hwalked, hlayer⟩ := of_decode h
  obtain ⟨hlength, hwords, hfit⟩ := area_of_decode h
  rw [minHeaderLength] at hlong
  rw [hlayer] at hlate ⊢
  have hencode := KindLength.encode_of_collect hwords hlate hwalked
  have hmap : ∀ found : List RawOption,
      (found.map fun o => (⟨.ofNumber o.tag.toUInt8, o.data⟩ : TcpOption)).map
        (fun o => (o.kind.number, o.data)) = found.map KindLength.ofRaw := by
    intro found
    rw [List.map_map]
    simp [KindLength.ofRaw, Function.comp_def, TcpOptionKind.number_ofNumber]
  simp only [serialize, encodedOptions, hmap, hencode, Nat.not_lt.mpr hfit, if_false,
    withDataOffset, SerializeOptions.asStored, Bool.false_eq_true, Checksum.forHeader, Extent.split]
  congr 1
  refine Stands.eq_take ?_ ?_
  · rw [stands_toOctets_iff]
    simp only [readFixed, offsetWord_header hreserved, Header.sourcePort, Header.destinationPort,
      Header.seq, Header.ack, Header.window, Header.checksum, Header.urgent, Nat.zero_add]
    exact ⟨stands_be16At (by omega), stands_be16At (by omega), stands_be32At (by omega),
      stands_be32At (by omega), stands_be16At (by omega), stands_be16At (by omega),
      stands_be16At (by omega), stands_be16At (by omega), stands_slice⟩
  · exact (length_toOctets _ _).trans hlength

end Tcp

/-! ## UDP -/

namespace Udp

theorem length_toOctets (u : Udp) : u.toOctets.length = headerLength := by
  simp [toOctets, headerLength]

/-- The fields of a header stand one behind the other. -/
theorem stands_toOctets_iff {u : Udp} :
    Stands data i u.toOctets ↔
      Stands data i (be16 u.sourcePort) ∧ Stands data (i + 2) (be16 u.destinationPort) ∧
        Stands data (i + 4) (be16 u.length) ∧ Stands data (i + 6) (be16 u.checksum) := by
  simp only [toOctets, stands_append_iff, length_be16, List.length_append, and_assoc,
    Nat.reduceAdd]

/-- A header is read back, its payload cut at the length of the datagram. -/
theorem decode_of_stands {u : Udp} (old : Udp) (h : Stands data 0 u.toOctets)
    (hlength : headerLength ≤ u.length.toNat) (hinside : u.length.toNat ≤ data.length) :
    decode old data =
      .accept { u with extent := .split headerLength u.length.toNat, network := old.network } := by
  obtain ⟨hsource, hdestination, hnumber, hchecksum⟩ := stands_toOctets_iff.mp h
  have hread : readFixed old data = { u with extent := old.extent, network := old.network } := by
    simp only [readFixed, Header.sourcePort, Header.destinationPort, Header.length,
      Header.checksum, Stands.be16At_eq hsource, Stands.be16At_eq hdestination,
      Stands.be16At_eq hnumber, Stands.be16At_eq hchecksum]
  have hshort : ¬ data.length < headerLength := by omega
  have hnonzero : u.length ≠ 0 := by
    intro hzero
    rw [hzero] at hlength
    exact absurd hlength (by decide)
  have hless : ¬ (u.length ≠ 0 ∧ u.length.toNat < headerLength) := by
    rintro ⟨-, hlow⟩
    omega
  simp only [decode, hshort, if_false, hread, hless, declaredEnd, hnonzero,
    Nat.min_eq_left hinside, Nat.not_lt.mpr hinside, decide_false, Decoding.accept]

/-- A header that was read is written again. -/
theorem serialize_of_decode {old : Udp} (h : (decode old data).error = none)
    (inner : Octets) :
    (decode old data).layer.serialize .asStored inner =
      .write (decode old data).layer
        (data.take (decode old data).layer.extent.contents.stop) := by
  by_cases hshort : data.length < headerLength
  · simp [decode, hshort, Decoding.reject] at h
  · by_cases hless : (readFixed old data).length ≠ 0 ∧
        (readFixed old data).length.toNat < headerLength
    · simp [decode, hshort, hless, Decoding.reject] at h
    · have hlength : 8 ≤ data.length := Nat.le_of_not_lt hshort
      simp only [decode, hshort, hless, if_false, serialize, withLength,
        SerializeOptions.asStored, Bool.false_eq_true, Checksum.forHeader, Extent.split]
      congr 1
      refine Stands.eq_take ?_ (length_toOctets _)
      rw [stands_toOctets_iff]
      exact ⟨stands_be16At (by omega), stands_be16At (by omega), stands_be16At (by omega),
        stands_be16At (by omega)⟩

end Udp

/-! ## ICMPv6 -/

namespace Icmpv6

theorem length_toOctets (m : Icmpv6) : m.toOctets.length = headerLength := by
  simp [toOctets, headerLength]

/-- The fields of a header stand one behind the other. -/
theorem stands_toOctets_iff {m : Icmpv6} :
    Stands data i m.toOctets ↔
      Stands data i [m.messageType.number] ∧ Stands data (i + 1) [m.code] ∧
        Stands data (i + 2) (be16 m.checksum) := by
  rw [toOctets, stands_append_iff, stands_cons_iff, and_assoc]
  rfl

/-- A header of a canonical type is read back. -/
theorem decode_of_stands {m : Icmpv6} (old : Icmpv6) (h : Stands data 0 m.toOctets)
    (htype : IsCanonical ControlMessage.ofNumber m.messageType) :
    decode old data =
      .accept { m with extent := .split headerLength data.length, network := old.network } := by
  obtain ⟨hnumber, hcode, hchecksum⟩ := stands_toOctets_iff.mp h
  have hlength : headerLength ≤ data.length := by
    have hinside := h.add_length_le (Nat.zero_le _)
    rwa [length_toOctets, Nat.zero_add] at hinside
  have hread : ControlMessage.ofNumber (octetAt data 0) = m.messageType := by
    rw [Stands.octetAt_eq hnumber, htype.ofNumber_number ControlMessage.number_ofNumber]
  simp only [decode, Nat.not_lt.mpr hlength, if_false, Header.messageType, hread, Header.code,
    Stands.octetAt_eq hcode, Header.checksum, Stands.be16At_eq hchecksum]

/-- A header that was read is written again. -/
theorem serialize_of_decode {old : Icmpv6} (h : (decode old data).error = none)
    (inner : Octets) :
    (decode old data).layer.serialize .asStored inner =
      .write (decode old data).layer
        (data.take (decode old data).layer.extent.contents.stop) := by
  by_cases hshort : data.length < headerLength
  · simp [decode, hshort, Decoding.reject] at h
  · have hlength : 4 ≤ data.length := Nat.le_of_not_lt hshort
    simp only [decode, hshort, if_false, Decoding.accept, serialize, SerializeOptions.asStored,
      Checksum.forHeader, Extent.split]
    congr 1
    refine Stands.eq_take ?_ (length_toOctets _)
    rw [stands_toOctets_iff]
    simp only [Header.messageType, ControlMessage.number_ofNumber]
    exact ⟨stands_octetAt (by omega), stands_octetAt (by omega), stands_be16At (by omega)⟩

end Icmpv6

end PacketLayers
