import PacketLayers.Link.Ethernet
import PacketLayers.Link.Loopback
import PacketLayers.Proofs.Octets.Stands
import PacketLayers.Payload
import PacketLayers.WireCode

/-!
# Link headers, written and read

A frame header and a loopback header that stand at the front of a string are read
back as they were written, and a header that was read is written again as the
octets it was read from.  The same holds of a plain payload.

The loopback encapsulation guesses its byte order, so there the first needs a
family that is read back from its little-endian octets, and the second a header
that was not read as big-endian.
-/

namespace PacketLayers

variable {data : Octets} {i : Nat}

/-- Write the lengths and checksums that the layers hold. -/
def SerializeOptions.asStored : SerializeOptions := ⟨false, false⟩

/-! ## Addresses -/

namespace MacAddress

@[simp] theorem length_toOctets (a : MacAddress) : a.toOctets.length = 6 := by
  rw [toOctets, Vector.length_toList]

theorem readAt_of_stands {a : MacAddress} (h : Stands data i a.toOctets) : readAt data i = a := by
  rw [readAt, h.blockAt_eq]

theorem stands_readAt (h : i + 6 ≤ data.length) : Stands data i (readAt data i).toOctets :=
  stands_blockAt h

end MacAddress

/-! ## Ethernet -/

namespace Ethernet

@[simp] theorem length_toOctets (e : Ethernet) : e.toOctets.length = headerLength := by
  simp [toOctets, headerLength]

/-- The fields of a frame header stand one behind the other. -/
theorem stands_toOctets_iff {e : Ethernet} :
    Stands data i e.toOctets ↔
      Stands data i e.destination.toOctets ∧ Stands data (i + 6) e.source.toOctets ∧
        Stands data (i + 12) (be16 e.etherType.number) := by
  simp only [toOctets, stands_append_iff, List.length_append, MacAddress.length_toOctets,
    and_assoc]

/-- A frame header with a protocol type is read back, and its payload reaches to the
end of the string. -/
theorem decode_of_stands {e : Ethernet} (old : Ethernet) (h : Stands data 0 e.toOctets)
    (hcode : IsCanonical EtherType.ofNumber e.etherType) (htype : e.etherType.isLength = false) :
    decode old data = .accept { e with extent := .split headerLength data.length } := by
  have hlength : headerLength ≤ data.length := by
    simpa using h.add_length_le (Nat.zero_le _)
  obtain ⟨hdestination, hsource, hnumber⟩ := stands_toOctets_iff.mp h
  have hread : Header.etherType data = e.etherType := by
    rw [Header.etherType, Stands.be16At_eq hnumber, hcode.ofNumber_number EtherType.number_ofNumber]
  simp only [decode, Nat.not_lt.mpr hlength, if_false, Header.destination, Header.source, hread,
    MacAddress.readAt_of_stands hdestination, MacAddress.readAt_of_stands hsource, declaredEnd,
    length?, htype]
  simp [Decoding.accept]

/-- A frame header that was read is written again. -/
theorem serialize_of_decode {old : Ethernet} (h : (decode old data).error = none)
    (inner : Octets) :
    (decode old data).layer.serialize .asStored inner =
      .write (decode old data).layer
        (data.take (decode old data).layer.extent.contents.stop) := by
  by_cases hshort : data.length < headerLength
  · simp [decode, hshort, Decoding.reject] at h
  · have hlength : 14 ≤ data.length := Nat.le_of_not_lt hshort
    have hstands : Stands data 0 (decode old data).layer.toOctets := by
      rw [stands_toOctets_iff]
      simp only [decode, hshort, if_false, Header.destination, Header.source, Header.etherType,
        EtherType.number_ofNumber]
      exact ⟨MacAddress.stands_readAt (by omega), MacAddress.stands_readAt (by omega),
        stands_be16At (by omega)⟩
    have hstop : (decode old data).layer.extent.contents.stop = headerLength := by
      simp only [decode, hshort, if_false, Extent.split]
    have htake := hstands.eq_take (length_toOctets _)
    simp only [serialize, SerializeOptions.asStored, Bool.false_eq_true, if_false, hstop, ← htake]

end Ethernet

/-! ## Loopback -/

namespace Loopback

/-- A family whose little-endian octets are not taken for big-endian ones. -/
theorem familyNumber_of_stands {n : UInt32} (h : Stands data 0 (le32 n))
    (hlow : n.toNat % 65536 ≠ 0) : familyNumber data = n := by
  have hread := h.le32At_eq
  obtain ⟨hfirst, -⟩ := stands_append_iff.mp h
  have hword : le16At data 0 = UInt16.ofNat (n.toNat % 65536) := hfirst.le16At_eq
  have hnot : ¬ (octetAt data 0 = 0 ∧ octetAt data 1 = 0) := by
    rintro ⟨hzero, hone⟩
    have hnat : (le16At data 0).toNat = n.toNat % 65536 := by
      rw [hword, UInt16.toNat_ofNat', Nat.mod_eq_of_lt (by omega)]
    rw [le16At, hzero, hone] at hnat
    simp at hnat
    omega
  rw [familyNumber, if_neg hnot, hread]

/-- The header of a family that names a network layer is read back. -/
theorem decode_of_stands {l : Loopback} (old : Loopback)
    (h : Stands data 0 (le32 l.family.number))
    (hfamily : l.family.layerType ≠ .payload) :
    decode old data = .accept { l with extent := .split headerLength data.length } := by
  have hlength : headerLength ≤ data.length := by
    simpa [headerLength] using h.add_length_le (Nat.zero_le _)
  have hnumber : familyNumber data = l.family.number := by
    refine familyNumber_of_stands h ?_
    cases hcase : l.family <;> simp_all [ProtocolFamily.layerType, ProtocolFamily.number]
  have hread : ProtocolFamily.ofNumber (familyNumber data) = l.family := by
    rw [hnumber]
    cases hcase : l.family <;> simp_all [ProtocolFamily.layerType, ProtocolFamily.number,
      ProtocolFamily.ofNumber]
  simp only [decode, Nat.not_lt.mpr hlength, if_false, hread]

/-- A loopback header that was read is written again, unless it was big-endian. -/
theorem serialize_of_decode {old : Loopback} (h : (decode old data).error = none)
    (horder : ¬ (octetAt data 0 = 0 ∧ octetAt data 1 = 0 ∧
      (octetAt data 2 ≠ 0 ∨ octetAt data 3 ≠ 0)))
    (inner : Octets) :
    (decode old data).layer.serialize .asStored inner =
      .write (decode old data).layer
        (data.take (decode old data).layer.extent.contents.stop) := by
  by_cases hshort : data.length < headerLength
  · simp [decode, hshort, Decoding.reject] at h
  · have hlength : 4 ≤ data.length := Nat.le_of_not_lt hshort
    have hnumber : familyNumber data = le32At data 0 := by
      unfold familyNumber
      split
      · next hzero =>
          have htail : octetAt data 2 = 0 ∧ octetAt data 3 = 0 := by
            refine ⟨?_, ?_⟩
            · exact Decidable.byContradiction fun hne => horder ⟨hzero.1, hzero.2, Or.inl hne⟩
            · exact Decidable.byContradiction fun hne => horder ⟨hzero.1, hzero.2, Or.inr hne⟩
          simp [be32At, be16At, le32At, le16At, hzero, htail]
      · rfl
    have hstands : Stands data 0 (le32 (familyNumber data)) := by
      rw [hnumber]
      exact stands_le32At (by omega)
    have htake : le32 (familyNumber data) = data.take headerLength :=
      hstands.eq_take (length_le32 _)
    simp only [decode, hshort, if_false, serialize, Decoding.accept, Extent.split,
      ProtocolFamily.number_ofNumber, htake]

end Loopback

/-! ## Payloads -/

namespace Payload

/-- A payload writes the octets it was read from. -/
theorem serialize_of_decode (old : Payload) (inner : Octets) :
    (decode old data).layer.serialize .asStored inner =
      .write (decode old data).layer
        (data.take (decode old data).layer.extent.contents.stop) := by
  simp [decode, Decoding.accept, serialize, Extent.whole]

end Payload

end PacketLayers
