import PacketLayers.Proofs.Headers.Link

/-!
# The byte order of loopback headers

A reader guesses the byte order of a loopback header from its first two octets, and a
writer does not know what was guessed: it always writes little-endian.  The two agree
just on the families whose little-endian octets are not taken for big-endian ones
(`Told`), and these are exactly the families that a reader can find
(`told_familyNumber`).  So a header changes its byte order at most once, when it is
first written again, and its family never does.  The main statement is
`byte_order_settles`.
-/

namespace PacketLayers
namespace Loopback

/-- The family is known from its little-endian octets. -/
def Told (n : UInt32) : Prop := n = 0 ∨ n.toNat % 65536 ≠ 0

/-- The header is taken to be big-endian. -/
def LeadingZeros (data : Octets) : Prop := octetAt data 0 = 0 ∧ octetAt data 1 = 0

instance (data : Octets) : Decidable (LeadingZeros data) :=
  inferInstanceAs (Decidable (_ ∧ _))

variable {data : Octets}

/-! ## Guessing -/

theorem familyNumber_eq (data : Octets) :
    familyNumber data = if LeadingZeros data then be32At data 0 else le32At data 0 := rfl

/-- Behind leading zeros, a family is a number of 16 bits. -/
theorem toNat_familyNumber_of_leadingZeros (h : LeadingZeros data) :
    (familyNumber data).toNat = (be16At data 2).toNat := by
  have hhigh : be16At data 0 = 0 := by
    rw [be16At, h.1, h.2]
    rfl
  rw [familyNumber_eq, if_pos h, toNat_be32At, hhigh, UInt16.toNat_zero, Nat.zero_mul, Nat.zero_add]

/-- Without them, its low half is the word that they would be in. -/
theorem toNat_familyNumber_mod (h : ¬ LeadingZeros data) :
    (familyNumber data).toNat % 65536 = (le16At data 0).toNat := by
  have hlow : (le16At data 0).toNat < 65536 := UInt16.toNat_lt _
  rw [familyNumber_eq, if_neg h, toNat_le32At, Nat.mul_add_mod_self_right, Nat.mod_eq_of_lt hlow]

theorem toNat_le16At_eq_zero_iff : (le16At data 0).toNat = 0 ↔ LeadingZeros data := by
  rw [toNat_le16At, LeadingZeros, ← UInt8.toNat_inj, ← UInt8.toNat_inj, UInt8.toNat_zero,
    Nat.zero_add]
  omega

/-- A reader finds only families that are known from their little-endian octets. -/
theorem told_familyNumber (data : Octets) : Told (familyNumber data) := by
  by_cases h : LeadingZeros data
  · have hnumber := toNat_familyNumber_of_leadingZeros h
    have hword : (be16At data 2).toNat < 65536 := UInt16.toNat_lt _
    by_cases hzero : (be16At data 2).toNat = 0
    · refine Or.inl (UInt32.toNat_inj.mp ?_)
      rw [hnumber, hzero, UInt32.toNat_zero]
    · refine Or.inr ?_
      rwa [hnumber, Nat.mod_eq_of_lt hword]
  · refine Or.inr ?_
    rw [toNat_familyNumber_mod h]
    exact mt toNat_le16At_eq_zero_iff.mp h

/-! ## What is written, and read back -/

/-- From a written header its own family is read just if a reader can find that family. -/
theorem familyNumber_le32_append_iff (n : UInt32) (rest : Octets) :
    familyNumber (le32 n ++ rest) = n ↔ Told n := by
  constructor
  · intro hread
    have htold := told_familyNumber (le32 n ++ rest)
    rwa [hread] at htold
  · rintro (rfl | hlow)
    · have hzeros : le32 0 = [0, 0, 0, 0] := by decide
      simp [familyNumber, hzeros, octetAt, be32At, be16At]
    · exact familyNumber_of_stands (stands_zero_iff.mpr (List.prefix_append _ _)) hlow

theorem exists_header (h : 4 ≤ data.length) :
    ∃ a b c d rest, data = a :: b :: c :: d :: rest := by
  match data, h with
  | a :: b :: c :: d :: rest, _ => exact ⟨a, b, c, d, rest, rfl⟩
  | [], h | [_], h | [_, _], h | [_, _, _], h => simp at h

/-- A big-endian header is written backwards. -/
theorem le32_familyNumber_of_leadingZeros (h : 4 ≤ data.length) (hzeros : LeadingZeros data) :
    le32 (familyNumber data) = (data.take 4).reverse := by
  have hnumber := toNat_familyNumber_of_leadingZeros hzeros
  obtain ⟨a, b, c, d, rest, rfl⟩ := exists_header h
  obtain ⟨rfl, rfl⟩ : a = 0 ∧ b = 0 := hzeros
  have hword : (be16At (0 :: 0 :: c :: d :: rest) 2).toNat < 65536 := UInt16.toNat_lt _
  have hlow : UInt16.ofNat (familyNumber (0 :: 0 :: c :: d :: rest)).toNat =
      be16At (0 :: 0 :: c :: d :: rest) 2 := by
    rw [hnumber, UInt16.ofNat_toNat]
  -- The two orders of a word are each other backwards.
  have hback : le16 (be16At (0 :: 0 :: c :: d :: rest) 2) = [d, c] := by
    have hboth := be16_be16At (0 :: 0 :: c :: d :: rest) 2
    have hreverse := congrArg List.reverse hboth
    exact hreverse
  rw [le32, Nat.mod_eq_of_lt (by omega), Nat.div_eq_of_lt (by omega), hlow, hback]
  rfl

/-- A header is written as it was read, or backwards if it was big-endian. -/
theorem le32_familyNumber (h : 4 ≤ data.length) :
    le32 (familyNumber data) =
      if LeadingZeros data then (data.take 4).reverse else data.take 4 := by
  split
  · next hzeros => exact le32_familyNumber_of_leadingZeros h hzeros
  · next hzeros =>
      rw [familyNumber_eq, if_neg hzeros]
      exact (stands_le32At (by omega)).eq_take (length_le32 _)

theorem decode_eq_accept (old : Loopback) (h : 4 ≤ data.length) :
    decode old data =
      .accept ⟨.split headerLength data.length, .ofNumber (familyNumber data)⟩ := by
  rw [decode, headerLength, if_neg (Nat.not_lt.mpr h)]

/-- Written over its payload again, a header is read as it was read before. -/
theorem decode_le32_append (old old' : Loopback) (h : 4 ≤ data.length) :
    decode old' (le32 (familyNumber data) ++ data.drop 4) = decode old data := by
  have hread := (familyNumber_le32_append_iff (familyNumber data) (data.drop 4)).mpr
    (told_familyNumber data)
  have hlength : (le32 (familyNumber data) ++ data.drop 4).length = data.length := by
    rw [List.length_append, length_le32, List.length_drop]
    omega
  rw [decode_eq_accept old' (by omega), decode_eq_accept old h, hlength, hread]

/-- Guessing the byte order settles.  The family of a written header is read back if and only if it
is zero or its low half is not, and each family that was read is such.  So what was read from any
input is written in front of the same payload and read again as before, payload included: the header
is then the one that was read, or that one backwards if it began with two zero octets. -/
theorem byte_order_settles :
    (∀ (l old : Loopback) (options : SerializeOptions) (inner : Octets),
      ∃ header, l.serialize options inner = .write l header ∧
        (decode old (header ++ inner)).error = none ∧
        ((decode old (header ++ inner)).layer.family.number = l.family.number ↔
          l.family.number = 0 ∨ l.family.number.toNat % 65536 ≠ 0)) ∧
    (∀ (old : Loopback) (data : Octets), (decode old data).error = none →
      let read := (decode old data).layer.family.number
      read = 0 ∨ read.toNat % 65536 ≠ 0) ∧
    (∀ (old old' : Loopback) (data : Octets) (options : SerializeOptions), 4 ≤ data.length →
      let first := decode old data
      let payload := slice data first.layer.extent.payload.start first.layer.extent.payload.stop
      let header :=
        if octetAt data 0 = 0 ∧ octetAt data 1 = 0 then (data.take 4).reverse else data.take 4
      first.error = none ∧
        first.layer.serialize options payload = .write first.layer header ∧
        let second := decode old' (header ++ payload)
        second = first ∧ second.layer.next = first.layer.next ∧
          slice (header ++ payload) second.layer.extent.payload.start
            second.layer.extent.payload.stop = payload) := by
  refine ⟨?_, ?_, ?_⟩
  · intro l old options inner
    have hlong : 4 ≤ (le32 l.family.number ++ inner).length := by
      rw [List.length_append, length_le32]
      omega
    refine ⟨le32 l.family.number, rfl, ?_, ?_⟩
    · rw [decode_eq_accept old hlong]
      rfl
    · rw [decode_eq_accept old hlong]
      simp only [Decoding.accept, ProtocolFamily.number_ofNumber]
      exact familyNumber_le32_append_iff _ _
  · intro old data haccepted
    have hlong : 4 ≤ data.length := by
      refine Nat.le_of_not_lt fun hshort => ?_
      rw [decode, headerLength, if_pos hshort] at haccepted
      cases haccepted
    rw [decode_eq_accept old hlong]
    simp only [Decoding.accept, ProtocolFamily.number_ofNumber]
    exact told_familyNumber data
  · intro old old' data options hlong first payload header
    have hfirst : first = .accept ⟨.split headerLength data.length,
      .ofNumber (familyNumber data)⟩ := decode_eq_accept old hlong
    have hpayload : payload = data.drop 4 := by
      simp only [payload, hfirst, Decoding.accept, Extent.split, slice, headerLength]
      exact List.take_of_length_le (Nat.le_of_eq List.length_drop)
    have hheader : header = le32 (familyNumber data) := (le32_familyNumber hlong).symm
    have hsecond : decode old' (header ++ payload) = first := by
      rw [hheader, hpayload]
      exact decode_le32_append old old' hlong
    refine ⟨by rw [hfirst]; rfl, ?_, hsecond, congrArg (fun read => read.layer.next) hsecond, ?_⟩
    · simp only [serialize, hfirst, Decoding.accept, ProtocolFamily.number_ofNumber, hheader]
    · have hfour : header.length = 4 := by rw [hheader, length_le32]
      simp only [hsecond]
      simp only [hfirst, Decoding.accept, Extent.split, slice, headerLength]
      rw [List.drop_left' hfour, hpayload]
      exact List.take_of_length_le (Nat.le_of_eq List.length_drop)

/-- A packet from a big-endian host changes the order of its header, and stays what it is. -/
theorem byte_order_settles_bigEndian :
    4 ≤ ([0, 0, 0, 0x1e, 0x60] : Octets).length ∧
      (decode fresh [0, 0, 0, 0x1e, 0x60]).layer.serialize .fixAll [0x60] =
        .write (decode fresh [0, 0, 0, 0x1e, 0x60]).layer [0x1e, 0, 0, 0] ∧
      decode fresh [0x1e, 0, 0, 0, 0x60] = decode fresh [0, 0, 0, 0x1e, 0x60] :=
  have hsettled := byte_order_settles.2.2 fresh fresh [0, 0, 0, 0x1e, 0x60] .fixAll (by decide)
  ⟨by decide, hsettled.2.1, hsettled.2.2.1⟩

end Loopback
end PacketLayers
