import PacketLayers.Proofs.Checksum.Verification

/-!
# The capacity of the accumulator

Transport checksums are taken before the enclosing header limits the length of a segment,
and only where it fixes lengths at all.  So the accumulator has to be compared with
segments of any length.  It holds the sums of a string at every point just if it holds the
last one (`holdsSums_iff`), which is so for every string of up to 131074 octets, since
65537 words of all ones make 2^32 - 1.

Computing a checksum is compared with writing the same header with zero in its place.
Where that is written and the addresses are of one version, the sum of the segment alone
decides: if it fits the accumulator, the checksum is that of pseudo header and segment,
and otherwise nothing is written.  The main statement is
`computed_checksum_fits_or_overflows`; a message for which the sum does not fit is
`overflowingEcho`.
-/

namespace PacketLayers
namespace Checksum

/-- At every word of a string, and behind its last octet, the accumulator holds the sum of the
words so far. -/
def HoldsSums (data : Octets) : Prop :=
  ∀ n, ∃ sum, accumulate 0 (data.take (2 * n)) = some sum ∧
    sum.toNat = wordSum (data.take (2 * n))

/-- What becomes of a segment, given with zero in place of its checksum, where the checksum is
computed: `written` is what is written with a checksum in that place. -/
structure SegmentSummed (layer : LayerType) (network : PseudoHeader) (protocol : IpProtocol)
    (segment : Octets) (written : UInt16 → Wrapping)
    (outcome : Except SerializeFailure Wrapping) : Prop where
  /-- The accumulator holds every sum just if the last one fits. -/
  holds_iff : HoldsSums segment ↔ wordSum segment < capacity
  /-- The largest segment for which this cannot fail. -/
  fits_of_length : segment.length ≤ 131074 → wordSum segment < capacity
  /-- Addresses of different versions are refused, whatever the segment is. -/
  mixed : network.toOctets? protocol segment.length = none →
    outcome = .error (.refused (.invalidField layer "mixed address families"))
  /-- A sum that fits is written as the checksum of pseudo header and segment. -/
  exact : ∀ pseudo, network.toOctets? protocol segment.length = some pseudo →
    wordSum segment < capacity →
      ∃ sum, sum.toNat = sentFor (onesSum (pseudo ++ segment)) ∧ outcome = .ok (written sum)
  /-- Where the sum does not fit, nothing is written. -/
  overflow : ∀ pseudo, network.toOctets? protocol segment.length = some pseudo →
    capacity ≤ wordSum segment → outcome = .error .overflow

/-- What computing a checksum makes of a header that is written with zero in its place in front of
the given octets; a header that is refused is refused as before. -/
def Summed (layer : LayerType) (network : PseudoHeader) (protocol : IpProtocol)
    (setChecksum : Octets → UInt16 → Octets) (inner : Octets)
    (blank outcome : Except SerializeFailure Wrapping) : Prop :=
  match blank with
  | .error failure => outcome = .error failure
  | .ok w => SegmentSummed layer network protocol (w.header ++ (inner ++ w.trailer))
      (fun sum => ⟨setChecksum w.header sum, w.trailer⟩) outcome

variable {data segment : Octets} {header : PseudoHeader} {protocol : IpProtocol}

/-! ## What the accumulator holds -/

/-- The sum of the first words is not larger than that of all. -/
theorem wordSum_take_le (n : Nat) (data : Octets) :
    wordSum (data.take (2 * n)) ≤ wordSum data := by
  by_cases hlong : 2 * n ≤ data.length
  · have heven : (data.take (2 * n)).length % 2 = 0 := by
      rw [List.length_take_of_le hlong]
      omega
    have hsplit : wordSum data = wordSum (data.take (2 * n)) + wordSum (data.drop (2 * n)) := by
      rw [← wordSum_append heven, List.take_append_drop]
    omega
  · rw [List.take_of_length_le (by omega)]

/-- If the last sum fits, so does every sum before it. -/
theorem holdsSums_iff : HoldsSums data ↔ wordSum data < capacity := by
  constructor
  · intro hholds
    obtain ⟨sum, -, hsum⟩ := hholds data.length
    rw [List.take_of_length_le (by omega)] at hsum
    rw [← hsum]
    exact sum.toNat_lt
  · intro hfits n
    obtain ⟨sum, hsum⟩ := exists_toNat_eq (Nat.lt_of_le_of_lt (wordSum_take_le n data) hfits)
    refine ⟨sum, ?_, hsum⟩
    rw [accumulate_eq_some_iff, hsum, UInt32.toNat_zero, Nat.zero_add]

/-! ## Segments -/

/-- A header that carries a computed checksum, or nothing at all. -/
theorem summed_of_forHeader {layer : LayerType} {options : SerializeOptions} {stored : UInt16}
    {setChecksum : Octets → UInt16 → Octets} {blank inner : Octets}
    {outcome : Except SerializeFailure Wrapping} (hcompute : options.computeChecksums = true)
    (h : outcome = (forHeader layer protocol options (some header) stored (blank ++ inner)).map
      fun sum => ⟨setChecksum blank sum, []⟩) :
    Summed layer header protocol setChecksum inner (.ok ⟨blank, []⟩) outcome := by
  rw [forHeader_computed hcompute] at h
  simp only [Summed, List.append_nil]
  refine ⟨holdsSums_iff, wordSum_lt_capacity, ?_, ?_, ?_⟩
  · intro hpseudo
    rw [h, transport_of_mixed hpseudo]
    rfl
  · intro pseudo hpseudo hfits
    obtain ⟨sum, hsum, hvalue⟩ := transport_of_fits hpseudo hfits
    refine ⟨sum, hvalue, ?_⟩
    rw [h, hsum]
    rfl
  · intro pseudo hpseudo hlarge
    rw [h, transport_of_overflow hpseudo hlarge]
    rfl

end Checksum

variable {options : SerializeOptions} {inner : Octets} {w : Wrapping} {network : PseudoHeader}

namespace Tcp

theorem summed_serialize {t : Tcp} (hnetwork : t.network = some network) (fixLengths : Bool)
    (inner : Octets) :
    Checksum.Summed .tcp network .tcp Header.setChecksum inner
      ({ t with checksum := 0 }.serialize ⟨fixLengths, false⟩ inner).outcome
      (t.serialize ⟨fixLengths, true⟩ inner).outcome := by
  cases hoptions : t.encodedOptions with
  | error error =>
      have hsame : { t with checksum := 0 }.encodedOptions = .error error := hoptions
      simp only [serialize, hoptions, hsame, Serialization.refuse, Checksum.Summed]
  | ok encoded =>
      have hsame : { t with checksum := 0 }.encodedOptions = .ok encoded := hoptions
      obtain ⟨sized, hsized⟩ : ∃ sized, t.withDataOffset ⟨fixLengths, true⟩ encoded = sized :=
        ⟨_, rfl⟩
      have hzero : { t with checksum := 0 }.withDataOffset ⟨fixLengths, false⟩ encoded =
          { sized with checksum := 0 } := by
        rw [← hsized]
        cases fixLengths <;> rfl
      have hnetwork' : sized.network = some network := by
        rw [← hnetwork, ← hsized]
        cases fixLengths <;> rfl
      have hwritten : (t.serialize ⟨fixLengths, true⟩ inner).outcome = _ :=
        outcome_serialize hoptions hsized
      simp only [hnetwork'] at hwritten
      rw [outcome_serialize hsame hzero]
      exact Checksum.summed_of_forHeader rfl hwritten

end Tcp

namespace Udp

theorem summed_serialize {u : Udp} (hnetwork : u.network = some network) (fixLengths : Bool)
    (inner : Octets) :
    Checksum.Summed .udp network .udp Header.setChecksum inner
      ({ u with checksum := 0 }.serialize ⟨fixLengths, false⟩ inner).outcome
      (u.serialize ⟨fixLengths, true⟩ inner).outcome := by
  have hlength : { u with checksum := 0 }.withLength ⟨fixLengths, false⟩ inner.length =
      (u.withLength ⟨fixLengths, true⟩ inner.length).map ({ · with checksum := 0 }) := by
    unfold withLength
    split
    · split <;> rfl
    · rfl
  cases hsized : u.withLength ⟨fixLengths, true⟩ inner.length with
  | error error =>
      rw [hsized] at hlength
      simp only [serialize, hsized, hlength, Except.map, Serialization.refuse, Checksum.Summed]
  | ok sized =>
      rw [hsized] at hlength
      have hwritten := outcome_serialize hsized
      simp only [network_of_withLength hsized, hnetwork] at hwritten
      rw [outcome_serialize hlength]
      exact Checksum.summed_of_forHeader rfl hwritten

/-- A length that is fixed is one that the header can hold. -/
theorem length_le_of_serialize {u : Udp} (hfix : options.fixLengths = true)
    (h : (u.serialize options inner).outcome = .ok w) :
    (w.header ++ (inner ++ w.trailer)).length ≤ 65535 := by
  obtain ⟨sized, sum, hsized, -, -, rfl⟩ := of_serialize h
  rw [withLength, if_pos hfix, headerLength] at hsized
  split at hsized
  · cases hsized
  · next hlong =>
      rw [List.append_nil, List.length_append, length_toOctets, headerLength]
      omega

end Udp

namespace Icmpv6

theorem summed_serialize {m : Icmpv6} (hnetwork : m.network = some network) (fixLengths : Bool)
    (inner : Octets) :
    Checksum.Summed .icmpv6 network .icmpv6 Header.setChecksum inner
      ({ m with checksum := 0 }.serialize ⟨fixLengths, false⟩ inner).outcome
      (m.serialize ⟨fixLengths, true⟩ inner).outcome := by
  have hwritten : (m.serialize ⟨fixLengths, true⟩ inner).outcome = _ := m.outcome_serialize
  rw [hnetwork] at hwritten
  rw [outcome_serialize]
  exact Checksum.summed_of_forHeader rfl hwritten

end Icmpv6

/-- A payload whose length an IPv4 header fixes is one that its total length can hold. -/
theorem Ipv4.length_le_of_serialize {p : Ipv4} (hfix : options.fixLengths = true)
    (h : (p.serialize options inner).outcome = .ok w) : inner.length ≤ 65535 := by
  obtain ⟨q, encoded, summed, -, hfixed, -⟩ := of_serialize h
  have hfits := (hfixed hfix).1
  omega

/-- A payload whose length an IPv6 header fixes is one that its payload length can hold. -/
theorem Ipv6.length_le_of_serialize {p : Ipv6} (hfix : options.fixLengths = true)
    (h : (p.serialize options inner).outcome = .ok w) : inner.length ≤ 65535 := by
  rw [serialize, if_pos hfix] at h
  split at h
  · cases h
  · next hlong => exact Nat.le_of_not_lt hlong

/-! ## Messages of all ones -/

/-- Words of all ones. -/
def onesPayload (words : Nat) : Octets := List.replicate (2 * words) 0xff

theorem Checksum.wordSum_onesPayload (words : Nat) :
    wordSum (onesPayload words) = 65535 * words := by
  induction words with
  | zero => rfl
  | succ words ih =>
      have hstep : onesPayload (words + 1) = 0xff :: 0xff :: onesPayload words := rfl
      have hoctet : (0xff : UInt8).toNat = 255 := rfl
      rw [hstep, wordSum, ih, hoctet]
      omega

namespace Icmpv6

open Checksum (wordSum wordSum_append wordSum_onesPayload)

/-- The addresses of two hosts on one link. -/
def linkNetwork : PseudoHeader :=
  ⟨.v6 ⟨#v[0xfe, 0x80, 0, 0, 0, 0, 0, 0, 0, 0, 0, 0, 0, 0, 0, 1]⟩,
    .v6 ⟨#v[0xfe, 0x80, 0, 0, 0, 0, 0, 0, 0, 0, 0, 0, 0, 0, 0, 2]⟩⟩

/-- An echo request between these hosts. -/
def echoRequest : Icmpv6 := (ofTypeCode .echoRequest 0).withNetwork linkNetwork

/-- The echo request in front of words of all ones, with zero in place of its checksum. -/
def onesMessage (words : Nat) : Octets := [128, 0, 0, 0] ++ (onesPayload words ++ [])

theorem length_onesMessage (words : Nat) : (onesMessage words).length = 4 + 2 * words := by
  simp only [onesMessage, onesPayload, List.length_append, List.length_replicate]
  rfl

/-- The words of the message are those of its payload and its type. -/
theorem wordSum_onesMessage (words : Nat) :
    wordSum (onesMessage words) = 32768 + 65535 * words := by
  rw [onesMessage, List.append_nil, wordSum_append rfl, wordSum_onesPayload]
  rfl

/-- In front of any number of them, only the sum decides. -/
theorem summed_echoRequest (words : Nat) :
    Checksum.SegmentSummed .icmpv6 linkNetwork .icmpv6 (onesMessage words)
      (fun sum => ⟨Header.setChecksum [128, 0, 0, 0] sum, []⟩)
      (echoRequest.serialize ⟨false, true⟩ (onesPayload words)).outcome :=
  summed_serialize (m := echoRequest) rfl false (onesPayload words)

end Icmpv6

/-! ## Checksums of any payload -/

/-- What becomes of a transport header whose checksum is computed, for any payload.  The accumulator
holds every sum of the segment just if it holds the last one, which it does up to 131074 octets.
Then the checksum of pseudo header and segment is written, and otherwise nothing is.  With fixed
lengths a UDP header refuses longer segments itself; TCP and ICMPv6 leave that to an enclosing IP
header, which refuses them as well, but only when the checksum has been taken. -/
theorem computed_checksum_fits_or_overflows (fixLengths : Bool) (inner : Octets) :
    (∀ (t : Tcp) (network : PseudoHeader), t.network = some network →
      Checksum.Summed .tcp network .tcp Tcp.Header.setChecksum inner
        ({ t with checksum := 0 }.serialize ⟨fixLengths, false⟩ inner).outcome
        (t.serialize ⟨fixLengths, true⟩ inner).outcome) ∧
    (∀ (u : Udp) (network : PseudoHeader), u.network = some network →
      Checksum.Summed .udp network .udp Udp.Header.setChecksum inner
        ({ u with checksum := 0 }.serialize ⟨fixLengths, false⟩ inner).outcome
        (u.serialize ⟨fixLengths, true⟩ inner).outcome) ∧
    (∀ (m : Icmpv6) (network : PseudoHeader), m.network = some network →
      Checksum.Summed .icmpv6 network .icmpv6 Icmpv6.Header.setChecksum inner
        ({ m with checksum := 0 }.serialize ⟨fixLengths, false⟩ inner).outcome
        (m.serialize ⟨fixLengths, true⟩ inner).outcome) ∧
    (fixLengths = true → ∀ (w : Wrapping) (computeChecksums : Bool),
      (∀ u : Udp, (u.serialize ⟨fixLengths, computeChecksums⟩ inner).outcome = .ok w →
        (w.header ++ (inner ++ w.trailer)).length ≤ 65535) ∧
      (∀ p : Ipv4, (p.serialize ⟨fixLengths, computeChecksums⟩ inner).outcome = .ok w →
        inner.length ≤ 65535) ∧
      ∀ p : Ipv6, (p.serialize ⟨fixLengths, computeChecksums⟩ inner).outcome = .ok w →
        inner.length ≤ 65535) :=
  ⟨fun _ _ hnetwork => Tcp.summed_serialize hnetwork fixLengths inner,
    fun _ _ hnetwork => Udp.summed_serialize hnetwork fixLengths inner,
    fun _ _ hnetwork => Icmpv6.summed_serialize hnetwork fixLengths inner,
    fun hfix _ _ => ⟨fun _ h => Udp.length_le_of_serialize hfix h,
      fun _ h => Ipv4.length_le_of_serialize hfix h,
      fun _ h => Ipv6.length_le_of_serialize hfix h⟩⟩

namespace Icmpv6

open Checksum (HoldsSums endAround endAround_eq_iff onesSum sentFor wordSum_append)

/-- The longest segment whose words may all be ones: the accumulator ends at all ones less a
type of 128. -/
theorem computed_checksum_fits_fullEcho :
    echoRequest.network = some linkNetwork ∧
      ∃ pseudo, linkNetwork.toOctets? .icmpv6 131074 = some pseudo ∧
        sentFor (onesSum (pseudo ++ onesMessage 65535)) = 0x82bc ∧
        (echoRequest.serialize ⟨false, true⟩ (onesPayload 65535)).outcome =
          .ok ⟨[128, 0, 0x82, 0xbc], []⟩ := by
  have hsummed : Checksum.SegmentSummed .icmpv6 linkNetwork .icmpv6 (onesMessage 65535) _ _ :=
    (computed_checksum_fits_or_overflows false (onesPayload 65535)).2.2.1 echoRequest linkNetwork
      rfl
  have hpseudo : ∃ pseudo, linkNetwork.toOctets? .icmpv6 131074 = some pseudo ∧
      pseudo.length % 2 = 0 ∧ Checksum.wordSum pseudo = 130369 := ⟨_, rfl, by decide, by decide⟩
  obtain ⟨pseudo, hpseudo, heven, hwords⟩ := hpseudo
  have hvalue : sentFor (onesSum (pseudo ++ onesMessage 65535)) = 0x82bc := by
    have hsum : endAround (130369 + (32768 + 65535 * 65535)) = 32067 :=
      endAround_eq_iff.mpr (by decide)
    rw [onesSum, wordSum_append heven, hwords, wordSum_onesMessage]
    exact congrArg sentFor hsum
  have hlength : (onesMessage 65535).length = 131074 := length_onesMessage 65535
  rw [← hlength] at hpseudo
  obtain ⟨sum, hsum, hwritten⟩ :=
    hsummed.exact pseudo hpseudo (hsummed.fits_of_length (Nat.le_of_eq hlength))
  obtain rfl : sum = 0x82bc := UInt16.toNat_inj.mp (hsum.trans hvalue)
  exact ⟨rfl, pseudo, hlength ▸ hpseudo, hvalue, hwritten⟩

/-- With three more words of all ones the accumulator cannot hold the sum: nothing is written, and
not the checksum that pseudo header and segment have. -/
theorem overflowingEcho :
    (echoRequest.serialize ⟨false, true⟩ (onesPayload 65538)).outcome = .error .overflow ∧
      ¬ HoldsSums (onesMessage 65538) ∧
      ∃ pseudo, linkNetwork.toOctets? .icmpv6 131080 = some pseudo ∧
        sentFor (onesSum (pseudo ++ onesMessage 65538)) = 0x82b6 := by
  have hlarge : Checksum.capacity ≤ Checksum.wordSum (onesMessage 65538) := by
    rw [wordSum_onesMessage]
    decide
  have hpseudo : ∃ pseudo, linkNetwork.toOctets? .icmpv6 131080 = some pseudo ∧
      pseudo.length % 2 = 0 ∧ Checksum.wordSum pseudo = 130375 := ⟨_, rfl, by decide, by decide⟩
  obtain ⟨pseudo, hpseudo, heven, hwords⟩ := hpseudo
  refine ⟨?_, ?_, pseudo, hpseudo, ?_⟩
  · have hlength : (onesMessage 65538).length = 131080 := length_onesMessage 65538
    rw [← hlength] at hpseudo
    exact (summed_echoRequest 65538).overflow pseudo hpseudo hlarge
  · rw [Checksum.holdsSums_iff]
    exact Nat.not_lt.mpr hlarge
  · have hsum : endAround (130375 + (32768 + 65535 * 65538)) = 32073 :=
      endAround_eq_iff.mpr (by decide)
    rw [onesSum, wordSum_append heven, hwords, wordSum_onesMessage]
    exact congrArg sentFor hsum

end Icmpv6

end PacketLayers
