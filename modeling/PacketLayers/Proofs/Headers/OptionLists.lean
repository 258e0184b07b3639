import PacketLayers.Builtin
import PacketLayers.Proofs.Checksum.Capacity

/-!
# Headers with options

IPv4 and TCP headers carry a kind-length list.  Once its other fields are in order
(`BuiltinLayer.RestFits`), whether a header is written depends on its list, and where a
TCP checksum is computed also on the sum of the segment (`BuiltinLayer.SumFits`).  What
is read back from a written header is the normal form of the list, whatever the other
fields hold.  Headers that fit all their fields are read back whole
(`PacketLayers.Proofs.Headers.FixedLengths`); here only the list is followed, so that it
may be any list.

The main statement is `BuiltinLayer.options_normalized`.
-/

namespace PacketLayers

open KindLength (Writable normalize paddedLength)

variable {options : SerializeOptions} {inner data encoded : Octets} {w : Wrapping}

/-- Both addresses are of one IP version. -/
def PseudoHeader.OneFamily (addresses : PseudoHeader) : Prop :=
  match addresses.source, addresses.destination with
  | .v4 _, .v4 _ | .v6 _, .v6 _ => True
  | _, _ => False

theorem PseudoHeader.OneFamily.exists_toOctets? {addresses : PseudoHeader}
    (h : addresses.OneFamily) (protocol : IpProtocol) (length : Nat) :
    ∃ pseudo, addresses.toOctets? protocol length = some pseudo := by
  obtain ⟨source, destination⟩ := addresses
  cases source <;> cases destination
  case v4.v4 | v6.v6 => exact ⟨_, rfl⟩
  case v4.v6 | v6.v4 => exact absurd h id

/-- Between addresses of one version, only the sum of the segment can keep a header from carrying
a checksum. -/
theorem Checksum.forHeader_of_oneFamily {network : Option PseudoHeader}
    (h : ∀ addresses, network = some addresses → addresses.OneFamily)
    (layer : LayerType) (protocol : IpProtocol) (options : SerializeOptions) (stored : UInt16)
    (segment : Octets) :
    let taken := forHeader layer protocol options network stored segment
    let fits := options.computeChecksums = true → network.isSome → wordSum segment < capacity
    (fits → ∃ sum, taken = .ok sum) ∧ (¬ fits → taken = .error .overflow) := by
  intro taken fits
  by_cases hneeded : options.computeChecksums = true ∧ network.isSome
  · obtain ⟨hcompute, hsome⟩ := hneeded
    obtain ⟨addresses, rfl⟩ := Option.isSome_iff_exists.mp hsome
    obtain ⟨pseudo, hpseudo⟩ := (h addresses rfl).exists_toOctets? protocol segment.length
    have htaken : taken = (transport addresses protocol segment).mapError (·.forLayer layer) :=
      forHeader_computed hcompute
    constructor
    · intro hfits
      obtain ⟨sum, hsum, -⟩ := transport_of_fits hpseudo (hfits hcompute hsome)
      exact ⟨sum, by rw [htaken, hsum]; rfl⟩
    · intro hlarge
      have hover : capacity ≤ wordSum segment :=
        Nat.not_lt.mp fun hfits => hlarge fun _ _ => hfits
      rw [htaken, transport_of_overflow hpseudo hover]
      rfl
  · have hfits : fits := fun hcompute hsome => absurd ⟨hcompute, hsome⟩ hneeded
    exact ⟨fun _ => ⟨stored, forHeader_stored hneeded layer protocol stored segment⟩,
      fun hlarge => absurd hfits hlarge⟩

/-! ## IPv4 -/

namespace Ipv4

/-- The options with their kinds by number. -/
def optionList (p : Ipv4) : List (UInt8 × Octets) := p.options.map fun o => (o.kind, o.data)

theorem encodedOptions_eq_ok_iff {p : Ipv4} :
    p.encodedOptions = .ok encoded ↔
      KindLength.encode p.optionList = some encoded ∧ encoded.length ≤ 40 := by
  constructor
  · intro h
    obtain ⟨hencode, hfit⟩ := encode_of_encodedOptions h
    rw [maxHeaderLength, minHeaderLength] at hfit
    exact ⟨hencode, by omega⟩
  · rintro ⟨hencode, hfit⟩
    have hroom : ¬ maxHeaderLength < minHeaderLength + encoded.length := by
      rw [maxHeaderLength, minHeaderLength]
      omega
    rw [optionList] at hencode
    simp only [encodedOptions, hencode, hroom, if_false]

theorem writable_optionList_iff {p : Ipv4} :
    Writable p.optionList ↔ ∃ encoded, p.encodedOptions = .ok encoded := by
  simp only [KindLength.writable_iff, encodedOptions_eq_ok_iff]

/-- A header is written if its options are, unless the total length that is to be fixed is too
large. -/
theorem exists_outcome_iff {p : Ipv4} :
    (∃ w, (p.serialize options inner).outcome = .ok w) ↔
      ∃ encoded, p.encodedOptions = .ok encoded ∧
        (options.fixLengths = true →
          minHeaderLength + encoded.length + inner.length ≤ 65535) := by
  constructor
  · rintro ⟨w, h⟩
    obtain ⟨q, encoded, summed, hencoded, hfixed, -⟩ := of_serialize h
    exact ⟨encoded, hencoded, fun hfix => (hfixed hfix).1⟩
  · rintro ⟨encoded, hencoded, htotal⟩
    have hshort := (encode_of_encodedOptions hencoded).2
    have hheader : ∀ q : Ipv4, ∃ w, (q.serializeHeader options encoded).outcome = .ok w := by
      intro q
      obtain ⟨summed, hsummed⟩ := q.exists_withChecksum (by omega : encoded.length ≤ _) options
      exact ⟨_, by rw [serializeHeader, hsummed]; rfl⟩
    simp only [serialize, hencoded]
    split
    · next hfix =>
        rw [if_neg (Nat.not_lt.mpr (htotal hfix))]
        exact hheader _
    · exact hheader p

/-- What is read from behind the fixed fields of a header is what a walk finds there. -/
theorem decode_options_of_stands {p : Ipv4} (old : Ipv4) (h : Stands data 0 (p.toOctets encoded))
    (hversion : p.version = 4) (hheader : p.headerLength = minHeaderLength + encoded.length)
    (hfit : minHeaderLength + encoded.length ≤ maxHeaderLength)
    (htotal : p.headerLength ≤ p.length.toNat) :
    let walked := OptionWalk.collect .kindLength .ipv4 encoded
    (decode old data).error = walked.error ∧
      (decode old data).layer.optionList = walked.layer.map KindLength.ofRaw := by
  obtain ⟨hlong, herror, harea⟩ := area_of_stands old h hversion hheader hfit htotal
  intro walked
  simp only [decode, Nat.not_lt.mpr hlong, if_false, herror, harea]
  refine ⟨rfl, ?_⟩
  cases walked.error <;> simp [optionList, walked, KindLength.ofRaw, Function.comp_def]

/-- From a written header the normal form of its options is read back. -/
theorem decode_options_of_serialize {p : Ipv4} (hversion : p.version = 4)
    (hfix : options.fixLengths = true) (h : (p.serialize options inner).outcome = .ok w)
    (old : Ipv4) (behind : Octets) :
    (decode old (w.header ++ behind)).error = none ∧
      (decode old (w.header ++ behind)).layer.optionList = normalize p.optionList := by
  obtain ⟨q, encoded, written, hencoded, hfixed, hwritten, -, rfl⟩ := of_serialize h
  obtain ⟨htotal, rfl⟩ := hfixed hfix
  obtain ⟨hencode, hfit⟩ := encode_of_encodedOptions hencoded
  have hwords := KindLength.length_encode hencode
  obtain ⟨sum, hsum⟩ := of_withChecksum hwritten
  rw [maxHeaderLength, minHeaderLength] at hfit
  rw [minHeaderLength] at htotal hsum
  have hfour : written.version = p.version := by rw [hsum]
  have hihl : written.ihl = UInt8.ofNat ((20 + encoded.length) / 4) := by rw [hsum]
  have hlength : written.length = UInt16.ofNat (20 + encoded.length + inner.length) := by rw [hsum]
  have hheader : written.headerLength = minHeaderLength + encoded.length := by
    rw [headerLength, hihl, UInt8.toNat_ofNat', Nat.mod_eq_of_lt (by omega), minHeaderLength]
    omega
  have hinside : written.headerLength ≤ written.length.toNat := by
    rw [hlength, UInt16.toNat_ofNat', Nat.mod_eq_of_lt (by omega), hheader]
    exact Nat.le_add_right _ _
  have hread := decode_options_of_stands old (stands_append (written.toOctets encoded) behind)
    (hfour.trans hversion) hheader hfit hinside
  rw [KindLength.collect_encode .ipv4 hencode] at hread
  exact ⟨hread.1, hread.2.trans (KindLength.map_ofRaw_toRaw _)⟩

/-- The options of a header that was read are in decoded form, and a header has room for them. -/
theorem optionList_of_decode {old : Ipv4} (h : (decode old data).error = none) :
    KindLength.DecodedForm (decode old data).layer.optionList ∧
      Writable (decode old data).layer.optionList := by
  obtain ⟨-, -, hwalked, hlayer⟩ := of_decode h
  obtain ⟨-, hwords, hfit⟩ := area_of_decode h
  obtain ⟨hform, hshort, hpadded⟩ := KindLength.of_collect hwords hwalked
  have hlist : (decode old data).layer.optionList =
      (OptionWalk.collect .kindLength .ipv4
        (slice data minHeaderLength (readFixed old data).headerLength)).layer.map
          KindLength.ofRaw := by
    rw [hlayer, optionList, List.map_map]
    rfl
  rw [maxHeaderLength, minHeaderLength] at hfit
  rw [hlist]
  exact ⟨hform, hshort, Nat.le_trans hpadded (Nat.le_of_add_le_add_left hfit)⟩

end Ipv4

/-! ## TCP -/

namespace Tcp

/-- The options with their kinds by number. -/
def optionList (t : Tcp) : List (UInt8 × Octets) :=
  t.options.map fun o => (o.kind.number, o.data)

theorem encodedOptions_eq_ok_iff {t : Tcp} :
    t.encodedOptions = .ok encoded ↔
      KindLength.encode t.optionList = some encoded ∧ encoded.length ≤ 40 := by
  constructor
  · intro h
    obtain ⟨hencode, hfit⟩ := encode_of_encodedOptions h
    rw [maxHeaderLength, minHeaderLength] at hfit
    exact ⟨hencode, by omega⟩
  · rintro ⟨hencode, hfit⟩
    have hroom : ¬ maxHeaderLength < minHeaderLength + encoded.length := by
      rw [maxHeaderLength, minHeaderLength]
      omega
    rw [optionList] at hencode
    simp only [encodedOptions, hencode, hroom, if_false]

theorem writable_optionList_iff {t : Tcp} :
    Writable t.optionList ↔ ∃ encoded, t.encodedOptions = .ok encoded := by
  simp only [KindLength.writable_iff, encodedOptions_eq_ok_iff]

/-- The words of the segment, with zero in place of a checksum that is to be computed, add up to a
sum that fits its accumulator. -/
def SumFits (options : SerializeOptions) (inner : Octets) (t : Tcp) : Prop :=
  ∀ encoded, t.encodedOptions = .ok encoded → options.computeChecksums = true → t.network.isSome →
    Checksum.wordSum
      ({ t.withDataOffset options encoded with checksum := 0 }.toOctets encoded ++ inner) <
        Checksum.capacity

/-- There is no sum that would have to fit, or the segment is short. -/
theorem sumFits_of_short (t : Tcp)
    (h : options.computeChecksums = false ∨ t.network = none ∨ inner.length ≤ 131014) :
    t.SumFits options inner := by
  intro encoded hencoded hcompute hnetwork
  obtain hoff | hnone | hshort := h
  · rw [hoff] at hcompute
    cases hcompute
  · rw [hnone] at hnetwork
    cases hnetwork
  · have hfit := (encode_of_encodedOptions hencoded).2
    refine Checksum.wordSum_lt_capacity ?_
    rw [maxHeaderLength] at hfit
    rw [List.length_append, length_toOctets]
    omega

/-- Between addresses of one version, a header whose options can be written depends on the sum of
the segment alone. -/
theorem outcome_of_encodedOptions {t : Tcp} (options : SerializeOptions) (inner : Octets)
    (hfamily : ∀ addresses, t.network = some addresses → addresses.OneFamily)
    (hencoded : t.encodedOptions = .ok encoded) :
    (t.SumFits options inner → ∃ w, (t.serialize options inner).outcome = .ok w) ∧
      (¬ t.SumFits options inner → (t.serialize options inner).outcome = .error .overflow) := by
  obtain ⟨sized, hsized⟩ : ∃ sized, t.withDataOffset options encoded = sized := ⟨_, rfl⟩
  have hnetwork : sized.network = t.network := by
    rw [← hsized, withDataOffset]
    split <;> rfl
  have hsum : t.SumFits options inner ↔
      (options.computeChecksums = true → sized.network.isSome →
        Checksum.wordSum ({ sized with checksum := 0 }.toOctets encoded ++ inner) <
          Checksum.capacity) := by
    rw [hnetwork, ← hsized]
    refine ⟨fun h => h encoded hencoded, fun h other hother => ?_⟩
    obtain rfl := Except.ok.inj (hencoded.symm.trans hother)
    exact h
  obtain ⟨hfits, hlarge⟩ := Checksum.forHeader_of_oneFamily (hnetwork ▸ hfamily) .tcp .tcp options
    sized.checksum ({ sized with checksum := 0 }.toOctets encoded ++ inner)
  rw [outcome_serialize hencoded hsized, hsum]
  constructor
  · intro h
    obtain ⟨sum, hok⟩ := hfits h
    exact ⟨_, by rw [hok]; rfl⟩
  · intro h
    rw [hlarge h]
    rfl

/-- What is read from behind the fixed fields of a header is what a walk finds there. -/
theorem decode_options_of_stands {t : Tcp} (old : Tcp) (h : Stands data 0 (t.toOctets encoded))
    (hheader : t.headerLength = minHeaderLength + encoded.length)
    (hfit : minHeaderLength + encoded.length ≤ maxHeaderLength) :
    let walked := OptionWalk.collect .kindLength .tcp encoded
    (decode old data).error = walked.error ∧
      (decode old data).layer.optionList = walked.layer.map KindLength.ofRaw := by
  obtain ⟨hlong, hoffset, hinside, harea⟩ := area_of_stands old h hheader hfit
  intro walked
  simp only [decode, Nat.not_lt.mpr hlong, if_false, hoffset, Nat.not_lt.mpr hinside, harea]
  refine ⟨rfl, ?_⟩
  cases walked.error <;>
    simp [optionList, walked, KindLength.ofRaw, Function.comp_def, TcpOptionKind.number_ofNumber]

/-- From a written header the normal form of its options is read back. -/
theorem decode_options_of_serialize {t : Tcp} (hfix : options.fixLengths = true)
    (h : (t.serialize options inner).outcome = .ok w) (old : Tcp) (behind : Octets) :
    (decode old (w.header ++ behind)).error = none ∧
      (decode old (w.header ++ behind)).layer.optionList = normalize t.optionList := by
  obtain ⟨encoded, sum, hencoded, -, -, rfl⟩ := of_serialize h
  obtain ⟨hencode, hfit⟩ := encode_of_encodedOptions hencoded
  have hwords := KindLength.length_encode hencode
  generalize hwritten : { t.withDataOffset options encoded with checksum := sum } = written
  have hheader : written.headerLength = minHeaderLength + encoded.length := by
    rw [maxHeaderLength, minHeaderLength] at hfit
    rw [← hwritten, headerLength, withDataOffset, if_pos hfix, minHeaderLength]
    simp only [UInt8.toNat_ofNat']
    omega
  have hread := decode_options_of_stands old (stands_append (written.toOctets encoded) behind)
    hheader hfit
  rw [KindLength.collect_encode .tcp hencode] at hread
  exact ⟨hread.1, hread.2.trans (KindLength.map_ofRaw_toRaw _)⟩

/-- The options of a header that was read are in decoded form, and a header has room for them. -/
theorem optionList_of_decode {old : Tcp} (h : (decode old data).error = none) :
    KindLength.DecodedForm (decode old data).layer.optionList ∧
      Writable (decode old data).layer.optionList := by
  obtain ⟨-, -, -, hwalked, hlayer⟩ := of_decode h
  obtain ⟨-, hwords, hfit⟩ := area_of_decode h
  obtain ⟨hform, hshort, hpadded⟩ := KindLength.of_collect hwords hwalked
  have hlist : (decode old data).layer.optionList =
      (OptionWalk.collect .kindLength .tcp
        (slice data minHeaderLength (readFixed old data).headerLength)).layer.map
          KindLength.ofRaw := by
    rw [hlayer, optionList, List.map_map]
    simp [KindLength.ofRaw, Function.comp_def, TcpOptionKind.number_ofNumber]
  rw [maxHeaderLength, minHeaderLength] at hfit
  rw [hlist]
  exact ⟨hform, hshort, Nat.le_trans hpadded (Nat.le_of_add_le_add_left hfit)⟩

end Tcp

/-! ## Both headers -/

namespace BuiltinLayer

/-- The option list of an IPv4 or TCP header, its kinds by number. -/
def optionList : BuiltinLayer → Option (List (UInt8 × Octets))
  | .ipv4 p => some p.optionList
  | .tcp t => some t.optionList
  | _ => none

/-- The fields beside the options keep no header from being written or read: an IPv4 header is
one of version 4 whose total length fits its 16 bits if its options can be written, and a TCP
header has no network of mixed address families. -/
def RestFits (inner : Octets) : BuiltinLayer → Prop
  | .ipv4 p => p.version = 4 ∧
      (Writable p.optionList → 20 + paddedLength p.optionList + inner.length ≤ 65535)
  | .tcp t => ∀ addresses, t.network = some addresses → addresses.OneFamily
  | _ => False

/-- A checksum that is to be computed is one of a sum that fits its accumulator; the sum of an IPv4
header always does. -/
def SumFits (options : SerializeOptions) (inner : Octets) : BuiltinLayer → Prop
  | .tcp t => t.SumFits options inner
  | _ => True

/-- From a header of the given type every layer object of the type reads these options, whatever
is behind the header. -/
def GivesOptions (type : LayerType) (header : Octets) (list : List (UInt8 × Octets)) : Prop :=
  ∀ (old : BuiltinLayer) (behind : Octets), old.layerType = type →
    (old.decode (header ++ behind)).error = none ∧
      (old.decode (header ++ behind)).layer.optionList = some list

/-- A list that some header gave when it was read. -/
def IsDecoded (list : List (UInt8 × Octets)) : Prop :=
  ∃ (old : BuiltinLayer) (data : Octets), (old.decode data).error = none ∧
    (old.decode data).layer.optionList = some list

variable {l : BuiltinLayer} {list : List (UInt8 × Octets)}

theorem sumFits_of_short (l : BuiltinLayer)
    (h : options.computeChecksums = false ∨ inner.length ≤ 131014) : l.SumFits options inner := by
  cases l with
  | tcp t => exact t.sumFits_of_short (h.imp_right .inr)
  | _ => trivial

/-- What becomes of a header: one whose list has room is written or its sum overflows, and any other
is refused. -/
theorem outcome_cases (options : SerializeOptions) (hlist : l.optionList = some list)
    (hrest : l.RestFits inner) :
    (Writable list ∧ l.SumFits options inner ∧
        ∃ w, (l.serialize options inner).outcome = .ok w) ∨
      (Writable list ∧ ¬ l.SumFits options inner ∧
        (l.serialize options inner).outcome = .error .overflow) ∨
      (¬ Writable list ∧ ∃ error, (l.serialize options inner).outcome = .error (.refused error)) := by
  cases l with
  | ipv4 p =>
      obtain rfl : p.optionList = list := Option.some.inj hlist
      obtain ⟨-, htotal⟩ := hrest
      cases hencoded : p.encodedOptions with
      | ok encoded =>
          have hwritable := Ipv4.writable_optionList_iff.mpr ⟨encoded, hencoded⟩
          obtain ⟨hencode, -⟩ := Ipv4.encode_of_encodedOptions hencoded
          have hlength := htotal hwritable
          rw [Ipv4.optionList, ← KindLength.length_of_encode hencode] at hlength
          exact .inl ⟨hwritable, trivial,
            Ipv4.exists_outcome_iff.mpr ⟨encoded, hencoded, fun _ => hlength⟩⟩
      | error error =>
          have hlong : ¬ Writable p.optionList := by
            rw [Ipv4.writable_optionList_iff, hencoded]
            exact nofun
          refine .inr (.inr ⟨hlong, error, ?_⟩)
          simp only [serialize, Serialization.map, Ipv4.serialize, hencoded, Serialization.refuse]
  | tcp t =>
      obtain rfl : t.optionList = list := Option.some.inj hlist
      cases hencoded : t.encodedOptions with
      | ok encoded =>
          have hwritable := Tcp.writable_optionList_iff.mpr ⟨encoded, hencoded⟩
          obtain ⟨hwritten, hoverflow⟩ :=
            Tcp.outcome_of_encodedOptions options inner hrest hencoded
          by_cases hfits : t.SumFits options inner
          · exact .inl ⟨hwritable, hfits, hwritten hfits⟩
          · exact .inr (.inl ⟨hwritable, hfits, hoverflow hfits⟩)
      | error error =>
          have hlong : ¬ Writable t.optionList := by
            rw [Tcp.writable_optionList_iff, hencoded]
            exact nofun
          refine .inr (.inr ⟨hlong, error, ?_⟩)
          simp only [serialize, Serialization.map, Tcp.serialize, hencoded, Serialization.refuse]
  | _ => cases hlist

theorem exists_outcome_iff (options : SerializeOptions) (hlist : l.optionList = some list)
    (hrest : l.RestFits inner) :
    (∃ w, (l.serialize options inner).outcome = .ok w) ↔
      Writable list ∧ l.SumFits options inner := by
  obtain ⟨hwritable, hfits, hok⟩ | ⟨-, hlarge, hoverflow⟩ | ⟨hlong, error, hrefused⟩ :=
    outcome_cases options hlist hrest
  · exact iff_of_true hok ⟨hwritable, hfits⟩
  · rw [hoverflow]
    exact iff_of_false nofun fun h => hlarge h.2
  · rw [hrefused]
    exact iff_of_false nofun fun h => hlong h.1

theorem outcome_eq_overflow_iff (options : SerializeOptions) (hlist : l.optionList = some list)
    (hrest : l.RestFits inner) :
    (l.serialize options inner).outcome = .error .overflow ↔
      Writable list ∧ ¬ l.SumFits options inner := by
  obtain ⟨-, hfits, w, hok⟩ | ⟨hwritable, hlarge, hoverflow⟩ | ⟨hlong, error, hrefused⟩ :=
    outcome_cases options hlist hrest
  · rw [hok]
    exact iff_of_false nofun fun h => h.2 hfits
  · exact iff_of_true hoverflow ⟨hwritable, hlarge⟩
  · rw [hrefused]
    exact iff_of_false nofun fun h => hlong h.1

theorem givesOptions_normalize (hlist : l.optionList = some list) (hrest : l.RestFits inner)
    (hfix : options.fixLengths = true) (h : (l.serialize options inner).outcome = .ok w) :
    GivesOptions l.layerType w.header (normalize list) := by
  cases l with
  | ipv4 p =>
      obtain rfl : p.optionList = list := Option.some.inj hlist
      intro old behind htype
      cases old with
      | ipv4 old =>
          obtain ⟨herror, hoptions⟩ :=
            Ipv4.decode_options_of_serialize hrest.1 hfix h old behind
          exact ⟨herror, congrArg some hoptions⟩
      | _ => cases htype
  | tcp t =>
      obtain rfl : t.optionList = list := Option.some.inj hlist
      intro old behind htype
      cases old with
      | tcp old =>
          obtain ⟨herror, hoptions⟩ := Tcp.decode_options_of_serialize hfix h old behind
          exact ⟨herror, congrArg some hoptions⟩
      | _ => cases htype
  | _ => cases hlist

theorem writable_of_isDecoded (h : IsDecoded list) :
    normalize list = list ∧ Writable list := by
  obtain ⟨old, data, herror, hlist⟩ := h
  rw [KindLength.normalize_eq_self_iff]
  cases old with
  | ipv4 old =>
      obtain rfl : (old.decode data).layer.optionList = list := Option.some.inj hlist
      exact Ipv4.optionList_of_decode herror
  | tcp old =>
      obtain rfl : (old.decode data).layer.optionList = list := Option.some.inj hlist
      exact Tcp.optionList_of_decode herror
  | _ => cases hlist

/-- A header whose other fields are in order is written exactly if each of its options is short
enough, the padded list has room behind the fixed fields, and the sum of a TCP segment whose
checksum is computed fits its accumulator; where only the sum does not, writing overflows.  With its
lengths fixed, the normal form of the list is read back from a written header.  Normal forms are
fixed points, and every list that was read from a header is one: it is written again, and read back
as it is. -/
theorem options_normalized (options : SerializeOptions) (inner : Octets)
    (hlist : l.optionList = some list) (hrest : l.RestFits inner) :
    ((∃ w, (l.serialize options inner).outcome = .ok w) ↔
        Writable list ∧ l.SumFits options inner) ∧
      ((l.serialize options inner).outcome = .error .overflow ↔
        Writable list ∧ ¬ l.SumFits options inner) ∧
      (options.computeChecksums = false ∨ inner.length ≤ 131014 → l.SumFits options inner) ∧
      (∀ w, options.fixLengths = true → (l.serialize options inner).outcome = .ok w →
        GivesOptions l.layerType w.header (normalize list)) ∧
      normalize (normalize list) = normalize list ∧
      (Writable list → Writable (normalize list)) ∧
      (IsDecoded list → l.SumFits options inner →
        ∃ w, (l.serialize options inner).outcome = .ok w ∧
          (options.fixLengths = true → GivesOptions l.layerType w.header list)) := by
  refine ⟨exists_outcome_iff options hlist hrest, outcome_eq_overflow_iff options hlist hrest,
    l.sumFits_of_short, fun w hfix => givesOptions_normalize hlist hrest hfix,
    KindLength.normalize_normalize list, KindLength.writable_normalize, fun hdecoded hfits => ?_⟩
  obtain ⟨hnormal, hwritable⟩ := writable_of_isDecoded hdecoded
  obtain ⟨w, hw⟩ := (exists_outcome_iff options hlist hrest).mpr ⟨hwritable, hfits⟩
  refine ⟨w, hw, fun hfix => ?_⟩
  have hgives := givesOptions_normalize hlist hrest hfix hw
  rwa [hnormal] at hgives

/-- A segment whose options are not in normal form: a lone octet has data, and they take five
octets. -/
def looseSegment : Tcp :=
  { Tcp.ofPorts 80 4000 with
    options := [⟨.unknown 2, [5, 180]⟩, ⟨.noOperation, [7]⟩]
    network := some ⟨.v4 .zero, .v4 .zero⟩ }

/-- The options of a loose segment come back in normal form, and these come back as they are. -/
theorem options_normalized_looseSegment :
    let settled : Tcp := { looseSegment with
      options := [⟨.maxSegmentSize, [5, 180]⟩, ⟨.noOperation, []⟩, ⟨.endOfList, []⟩] }
    let list : List (UInt8 × Octets) := [(2, [5, 180]), (1, []), (0, [])]
    (tcp looseSegment).optionList = some [(2, [5, 180]), (1, [7])] ∧
      (tcp looseSegment).RestFits [42] ∧
      (∃ w, ((tcp looseSegment).serialize .fixAll [42]).outcome = .ok w ∧
        GivesOptions .tcp w.header list) ∧
      (tcp settled).optionList = some list ∧ (tcp settled).RestFits [42] ∧ IsDecoded list ∧
      ∃ w, ((tcp settled).serialize .fixAll [42]).outcome = .ok w ∧
        GivesOptions .tcp w.header list := by
  intro settled list
  have hfamily : ∀ addresses, looseSegment.network = some addresses → addresses.OneFamily := by
    rintro addresses ⟨⟩
    trivial
  obtain ⟨hwritten, -, hfits, hgives, -, -, -⟩ :=
    options_normalized .fixAll [42] (l := .tcp looseSegment) rfl hfamily
  obtain ⟨w, hw⟩ := hwritten.mpr ⟨⟨by decide, by decide⟩, hfits (.inr (by decide))⟩
  have hlist : GivesOptions .tcp w.header list := hgives w rfl hw
  have hdecoded : IsDecoded list := ⟨.tcp .fresh, _, hlist (.tcp .fresh) [] rfl⟩
  obtain ⟨-, -, hfits', -, -, -, hagain⟩ :=
    options_normalized .fixAll [42] (l := .tcp settled) rfl hfamily
  obtain ⟨w', hw', hsame⟩ := hagain hdecoded (hfits' (.inr (by decide)))
  exact ⟨rfl, hfamily, ⟨w, hw, hlist⟩, rfl, hfamily, hdecoded, w', hw', hsame rfl⟩

/-- A segment without options, between addresses of one version. -/
def plainSegment : Tcp :=
  { Tcp.ofPorts 80 4000 with network := some ⟨.v4 .zero, .v4 .zero⟩ }

/-- Its header has room for its options, and still it is not written in front of too many words of
all ones. -/
theorem overflowingSegment :
    (tcp plainSegment).optionList = some [] ∧ (tcp plainSegment).RestFits (onesPayload 65538) ∧
      Writable [] ∧
      ((tcp plainSegment).serialize ⟨false, true⟩ (onesPayload 65538)).outcome =
        .error .overflow := by
  have hrest : (tcp plainSegment).RestFits (onesPayload 65538) := by
    rintro addresses ⟨⟩
    trivial
  have hwritable : Writable [] := ⟨by decide, by decide⟩
  have hlarge : ¬ (tcp plainSegment).SumFits ⟨false, true⟩ (onesPayload 65538) := by
    intro hfits
    have hsum := hfits [] rfl rfl rfl
    rw [Checksum.wordSum_append rfl, Checksum.wordSum_onesPayload, Checksum.capacity] at hsum
    omega
  exact ⟨rfl, hrest, hwritable, (outcome_eq_overflow_iff _ rfl hrest).mpr ⟨hwritable, hlarge⟩⟩

end BuiltinLayer

end PacketLayers
