import PacketLayers.Control.Icmpv6
import PacketLayers.Control.NeighborDiscovery
import PacketLayers.Link.Ethernet
import PacketLayers.Link.Loopback
import PacketLayers.Network.Ipv4
import PacketLayers.Network.Ipv6
import PacketLayers.Proofs.Bounds.OptionList
import PacketLayers.Transport.Tcp
import PacketLayers.Transport.Udp

/-!
# Link, network and transport headers are read inside their octets

For each protocol with a header of fixed fields: the decoder with checked
readers, that it always has the value of the decoder, and that a decoder that
succeeds splits its input into header and payload.

A header with options reads them from a range that a field of the header
declares; the checks that a decoder makes before are what puts the range inside
the input.
-/

namespace PacketLayers

variable {data : Octets}

/-! ## Ethernet -/

namespace Ethernet

def decode? (old : Ethernet) (data : Octets) : Option (Decoding Ethernet) :=
  if data.length < headerLength then
    some (.reject old (.truncated .ethernet headerLength data.length))
  else do
    let destination ← block? 6 data 0
    let source ← block? 6 data 6
    let etherType ← be16? data 12
    let read : Ethernet :=
      { old with
        destination := ⟨destination⟩
        source := ⟨source⟩
        etherType := .ofNumber etherType }
    let stop := read.declaredEnd data.length
    return {
      layer := { read with extent := .split headerLength (min stop data.length) }
      error := none
      truncated := data.length < stop }

theorem decode?_eq (old : Ethernet) (data : Octets) :
    decode? old data = some (decode old data) := by
  by_cases hshort : data.length < headerLength
  · simp only [decode?, decode, hshort, if_true]
  · have hlong : 14 ≤ data.length := Nat.le_of_not_lt hshort
    have hdestination : block? 6 data 0 = some (blockAt 6 data 0) := block?_eq (by omega)
    have hsource : block? 6 data 6 = some (blockAt 6 data 6) := block?_eq (by omega)
    have htype : be16? data 12 = some (be16At data 12) := be16?_eq (by omega)
    simp only [decode?, hshort, if_false, hdestination, hsource, htype,
      Option.bind_eq_bind, Option.bind_some]
    simp only [decode, hshort, if_false]
    rfl

theorem splits_of_decode {old : Ethernet} (h : (decode old data).error = none) :
    (decode old data).layer.extent.Splits data.length := by
  by_cases hshort : data.length < headerLength
  · simp [decode, hshort, Decoding.reject] at h
  · have hlong : headerLength ≤ data.length := Nat.le_of_not_lt hshort
    simp only [decode, hshort, if_false]
    refine Extent.splits_split (by decide) ?_ (Nat.min_le_right _ _)
    refine Nat.le_min.mpr ⟨?_, hlong⟩
    unfold declaredEnd
    split
    · exact Nat.le_add_right _ _
    · exact hlong

end Ethernet

/-! ## Loopback -/

namespace Loopback

def familyNumber? (data : Octets) : Option UInt32 := do
  let first ← octet? data 0
  let second ← octet? data 1
  if first = 0 ∧ second = 0 then be32? data 0 else le32? data 0

def decode? (old : Loopback) (data : Octets) : Option (Decoding Loopback) :=
  if data.length < headerLength then
    some (.reject old (.truncated .loopback headerLength data.length))
  else do
    let number ← familyNumber? data
    return .accept ⟨.split headerLength data.length, .ofNumber number⟩

theorem familyNumber?_eq (h : 4 ≤ data.length) :
    familyNumber? data = some (familyNumber data) := by
  have hfirst : octet? data 0 = some (octetAt data 0) := octet?_eq (by omega)
  have hsecond : octet? data 1 = some (octetAt data 1) := octet?_eq (by omega)
  have hbig : be32? data 0 = some (be32At data 0) := be32?_eq (by omega)
  have hlittle : le32? data 0 = some (le32At data 0) := le32?_eq (by omega)
  simp only [familyNumber?, hfirst, hsecond, hbig, hlittle, Option.bind_eq_bind,
    Option.bind_some, familyNumber]
  split <;> rfl

theorem decode?_eq (old : Loopback) (data : Octets) :
    decode? old data = some (decode old data) := by
  by_cases hshort : data.length < headerLength
  · simp only [decode?, decode, hshort, if_true]
  · have hnumber := familyNumber?_eq (Nat.le_of_not_lt hshort)
    simp [decode?, decode, hshort, hnumber]

theorem splits_of_decode {old : Loopback} (h : (decode old data).error = none) :
    (decode old data).layer.extent.Splits data.length := by
  by_cases hshort : data.length < headerLength
  · simp [decode, hshort, Decoding.reject] at h
  · simp only [decode, hshort, if_false]
    exact Extent.splits_split (by decide) (Nat.le_of_not_lt hshort) (Nat.le_refl _)

end Loopback

/-! ## IPv4 -/

namespace Ipv4

def readFixed? (old : Ipv4) (data : Octets) : Option Ipv4 := do
  let versionIhl ← octet? data 0
  let tos ← octet? data 1
  let length ← be16? data 2
  let id ← be16? data 4
  let flags ← octet? data 6
  let fragment ← be16? data 6
  let ttl ← octet? data 8
  let protocol ← octet? data 9
  let checksum ← be16? data 10
  let source ← block? 4 data 12
  let destination ← block? 4 data 16
  return {
    old with
    version := UInt8.ofNat (versionIhl.toNat / 16)
    ihl := UInt8.ofNat (versionIhl.toNat % 16)
    tos := tos
    length := length
    id := id
    flags := UInt8.ofNat (flags.toNat / 32)
    fragmentOffset := UInt16.ofNat (fragment.toNat % 8192)
    ttl := ttl
    protocol := .ofNumber protocol
    checksum := checksum
    source := ⟨source⟩
    destination := ⟨destination⟩
    options := [] }

def decode? (old : Ipv4) (data : Octets) : Option (Decoding Ipv4) :=
  if data.length < minHeaderLength then
    some (.reject old (.truncated .ipv4 minHeaderLength data.length))
  else do
    let read ← readFixed? old data
    match read.headerError data.length with
    | some error => return .reject read error
    | none =>
      let stop := read.declaredEnd data.length
      let list ← slice? data minHeaderLength read.headerLength
      let walked ← OptionWalk.collect? .kindLength .ipv4 list
      let found : Ipv4 :=
        { read with options := walked.layer.map fun o => ⟨o.tag.toUInt8, o.data⟩ }
      return {
        layer :=
          match walked.error with
          | some _ => found
          | none => { found with extent := .split read.headerLength (min stop data.length) }
        error := walked.error
        truncated := data.length < stop || walked.truncated }

theorem readFixed?_eq (old : Ipv4) (h : 20 ≤ data.length) :
    readFixed? old data = some (readFixed old data) := by
  simp (disch := omega) only [readFixed?, octet?_eq, be16?_eq, block?_eq,
    Option.bind_eq_bind, Option.bind_some]
  rfl

/-- Either a field is wrong, however many octets there are, or nothing but octets of the header
may be missing. -/
theorem headerError_cases (p : Ipv4) :
    (∃ reason, ∀ available, p.headerError available = some (.malformed .ipv4 reason)) ∨
      (p.version = 4 ∧ 5 ≤ p.ihl.toNat ∧ (p.length = 0 ∨ p.headerLength ≤ p.length.toNat)) ∧
        ∀ available, p.headerError available =
          if available < p.headerLength then some (.truncated .ipv4 p.headerLength available)
          else none := by
  by_cases hversion : p.version ≠ 4
  · exact Or.inl ⟨_, fun available => if_pos hversion⟩
  · by_cases hihl : p.ihl < 5
    · exact Or.inl ⟨_, fun available => (if_neg hversion).trans (if_pos hihl)⟩
    · by_cases htotal : p.length ≠ 0 ∧ p.length.toNat < p.headerLength
      · exact Or.inl ⟨_, fun available =>
          (if_neg hversion).trans ((if_neg hihl).trans (if_pos htotal))⟩
      · have hwords : 5 ≤ p.ihl.toNat := UInt8.le_iff_toNat_le.mp (UInt8.not_lt.mp hihl)
        refine Or.inr ⟨⟨Decidable.not_not.mp hversion, hwords, ?_⟩, fun available => ?_⟩
        · rw [Decidable.not_and_iff_not_or_not, Decidable.not_not] at htotal
          exact htotal.imp_right Nat.le_of_not_lt
        · rw [headerError, if_neg hversion, if_neg hihl, if_neg htotal]

/-- What the checks of the fixed fields establish. -/
theorem bounds_of_headerError {p : Ipv4} {available : Nat}
    (h : p.headerError available = none) :
    minHeaderLength ≤ p.headerLength ∧ p.headerLength ≤ available ∧
      p.headerLength ≤ p.declaredEnd available := by
  rcases headerError_cases p with ⟨reason, hwrong⟩ | ⟨⟨-, hwords, htotal⟩, hchecks⟩
  · rw [hwrong] at h
    cases h
  · rw [hchecks] at h
    split at h
    · cases h
    · next havailable =>
        have hinside : p.headerLength ≤ available := Nat.le_of_not_lt havailable
        refine ⟨Nat.mul_le_mul_right 4 hwords, hinside, ?_⟩
        unfold declaredEnd
        split
        · exact hinside
        · next hset => exact htotal.resolve_left hset

theorem decode?_eq (old : Ipv4) (data : Octets) : decode? old data = some (decode old data) := by
  by_cases hshort : data.length < minHeaderLength
  · simp only [decode?, decode, hshort, if_true]
  · have hread := readFixed?_eq old (Nat.le_of_not_lt hshort)
    simp only [decode?, decode, hshort, if_false, hread, Option.bind_eq_bind, Option.bind_some]
    cases herror : (readFixed old data).headerError data.length with
    | some error => rfl
    | none =>
        obtain ⟨hmin, hinside, -⟩ := bounds_of_headerError herror
        simp only [slice?_eq hmin hinside, OptionWalk.collect?_eq, Option.bind_some]
        rfl

theorem splits_of_decode {old : Ipv4} (h : (decode old data).error = none) :
    (decode old data).layer.extent.Splits data.length := by
  by_cases hshort : data.length < minHeaderLength
  · simp [decode, hshort, Decoding.reject] at h
  · simp only [decode, hshort, if_false] at h ⊢
    cases herror : (readFixed old data).headerError data.length with
    | some error => simp [herror, Decoding.reject] at h
    | none =>
        obtain ⟨hmin, hinside, hdeclared⟩ := bounds_of_headerError herror
        simp only [herror] at h ⊢
        simp only [h]
        refine Extent.splits_split ?_ (Nat.le_min.mpr ⟨hdeclared, hinside⟩) (Nat.min_le_right _ _)
        exact Nat.lt_of_lt_of_le (by decide) hmin

end Ipv4

/-! ## IPv6 -/

namespace Ipv6

def readFixed? (old : Ipv6) (data : Octets) : Option Ipv6 := do
  let first ← be32? data 0
  let length ← be16? data 4
  let nextHeader ← octet? data 6
  let hopLimit ← octet? data 7
  let source ← block? 16 data 8
  let destination ← block? 16 data 24
  return {
    old with
    version := UInt8.ofNat (first.toNat / 268435456)
    trafficClass := UInt8.ofNat (first.toNat / 1048576 % 256)
    flowLabel := UInt32.ofNat (first.toNat % 1048576)
    length := length
    nextHeader := .ofNumber nextHeader
    hopLimit := hopLimit
    source := ⟨source⟩
    destination := ⟨destination⟩ }

def decode? (old : Ipv6) (data : Octets) : Option (Decoding Ipv6) :=
  if data.length < headerLength then
    some (.reject old (.truncated .ipv6 headerLength data.length))
  else do
    let read ← readFixed? old data
    if read.version ≠ 6 then
      return .reject read (.malformed .ipv6 s!"invalid version {read.version.toNat}")
    else
      let stop := read.declaredEnd data.length
      return {
        layer := { read with extent := .split headerLength (min stop data.length) }
        error := none
        truncated := data.length < stop }

theorem readFixed?_eq (old : Ipv6) (h : 40 ≤ data.length) :
    readFixed? old data = some (readFixed old data) := by
  simp (disch := omega) only [readFixed?, octet?_eq, be16?_eq, be32?_eq, block?_eq,
    Option.bind_eq_bind, Option.bind_some]
  rfl

theorem decode?_eq (old : Ipv6) (data : Octets) : decode? old data = some (decode old data) := by
  by_cases hshort : data.length < headerLength
  · simp only [decode?, decode, hshort, if_true]
  · have hread := readFixed?_eq old (Nat.le_of_not_lt hshort)
    simp only [decode?, decode, hshort, if_false, hread, Option.bind_eq_bind, Option.bind_some]
    split
    · rfl
    · rfl

theorem splits_of_decode {old : Ipv6} (h : (decode old data).error = none) :
    (decode old data).layer.extent.Splits data.length := by
  by_cases hshort : data.length < headerLength
  · simp [decode, hshort, Decoding.reject] at h
  · have hlong : headerLength ≤ data.length := Nat.le_of_not_lt hshort
    by_cases hversion : (readFixed old data).version ≠ 6
    · simp [decode, hshort, hversion, Decoding.reject] at h
    · simp only [decode, hshort, hversion, if_false]
      refine Extent.splits_split (by decide) ?_ (Nat.min_le_right _ _)
      refine Nat.le_min.mpr ⟨?_, hlong⟩
      unfold declaredEnd
      split
      · exact hlong
      · exact Nat.le_add_right _ _

end Ipv6

/-! ## ICMPv6 -/

namespace Icmpv6

def decode? (old : Icmpv6) (data : Octets) : Option (Decoding Icmpv6) :=
  if data.length < headerLength then
    some (.reject old (.truncated .icmpv6 headerLength data.length))
  else do
    let messageType ← octet? data 0
    let code ← octet? data 1
    let checksum ← be16? data 2
    return .accept {
      old with
      messageType := .ofNumber messageType
      code := code
      checksum := checksum
      extent := .split headerLength data.length }

theorem decode?_eq (old : Icmpv6) (data : Octets) :
    decode? old data = some (decode old data) := by
  by_cases hshort : data.length < headerLength
  · simp only [decode?, decode, hshort, if_true]
  · have hlong : 4 ≤ data.length := Nat.le_of_not_lt hshort
    have htype : octet? data 0 = some (octetAt data 0) := octet?_eq (by omega)
    have hcode : octet? data 1 = some (octetAt data 1) := octet?_eq (by omega)
    have hsum : be16? data 2 = some (be16At data 2) := be16?_eq (by omega)
    simp only [decode?, decode, hshort, if_false, htype, hcode, hsum, Option.bind_eq_bind,
      Option.bind_some]
    rfl

theorem splits_of_decode {old : Icmpv6} (h : (decode old data).error = none) :
    (decode old data).layer.extent.Splits data.length := by
  by_cases hshort : data.length < headerLength
  · simp [decode, hshort, Decoding.reject] at h
  · simp only [decode, hshort, if_false]
    exact Extent.splits_split (by decide) (Nat.le_of_not_lt hshort) (Nat.le_refl _)

end Icmpv6

/-! ## Neighbor discovery -/

/-- The fixed part of a neighbor discovery message with checked readers. -/
class CheckedBody (B : Type) [NeighborBody B] where
  read? : Octets → Option B
  /-- The fixed part is read inside its own length. -/
  read?_eq : ∀ {data : Octets}, NeighborBody.length B ≤ data.length →
    read? data = some (NeighborBody.read data)

instance : CheckedBody RouterSolicitation where
  read? _ := some {}
  read?_eq _ := rfl

instance : CheckedBody RouterAdvertisement where
  read? data := do
    let hopLimit ← octet? data 0
    let flags ← octet? data 1
    let routerLifetime ← be16? data 2
    let reachableTime ← be32? data 4
    let retransTimer ← be32? data 8
    return ⟨hopLimit, flags, routerLifetime, reachableTime, retransTimer⟩
  read?_eq {data} h := by
    have hlong : 12 ≤ data.length := h
    simp (disch := omega) only [octet?_eq, be16?_eq, be32?_eq, Option.bind_eq_bind,
      Option.bind_some]
    rfl

instance : CheckedBody NeighborSolicitation where
  read? data := do
    let target ← block? 16 data 4
    return ⟨⟨target⟩⟩
  read?_eq {data} h := by
    have hlong : 20 ≤ data.length := h
    simp (disch := omega) only [block?_eq, Option.bind_eq_bind, Option.bind_some]
    rfl

instance : CheckedBody NeighborAdvertisement where
  read? data := do
    let flags ← octet? data 0
    let target ← block? 16 data 4
    return ⟨flags, ⟨target⟩⟩
  read?_eq {data} h := by
    have hlong : 20 ≤ data.length := h
    simp (disch := omega) only [octet?_eq, block?_eq, Option.bind_eq_bind, Option.bind_some]
    rfl

instance : CheckedBody Redirect where
  read? data := do
    let target ← block? 16 data 4
    let destination ← block? 16 data 20
    return ⟨⟨target⟩, ⟨destination⟩⟩
  read?_eq {data} h := by
    have hlong : 36 ≤ data.length := h
    simp (disch := omega) only [block?_eq, Option.bind_eq_bind, Option.bind_some]
    rfl

namespace NeighborMessage

variable {B : Type} [NeighborBody B]

def decode? [CheckedBody B] (old : NeighborMessage B) (data : Octets) :
    Option (Decoding (NeighborMessage B)) :=
  let fixed := NeighborBody.length B
  if data.length < fixed then
    some (.reject old (.truncated (NeighborBody.layerType B) fixed data.length))
  else do
    let body ← CheckedBody.read? data
    let list ← behind? data fixed
    let walked ← OptionWalk.collect? .neighborDiscovery (NeighborBody.layerType B) list
    return {
      layer :=
        { extent :=
            match walked.error with
            | some _ => old.extent
            | none => .whole data.length
          body := body
          options := walked.layer.map NeighborOption.ofRaw }
      error := walked.error
      truncated := walked.truncated }

theorem decode?_eq [CheckedBody B] (old : NeighborMessage B) (data : Octets) :
    decode? old data = some (decode old data) := by
  by_cases hshort : data.length < NeighborBody.length B
  · simp only [decode?, decode, hshort, if_true]
  · have hlong : NeighborBody.length B ≤ data.length := Nat.le_of_not_lt hshort
    have hbody : CheckedBody.read? data = some (NeighborBody.read data : B) :=
      CheckedBody.read?_eq hlong
    simp only [decode?, decode, hshort, if_false, hbody, behind?_eq hlong,
      OptionWalk.collect?_eq, Option.bind_eq_bind, Option.bind_some]
    rfl

theorem splits_of_decode {old : NeighborMessage B} (h : (decode old data).error = none) :
    (decode old data).layer.extent.Splits data.length := by
  by_cases hshort : data.length < NeighborBody.length B
  · simp [decode, hshort, Decoding.reject] at h
  · simp only [decode, hshort, if_false] at h ⊢
    simp only [h]
    exact Extent.splits_whole data.length

end NeighborMessage

/-! ## TCP -/

namespace Tcp

def readFixed? (old : Tcp) (data : Octets) : Option Tcp := do
  let sourcePort ← be16? data 0
  let destinationPort ← be16? data 2
  let seq ← be32? data 4
  let ack ← be32? data 8
  let offset ← octet? data 12
  let flags ← be16? data 12
  let window ← be16? data 14
  let checksum ← be16? data 16
  let urgent ← be16? data 18
  return {
    old with
    sourcePort := sourcePort
    destinationPort := destinationPort
    seq := seq
    ack := ack
    dataOffset := UInt8.ofNat (offset.toNat / 16)
    flags := ⟨UInt16.ofNat (flags.toNat % 512)⟩
    window := window
    checksum := checksum
    urgent := urgent
    options := [] }

def decode? (old : Tcp) (data : Octets) : Option (Decoding Tcp) :=
  if data.length < minHeaderLength then
    some (.reject old (.truncated .tcp minHeaderLength data.length))
  else do
    let read ← readFixed? old data
    if read.dataOffset < 5 then
      return .reject read (.malformed .tcp s!"invalid data offset {read.dataOffset.toNat}")
    else if data.length < read.headerLength then
      return .reject read (.truncated .tcp read.headerLength data.length)
    else
      let list ← slice? data minHeaderLength read.headerLength
      let walked ← OptionWalk.collect? .kindLength .tcp list
      let found : Tcp :=
        { read with options := walked.layer.map fun o => ⟨.ofNumber o.tag.toUInt8, o.data⟩ }
      return {
        layer :=
          match walked.error with
          | some _ => found
          | none => { found with extent := .split read.headerLength data.length }
        error := walked.error
        truncated := walked.truncated }

theorem readFixed?_eq (old : Tcp) (h : 20 ≤ data.length) :
    readFixed? old data = some (readFixed old data) := by
  simp (disch := omega) only [readFixed?, octet?_eq, be16?_eq, be32?_eq,
    Option.bind_eq_bind, Option.bind_some]
  rfl

/-- A data offset of five words takes the fixed fields. -/
theorem minHeaderLength_le {t : Tcp} (h : ¬ t.dataOffset < 5) :
    minHeaderLength ≤ t.headerLength := by
  have hwords : 5 ≤ t.dataOffset.toNat := UInt8.le_iff_toNat_le.mp (UInt8.not_lt.mp h)
  exact Nat.mul_le_mul_right 4 hwords

theorem decode?_eq (old : Tcp) (data : Octets) : decode? old data = some (decode old data) := by
  by_cases hshort : data.length < minHeaderLength
  · simp only [decode?, decode, hshort, if_true]
  · have hread := readFixed?_eq old (Nat.le_of_not_lt hshort)
    simp only [decode?, decode, hshort, if_false, hread, Option.bind_eq_bind, Option.bind_some]
    by_cases hoffset : (readFixed old data).dataOffset < 5
    · simp only [hoffset, if_true]
      rfl
    · by_cases hcut : data.length < (readFixed old data).headerLength
      · simp only [hoffset, hcut, if_true, if_false]
        rfl
      · simp only [hoffset, hcut, if_false, OptionWalk.collect?_eq, Option.bind_some,
          slice?_eq (minHeaderLength_le hoffset) (Nat.le_of_not_lt hcut)]
        rfl

theorem splits_of_decode {old : Tcp} (h : (decode old data).error = none) :
    (decode old data).layer.extent.Splits data.length := by
  by_cases hshort : data.length < minHeaderLength
  · simp [decode, hshort, Decoding.reject] at h
  · by_cases hoffset : (readFixed old data).dataOffset < 5
    · simp [decode, hshort, hoffset, Decoding.reject] at h
    · by_cases hcut : data.length < (readFixed old data).headerLength
      · simp [decode, hshort, hoffset, hcut, Decoding.reject] at h
      · simp only [decode, hshort, hoffset, hcut, if_false] at h ⊢
        simp only [h]
        refine Extent.splits_split ?_ (Nat.le_of_not_lt hcut) (Nat.le_refl _)
        exact Nat.lt_of_lt_of_le (by decide) (minHeaderLength_le hoffset)

end Tcp

/-! ## UDP -/

namespace Udp

def readFixed? (old : Udp) (data : Octets) : Option Udp := do
  let sourcePort ← be16? data 0
  let destinationPort ← be16? data 2
  let length ← be16? data 4
  let checksum ← be16? data 6
  return {
    old with
    sourcePort := sourcePort
    destinationPort := destinationPort
    length := length
    checksum := checksum }

def decode? (old : Udp) (data : Octets) : Option (Decoding Udp) :=
  if data.length < headerLength then
    some (.reject old (.truncated .udp headerLength data.length))
  else do
    let read ← readFixed? old data
    if read.length ≠ 0 ∧ read.length.toNat < headerLength then
      return .reject read (.malformed .udp "length shorter than header")
    else
      let stop := read.declaredEnd data.length
      return {
        layer := { read with extent := .split headerLength (min stop data.length) }
        error := none
        truncated := data.length < stop }

theorem readFixed?_eq (old : Udp) (h : 8 ≤ data.length) :
    readFixed? old data = some (readFixed old data) := by
  simp (disch := omega) only [readFixed?, be16?_eq, Option.bind_eq_bind, Option.bind_some]
  rfl

theorem decode?_eq (old : Udp) (data : Octets) : decode? old data = some (decode old data) := by
  by_cases hshort : data.length < headerLength
  · simp only [decode?, decode, hshort, if_true]
  · have hread := readFixed?_eq old (Nat.le_of_not_lt hshort)
    simp only [decode?, decode, hshort, if_false, hread, Option.bind_eq_bind, Option.bind_some]
    split
    · rfl
    · rfl

theorem splits_of_decode {old : Udp} (h : (decode old data).error = none) :
    (decode old data).layer.extent.Splits data.length := by
  by_cases hshort : data.length < headerLength
  · simp [decode, hshort, Decoding.reject] at h
  · have hlong : headerLength ≤ data.length := Nat.le_of_not_lt hshort
    by_cases hless : (readFixed old data).length ≠ 0 ∧
        (readFixed old data).length.toNat < headerLength
    · simp [decode, hshort, hless, Decoding.reject] at h
    · simp only [decode, hshort, hless, if_false]
      refine Extent.splits_split (by decide) ?_ (Nat.min_le_right _ _)
      refine Nat.le_min.mpr ⟨?_, hlong⟩
      unfold declaredEnd
      split
      · exact hlong
      · next hset => exact Nat.le_of_not_lt fun hlow => hless ⟨hset, hlow⟩

end Udp

end PacketLayers
