import PacketLayers.Address
import PacketLayers.Layer

/-!
# Checked reading

The readers of `PacketLayers.Octets` are total: they read zero where a string
has no octet.  The readers of this module have no value there, so that a decoder
written with them has one exactly if it never reads outside of its input.  Inside
a string both kinds agree.

`Extent.Splits` says what a decoder that succeeded claims of its input: a header
at its start and the payload right behind it.
-/

namespace PacketLayers

variable {data : Octets} {i start stop : Nat}

/-! ## Readers -/

/-- The octet at a position inside a string. -/
def octet? (data : Octets) (i : Nat) : Option UInt8 := data[i]?

def be16? (data : Octets) (i : Nat) : Option UInt16 := do
  let high ← octet? data i
  let low ← octet? data (i + 1)
  return UInt16.ofNat (high.toNat * 256 + low.toNat)

def be32? (data : Octets) (i : Nat) : Option UInt32 := do
  let high ← be16? data i
  let low ← be16? data (i + 2)
  return UInt32.ofNat (high.toNat * 65536 + low.toNat)

def le16? (data : Octets) (i : Nat) : Option UInt16 := do
  let low ← octet? data i
  let high ← octet? data (i + 1)
  return UInt16.ofNat (high.toNat * 256 + low.toNat)

def le32? (data : Octets) (i : Nat) : Option UInt32 := do
  let low ← le16? data i
  let high ← le16? data (i + 2)
  return UInt32.ofNat (high.toNat * 65536 + low.toNat)

/-- A range of a string, which must be in order and end inside it. -/
def slice? (data : Octets) (start stop : Nat) : Option Octets :=
  if start ≤ stop ∧ stop ≤ data.length then some (slice data start stop) else none

/-- The octets of a string from a position on, which may be its end. -/
def behind? (data : Octets) (start : Nat) : Option Octets := slice? data start data.length

/-- The block of `n` octets at a position, copied from the range that it takes. -/
def block? (n : Nat) (data : Octets) (i : Nat) : Option (Vector UInt8 n) := do
  let copied ← slice? data i (i + n)
  return blockAt n copied 0

/-! ## Agreement inside a string -/

theorem octet?_eq (h : i < data.length) : octet? data i = some (octetAt data i) := by
  simp [octet?, octetAt, h]

theorem be16?_eq (h : i + 2 ≤ data.length) : be16? data i = some (be16At data i) := by
  have hhigh : i < data.length := by omega
  have hlow : i + 1 < data.length := by omega
  simp [be16?, be16At, octet?_eq hhigh, octet?_eq hlow]

theorem be32?_eq (h : i + 4 ≤ data.length) : be32? data i = some (be32At data i) := by
  have hhigh : i + 2 ≤ data.length := by omega
  have hlow : i + 2 + 2 ≤ data.length := by omega
  simp [be32?, be32At, be16?_eq hhigh, be16?_eq hlow]

theorem le16?_eq (h : i + 2 ≤ data.length) : le16? data i = some (le16At data i) := by
  have hlow : i < data.length := by omega
  have hhigh : i + 1 < data.length := by omega
  simp [le16?, le16At, octet?_eq hlow, octet?_eq hhigh]

theorem le32?_eq (h : i + 4 ≤ data.length) : le32? data i = some (le32At data i) := by
  have hlow : i + 2 ≤ data.length := by omega
  have hhigh : i + 2 + 2 ≤ data.length := by omega
  simp [le32?, le32At, le16?_eq hlow, le16?_eq hhigh]

theorem slice?_eq (hle : start ≤ stop) (h : stop ≤ data.length) :
    slice? data start stop = some (slice data start stop) :=
  if_pos ⟨hle, h⟩

theorem behind?_eq (h : start ≤ data.length) : behind? data start = some (data.drop start) := by
  have hall : slice data start data.length = data.drop start := by
    rw [slice, ← List.length_drop, List.take_length]
  rw [behind?, slice?_eq h (Nat.le_refl _), hall]

theorem length_of_behind? {rest : Octets} (h : behind? data start = some rest) :
    rest.length = data.length - start := by
  unfold behind? slice? at h
  split at h
  · obtain rfl := Option.some.inj h
    exact length_slice (Nat.le_refl _)
  · cases h

theorem octetAt_slice {k : Nat} (h : start + k < stop) :
    octetAt (slice data start stop) k = octetAt data (start + k) := by
  have hk : k < stop - start := by omega
  simp [octetAt, slice, hk]

theorem block?_eq {n : Nat} (h : i + n ≤ data.length) :
    block? n data i = some (blockAt n data i) := by
  have hcopied : blockAt n (slice data i (i + n)) 0 = blockAt n data i := by
    refine Vector.ext ?_
    intro k hk
    have hread : octetAt (slice data i (i + n)) k = octetAt data (i + k) :=
      octetAt_slice (Nat.add_lt_add_left hk i)
    simpa [blockAt] using hread
  simp [block?, slice?_eq (Nat.le_add_right i n) h, hcopied]

/-! ## What a decoder claims of its input -/

/-- The contents start the input, the payload follows without a gap and ends
inside the input, and octets are left to it only behind a header. -/
def Extent.Splits (e : Extent) (length : Nat) : Prop :=
  e.contents.start = 0 ∧ e.contents.stop = e.payload.start ∧
    e.payload.start ≤ e.payload.stop ∧ e.payload.stop ≤ length ∧
    (e.payload.start < e.payload.stop → e.contents.start < e.contents.stop)

theorem Extent.splits_split {headerLength length : Nat}
    (hpos : 0 < headerLength) (hheader : headerLength ≤ stop) (hstop : stop ≤ length) :
    (Extent.split headerLength stop).Splits length :=
  ⟨rfl, rfl, hheader, hstop, fun _ => hpos⟩

theorem Extent.splits_whole (length : Nat) : (Extent.whole length).Splits length :=
  ⟨rfl, rfl, Nat.le_refl _, Nat.le_refl _, fun h => absurd h (Nat.lt_irrefl _)⟩

end PacketLayers
