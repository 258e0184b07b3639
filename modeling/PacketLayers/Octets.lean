/-! # Octet strings

Everything that travels on a wire is a finite string of octets.  This module reads integers and
fixed-size blocks at a position of such a string, writes them, and overwrites them in place.
Positions outside the string read as zero; every decoder checks lengths before it reads, so the
default never reaches a field.

Readers and writers are stated by arithmetic on natural numbers.  `be16` and `be16At` are then
inverse to each other by `omega`, and the same holds for the other widths and for the
little-endian pairs.
-/

namespace PacketLayers

/-- A string of octets in wire order. -/
abbrev Octets := List UInt8

/-! ## Reading -/

/-- The octet at a position. -/
def octetAt (data : Octets) (i : Nat) : UInt8 := data.getD i 0

/-- The big-endian 16-bit word at a position. -/
def be16At (data : Octets) (i : Nat) : UInt16 :=
  UInt16.ofNat ((octetAt data i).toNat * 256 + (octetAt data (i + 1)).toNat)

/-- The big-endian 32-bit word at a position. -/
def be32At (data : Octets) (i : Nat) : UInt32 :=
  UInt32.ofNat ((be16At data i).toNat * 65536 + (be16At data (i + 2)).toNat)

/-- The little-endian 16-bit word at a position. -/
def le16At (data : Octets) (i : Nat) : UInt16 :=
  UInt16.ofNat ((octetAt data (i + 1)).toNat * 256 + (octetAt data i).toNat)

/-- The little-endian 32-bit word at a position. -/
def le32At (data : Octets) (i : Nat) : UInt32 :=
  UInt32.ofNat ((le16At data (i + 2)).toNat * 65536 + (le16At data i).toNat)

/-- The block of `n` octets at a position. -/
def blockAt (n : Nat) (data : Octets) (i : Nat) : Vector UInt8 n :=
  Vector.ofFn fun k => octetAt data (i + k)

/-- The octets of a string from position `start` up to, not including, position `stop`. -/
def slice (data : Octets) (start stop : Nat) : Octets := (data.drop start).take (stop - start)

theorem length_slice {data : Octets} {start stop : Nat} (h : stop ≤ data.length) :
    (slice data start stop).length = stop - start := by
  simp only [slice, List.length_take, List.length_drop]
  omega

@[simp] theorem slice_zero_length (data : Octets) : slice data 0 data.length = data := by
  simp [slice]

/-! ## Writing -/

/-- A 16-bit word, high octet first. -/
def be16 (w : UInt16) : Octets := [UInt8.ofNat (w.toNat / 256), UInt8.ofNat (w.toNat % 256)]

/-- A 32-bit word, highest octet first. -/
def be32 (w : UInt32) : Octets :=
  be16 (UInt16.ofNat (w.toNat / 65536)) ++ be16 (UInt16.ofNat (w.toNat % 65536))

/-- A 16-bit word, low octet first. -/
def le16 (w : UInt16) : Octets := [UInt8.ofNat (w.toNat % 256), UInt8.ofNat (w.toNat / 256)]

/-- A 32-bit word, lowest octet first. -/
def le32 (w : UInt32) : Octets :=
  le16 (UInt16.ofNat (w.toNat % 65536)) ++ le16 (UInt16.ofNat (w.toNat / 65536))

/-! ## Overwriting in place -/

def putAt (data : Octets) (i : Nat) : Octets → Octets
  | [] => data
  | b :: bs => putAt (data.set i b) (i + 1) bs

def putOctet (data : Octets) (i : Nat) (b : UInt8) : Octets := data.set i b

def putBe16 (data : Octets) (i : Nat) (w : UInt16) : Octets := putAt data i (be16 w)

def putBe32 (data : Octets) (i : Nat) (w : UInt32) : Octets := putAt data i (be32 w)

@[simp] theorem length_putAt (data : Octets) (i : Nat) (bs : Octets) :
    (putAt data i bs).length = data.length := by
  induction bs generalizing data i with
  | nil => rfl
  | cons b bs ih => simp [putAt, ih]

/-! ## Reading back what was written -/

@[simp] theorem length_be16 (w : UInt16) : (be16 w).length = 2 := rfl

@[simp] theorem length_be32 (w : UInt32) : (be32 w).length = 4 := rfl

@[simp] theorem length_le16 (w : UInt16) : (le16 w).length = 2 := rfl

@[simp] theorem length_le32 (w : UInt32) : (le32 w).length = 4 := rfl

theorem be16At_be16 (w : UInt16) (rest : Octets) : be16At (be16 w ++ rest) 0 = w := by
  apply UInt16.toNat_inj.1
  have h : w.toNat < 65536 := w.toNat_lt
  simp [be16At, be16, octetAt]
  omega

theorem be32At_be32 (w : UInt32) (rest : Octets) : be32At (be32 w ++ rest) 0 = w := by
  apply UInt32.toNat_inj.1
  have h : w.toNat < 4294967296 := w.toNat_lt
  simp [be32At, be32, be16At, be16, octetAt]
  omega

theorem le16At_le16 (w : UInt16) (rest : Octets) : le16At (le16 w ++ rest) 0 = w := by
  apply UInt16.toNat_inj.1
  have h : w.toNat < 65536 := w.toNat_lt
  simp [le16At, le16, octetAt]
  omega

theorem le32At_le32 (w : UInt32) (rest : Octets) : le32At (le32 w ++ rest) 0 = w := by
  apply UInt32.toNat_inj.1
  have h : w.toNat < 4294967296 := w.toNat_lt
  simp [le32At, le32, le16At, le16, octetAt]
  omega

/-! ## Texts -/

def hexDigit (n : Nat) : Char := "0123456789abcdef".toList.getD n '0'

/-- An octet as two hexadecimal digits. -/
def hexOctet (b : UInt8) : String := String.ofList [hexDigit (b.toNat / 16), hexDigit (b.toNat % 16)]

/-- The hexadecimal digits of a string of octets. -/
def hexText (data : Octets) : String :=
  String.ofList (data.flatMap fun b => [hexDigit (b.toNat / 16), hexDigit (b.toNat % 16)])

/-- The octets as a bracketed list of decimal numbers. -/
def listText (data : Octets) : String :=
  "[" ++ ", ".intercalate (data.map fun b => toString b.toNat) ++ "]"

end PacketLayers
