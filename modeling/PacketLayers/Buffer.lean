import PacketLayers.Octets

/-! # Serialization buffers

A string of octets that grows at both ends.  Layers are written innermost first, so headers go in
front of what is already there and trailers behind it.  The octets lie in an array from a moving
start on; when a header does not fit in front, the array is copied behind a new region with some
headroom to spare.  `Buffer.octets` is the string that a buffer stands for.
-/

namespace PacketLayers

/-- A string of octets that grows at both ends. -/
structure Buffer where
  /-- The array that holds the string from `start` on. -/
  data : Array UInt8
  start : Nat
  start_le : start ≤ data.size

namespace Buffer

/-- The room kept in front whenever the array is copied. -/
def headroom : Nat := 128

def empty : Buffer := ⟨#[], 0, by simp⟩

instance : Inhabited Buffer := ⟨empty⟩

/-- The octets written so far. -/
def octets (b : Buffer) : Octets := (b.data.extract b.start b.data.size).toList

/-- The number of octets written so far. -/
def length (b : Buffer) : Nat := b.data.size - b.start

def isEmpty (b : Buffer) : Bool := b.length == 0

def overwrite (data : Array UInt8) (i : Nat) : Octets → Array UInt8
  | [] => data
  | b :: bs => overwrite (data.setIfInBounds i b) (i + 1) bs

@[simp] theorem size_overwrite (data : Array UInt8) (i : Nat) (bs : Octets) :
    (overwrite data i bs).size = data.size := by
  induction bs generalizing data i with
  | nil => rfl
  | cons b bs ih => simp [overwrite, ih]

/-- The same string with room for `n` octets in front of it. -/
def makeRoom (b : Buffer) (n : Nat) : Buffer :=
  if b.start < n then
    let extra := n - b.start + headroom
    ⟨Array.replicate extra 0 ++ b.data, b.start + extra, by
      have := b.start_le
      simp
      omega⟩
  else
    b

/-- Put `n` zero octets in front. -/
def prependZeros (b : Buffer) (n : Nat) : Buffer :=
  let roomy := b.makeRoom n
  let start := roomy.start - n
  ⟨overwrite roomy.data start (List.replicate n 0), start, by
    have := roomy.start_le
    simp
    omega⟩

/-- Put `n` zero octets behind. -/
def appendZeros (b : Buffer) (n : Nat) : Buffer :=
  ⟨b.data ++ Array.replicate n 0, b.start, by
    have := b.start_le
    simp
    omega⟩

def write (b : Buffer) (i : Nat) (octets : Octets) : Buffer :=
  ⟨overwrite b.data (b.start + i) octets, b.start, by simpa using b.start_le⟩

def prepend (b : Buffer) (octets : Octets) : Buffer :=
  (b.prependZeros octets.length).write 0 octets

def append (b : Buffer) (octets : Octets) : Buffer :=
  (b.appendZeros octets.length).write b.length octets

end Buffer

end PacketLayers
