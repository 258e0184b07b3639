import PacketLayers.Error

/-! # Domain names

On the wire a name is a sequence of labels, each behind an octet with its length, that ends in the
empty root label.  To save space a name may end in a two-octet pointer instead and continue with the
labels at an earlier position of the message.  Names are decoded into dotted text without a trailing
dot; the root name is the empty text.

A name is read segment by segment: `readLabels` takes the labels up to the root or a pointer, and
`follow` goes on at the target of a pointer.  Every pointer must target a position before itself and
before every target followed so far, so that the walk ends whatever the pointers are.
-/

namespace PacketLayers.Dns

/-- The longest name in dotted text. -/
def maxNameLength : Nat := 255

def maxLabelLength : Nat := 63

/-- The octet between two labels of a dotted name. -/
def dot : UInt8 := 46

namespace Name

/-! ## Reading -/

/-- A position in a message, with the octets from there on. -/
structure Cursor where
  position : Nat
  rest : Octets
  deriving DecidableEq, Repr

namespace Cursor

/-- The cursor at a position of a message. -/
def ofPosition (message : Octets) (position : Nat) : Cursor := ⟨position, message.drop position⟩

/-- The cursor some octets further on. -/
def advance (c : Cursor) (n : Nat) : Cursor := ⟨c.position + n, c.rest.drop n⟩

end Cursor

/-- Append a label to a dotted name. -/
def appendLabel (name label : Octets) : Octets :=
  if name = [] then label else name ++ dot :: label

/-- Whether an octet is the length of a non-empty label. -/
def isLabelLength (b : UInt8) : Bool := 0 < b && b < 64

/-- Read labels onto a name, up to the first octet that is not the length of a label. -/
def readLabels (name : Octets) (c : Cursor) : Except NameError (Octets × Cursor) :=
  match _rest : c.rest with
  | [] => .ok (name, c)
  | b :: tail =>
    if isLabelLength b then
      let label := tail.take b.toNat
      let longer := appendLabel name label
      if label.length < b.toNat then
        .error (.invalidIndex c.position)
      else if maxNameLength < longer.length then
        .error .nameTooLong
      else
        readLabels longer (c.advance (1 + b.toNat))
    else
      .ok (name, c)
  termination_by c.rest.length
  decreasing_by
    simp only [Cursor.advance, _rest, List.length_drop, List.length_cons]
    omega

/-- The target of a pointer whose two octets are given. -/
def pointerTarget (high low : UInt8) : Nat := high.toNat % 64 * 256 + low.toNat

/-- Read the rest of a name from a cursor on.  `stop` is the position behind the first pointer that
was followed, if any; targets must lie before `limit`. -/
def follow (message name : Octets) (stop : Option Nat) (limit : Nat) (c : Cursor) :
    Except NameError (Octets × Nat) :=
  match readLabels name c with
  | .error error => .error error
  | .ok (longer, c') =>
    match c'.rest with
    | [] => .error .indexOutOfRange
    | high :: tail =>
      if high = 0 then
        if longer = [] ∧ stop.isSome then .error .noData
        else .ok (longer, stop.getD (c'.position + 1))
      else if high < 192 then
        .error (.unsupportedLabel (high &&& 0xc0))
      else
        match tail with
        | [] => .error (.pointerTooHigh c'.position)
        | low :: _ =>
          let target := pointerTarget high low
          let there := Cursor.ofPosition message target
          if there.rest = [] then
            .error (.pointerTooHigh c'.position)
          else if h : target < c'.position ∧ target < limit then
            follow message longer (some (stop.getD (c'.position + 2))) target there
          else
            .error (.pointerLoop c'.position target)
  termination_by limit
  decreasing_by exact h.2

/-- The position that lies behind every target of a pointer, which has 14 bits. -/
def pointerBound : Nat := 16384

/-- The name at a cursor into a message, and the position behind it. -/
def decodeFrom (message : Octets) (c : Cursor) : Except NameError (Octets × Nat) :=
  if c.rest = [] then .error (.offsetTooHigh c.position message.length)
  else follow message [] none pointerBound c

/-- The name at a position of a message, and the position behind it: behind its root label, or
behind the first pointer. -/
def decode (message : Octets) (offset : Nat) : Except NameError (Octets × Nat) :=
  decodeFrom message (.ofPosition message offset)

/-! ## Writing -/

/-- A name without its trailing dot. -/
def trimRoot (name : Octets) : Octets :=
  if name.getLast? = some dot then name.dropLast else name

/-- The octets that a name takes when it is written without pointers. -/
def encodedLength (name : Octets) : Nat :=
  let trimmed := trimRoot name
  if trimmed = [] then 1 else trimmed.length + 2

/-- The parts of a text between its dots. -/
def splitLabels : Octets → List Octets
  | [] => [[]]
  | b :: rest =>
    if b = dot then
      [] :: splitLabels rest
    else
      match splitLabels rest with
      | [] => [[b]]
      | label :: labels => (b :: label) :: labels

/-- What writing a name leaves behind. -/
structure Encoding where
  /-- The octets written, up to the label that could not be. -/
  written : Octets
  error : Option SerializeError
  deriving DecidableEq, Repr

/-- Write labels and the root label behind them. -/
def encodeLabels : List Octets → Encoding
  | [] => ⟨[0], none⟩
  | label :: labels =>
    if label = [] then
      ⟨[], some (.invalidField .dns "empty label in name")⟩
    else if maxLabelLength < label.length then
      ⟨[], some (.invalidField .dns "label longer than 63 octets")⟩
    else
      let behind := encodeLabels labels
      ⟨UInt8.ofNat label.length :: label ++ behind.written, behind.error⟩

/-- Write a name without pointers. -/
def encode (name : Octets) : Encoding :=
  let trimmed := trimRoot name
  if maxNameLength < encodedLength trimmed then
    ⟨[], some (.invalidField .dns "name longer than 255 octets")⟩
  else if trimmed = [] then
    ⟨[0], none⟩
  else
    encodeLabels (splitLabels trimmed)

/-- The octets of a name, or why it has none. -/
def toOctets (name : Octets) : Except SerializeError Octets :=
  match (encode name).error with
  | some error => .error error
  | none => .ok (encode name).written

end Name

end PacketLayers.Dns
