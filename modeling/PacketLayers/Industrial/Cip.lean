import PacketLayers.Layer

/-! # Common Industrial Protocol

A request names its target object by a path of logical segments, counted in 16-bit words.  A response
repeats the service with the high bit set and reports a general status and additional status words.
The layer covers the whole message; these layers can only be decoded.
-/

namespace PacketLayers

/-- The service of a message, without the response bit. -/
inductive CipService where
  | getAttributesAll
  | setAttributesAll
  | getAttributeList
  | setAttributeList
  | reset
  | start
  | stop
  | create
  | delete
  | multipleServicePacket
  | applyAttributes
  | getAttributeSingle
  | setAttributeSingle
  | findNextObjectInstance
  | restore
  | save
  | nop
  | getMember
  | setMember
  | insertMember
  | removeMember
  | groupSync
  | forwardClose
  | unconnectedSend
  | forwardOpen
  | largeForwardOpen
  | unknown (number : UInt8)
  deriving DecidableEq, Ord, Repr, Inhabited

namespace CipService

def ofNumber (n : UInt8) : CipService :=
  match n with
  | 0x01 => .getAttributesAll
  | 0x02 => .setAttributesAll
  | 0x03 => .getAttributeList
  | 0x04 => .setAttributeList
  | 0x05 => .reset
  | 0x06 => .start
  | 0x07 => .stop
  | 0x08 => .create
  | 0x09 => .delete
  | 0x0a => .multipleServicePacket
  | 0x0d => .applyAttributes
  | 0x0e => .getAttributeSingle
  | 0x10 => .setAttributeSingle
  | 0x11 => .findNextObjectInstance
  | 0x15 => .restore
  | 0x16 => .save
  | 0x17 => .nop
  | 0x18 => .getMember
  | 0x19 => .setMember
  | 0x1a => .insertMember
  | 0x1b => .removeMember
  | 0x1c => .groupSync
  | 0x4e => .forwardClose
  | 0x52 => .unconnectedSend
  | 0x54 => .forwardOpen
  | 0x5b => .largeForwardOpen
  | n => .unknown n

def number : CipService → UInt8
  | .getAttributesAll => 0x01
  | .setAttributesAll => 0x02
  | .getAttributeList => 0x03
  | .setAttributeList => 0x04
  | .reset => 0x05
  | .start => 0x06
  | .stop => 0x07
  | .create => 0x08
  | .delete => 0x09
  | .multipleServicePacket => 0x0a
  | .applyAttributes => 0x0d
  | .getAttributeSingle => 0x0e
  | .setAttributeSingle => 0x10
  | .findNextObjectInstance => 0x11
  | .restore => 0x15
  | .save => 0x16
  | .nop => 0x17
  | .getMember => 0x18
  | .setMember => 0x19
  | .insertMember => 0x1a
  | .removeMember => 0x1b
  | .groupSync => 0x1c
  | .forwardClose => 0x4e
  | .unconnectedSend => 0x52
  | .forwardOpen => 0x54
  | .largeForwardOpen => 0x5b
  | .unknown n => n

theorem number_ofNumber (n : UInt8) : (ofNumber n).number = n := by
  unfold ofNumber
  split <;> rfl

def identifier : CipService → String
  | .getAttributesAll => "GetAttributesAll"
  | .setAttributesAll => "SetAttributesAll"
  | .getAttributeList => "GetAttributeList"
  | .setAttributeList => "SetAttributeList"
  | .reset => "Reset"
  | .start => "Start"
  | .stop => "Stop"
  | .create => "Create"
  | .delete => "Delete"
  | .multipleServicePacket => "MultipleServicePacket"
  | .applyAttributes => "ApplyAttributes"
  | .getAttributeSingle => "GetAttributeSingle"
  | .setAttributeSingle => "SetAttributeSingle"
  | .findNextObjectInstance => "FindNextObjectInstance"
  | .restore => "Restore"
  | .save => "Save"
  | .nop => "Nop"
  | .getMember => "GetMember"
  | .setMember => "SetMember"
  | .insertMember => "InsertMember"
  | .removeMember => "RemoveMember"
  | .groupSync => "GroupSync"
  | .forwardClose => "ForwardClose"
  | .unconnectedSend => "UnconnectedSend"
  | .forwardOpen => "ForwardOpen"
  | .largeForwardOpen => "LargeForwardOpen"
  | .unknown n => s!"Unknown({n.toNat})"

instance : WireCode CipService where
  ofNat n := ofNumber (UInt8.ofNat n)
  unnamed n := .unknown (UInt8.ofNat n)
  toNat code := code.number.toNat
  identifier := identifier

end CipService

/-- A request or a response. -/
structure Cip where
  extent : Extent
  response : Bool
  service : CipService
  /-- The length of the path of a request in 16-bit words. -/
  pathSize : UInt8
  classId : Option UInt16
  instanceId : Option UInt16
  attributeId : Option UInt16
  /-- The general status of a response. -/
  status : UInt8
  /-- The additional status words of a response. -/
  additionalStatus : List UInt16
  /-- The octets behind the header. -/
  data : Octets
  deriving DecidableEq, Repr

namespace Cip

/-- A request without a path. -/
def fresh : Cip :=
  { extent := .empty
    response := false
    service := .nop
    pathSize := 0
    classId := none
    instanceId := none
    attributeId := none
    status := 0
    additionalStatus := []
    data := [] }

instance : Inhabited Cip := ⟨fresh⟩

/-! ## Paths -/

/-- Whether the value of a segment is a word behind a pad octet. -/
def isWide (segment : UInt8) : Bool := segment.toNat.testBit 0

/-- The octets of a segment. -/
def segmentLength (segment : UInt8) : Nat := if isWide segment then 4 else 2

/-- The value of the segment at the start of a path. -/
def segmentValue (path : Octets) : UInt16 :=
  if isWide (octetAt path 0) then le16At path 2 else (octetAt path 1).toUInt16

/-- The layer with the value of one segment, if its kind is known. -/
def setSegment (c : Cip) (segment : UInt8) (value : UInt16) : Option Cip :=
  match segment.toNat / 2 with
  | 0x10 => some { c with classId := some value }
  | 0x12 => some { c with instanceId := some value }
  | 0x18 => some { c with attributeId := some value }
  | _ => none

/-- Read a path; the segments in front of an invalid one are kept. -/
def readPath (c : Cip) (path : Octets) : Cip × Option DecodeError :=
  match _path : path with
  | [] => (c, none)
  | segment :: _ =>
    let length := segmentLength segment
    if (path.take length).length < length then
      (c, some (.malformed .cip s!"path segment 0x{hexOctet segment} exceeds path"))
    else
      match c.setSegment segment (segmentValue path) with
      | none => (c, some (.malformed .cip s!"unsupported path segment 0x{hexOctet segment}"))
      | some longer => longer.readPath (path.drop length)
  termination_by path.length
  decreasing_by
    have : 2 ≤ segmentLength segment := by
      unfold segmentLength
      split <;> decide
    simp only [_path, List.length_drop, List.length_cons]
    omega

/-! ## The layer -/

/-- The little-endian words of a string of octets. -/
def words : Octets → List UInt16
  | low :: high :: rest => le16At [low, high] 0 :: words rest
  | _ => []

/-- Read a response behind its first octet. -/
def readResponse (c : Cip) (data : Octets) : Cip × Option DecodeError :=
  if data.length < 4 then
    (c, some (.truncated .cip 4 data.length))
  else
    let read := { c with status := octetAt data 2 }
    let stop := 4 + (octetAt data 3).toNat * 2
    if data.length < stop then
      (read, some (.truncated .cip stop data.length))
    else
      ({ read with additionalStatus := words (slice data 4 stop), data := data.drop stop }, none)

/-- Read a request behind its first octet. -/
def readRequest (c : Cip) (data : Octets) : Cip × Option DecodeError :=
  if data.length < 2 then
    (c, some (.truncated .cip 2 data.length))
  else
    let read := { c with pathSize := octetAt data 1 }
    let stop := 2 + read.pathSize.toNat * 2
    if data.length < stop then
      (read, some (.truncated .cip stop data.length))
    else
      match read.readPath (slice data 2 stop) with
      | (walked, some error) => (walked, some error)
      | (walked, none) => ({ walked with data := data.drop stop }, none)

/-- The first octet of a message; nothing else is known yet. -/
def readFirst (old : Cip) (first : UInt8) : Cip :=
  { old with
    response := first.toNat.testBit 7
    service := .ofNumber (UInt8.ofNat (first.toNat % 128))
    pathSize := 0
    classId := none
    instanceId := none
    attributeId := none
    status := 0
    additionalStatus := [] }

/-- Decode a message; the octets behind the header change only on success. -/
def decode (old : Cip) (data : Octets) : Decoding Cip :=
  match data with
  | [] => .reject old (.truncated .cip 1 0)
  | first :: _ =>
    let start := readFirst old first
    match if start.response then start.readResponse data else start.readRequest data with
    | (read, some error) => .reject read error
    | (read, none) => .accept { read with extent := .whole data.length }

def serialize (c : Cip) (_ : SerializeOptions) (_ : Octets) : Serialization Cip :=
  .refuse c (.unsupportedLayer .cip)

end Cip

end PacketLayers
