import PacketLayers.Dns.Code
import PacketLayers.Dns.Name
import PacketLayers.Network.Checksum

/-! # Questions and resource records

The entries of the four sections of a message.  The data of a record is kept as raw octets and, for
the common types, interpreted.  Names inside the data are read from the whole message, since they may
be compressed against it.
-/

namespace PacketLayers.Dns

open Name (Cursor)

/-- An entry of the question section. -/
structure Question where
  /-- Dotted text without a trailing dot. -/
  name : Octets
  type : RecordType
  recordClass : RecordClass
  deriving DecidableEq, Repr, Inhabited

/-- The data of a start of authority. -/
structure StartOfAuthority where
  mname : Octets
  rname : Octets
  serial : UInt32
  refresh : UInt32
  retry : UInt32
  expire : UInt32
  minimum : UInt32
  deriving DecidableEq, Repr, Inhabited

/-- Interpreted resource data. -/
inductive RecordData where
  | address (address : IpAddress)
  | ns (name : Octets)
  | cname (name : Octets)
  | ptr (name : Octets)
  | mx (preference : UInt16) (name : Octets)
  | txt (strings : List Octets)
  | soa (soa : StartOfAuthority)
  | srv (priority weight port : UInt16) (name : Octets)
  /-- Data of a type without interpretation; the raw octets are written. -/
  | raw
  deriving DecidableEq, Repr, Inhabited

/-- An entry of the answer, authority or additional section. -/
structure ResourceRecord where
  /-- Dotted text without a trailing dot. -/
  name : Octets
  type : RecordType
  recordClass : RecordClass
  ttl : UInt32
  /-- The length of the data, as announced. -/
  dataLength : UInt16
  data : Octets
  content : RecordData
  deriving DecidableEq, Repr, Inhabited

/-! ## Reading -/

/-- The name at a cursor as a part of a message, and the cursor behind it. -/
def readName (message : Octets) (c : Cursor) : Except DecodeError (Octets × Cursor) :=
  match Name.decodeFrom message c with
  | .error error => .error (.name error)
  | .ok (name, stop) => .ok (name, c.advance (stop - c.position))

/-- The next octets of a message, and the cursor behind them. -/
def readFixed (message : Octets) (length : Nat) (c : Cursor) :
    Except DecodeError (Octets × Cursor) :=
  let found := c.rest.take length
  if found.length < length then
    .error (.truncated .dns (c.position + length) message.length)
  else
    .ok (found, c.advance length)

/-- An entry starts with a name, which must begin inside the message. -/
def readEntryName (message : Octets) (c : Cursor) : Except DecodeError (Octets × Cursor) :=
  if c.rest = [] then .error (.name .noData) else readName message c

namespace Question

/-- The octets behind the name of a question. -/
def fixedLength : Nat := 4

def read (message : Octets) (c : Cursor) : Except DecodeError (Question × Cursor) := do
  let (name, c) ← readEntryName message c
  let (fixed, c) ← readFixed message fixedLength c
  .ok (⟨name, .ofNumber (be16At fixed 0), .ofNumber (be16At fixed 2)⟩, c)

/-- The octets of a question. -/
def toOctets (q : Question) : Except SerializeError Octets := do
  let name ← Name.toOctets q.name
  .ok (name ++ be16 q.type.number ++ be16 q.recordClass.number)

end Question

namespace RecordData

/-- Data that is inconsistent with its type. -/
def malformed {A : Type} (reason : String) : Except DecodeError A := .error (.malformed .dns reason)

/-- Read length-counted strings behind those that were found so far, which are held in reverse. -/
def readStringsOnto (found : List Octets) (data : Octets) : Except DecodeError (List Octets) :=
  match data with
  | [] => .ok found.reverse
  | length :: tail =>
    let string := tail.take length.toNat
    if string.length < length.toNat then
      malformed "TXT string exceeds record"
    else
      readStringsOnto (string :: found) (tail.drop length.toNat)
  termination_by data.length
  decreasing_by
    simp only [List.length_drop, List.length_cons]
    omega

/-- The length-counted strings that make up the data of a text record. -/
def readStrings (data : Octets) : Except DecodeError (List Octets) := readStringsOnto [] data

/-- The data of a start of authority, which is read from the message and not from the record. -/
def readStartOfAuthority (message : Octets) (c : Cursor) :
    Except DecodeError StartOfAuthority := do
  let (mname, c) ← readName message c
  let (rname, c) ← readName message c
  let tail := c.rest.take 20
  if tail.length < 20 then
    malformed "SOA record too short"
  else
    .ok ⟨mname, rname, be32At tail 0, be32At tail 4, be32At tail 8, be32At tail 12, be32At tail 16⟩

/-- Interpret the data of a record of a type, found at a cursor into the message. -/
def read (type : RecordType) (message : Octets) (c : Cursor) (data : Octets) :
    Except DecodeError RecordData :=
  match type with
  | .a =>
    if data.length = 4 then .ok (.address (.v4 (.readAt data 0)))
    else malformed "A record is not 4 octets"
  | .aaaa =>
    if data.length = 16 then .ok (.address (.v6 (.readAt data 0)))
    else malformed "AAAA record is not 16 octets"
  | .ns => (readName message c).map fun found => .ns found.1
  | .cname => (readName message c).map fun found => .cname found.1
  | .ptr => (readName message c).map fun found => .ptr found.1
  | .mx =>
    if data.length < 2 then malformed "MX record too short"
    else (readName message (c.advance 2)).map fun found => .mx (be16At data 0) found.1
  | .txt => (readStrings data).map .txt
  | .soa => (readStartOfAuthority message c).map .soa
  | .srv =>
    if data.length < 6 then malformed "SRV record too short"
    else (readName message (c.advance 6)).map fun found =>
      .srv (be16At data 0) (be16At data 2) (be16At data 4) found.1
  | _ => .ok .raw

end RecordData

namespace ResourceRecord

/-- The octets between the name and the data of a record. -/
def fixedLength : Nat := 10

/-- A record whose data is derived from its interpretation when it is written. -/
def ofContent (name : Octets) (type : RecordType) (recordClass : RecordClass) (ttl : UInt32)
    (content : RecordData) : ResourceRecord :=
  ⟨name, type, recordClass, ttl, 0, [], content⟩

def read (message : Octets) (c : Cursor) : Except DecodeError (ResourceRecord × Cursor) := do
  let (name, c) ← readEntryName message c
  let (fixed, c) ← readFixed message fixedLength c
  let type := RecordType.ofNumber (be16At fixed 0)
  let dataLength := be16At fixed 8
  let (data, behind) ← readFixed message dataLength.toNat c
  let content ← RecordData.read type message c data
  .ok (⟨name, type, .ofNumber (be16At fixed 2), be32At fixed 4, dataLength, data, content⟩, behind)

/-! ## Writing -/

/-- A string behind an octet with its length. -/
def stringToOctets (string : Octets) : Except SerializeError Octets :=
  if 255 < string.length then
    .error (.invalidField .dns "TXT string longer than 255 octets")
  else
    .ok (UInt8.ofNat string.length :: string)

/-- The octets of the data of a record. -/
def dataToOctets (r : ResourceRecord) : Except SerializeError Octets :=
  match r.content with
  | .address (.v4 address) =>
    if r.type = .a then .ok address.toOctets else familyMismatch
  | .address (.v6 address) =>
    if r.type = .aaaa then .ok address.toOctets else familyMismatch
  | .ns name | .cname name | .ptr name => Name.toOctets name
  | .mx preference name => do
    let name ← Name.toOctets name
    .ok (be16 preference ++ name)
  | .txt strings => (strings.mapM stringToOctets).map List.flatten
  | .soa soa => do
    let mname ← Name.toOctets soa.mname
    let rname ← Name.toOctets soa.rname
    .ok (mname ++ rname ++ be32 soa.serial ++ be32 soa.refresh ++ be32 soa.retry ++
      be32 soa.expire ++ be32 soa.minimum)
  | .srv priority weight port name => do
    let name ← Name.toOctets name
    .ok (be16 priority ++ be16 weight ++ be16 port ++ name)
  | .raw => .ok r.data
where
  familyMismatch : Except SerializeError Octets :=
    .error (.invalidField .dns "address family does not match record type")

def toOctets (r : ResourceRecord) (data : Octets) : Except SerializeError Octets := do
  let name ← Name.toOctets r.name
  .ok (name ++ be16 r.type.number ++ be16 r.recordClass.number ++ be32 r.ttl ++
    be16 r.dataLength ++ data)

/-- What writing a record leaves behind. -/
structure Writing where
  /-- The record with the data length that was stored. -/
  record : ResourceRecord
  outcome : Except SerializeError Octets

/-- Write a record; a data length that was fixed stays if the name then has no form. -/
def write (fixLengths : Bool) (r : ResourceRecord) : Writing :=
  match r.dataToOctets with
  | .error error => ⟨r, .error error⟩
  | .ok data =>
    if fixLengths then
      if 65535 < data.length then
        ⟨r, .error (.lengthFixupFailed .dns "resource data exceeds 65535 octets")⟩
      else
        let sized := { r with dataLength := UInt16.ofNat data.length }
        ⟨sized, sized.toOctets data⟩
    else
      ⟨r, r.toOctets data⟩

end ResourceRecord

end PacketLayers.Dns
