import PacketLayers.Dns.Record

/-! # DNS messages

A fixed header of twelve octets and four sections whose lengths the header counts.  Octets behind the
announced entries are ignored.
-/

namespace PacketLayers

open Dns
open Dns.Name (Cursor)

/-- A DNS message. -/
structure DnsMessage where
  extent : Extent
  id : UInt16
  qr : Bool
  opCode : OpCode
  aa : Bool
  tc : Bool
  rd : Bool
  ra : Bool
  z : UInt8
  responseCode : ResponseCode
  questionCount : UInt16
  answerCount : UInt16
  authorityCount : UInt16
  additionalCount : UInt16
  questions : List Question
  answers : List ResourceRecord
  authorities : List ResourceRecord
  additionals : List ResourceRecord
  deriving DecidableEq, Repr

namespace DnsMessage

def headerLength : Nat := 12

def fresh : DnsMessage :=
  { extent := .empty
    id := 0
    qr := false
    opCode := .query
    aa := false
    tc := false
    rd := false
    ra := false
    z := 0
    responseCode := .noError
    questionCount := 0
    answerCount := 0
    authorityCount := 0
    additionalCount := 0
    questions := []
    answers := []
    authorities := []
    additionals := [] }

instance : Inhabited DnsMessage := ⟨fresh⟩

/-! ## Fields of the octets of a header -/

namespace Header

def id (data : Octets) : UInt16 := be16At data 0

/-- One bit of the first flag octet. -/
def firstBit (data : Octets) (bit : Nat) : Bool := (octetAt data 2).toNat.testBit bit

def qr (data : Octets) : Bool := firstBit data 7

def opCode (data : Octets) : OpCode := .ofNumber (UInt8.ofNat ((octetAt data 2).toNat / 8 % 16))

def aa (data : Octets) : Bool := firstBit data 2

def tc (data : Octets) : Bool := firstBit data 1

def rd (data : Octets) : Bool := firstBit data 0

def ra (data : Octets) : Bool := (octetAt data 3).toNat.testBit 7

def z (data : Octets) : UInt8 := UInt8.ofNat ((octetAt data 3).toNat / 16 % 8)

def responseCode (data : Octets) : ResponseCode :=
  .ofNumber (UInt8.ofNat ((octetAt data 3).toNat % 16))

def questionCount (data : Octets) : UInt16 := be16At data 4

def answerCount (data : Octets) : UInt16 := be16At data 6

/-- The number of authority records. -/
def authorityCount (data : Octets) : UInt16 := be16At data 8

/-- The number of additional records. -/
def additionalCount (data : Octets) : UInt16 := be16At data 10

def setId (data : Octets) (id : UInt16) : Octets := putBe16 data 0 id

def setFlags (data : Octets) (first second : UInt8) : Octets :=
  putOctet (putOctet data 2 first) 3 second

def setCounts (data : Octets) (questions answers authorities additionals : UInt16) : Octets :=
  putBe16 (putBe16 (putBe16 (putBe16 data 4 questions) 6 answers) 8 authorities) 10 additionals

end Header

/-! ## Reading -/

/-- The fields of a header; there are no entries yet. -/
def readHeader (old : DnsMessage) (data : Octets) : DnsMessage :=
  { old with
    id := Header.id data
    qr := Header.qr data
    opCode := Header.opCode data
    aa := Header.aa data
    tc := Header.tc data
    rd := Header.rd data
    ra := Header.ra data
    z := Header.z data
    responseCode := Header.responseCode data
    questionCount := Header.questionCount data
    answerCount := Header.answerCount data
    authorityCount := Header.authorityCount data
    additionalCount := Header.additionalCount data
    questions := []
    answers := []
    authorities := []
    additionals := [] }

/-- What reading a section leaves behind: its entries up to the first error, and where it ends. -/
structure Section (A : Type) where
  entries : List A
  outcome : Except DecodeError Cursor

/-- Read a number of entries behind those that were found so far, which are held in reverse. -/
def readEntries {A : Type} (read : Cursor → Except DecodeError (A × Cursor)) (found : List A) :
    Nat → Cursor → Section A
  | 0, c => ⟨found.reverse, .ok c⟩
  | n + 1, c =>
    match read c with
    | .error error => ⟨found.reverse, .error error⟩
    | .ok (entry, behind) => readEntries read (entry :: found) n behind

/-- Read the announced number of entries of a section. -/
def readSection {A : Type} (read : Cursor → Except DecodeError (A × Cursor)) (count : UInt16)
    (c : Cursor) : Section A :=
  readEntries read [] count.toNat c

/-- Decode a message; the entries in front of an unreadable one are kept. -/
def decode (old : DnsMessage) (data : Octets) : Decoding DnsMessage :=
  if data.length < headerLength then
    .reject old (.truncated .dns headerLength data.length)
  else
    let read := readHeader old data
    let questions := readSection (Question.read data) read.questionCount
      (.ofPosition data headerLength)
    let read := { read with questions := questions.entries }
    match questions.outcome with
    | .error error => .reject read error
    | .ok c =>
      let answers := readSection (ResourceRecord.read data) read.answerCount c
      let read := { read with answers := answers.entries }
      match answers.outcome with
      | .error error => .reject read error
      | .ok c =>
        let authorities := readSection (ResourceRecord.read data) read.authorityCount c
        let read := { read with authorities := authorities.entries }
        match authorities.outcome with
        | .error error => .reject read error
        | .ok c =>
          let additionals := readSection (ResourceRecord.read data) read.additionalCount c
          let read := { read with additionals := additionals.entries }
          match additionals.outcome with
          | .error error => .reject read error
          | .ok _ => .accept { read with extent := .whole data.length }

/-! ## Writing -/

def firstFlags (d : DnsMessage) : UInt8 :=
  UInt8.ofNat (d.qr.toNat * 128 + d.opCode.number.toNat % 16 * 8 + d.aa.toNat * 4 +
    d.tc.toNat * 2 + d.rd.toNat)

def secondFlags (d : DnsMessage) : UInt8 :=
  UInt8.ofNat (d.ra.toNat * 128 + d.z.toNat % 8 * 16 + d.responseCode.number.toNat % 16)

def headerToOctets (d : DnsMessage) : Octets :=
  be16 d.id ++ [d.firstFlags, d.secondFlags] ++ be16 d.questionCount ++ be16 d.answerCount ++
    be16 d.authorityCount ++ be16 d.additionalCount

/-- The length of a section as the header counts it. -/
def sectionCount {A : Type} (entries : List A) : Except SerializeError UInt16 :=
  if 65535 < entries.length then
    .error (.lengthFixupFailed .dns "more than 65535 entries in a section")
  else
    .ok (UInt16.ofNat entries.length)

/-- Store the lengths of the four sections in turn, up to the first that does not fit. -/
def fixCounts (d : DnsMessage) : DnsMessage × Option SerializeError :=
  match sectionCount d.questions with
  | .error error => (d, some error)
  | .ok count =>
    let d := { d with questionCount := count }
    match sectionCount d.answers with
    | .error error => (d, some error)
    | .ok count =>
      let d := { d with answerCount := count }
      match sectionCount d.authorities with
      | .error error => (d, some error)
      | .ok count =>
        let d := { d with authorityCount := count }
        match sectionCount d.additionals with
        | .error error => (d, some error)
        | .ok count => ({ d with additionalCount := count }, none)

/-- What writing the records of a section leaves behind. -/
structure SectionWriting where
  records : List ResourceRecord
  outcome : Except SerializeError Octets

/-- Write the records of a section in turn; those behind the first error stay as they were. -/
def writeSection (fixLengths : Bool) (records : List ResourceRecord) : SectionWriting :=
  let writings := records.map (·.write fixLengths)
  let good := writings.takeWhile (·.outcome.isOk)
  match writings.drop good.length with
  | [] =>
    { records := good.map (·.record)
      outcome := .ok (good.map fun w => w.outcome.toOption.getD []).flatten }
  | bad :: _ =>
    { records := good.map (·.record) ++ bad.record :: records.drop (good.length + 1)
      outcome := bad.outcome }

/-- Write the entries of a message whose counts are settled. -/
def writeEntries (d : DnsMessage) (fixLengths : Bool) : Serialization DnsMessage :=
  match d.questions.mapM Question.toOctets with
  | .error error => .refuse d error
  | .ok questions =>
    let answers := writeSection fixLengths d.answers
    let d := { d with answers := answers.records }
    match answers.outcome with
    | .error error => .refuse d error
    | .ok answers =>
      let authorities := writeSection fixLengths d.authorities
      let d := { d with authorities := authorities.records }
      match authorities.outcome with
      | .error error => .refuse d error
      | .ok authorities =>
        let additionals := writeSection fixLengths d.additionals
        let d := { d with additionals := additionals.records }
        match additionals.outcome with
        | .error error => .refuse d error
        | .ok additionals =>
          .write d (d.headerToOctets ++ questions.flatten ++ answers ++ authorities ++ additionals)

/-- Write the message; counts and data lengths stored before an error stay. -/
def serialize (d : DnsMessage) (options : SerializeOptions) (_ : Octets) :
    Serialization DnsMessage :=
  if options.fixLengths then
    match d.fixCounts with
    | (counted, some error) => .refuse counted error
    | (counted, none) => counted.writeEntries true
  else
    d.writeEntries false

end DnsMessage

end PacketLayers
