import PacketLayers.Dns.Message
import PacketLayers.Proofs.Bounds.Reading

/-!
# DNS messages are read inside their octets

The decoder of a message with checked readers.  Names need none: every octet of
a name is reached by a match that has a case for the end of the message.  What
has to be checked are the fixed fields of the header and of the entries, the
words in the data of a record, and the strings of a text record.
-/

namespace PacketLayers

variable {data : Octets}

namespace Dns

open Name (Cursor)

variable {message : Octets}

/-- Fixed fields that could be read are all there. -/
theorem length_of_readFixed {length : Nat} {c behind : Cursor} {fixed : Octets}
    (h : readFixed message length c = .ok (fixed, behind)) : fixed.length = length := by
  unfold readFixed at h
  simp only at h
  split at h
  · cases h
  · next hall =>
      obtain ⟨rfl, -⟩ := Prod.mk.inj (Except.ok.inj h)
      rw [List.length_take] at hall ⊢
      omega

/-! ## Questions -/

namespace Question

def read? (message : Octets) (c : Cursor) : Option (Except DecodeError (Question × Cursor)) :=
  match readEntryName message c with
  | .error error => some (.error error)
  | .ok (name, c) =>
    match readFixed message fixedLength c with
    | .error error => some (.error error)
    | .ok (fixed, c) => do
      let type ← be16? fixed 0
      let recordClass ← be16? fixed 2
      return .ok (⟨name, .ofNumber type, .ofNumber recordClass⟩, c)

theorem read?_eq (message : Octets) (c : Cursor) : read? message c = some (read message c) := by
  cases hname : readEntryName message c with
  | error error => simp only [read?, read, hname, bind, Except.bind]
  | ok named =>
      obtain ⟨name, c'⟩ := named
      cases hfixed : readFixed message fixedLength c' with
      | error error => simp only [read?, read, hname, hfixed, bind, Except.bind]
      | ok found =>
          obtain ⟨fixed, behind⟩ := found
          have hlength : fixed.length = 4 := length_of_readFixed hfixed
          have htype : be16? fixed 0 = some (be16At fixed 0) := be16?_eq (by omega)
          have hclass : be16? fixed 2 = some (be16At fixed 2) := be16?_eq (by omega)
          simp only [read?, read, hname, hfixed, htype, hclass, bind, Except.bind, Option.bind]
          rfl

end Question

/-! ## The data of records -/

namespace RecordData

def readStringsOnto? (found : List Octets) (data : Octets) :
    Option (Except DecodeError (List Octets)) :=
  match data with
  | [] => some (.ok found.reverse)
  | length :: tail =>
    let string := tail.take length.toNat
    if string.length < length.toNat then
      some (malformed "TXT string exceeds record")
    else
      match _rest : behind? tail length.toNat with
      | none => none
      | some rest => readStringsOnto? (string :: found) rest
  termination_by data.length
  decreasing_by
    rw [length_of_behind? _rest]
    exact Nat.lt_succ_of_le (Nat.sub_le _ _)

theorem readStringsOnto?_eq (found : List Octets) (data : Octets) :
    readStringsOnto? found data = some (readStringsOnto found data) := by
  induction found, data using readStringsOnto.induct with
  | case1 found => simp [readStringsOnto?, readStringsOnto]
  | case2 found length tail string hshort =>
      have hshort' : (tail.take length.toNat).length < length.toNat := hshort
      simp only [readStringsOnto?, readStringsOnto, hshort', if_true]
  | case3 found length tail string hlong ih =>
      have hlong' : ¬ (tail.take length.toNat).length < length.toNat := hlong
      have hinside : length.toNat ≤ tail.length := by
        rw [List.length_take] at hlong'
        omega
      have hbehind := behind?_eq hinside
      rw [readStringsOnto?, readStringsOnto]
      simp only [hlong', if_false]
      split
      · next hfault => simp [hbehind] at hfault
      · next rest hrest =>
          rw [hbehind, Option.some.injEq] at hrest
          rw [← hrest]
          exact ih

def readStartOfAuthority? (message : Octets) (c : Cursor) :
    Option (Except DecodeError StartOfAuthority) :=
  match readName message c with
  | .error error => some (.error error)
  | .ok (mname, c) =>
    match readName message c with
    | .error error => some (.error error)
    | .ok (rname, c) =>
      let tail := c.rest.take 20
      if tail.length < 20 then
        some (malformed "SOA record too short")
      else do
        let serial ← be32? tail 0
        let refresh ← be32? tail 4
        let retry ← be32? tail 8
        let expire ← be32? tail 12
        let minimum ← be32? tail 16
        return .ok ⟨mname, rname, serial, refresh, retry, expire, minimum⟩

theorem readStartOfAuthority?_eq (message : Octets) (c : Cursor) :
    readStartOfAuthority? message c = some (readStartOfAuthority message c) := by
  cases hfirst : readName message c with
  | error error =>
      simp only [readStartOfAuthority?, readStartOfAuthority, hfirst, bind, Except.bind]
  | ok first =>
      obtain ⟨mname, c'⟩ := first
      cases hsecond : readName message c' with
      | error error =>
          simp only [readStartOfAuthority?, readStartOfAuthority, hfirst, hsecond, bind,
            Except.bind]
      | ok second =>
          obtain ⟨rname, c''⟩ := second
          by_cases hshort : (c''.rest.take 20).length < 20
          · simp only [readStartOfAuthority?, readStartOfAuthority, hfirst, hsecond, hshort,
              if_true, bind, Except.bind]
          · have hlong : 20 ≤ (c''.rest.take 20).length := Nat.le_of_not_lt hshort
            simp (disch := omega) only [readStartOfAuthority?, readStartOfAuthority, hfirst,
              hsecond, hshort, if_false, be32?_eq, bind, Except.bind, Option.bind]
            rfl

def read? (type : RecordType) (message : Octets) (c : Cursor) (data : Octets) :
    Option (Except DecodeError RecordData) :=
  match type with
  | .a =>
    if data.length = 4 then do
      let address ← block? 4 data 0
      return .ok (.address (.v4 ⟨address⟩))
    else
      some (malformed "A record is not 4 octets")
  | .aaaa =>
    if data.length = 16 then do
      let address ← block? 16 data 0
      return .ok (.address (.v6 ⟨address⟩))
    else
      some (malformed "AAAA record is not 16 octets")
  | .ns => some ((readName message c).map fun found => .ns found.1)
  | .cname => some ((readName message c).map fun found => .cname found.1)
  | .ptr => some ((readName message c).map fun found => .ptr found.1)
  | .mx =>
    if data.length < 2 then
      some (malformed "MX record too short")
    else do
      let preference ← be16? data 0
      return (readName message (c.advance 2)).map fun found => .mx preference found.1
  | .txt => (readStringsOnto? [] data).map fun strings => strings.map .txt
  | .soa => (readStartOfAuthority? message c).map fun soa => soa.map .soa
  | .srv =>
    if data.length < 6 then
      some (malformed "SRV record too short")
    else do
      let priority ← be16? data 0
      let weight ← be16? data 2
      let port ← be16? data 4
      return (readName message (c.advance 6)).map fun found => .srv priority weight port found.1
  | _ => some (.ok .raw)

theorem read?_eq (type : RecordType) (message : Octets) (c : Cursor) (data : Octets) :
    read? type message c data = some (read type message c data) := by
  cases type with
  | a =>
      by_cases hlength : data.length = 4
      · have haddress : block? 4 data 0 = some (blockAt 4 data 0) := block?_eq (by omega)
        simp only [read?, read, hlength, if_true, haddress]
        rfl
      · simp only [read?, read, hlength, if_false]
  | aaaa =>
      by_cases hlength : data.length = 16
      · have haddress : block? 16 data 0 = some (blockAt 16 data 0) := block?_eq (by omega)
        simp only [read?, read, hlength, if_true, haddress]
        rfl
      · simp only [read?, read, hlength, if_false]
  | mx =>
      by_cases hshort : data.length < 2
      · simp only [read?, read, hshort, if_true]
      · have hpreference : be16? data 0 = some (be16At data 0) := be16?_eq (by omega)
        simp only [read?, read, hshort, if_false, hpreference]
        rfl
  | txt =>
      simp only [read?, read, readStringsOnto?_eq]
      rfl
  | soa =>
      simp only [read?, read, readStartOfAuthority?_eq]
      rfl
  | srv =>
      by_cases hshort : data.length < 6
      · simp only [read?, read, hshort, if_true]
      · have hpriority : be16? data 0 = some (be16At data 0) := be16?_eq (by omega)
        have hweight : be16? data 2 = some (be16At data 2) := be16?_eq (by omega)
        have hport : be16? data 4 = some (be16At data 4) := be16?_eq (by omega)
        simp only [read?, read, hshort, if_false, hpriority, hweight, hport]
        rfl
  | _ => rfl

end RecordData

namespace ResourceRecord

def read? (message : Octets) (c : Cursor) :
    Option (Except DecodeError (ResourceRecord × Cursor)) :=
  match readEntryName message c with
  | .error error => some (.error error)
  | .ok (name, c) =>
    match readFixed message fixedLength c with
    | .error error => some (.error error)
    | .ok (fixed, c) => do
      let number ← be16? fixed 0
      let type := RecordType.ofNumber number
      let dataLength ← be16? fixed 8
      match readFixed message dataLength.toNat c with
      | .error error => return .error error
      | .ok (data, behind) =>
        match ← RecordData.read? type message c data with
        | .error error => return .error error
        | .ok content =>
          let recordClass ← be16? fixed 2
          let ttl ← be32? fixed 4
          return .ok
            (⟨name, type, .ofNumber recordClass, ttl, dataLength, data, content⟩, behind)

theorem read?_eq (message : Octets) (c : Cursor) : read? message c = some (read message c) := by
  cases hname : readEntryName message c with
  | error error => simp only [read?, read, hname, bind, Except.bind]
  | ok named =>
      obtain ⟨name, c'⟩ := named
      cases hfixed : readFixed message fixedLength c' with
      | error error => simp only [read?, read, hname, hfixed, bind, Except.bind]
      | ok found =>
          obtain ⟨fixed, c''⟩ := found
          have hlength : fixed.length = 10 := length_of_readFixed hfixed
          have htype : be16? fixed 0 = some (be16At fixed 0) := be16?_eq (by omega)
          have hcount : be16? fixed 8 = some (be16At fixed 8) := be16?_eq (by omega)
          have hclass : be16? fixed 2 = some (be16At fixed 2) := be16?_eq (by omega)
          have httl : be32? fixed 4 = some (be32At fixed 4) := be32?_eq (by omega)
          simp only [read?, read, hname, hfixed, htype, hcount, bind, Except.bind, Option.bind]
          cases hdata : readFixed message (be16At fixed 8).toNat c'' with
          | error error => rfl
          | ok carried =>
              simp only [RecordData.read?_eq]
              cases RecordData.read (.ofNumber (be16At fixed 0)) message c'' carried.1 with
              | error error => rfl
              | ok content =>
                  simp only [hclass, httl]
                  rfl

end ResourceRecord

end Dns

/-! ## Messages -/

namespace DnsMessage

open Dns
open Dns.Name (Cursor)

def readHeader? (old : DnsMessage) (data : Octets) : Option DnsMessage := do
  let id ← be16? data 0
  let first ← octet? data 2
  let second ← octet? data 3
  let questionCount ← be16? data 4
  let answerCount ← be16? data 6
  let authorityCount ← be16? data 8
  let additionalCount ← be16? data 10
  return {
    old with
    id := id
    qr := first.toNat.testBit 7
    opCode := .ofNumber (UInt8.ofNat (first.toNat / 8 % 16))
    aa := first.toNat.testBit 2
    tc := first.toNat.testBit 1
    rd := first.toNat.testBit 0
    ra := second.toNat.testBit 7
    z := UInt8.ofNat (second.toNat / 16 % 8)
    responseCode := .ofNumber (UInt8.ofNat (second.toNat % 16))
    questionCount := questionCount
    answerCount := answerCount
    authorityCount := authorityCount
    additionalCount := additionalCount
    questions := []
    answers := []
    authorities := []
    additionals := [] }

theorem readHeader?_eq (old : DnsMessage) (h : 12 ≤ data.length) :
    readHeader? old data = some (readHeader old data) := by
  simp (disch := omega) only [readHeader?, octet?_eq, be16?_eq, Option.bind_eq_bind,
    Option.bind_some]
  rfl

def readEntries? {A : Type} (read? : Cursor → Option (Except DecodeError (A × Cursor)))
    (found : List A) : Nat → Cursor → Option (Section A)
  | 0, c => some ⟨found.reverse, .ok c⟩
  | n + 1, c => do
    match ← read? c with
    | .error error => return ⟨found.reverse, .error error⟩
    | .ok (entry, behind) => readEntries? read? (entry :: found) n behind

/-- A section is read inside the message if its entries are. -/
theorem readEntries?_eq
    {A : Type} {read? : Cursor → Option (Except DecodeError (A × Cursor))}
    {read : Cursor → Except DecodeError (A × Cursor)} (h : ∀ c, read? c = some (read c))
    (found : List A) (n : Nat) (c : Cursor) :
    readEntries? read? found n c = some (readEntries read found n c) := by
  induction n generalizing found c with
  | zero => rfl
  | succ n ih =>
      simp only [readEntries?, readEntries, h c, Option.bind_eq_bind, Option.bind_some]
      cases read c with
      | error error => rfl
      | ok found => exact ih _ _

def decode? (old : DnsMessage) (data : Octets) : Option (Decoding DnsMessage) :=
  if data.length < headerLength then
    some (.reject old (.truncated .dns headerLength data.length))
  else do
    let read ← readHeader? old data
    let questions ← readEntries? (Question.read? data) [] read.questionCount.toNat
      (.ofPosition data headerLength)
    let read := { read with questions := questions.entries }
    match questions.outcome with
    | .error error => return .reject read error
    | .ok c =>
      let answers ← readEntries? (ResourceRecord.read? data) [] read.answerCount.toNat c
      let read := { read with answers := answers.entries }
      match answers.outcome with
      | .error error => return .reject read error
      | .ok c =>
        let authorities ← readEntries? (ResourceRecord.read? data) []
          read.authorityCount.toNat c
        let read := { read with authorities := authorities.entries }
        match authorities.outcome with
        | .error error => return .reject read error
        | .ok c =>
          let additionals ← readEntries? (ResourceRecord.read? data) []
            read.additionalCount.toNat c
          let read := { read with additionals := additionals.entries }
          match additionals.outcome with
          | .error error => return .reject read error
          | .ok _ => return .accept { read with extent := .whole data.length }

theorem decode?_eq (old : DnsMessage) (data : Octets) :
    decode? old data = some (decode old data) := by
  by_cases hshort : data.length < headerLength
  · simp only [decode?, decode, hshort, if_true]
  · have hquestions := readEntries?_eq (Question.read?_eq data)
    have hrecords := readEntries?_eq (ResourceRecord.read?_eq data)
    simp only [decode?, decode, readSection, hshort, if_false,
      readHeader?_eq old (Nat.le_of_not_lt hshort), hquestions, hrecords,
      Option.bind_eq_bind, Option.bind_some]
    cases (readEntries (Question.read data) [] (readHeader old data).questionCount.toNat
        (.ofPosition data headerLength)).outcome with
    | error error => rfl
    | ok c =>
        simp only
        cases (readEntries (ResourceRecord.read data) []
            (readHeader old data).answerCount.toNat c).outcome with
        | error error => rfl
        | ok c =>
            simp only
            cases (readEntries (ResourceRecord.read data) []
                (readHeader old data).authorityCount.toNat c).outcome with
            | error error => rfl
            | ok c =>
                simp only
                cases (readEntries (ResourceRecord.read data) []
                    (readHeader old data).additionalCount.toNat c).outcome with
                | error error => rfl
                | ok c => rfl

theorem splits_of_decode {old : DnsMessage} (h : (decode old data).error = none) :
    (decode old data).layer.extent.Splits data.length := by
  unfold decode at h ⊢
  split
  · next hshort => simp [hshort, Decoding.reject] at h
  · next hlong =>
      simp only [hlong, if_false] at h ⊢
      split
      · next error houtcome => simp [houtcome, Decoding.reject] at h
      · next c hquestions =>
          simp only [hquestions] at h
          split
          · next error houtcome => simp [houtcome, Decoding.reject] at h
          · next c hanswers =>
              simp only [hanswers] at h
              split
              · next error houtcome => simp [houtcome, Decoding.reject] at h
              · next c hauthorities =>
                  simp only [hauthorities] at h
                  split
                  · next error houtcome => simp [houtcome, Decoding.reject] at h
                  · exact Extent.splits_whole data.length

end DnsMessage
end PacketLayers
