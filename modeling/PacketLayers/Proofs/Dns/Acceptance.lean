import PacketLayers.Proofs.Dns.RoundTrip

/-!
# Which messages that are written are accepted

The encoder forms the data of a record after its interpretation, and the decoder reads
it after the number of its type.  Only for addresses does the encoder hold the one to
the other, so it writes messages that the decoder refuses (`DnsMessage.decode_bareExchange`).

Nothing else of a written message is ever refused.  Its header, its counts, its
questions, and the names and fields of its records are read whatever they are, and the
verdict on the message is that on the data of its records, read in turn where it stands
(`DnsMessage.error_decode_serialized`).  Data whose interpretation is of the kind of the
type, and data of a type without interpretation, is always read.
-/

namespace PacketLayers

open Dns

namespace Dns

variable {message : Octets} {start : Nat}

/-! ## Records -/

namespace ResourceRecord

/-- What the data of a record that is written from `start` on is read as, which the number
of its type decides. -/
def readData (message : Octets) (start : Nat) (r : ResourceRecord) :
    Except DecodeError RecordData :=
  RecordData.read (.ofNumber r.type.number) message (.ofPosition message (r.dataStart start))
    r.encodedData

/-- The record as it is read, if its data is read as `content`. -/
def asRead (r : ResourceRecord) (content : RecordData) : ResourceRecord :=
  { r.carried with
    name := Name.trimRoot r.name
    type := .ofNumber r.type.number
    recordClass := .ofNumber r.recordClass.number
    content := content }

/-- The interpretation is of the kind of the type that the number of the type stands for,
or this type has no interpretation. -/
def Agrees (r : ResourceRecord) : Prop :=
  r.content.Suits (.ofNumber r.type.number) ∨
    RecordType.ofNumber r.type.number ∉ RecordData.interpretedTypes

variable {r : ResourceRecord} {stop : Nat}

/-- A written record is read where its octets stand, if its data is. -/
theorem WrittenAt.read_eq (h : r.WrittenAt message start stop) :
    read message (.ofPosition message start) =
      (r.readData message start).map fun content =>
        (r.asRead content, .ofPosition message stop) := by
  obtain ⟨hname, hstands, -, rfl⟩ := h.parts
  obtain ⟨octets, hwritten, -, -⟩ := h
  obtain ⟨-, -, hlength, -⟩ := write_eq_ok hwritten
  exact read_of_stands hname hlength.symm hstands

/-- Data that agrees with its type is read. -/
theorem WrittenAt.exists_readData (h : r.WrittenAt message start stop) (hagrees : r.Agrees) :
    ∃ content, r.readData message start = .ok content := by
  rcases hagrees with hsuits | hnone
  · obtain ⟨-, -, hstands, -⟩ := h.parts
    obtain ⟨octets, hwritten, -, -⟩ := h
    obtain ⟨-, hdata, -⟩ := write_eq_ok hwritten
    have hcontent := standsAt_of_dataToOctets hdata hstands
    exact ⟨_, RecordData.read_of_standsAt (RecordData.suits_trimmed.mpr hsuits) hcontent⟩
  · exact ⟨.raw, RecordData.read_of_standsAt hnone trivial⟩

end ResourceRecord

end Dns

namespace DnsMessage

variable {message : Octets} {start stop : Nat} {records : List ResourceRecord}

/-! ## Sections -/

/-- The error of the first of several records, written one behind the other from a position
on, whose data is not read. -/
def firstDataError (message : Octets) : List ResourceRecord → Nat → Option DecodeError
  | [], _ => none
  | r :: records, start =>
    match r.readData message start with
    | .error error => some error
    | .ok _ => firstDataError message records (r.dataStart start + r.encodedData.length)

/-- The data of further records is read behind records whose data is all read. -/
theorem firstDataError_append (h : Entries (ResourceRecord.WrittenAt message) start records stop)
    (further : List ResourceRecord) :
    firstDataError message (records ++ further) start =
      (firstDataError message records start).or (firstDataError message further stop) := by
  induction h with
  | nil start => rfl
  | @cons start middle stop r records hwritten hrest ih =>
      obtain ⟨-, -, -, rfl⟩ := hwritten.parts
      rw [List.cons_append, firstDataError, firstDataError]
      cases r.readData message start with
      | error error => rfl
      | ok content => exact ih

theorem firstDataError_of_agrees
    (h : Entries (ResourceRecord.WrittenAt message) start records stop)
    (hagrees : ∀ r ∈ records, r.Agrees) : firstDataError message records start = none := by
  induction h with
  | nil start => rfl
  | @cons start middle stop r records hwritten hrest ih =>
      rw [List.forall_mem_cons] at hagrees
      obtain ⟨content, hcontent⟩ := hwritten.exists_readData hagrees.1
      obtain ⟨-, -, -, rfl⟩ := hwritten.parts
      rw [firstDataError, hcontent]
      exact ih hagrees.2

/-- A section that was written is read up to its end, or up to the first record whose data
is not read. -/
theorem outcome_readEntries_of_written
    (h : Entries (ResourceRecord.WrittenAt message) start records stop)
    (found : List ResourceRecord) :
    (readEntries (ResourceRecord.read message) found records.length
        (.ofPosition message start)).outcome =
      (firstDataError message records start).elim (.ok (.ofPosition message stop)) .error := by
  induction h generalizing found with
  | nil start => rfl
  | @cons start middle stop r records hwritten hrest ih =>
      rw [List.length_cons, readEntries, hwritten.read_eq, firstDataError]
      obtain ⟨-, -, -, rfl⟩ := hwritten.parts
      cases r.readData message start with
      | error error => rfl
      | ok content => exact ih (r.asRead content :: found)

theorem outcome_readSection_of_written {count : UInt16}
    (h : Entries (ResourceRecord.WrittenAt message) start records stop)
    (hcount : records.length = count.toNat) :
    (readSection (ResourceRecord.read message) count (.ofPosition message start)).outcome =
      (firstDataError message records start).elim (.ok (.ofPosition message stop)) .error := by
  rw [readSection, ← hcount]
  exact outcome_readEntries_of_written h []

/-! ## Messages -/

/-- Where the records of a message begin when it is written. -/
def recordsStart (d : DnsMessage) : Nat :=
  headerLength + ((d.questions.mapM Question.toOctets).toOption.getD []).flatten.length

/-- Where the header, the questions and the records of a message stand that was written,
the error is that of the first record whose data is not read. -/
theorem error_decode_of_written {d : DnsMessage} {p₁ p₂ p₃ p₄ : Nat} (old : DnsMessage)
    (hlong : headerLength ≤ message.length) (hcounts : d.counted.CountsHold)
    (hheader : Stands message 0 d.counted.headerToOctets)
    (hquestions : Entries (fun start q => Question.StandsAt message start q) headerLength
      (d.questions.map (·.asRead)) p₁)
    (hanswers : Entries (ResourceRecord.WrittenAt message) p₁ d.answers p₂)
    (hauthorities : Entries (ResourceRecord.WrittenAt message) p₂ d.authorities p₃)
    (hadditionals : Entries (ResourceRecord.WrittenAt message) p₃ d.additionals p₄) :
    (decode old message).error = firstDataError message d.records p₁ := by
  have hquestionsRead := (readSection_eq_iff Question.read_eq_ok_iff).mpr
    ⟨(List.length_map _).trans hcounts.questions, _, hquestions, rfl⟩
  have hanswersRead := outcome_readSection_of_written hanswers hcounts.answers
  have hauthoritiesRead := outcome_readSection_of_written hauthorities hcounts.authorities
  have hadditionalsRead := outcome_readSection_of_written hadditionals hcounts.additionals
  obtain ⟨hquestionCount, hanswerCount, hauthorityCount, hadditionalCount⟩ :
      (readHeader old message).questionCount = d.counted.questionCount ∧
        (readHeader old message).answerCount = d.counted.answerCount ∧
        (readHeader old message).authorityCount = d.counted.authorityCount ∧
        (readHeader old message).additionalCount = d.counted.additionalCount :=
    counts_of_stands hheader
  rw [records, firstDataError_append (hanswers.append hauthorities),
    firstDataError_append hanswers]
  unfold decode
  rw [if_neg (Nat.not_lt.mpr hlong)]
  simp only [hquestionCount, hanswerCount, hauthorityCount, hadditionalCount, hquestionsRead]
  -- a section behind one with an error is not reached, and neither are its records
  rcases hanswersError : firstDataError message d.answers p₁ with _ | error
  · rw [hanswersError] at hanswersRead
    simp only [hanswersRead, Option.elim_none, Option.none_or]
    rcases hauthoritiesError : firstDataError message d.authorities p₂ with _ | error
    · rw [hauthoritiesError] at hauthoritiesRead
      simp only [hauthoritiesRead, Option.elim_none, Option.none_or]
      rcases hadditionalsError : firstDataError message d.additionals p₃ with _ | error
      · rw [hadditionalsError] at hadditionalsRead
        simp only [hadditionalsRead, Option.elim_none]
        rfl
      · rw [hadditionalsError] at hadditionalsRead
        simp only [hadditionalsRead, Option.elim_some]
        rfl
    · rw [hauthoritiesError] at hauthoritiesRead
      simp only [hauthoritiesRead, Option.elim_some, Option.some_or]
      rfl
  · rw [hanswersError] at hanswersRead
    simp only [hanswersRead, Option.elim_some, Option.some_or]
    rfl

/-- The decoder refuses a message that was written with fixed lengths for the data of a
record only, and with the error of the first record whose data is not read where it
stands, as data of the type that its number stands for.  No record is refused whose
interpretation agrees with its type. -/
theorem error_decode_serialized {d : DnsMessage} {options : SerializeOptions} {inner : Octets}
    {w : Wrapping} (hfix : options.fixLengths = true)
    (hwritten : (d.serialize options inner).outcome = .ok w) (old : DnsMessage)
    (behind : Octets) :
    (decode old (w.header ++ behind)).error =
        firstDataError (w.header ++ behind) d.records d.recordsStart ∧
      ((∀ r ∈ d.records, r.Agrees) → (decode old (w.header ++ behind)).error = none) := by
  have hcounts := (serialize_eq_ok hfix hwritten).1
  obtain ⟨questions, answers, authorities, additionals, hquestions, hanswers, hauthorities,
    hadditionals, hheader, hfirst, hsecond, hthird, hfourth, hlength⟩ :=
    stands_of_serialize hfix hwritten behind
  have hlong : headerLength ≤ (w.header ++ behind).length := by
    rw [List.length_append]
    omega
  have hstart : d.recordsStart = headerLength + questions.flatten.length := by
    rw [recordsStart, hquestions]
    rfl
  have hanswersStand := entries_of_writeSection hanswers hsecond
  have hauthoritiesStand := entries_of_writeSection hauthorities hthird
  have hadditionalsStand := entries_of_writeSection hadditionals hfourth
  have herror := error_decode_of_written old hlong hcounts hheader
    (entries_of_mapM hquestions hfirst) hanswersStand hauthoritiesStand hadditionalsStand
  rw [herror, hstart]
  refine ⟨rfl, ?_⟩
  intro hagrees
  exact firstDataError_of_agrees
    ((hanswersStand.append hauthoritiesStand).append hadditionalsStand) hagrees

/-- A response with a mail exchange whose data is given in octets, of which there are none. -/
def bareExchange : DnsMessage :=
  { fresh with answers := [.ofContent [] .mx .internet 0 .raw] }

def bareExchangeOctets : Octets :=
  [0, 0, 0, 0, 0, 0, 0, 1, 0, 0, 0, 0, 0, 0, 15, 0, 1, 0, 0, 0, 0, 0, 0]

/-- The response is written, and what was written is refused. -/
theorem decode_bareExchange :
    (bareExchange.serialize .fixAll []).outcome = .ok ⟨bareExchangeOctets, []⟩ ∧
      (decode fresh bareExchangeOctets).error =
        some (.malformed .dns "MX record too short") :=
  ⟨rfl, by decide +kernel⟩

/-- A response with parts that are not read as they were written: flags that are too wide,
a name with a trailing dot, and a type that is not given by its name. -/
def looseResponse : DnsMessage :=
  { fresh with
    opCode := .unknown 77
    z := 255
    questions := [⟨[97, 46], .txt, .any⟩]
    answers := [.ofContent [97, 46] (.unknown 16) .internet 5 (.txt [[104, 105]])]
    additionals := [⟨[], .null, .internet, 0, 0, [1, 2], .raw⟩] }

def looseOctets : Octets :=
  [0, 0, 104, 112, 0, 1, 0, 1, 0, 0, 0, 1,
    1, 97, 0, 0, 16, 0, 255,
    1, 97, 0, 0, 16, 0, 1, 0, 0, 0, 5, 0, 3, 2, 104, 105,
    0, 0, 10, 0, 1, 0, 0, 0, 0, 0, 2, 1, 2]

/-- The data of the response agrees with its types, and what was written is accepted. -/
theorem error_decode_looseOctets :
    (looseResponse.serialize .fixAll []).outcome = .ok ⟨looseOctets, []⟩ ∧
      (∀ r ∈ looseResponse.records, r.Agrees) ∧
      (decode fresh looseOctets).error = none := by
  have hwritten : (looseResponse.serialize .fixAll []).outcome = .ok ⟨looseOctets, []⟩ := rfl
  have hagrees : ∀ r ∈ looseResponse.records, r.Agrees := by
    simp only [records, looseResponse, fresh, List.append_nil, List.singleton_append,
      List.forall_mem_cons]
    exact ⟨.inl rfl, .inr (by decide), by simp⟩
  refine ⟨hwritten, hagrees, ?_⟩
  have haccepted := (error_decode_serialized rfl hwritten fresh []).2 hagrees
  rwa [List.append_nil] at haccepted

end DnsMessage

end PacketLayers
