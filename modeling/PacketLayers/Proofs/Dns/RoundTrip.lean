import PacketLayers.Proofs.Dns.MessageLayout

/-!
# Messages that are written are read back

A message is well formed if its codes are canonical, its names do not end in a dot
and the interpretation of each record is of the kind of its type.  Where such a
message was written with fixed lengths, it is laid out in the octets with the
counts, data lengths and data that were written, and so the decoder gives it back
(`DnsMessage.decode_serialized_message`), whatever stands behind it.
-/

namespace PacketLayers

open Dns

namespace Dns

variable {message : Octets} {start : Nat}

/-! ## Well-formed entries -/

/-- A name in dotted text without a trailing dot. -/
def IsUndotted (name : Octets) : Prop := name.getLast? ≠ some dot

instance (name : Octets) : Decidable (IsUndotted name) :=
  inferInstanceAs (Decidable (name.getLast? ≠ some dot))

/-- The names inside the data of a record. -/
def RecordData.names : RecordData → List Octets
  | .ns name | .cname name | .ptr name | .mx _ name | .srv _ _ _ name => [name]
  | .soa authority => [authority.mname, authority.rname]
  | .address _ | .txt _ | .raw => []

structure Question.WellFormed (q : Question) : Prop where
  name : IsUndotted q.name
  type : IsCanonical RecordType.ofNumber q.type
  recordClass : IsCanonical RecordClass.ofNumber q.recordClass

structure ResourceRecord.WellFormed (r : ResourceRecord) : Prop where
  name : IsUndotted r.name
  type : IsCanonical RecordType.ofNumber r.type
  recordClass : IsCanonical RecordClass.ofNumber r.recordClass
  content : r.content.Suits r.type
  names : ∀ name ∈ r.content.names, IsUndotted name

/-- The interpretation whose names have no trailing dots. -/
def RecordData.trimmed : RecordData → RecordData
  | .ns name => .ns (Name.trimRoot name)
  | .cname name => .cname (Name.trimRoot name)
  | .ptr name => .ptr (Name.trimRoot name)
  | .mx preference name => .mx preference (Name.trimRoot name)
  | .soa authority => .soa { authority with
      mname := Name.trimRoot authority.mname
      rname := Name.trimRoot authority.rname }
  | .srv priority weight port name => .srv priority weight port (Name.trimRoot name)
  | content => content

theorem RecordData.suits_trimmed {type : RecordType} {content : RecordData} :
    content.trimmed.Suits type ↔ content.Suits type := by
  cases content with
  | address host => cases host <;> rfl
  | _ => rfl

theorem RecordData.trimmed_of_isUndotted {content : RecordData}
    (h : ∀ name ∈ content.names, IsUndotted name) : content.trimmed = content := by
  have hname : ∀ name ∈ content.names, Name.trimRoot name = name := by
    intro name hmem
    exact Name.trimRoot_of_getLast? (h name hmem)
  cases content with
  | ns name | cname name | ptr name | mx _ name | srv _ _ _ name =>
      rw [trimmed, hname name List.mem_cons_self]
  | soa authority =>
      rw [trimmed, hname _ List.mem_cons_self, hname _ (List.mem_cons_of_mem _ List.mem_cons_self)]
  | address _ | txt _ | raw => rfl

/-- The question as it is read: its name has no trailing dot, and its codes are those of
their numbers. -/
def Question.asRead (q : Question) : Question :=
  ⟨Name.trimRoot q.name, .ofNumber q.type.number, .ofNumber q.recordClass.number⟩

theorem Question.asRead_of_wellFormed {q : Question} (h : q.WellFormed) : q.asRead = q := by
  rw [asRead, Name.trimRoot_of_getLast? h.name, h.type.ofNumber_number RecordType.number_ofNumber,
    h.recordClass.ofNumber_number RecordClass.number_ofNumber]

/-! ## Strings -/

/-- Strings that could be written are short, and are written one behind the other. -/
theorem strings_of_mapM {strings parts : List Octets}
    (h : strings.mapM ResourceRecord.stringToOctets = .ok parts) :
    (∀ string ∈ strings, string.length ≤ 255) ∧ parts.flatten = countedOctets strings := by
  induction strings generalizing parts with
  | nil =>
      obtain rfl := Except.ok.inj h
      exact ⟨by simp, rfl⟩
  | cons string strings ih =>
      simp only [List.mapM_cons, except_bind_eq_ok_iff] at h
      obtain ⟨part, hpart, parts', hparts, hsplit⟩ := h
      obtain rfl := Except.ok.inj hsplit
      obtain ⟨hshort, hflat⟩ := ih hparts
      unfold ResourceRecord.stringToOctets at hpart
      split at hpart
      · cases hpart
      · next hlong =>
          obtain rfl := Except.ok.inj hpart
          refine ⟨List.forall_mem_cons.mpr ⟨Nat.le_of_not_lt hlong, hshort⟩, ?_⟩
          rw [List.flatten_cons, hflat, countedOctets_cons]
          rfl

/-! ## Questions -/

/-- A written question stands where its octets do, as it is read. -/
theorem Question.standsAt_of_toOctets {q : Question} {octets : Octets}
    (hwritten : q.toOctets = .ok octets) (h : Stands message start octets) :
    q.asRead.StandsAt message start (start + octets.length) := by
  obtain ⟨name, hname, hoctets⟩ := except_bind_eq_ok_iff.mp hwritten
  obtain rfl := Except.ok.inj hoctets
  rw [List.append_assoc, stands_append_iff] at h
  refine ⟨⟨_, rfl⟩, ⟨_, rfl⟩, _, Name.spells_of_toOctets hname h.1, ?_, ?_⟩
  · rw [fieldOctets, asRead, RecordType.number_ofNumber, RecordClass.number_ofNumber]
    exact h.2
  · rw [List.append_assoc, List.length_append, Nat.add_assoc]
    rfl

/-! ## Records -/

namespace ResourceRecord

/-- The octets of the data of a record; none if the data has no form. -/
def encodedData (r : ResourceRecord) : Octets := r.dataToOctets.toOption.getD []

/-- The octets of the name of a record; none if the name has no form. -/
def encodedName (r : ResourceRecord) : Octets := (Name.toOctets r.name).toOption.getD []

/-- Where the data of a record begins that is written from `start` on. -/
def dataStart (start : Nat) (r : ResourceRecord) : Nat :=
  start + r.encodedName.length + fixedLength

/-- The record with the length of its data stored. -/
def sized (r : ResourceRecord) : ResourceRecord :=
  { r with dataLength := UInt16.ofNat r.encodedData.length }

/-- The record as it is carried in a message, with its data in octets. -/
def carried (r : ResourceRecord) : ResourceRecord := { r.sized with data := r.encodedData }

theorem encodedData_of_dataToOctets {r : ResourceRecord} {data : Octets}
    (h : r.dataToOctets = .ok data) : r.encodedData = data := by
  rw [encodedData, h]
  rfl

/-- In the data that was written for an interpretation it is found, with its names as they
are read. -/
theorem standsAt_of_dataToOctets {r : ResourceRecord} {data : Octets}
    (hwritten : r.dataToOctets = .ok data) (h : Stands message start data) :
    r.content.trimmed.StandsAt message start data := by
  rw [dataToOctets] at hwritten
  cases hcontent : r.content with
  | address host =>
      rw [hcontent] at hwritten
      cases host with
      | v4 host =>
          simp only at hwritten
          split at hwritten
          · exact (Except.ok.inj hwritten).symm
          · cases hwritten
      | v6 host =>
          simp only at hwritten
          split at hwritten
          · exact (Except.ok.inj hwritten).symm
          · cases hwritten
  | ns name | cname name | ptr name =>
      rw [hcontent] at hwritten
      exact ⟨_, Name.spells_of_toOctets hwritten h⟩
  | mx _ name | srv _ _ _ name =>
      rw [hcontent] at hwritten
      obtain ⟨octets, hname, hoctets⟩ := except_bind_eq_ok_iff.mp hwritten
      obtain rfl := Except.ok.inj hoctets
      have hbehind := (stands_append_iff.mp h).2
      exact ⟨stands_zero_iff.mpr (List.prefix_append _ _), _,
        Name.spells_of_toOctets hname hbehind⟩
  | txt strings =>
      rw [hcontent] at hwritten
      obtain ⟨parts, hparts, rfl⟩ := except_map_eq_ok_iff.mp hwritten
      exact strings_of_mapM hparts
  | soa authority =>
      rw [hcontent] at hwritten
      simp only [except_bind_eq_ok_iff] at hwritten
      obtain ⟨mname, hmname, rname, hrname, hoctets⟩ := hwritten
      obtain rfl := Except.ok.inj hoctets
      have hsplit : Stands message start (mname ++ (rname ++ authority.numberOctets)) := by
        simpa only [StartOfAuthority.numberOctets, List.append_assoc] using h
      rw [stands_append_iff, stands_append_iff] at hsplit
      obtain ⟨hfirst, hsecond, hnumbers⟩ := hsplit
      exact ⟨_, _, Name.spells_of_toOctets hmname hfirst, Name.spells_of_toOctets hrname hsecond,
        hnumbers⟩
  | raw => exact trivial

/-- A record that could be written has its data in octets, which fit its length. -/
theorem write_eq_ok {r : ResourceRecord} {octets : Octets}
    (h : (r.write true).outcome = .ok octets) :
    (r.write true).record = r.sized ∧ r.dataToOctets = .ok r.encodedData ∧
      r.sized.dataLength.toNat = r.encodedData.length ∧
      ∃ name, Name.toOctets r.name = .ok name ∧
        octets = name ++ (r.carried.fieldOctets ++ r.carried.data) := by
  unfold write at h ⊢
  cases hdata : r.dataToOctets with
  | error error =>
      simp only [hdata] at h
      cases h
  | ok data =>
      simp only [hdata, if_true] at h ⊢
      have hencoded := encodedData_of_dataToOctets hdata
      split at h
      · cases h
      · next hshort =>
          simp only [toOctets] at h
          obtain ⟨name, hname, hoctets⟩ := except_bind_eq_ok_iff.mp h
          obtain rfl := Except.ok.inj hoctets
          rw [if_neg hshort, sized, hencoded]
          refine ⟨rfl, rfl, ?_, name, hname, ?_⟩
          · rw [UInt16.toNat_ofNat', Nat.mod_eq_of_lt (by omega)]
          · simp only [carried, sized, fieldOctets, hencoded, List.append_assoc]

/-- The octets that are written for a record stand in the message from `start` up to
`stop`. -/
def WrittenAt (message : Octets) (start : Nat) (r : ResourceRecord) (stop : Nat) : Prop :=
  ∃ octets, (r.write true).outcome = .ok octets ∧ Stands message start octets ∧
    stop = start + octets.length

/-- A written record is its name, its fields and its data, which end where it stops. -/
theorem WrittenAt.parts {r : ResourceRecord} {stop : Nat} (h : r.WrittenAt message start stop) :
    Name.Spells message start (Name.trimRoot r.name) (start + r.encodedName.length) ∧
      Stands message (start + r.encodedName.length)
        (r.carried.fieldOctets ++ r.carried.data) ∧
      Stands message (r.dataStart start) r.encodedData ∧
      stop = r.dataStart start + r.encodedData.length := by
  obtain ⟨octets, hwritten, hall, rfl⟩ := h
  obtain ⟨-, -, -, name, hname, rfl⟩ := write_eq_ok hwritten
  have hencoded : r.encodedName = name := by
    rw [encodedName, hname]
    rfl
  obtain ⟨hnamed, hstands⟩ := stands_append_iff.mp hall
  have hdata := (stands_append_iff.mp hstands).2
  rw [length_fieldOctets] at hdata
  rw [dataStart, hencoded]
  refine ⟨Name.spells_of_toOctets hname hnamed, hstands, hdata, ?_⟩
  rw [List.length_append, List.length_append, length_fieldOctets, ← Nat.add_assoc,
    ← Nat.add_assoc]
  rfl

/-- A written record stands where its octets do, with its data. -/
theorem WrittenAt.standsAt {r : ResourceRecord} {stop : Nat} (h : r.WrittenAt message start stop)
    (hform : r.WellFormed) : r.carried.StandsAt message start stop := by
  obtain ⟨hname, hstands, hdata, rfl⟩ := h.parts
  obtain ⟨octets, hoctets, -, -⟩ := h
  obtain ⟨-, hwritten, hlength, -⟩ := write_eq_ok hoctets
  have hcontent := standsAt_of_dataToOctets hwritten hdata
  rw [RecordData.trimmed_of_isUndotted hform.names] at hcontent
  rw [Name.trimRoot_of_getLast? hform.name] at hname
  exact ⟨hform.type, hform.recordClass, hlength.symm, hform.content, _, hname, hstands, hcontent,
    rfl⟩

end ResourceRecord

end Dns

namespace DnsMessage

/-! ## Sections -/

variable {message : Octets} {start : Nat}

/-- The first of a list behind its longest good front is not good. -/
theorem not_of_drop_takeWhile {A : Type} {good : A → Bool} {l rest : List A} {bad : A}
    (h : l.drop (l.takeWhile good).length = bad :: rest) : good bad = false := by
  have hsplit : l.takeWhile good ++ l.dropWhile good = l := List.takeWhile_append_dropWhile
  have hdrop : l.dropWhile good = bad :: rest :=
    calc
      l.dropWhile good =
          (l.takeWhile good ++ l.dropWhile good).drop (l.takeWhile good).length :=
        List.drop_left.symm
      _ = bad :: rest := by rw [hsplit, h]
  have hhead := List.head?_dropWhile_not good l
  rw [hdrop] at hhead
  exact hhead

/-- Behind a record that could be written, the others of its section are written. -/
theorem writeSection_cons_of_ok {fixLengths : Bool} {r : ResourceRecord}
    {records : List ResourceRecord} {octets : Octets}
    (h : (r.write fixLengths).outcome = .ok octets) :
    writeSection fixLengths (r :: records) =
      ⟨(r.write fixLengths).record :: (writeSection fixLengths records).records,
        (writeSection fixLengths records).outcome.map (octets ++ ·)⟩ := by
  have hgood : (r.write fixLengths).outcome.isOk = true := by
    rw [h]
    rfl
  have hfirst : (r.write fixLengths).outcome.toOption.getD [] = octets := by
    rw [h]
    rfl
  simp only [writeSection, List.map_cons, List.takeWhile_cons, hgood, if_true, List.length_cons,
    List.drop_succ_cons]
  split
  · simp only [List.flatten_cons, hfirst]
    rfl
  · next bad rest hbad =>
      have herror := not_of_drop_takeWhile hbad
      cases houtcome : bad.outcome with
      | ok octets => simp [houtcome, Except.isOk, Except.toBool] at herror
      | error error => rfl

/-- A record that could not be written ends its section. -/
theorem writeSection_cons_of_error {fixLengths : Bool} {r : ResourceRecord}
    {records : List ResourceRecord} {error : SerializeError}
    (h : (r.write fixLengths).outcome = .error error) :
    writeSection fixLengths (r :: records) =
      ⟨(r.write fixLengths).record :: records, .error error⟩ := by
  have hbad : (r.write fixLengths).outcome.isOk = false := by
    rw [h]
    rfl
  simp only [writeSection, List.map_cons, List.takeWhile_cons, hbad]
  simp [h]

/-- A section with a first record could be written if that record and the others could. -/
theorem writeSection_cons_eq_ok_iff {fixLengths : Bool} {r : ResourceRecord}
    {records : List ResourceRecord} {octets : Octets} :
    (writeSection fixLengths (r :: records)).outcome = .ok octets ↔
      ∃ first behind, (r.write fixLengths).outcome = .ok first ∧
        (writeSection fixLengths records).outcome = .ok behind ∧ octets = first ++ behind := by
  cases hfirst : (r.write fixLengths).outcome with
  | error error =>
      rw [writeSection_cons_of_error hfirst]
      constructor
      · intro h
        cases h
      · rintro ⟨first, behind, h, -⟩
        cases h
  | ok first =>
      rw [writeSection_cons_of_ok hfirst, except_map_eq_ok_iff]
      constructor
      · rintro ⟨behind, hbehind, rfl⟩
        exact ⟨first, behind, rfl, hbehind, rfl⟩
      · rintro ⟨first', behind, h, hbehind, rfl⟩
        obtain rfl := Except.ok.inj h
        exact ⟨behind, hbehind, rfl⟩

/-- A section that could be written has the records with their lengths, and each of
them could be written. -/
theorem writeSection_eq_ok {records : List ResourceRecord} {octets : Octets}
    (h : (writeSection true records).outcome = .ok octets) :
    (writeSection true records).records = records.map (·.sized) ∧
      ∀ r ∈ records, ∃ octets, (r.write true).outcome = .ok octets := by
  induction records generalizing octets with
  | nil => exact ⟨rfl, by simp⟩
  | cons r records ih =>
      obtain ⟨first, behind, hfirst, hbehind, -⟩ := writeSection_cons_eq_ok_iff.mp h
      obtain ⟨hrecords, hwritten⟩ := ih hbehind
      refine ⟨?_, List.forall_mem_cons.mpr ⟨⟨first, hfirst⟩, hwritten⟩⟩
      rw [writeSection_cons_of_ok hfirst, hrecords, (ResourceRecord.write_eq_ok hfirst).1,
        List.map_cons]

/-- The records of a section that was written stand one behind the other. -/
theorem entries_of_writeSection {records : List ResourceRecord} {octets : Octets}
    (hwritten : (writeSection true records).outcome = .ok octets)
    (h : Stands message start octets) :
    Entries (ResourceRecord.WrittenAt message) start records (start + octets.length) := by
  induction records generalizing start octets with
  | nil =>
      obtain rfl := Except.ok.inj hwritten
      exact .nil start
  | cons r records ih =>
      obtain ⟨first, behind, hfirst, hbehind, rfl⟩ := writeSection_cons_eq_ok_iff.mp hwritten
      obtain ⟨hstands, hrest⟩ := stands_append_iff.mp h
      rw [List.length_append, ← Nat.add_assoc]
      exact .cons ⟨first, hfirst, hstands, rfl⟩ (ih hbehind hrest)

/-- The questions of a section that was written stand one behind the other. -/
theorem entries_of_mapM {questions : List Question} {parts : List Octets}
    (hwritten : questions.mapM Question.toOctets = .ok parts)
    (h : Stands message start parts.flatten) :
    Entries (fun start q => Question.StandsAt message start q) start
      (questions.map (·.asRead)) (start + parts.flatten.length) := by
  induction questions generalizing start parts with
  | nil =>
      obtain rfl := Except.ok.inj hwritten
      exact .nil start
  | cons q questions ih =>
      simp only [List.mapM_cons, except_bind_eq_ok_iff] at hwritten
      obtain ⟨part, hpart, parts', hparts, hsplit⟩ := hwritten
      obtain rfl := Except.ok.inj hsplit
      rw [List.flatten_cons, stands_append_iff] at h
      have hentry := Question.standsAt_of_toOctets hpart h.1
      have hentries := ih hparts h.2
      rw [List.flatten_cons, List.length_append, ← Nat.add_assoc]
      exact .cons hentry hentries

/-! ## Messages -/

/-- The records of the three sections. -/
def records (d : DnsMessage) : List ResourceRecord :=
  d.answers ++ d.authorities ++ d.additionals

structure WellFormed (d : DnsMessage) : Prop where
  flags : d.FlagsFit
  questions : ∀ q ∈ d.questions, q.WellFormed
  records : ∀ r ∈ d.records, r.WellFormed

/-- The message with the counts of its sections stored. -/
def counted (d : DnsMessage) : DnsMessage :=
  { d with
    questionCount := UInt16.ofNat d.questions.length
    answerCount := UInt16.ofNat d.answers.length
    authorityCount := UInt16.ofNat d.authorities.length
    additionalCount := UInt16.ofNat d.additionals.length }

/-- The message with the counts of its sections and the data lengths of its records
stored. -/
def settled (d : DnsMessage) : DnsMessage :=
  { d.counted with
    answers := d.answers.map (·.sized)
    authorities := d.authorities.map (·.sized)
    additionals := d.additionals.map (·.sized) }

/-- The message as it is read from a string of the given length: each record has its
data in octets. -/
def received (d : DnsMessage) (length : Nat) : DnsMessage :=
  { d.settled with
    extent := .whole length
    answers := d.answers.map (·.carried)
    authorities := d.authorities.map (·.carried)
    additionals := d.additionals.map (·.carried) }

theorem FlagsFit.received {d : DnsMessage} (h : d.FlagsFit) (length : Nat) :
    (d.received length).FlagsFit :=
  ⟨h.opCode, h.opCode_le, h.z_le, h.responseCode, h.responseCode_le⟩

theorem CountsHold.received {d : DnsMessage} (h : d.counted.CountsHold) (length : Nat) :
    (d.received length).CountsHold where
  questions := h.questions
  answers := (List.length_map _).trans h.answers
  authorities := (List.length_map _).trans h.authorities
  additionals := (List.length_map _).trans h.additionals

theorem sectionCount_eq_ok_iff {A : Type} {entries : List A} {count : UInt16} :
    sectionCount entries = .ok count ↔
      entries.length ≤ 65535 ∧ count = UInt16.ofNat entries.length := by
  unfold sectionCount
  split
  · next hlong =>
      constructor
      · intro h
        cases h
      · rintro ⟨hshort, -⟩
        exact absurd hshort (Nat.not_le.mpr hlong)
  · next hshort =>
      constructor
      · intro h
        exact ⟨Nat.le_of_not_lt hshort, (Except.ok.inj h).symm⟩
      · rintro ⟨-, rfl⟩
        rfl

/-- The counts are stored if no section has more entries than they can say. -/
theorem fixCounts_eq_none {d e : DnsMessage} (h : d.fixCounts = (e, none)) :
    e = d.counted ∧ d.counted.CountsHold := by
  unfold fixCounts at h
  split at h
  · cases h
  · next questions hquestions =>
      simp only at h
      split at h
      · cases h
      · next answers hanswers =>
          split at h
          · cases h
          · next authorities hauthorities =>
              split at h
              · cases h
              · next additionals hadditionals =>
                  obtain ⟨hfirst, rfl⟩ := sectionCount_eq_ok_iff.mp hquestions
                  obtain ⟨hsecond, rfl⟩ := sectionCount_eq_ok_iff.mp hanswers
                  obtain ⟨hthird, rfl⟩ := sectionCount_eq_ok_iff.mp hauthorities
                  obtain ⟨hfourth, rfl⟩ := sectionCount_eq_ok_iff.mp hadditionals
                  have hcount : ∀ n ≤ 65535, n = (UInt16.ofNat n).toNat := by
                    intro n hn
                    rw [UInt16.toNat_ofNat', Nat.mod_eq_of_lt (by omega)]
                  exact ⟨(Prod.mk.inj h).1.symm, hcount _ hfirst, hcount _ hsecond,
                    hcount _ hthird, hcount _ hfourth⟩

/-- A message that could be written is its header and its sections. -/
theorem writeEntries_eq_ok {d : DnsMessage} {w : Wrapping}
    (h : (d.writeEntries true).outcome = .ok w) :
    ∃ questions answers authorities additionals,
      d.questions.mapM Question.toOctets = .ok questions ∧
      (writeSection true d.answers).outcome = .ok answers ∧
      (writeSection true d.authorities).outcome = .ok authorities ∧
      (writeSection true d.additionals).outcome = .ok additionals ∧
      d.writeEntries true =
        .write { d with
            answers := d.answers.map (·.sized)
            authorities := d.authorities.map (·.sized)
            additionals := d.additionals.map (·.sized) }
          (d.headerToOctets ++ questions.flatten ++ answers ++ authorities ++ additionals) := by
  unfold writeEntries at h ⊢
  split at h
  · cases h
  · next questions hquestions =>
      simp only at h
      split at h
      · cases h
      · next answers hanswers =>
          split at h
          · cases h
          · next authorities hauthorities =>
              split at h
              · cases h
              · next additionals hadditionals =>
                  refine ⟨questions, answers, authorities, additionals, hquestions, hanswers,
                    hauthorities, hadditionals, ?_⟩
                  simp only [hanswers, hauthorities, hadditionals,
                    (writeSection_eq_ok hanswers).1, (writeSection_eq_ok hauthorities).1,
                    (writeSection_eq_ok hadditionals).1]
                  rfl

/-- A message that could be written with fixed lengths has its counts and data
lengths stored, and consists of its header and its sections. -/
theorem serialize_eq_ok {d : DnsMessage} {options : SerializeOptions} {inner : Octets}
    {w : Wrapping} (hfix : options.fixLengths = true)
    (h : (d.serialize options inner).outcome = .ok w) :
    d.counted.CountsHold ∧
    ∃ questions answers authorities additionals,
      d.questions.mapM Question.toOctets = .ok questions ∧
      (writeSection true d.answers).outcome = .ok answers ∧
      (writeSection true d.authorities).outcome = .ok authorities ∧
      (writeSection true d.additionals).outcome = .ok additionals ∧
      d.serialize options inner =
        .write d.settled
          (d.settled.headerToOctets ++ questions.flatten ++ answers ++ authorities ++
            additionals) := by
  rw [serialize, if_pos hfix] at h ⊢
  split at h
  · cases h
  · next e hcounts =>
      obtain ⟨rfl, hhold⟩ := fixCounts_eq_none hcounts
      refine ⟨hhold, ?_⟩
      exact writeEntries_eq_ok h

/-- The parts of a message that was written with fixed lengths stand one behind the other
in its octets, whatever stands behind them. -/
theorem stands_of_serialize {d : DnsMessage} {options : SerializeOptions} {inner : Octets}
    {w : Wrapping} (hfix : options.fixLengths = true)
    (hwritten : (d.serialize options inner).outcome = .ok w) (behind : Octets) :
    ∃ questions answers authorities additionals,
      d.questions.mapM Question.toOctets = .ok questions ∧
      (writeSection true d.answers).outcome = .ok answers ∧
      (writeSection true d.authorities).outcome = .ok authorities ∧
      (writeSection true d.additionals).outcome = .ok additionals ∧
      Stands (w.header ++ behind) 0 d.settled.headerToOctets ∧
      Stands (w.header ++ behind) headerLength questions.flatten ∧
      Stands (w.header ++ behind) (headerLength + questions.flatten.length) answers ∧
      Stands (w.header ++ behind) (headerLength + questions.flatten.length + answers.length)
        authorities ∧
      Stands (w.header ++ behind)
        (headerLength + questions.flatten.length + answers.length + authorities.length)
        additionals ∧
      w.header.length = headerLength + questions.flatten.length + answers.length +
        authorities.length + additionals.length := by
  obtain ⟨-, questions, answers, authorities, additionals, hquestions, hanswers, hauthorities,
    hadditionals, hserialize⟩ := serialize_eq_ok hfix hwritten
  have hheader : w.header = d.settled.headerToOctets ++ questions.flatten ++ answers ++
      authorities ++ additionals := by
    rw [hserialize] at hwritten
    rw [← Except.ok.inj hwritten]
  have hall : Stands (w.header ++ behind) 0 (d.settled.headerToOctets ++
      (questions.flatten ++ (answers ++ (authorities ++ additionals)))) := by
    simp only [hheader, stands_zero_iff, List.append_assoc]
    simp only [← List.append_assoc]
    exact List.prefix_append _ _
  simp only [stands_append_iff, length_headerToOctets, Nat.zero_add] at hall
  obtain ⟨hheaderStands, hfirst, hsecond, hthird, hfourth⟩ := hall
  refine ⟨questions, answers, authorities, additionals, hquestions, hanswers, hauthorities,
    hadditionals, hheaderStands, hfirst, hsecond, hthird, hfourth, ?_⟩
  rw [hheader]
  simp only [List.length_append, length_headerToOctets]

/-- A message that was written with fixed lengths is laid out in its octets, whatever
stands behind them. -/
theorem laysOut_of_serialize {d : DnsMessage} {options : SerializeOptions} {inner : Octets}
    {w : Wrapping} (hform : d.WellFormed) (hfix : options.fixLengths = true)
    (hwritten : (d.serialize options inner).outcome = .ok w) (behind : Octets) (length : Nat) :
    (d.received length).LaysOut (w.header ++ behind) w.header.length := by
  have hcounts := (serialize_eq_ok hfix hwritten).1
  obtain ⟨questions, answers, authorities, additionals, hquestions, hanswers, hauthorities,
    hadditionals, hheader, hfirst, hsecond, hthird, hfourth, hstop⟩ :=
    stands_of_serialize hfix hwritten behind
  have hrecords : ∀ r ∈ d.records, r.WellFormed := hform.records
  simp only [records, List.forall_mem_append] at hrecords
  obtain ⟨⟨hanswersForm, hauthoritiesForm⟩, hadditionalsForm⟩ := hrecords
  have hquestionsStand := entries_of_mapM hquestions hfirst
  have hasRead : d.questions.map (·.asRead) = d.questions := by
    rw [List.map_congr_left fun q hq => Question.asRead_of_wellFormed (hform.questions q hq)]
    exact List.map_id' _
  rw [hasRead] at hquestionsStand
  have hrecordsStand : ∀ {records : List ResourceRecord} {start stop : Nat},
      Entries (ResourceRecord.WrittenAt (w.header ++ behind)) start records stop →
      (∀ r ∈ records, r.WellFormed) →
      Entries (fun start r => ResourceRecord.StandsAt (w.header ++ behind) start r) start
        (records.map (·.carried)) stop := by
    intro records start stop hentries hform
    apply hentries.map
    intro r hr start stop hwritten
    exact hwritten.standsAt (hform r hr)
  rw [hstop]
  exact ⟨hform.flags.received length, hcounts.received length, hheader, _, _, _, hquestionsStand,
    hrecordsStand (entries_of_writeSection hanswers hsecond) hanswersForm,
    hrecordsStand (entries_of_writeSection hauthorities hthird) hauthoritiesForm,
    hrecordsStand (entries_of_writeSection hadditionals hfourth) hadditionalsForm⟩

/-- Every record of a message that could be written has its data in octets, and the
length that was stored for it is theirs. -/
theorem dataToOctets_of_serialize {d : DnsMessage} {options : SerializeOptions}
    {inner : Octets} {w : Wrapping} (hfix : options.fixLengths = true)
    (hwritten : (d.serialize options inner).outcome = .ok w) :
    ∀ r ∈ d.records, r.dataToOctets = .ok r.encodedData ∧
      r.sized.dataLength.toNat = r.encodedData.length := by
  obtain ⟨-, questions, answers, authorities, additionals, -, hanswers, hauthorities,
    hadditionals, -⟩ := serialize_eq_ok hfix hwritten
  have hsection : ∀ {records : List ResourceRecord} {octets : Octets},
      (writeSection true records).outcome = .ok octets → ∀ r ∈ records,
        r.dataToOctets = .ok r.encodedData ∧
          r.sized.dataLength.toNat = r.encodedData.length := by
    intro records octets hwritten r hr
    obtain ⟨octets, hoctets⟩ := (writeSection_eq_ok hwritten).2 r hr
    obtain ⟨-, hdata, hlength, -⟩ := ResourceRecord.write_eq_ok hoctets
    exact ⟨hdata, hlength⟩
  simp only [records, List.forall_mem_append]
  exact ⟨⟨hsection hanswers, hsection hauthorities⟩, hsection hadditionals⟩

/-- A well-formed message that was written with fixed lengths is read back, whatever
stands behind it: with its fields and questions as they are, the counts of its
sections, and each record with its data in octets and their length, which is what
writing stored. -/
theorem decode_serialized_message {d : DnsMessage} {options : SerializeOptions}
    {inner : Octets} {w : Wrapping} (hform : d.WellFormed) (hfix : options.fixLengths = true)
    (hwritten : (d.serialize options inner).outcome = .ok w) (old : DnsMessage)
    (behind : Octets) :
    decode old (w.header ++ behind) =
        .accept (d.received (w.header.length + behind.length)) ∧
      w.trailer = [] ∧ (d.serialize options inner).layer = d.settled ∧
      d.counted.CountsHold ∧
      ∀ r ∈ d.records, r.dataToOctets = .ok r.encodedData ∧
        r.sized.dataLength.toNat = r.encodedData.length := by
  have hlaid := laysOut_of_serialize hform hfix hwritten behind
  have hdata := dataToOctets_of_serialize hfix hwritten
  obtain ⟨hcounts, questions, answers, authorities, additionals, -, -, -, -, hserialize⟩ :=
    serialize_eq_ok hfix hwritten
  refine ⟨?_, ?_, ?_, hcounts, hdata⟩
  · rw [decode_eq_accept_iff]
    refine ⟨?_, w.header.length, hlaid _⟩
    rw [List.length_append]
    rfl
  · rw [hserialize] at hwritten
    rw [← Except.ok.inj hwritten]
  · rw [hserialize]
    rfl

/-- A response about mail, without counts and data. -/
def mailResponse : DnsMessage :=
  { fresh with
    id := 4660
    qr := true
    opCode := .status
    rd := true
    z := 5
    responseCode := .ofNumber 13
    questions := [⟨[97, 46, 98], .mx, .any⟩]
    answers := [.ofContent [97, 46, 98] .mx .internet 3600 (.mx 10 [109, 46, 98])]
    authorities := [.ofContent [98] .soa .internet 60 (.soa ⟨[110], [], 1, 2, 3, 4, 5⟩)]
    additionals := [.ofContent [98] .txt .ch 0 (.txt [[104, 105], []]),
      .ofContent [109, 46, 98] .a .internet 7 (.address (.v4 ⟨#v[192, 0, 2, 1]⟩))] }

/-- The octets of the response, of which the first twelve are the header. -/
def mailOctets : Octets :=
  [18, 52, 145, 93, 0, 1, 0, 1, 0, 1, 0, 2,
    1, 97, 1, 98, 0, 0, 15, 0, 255,
    1, 97, 1, 98, 0, 0, 15, 0, 1, 0, 0, 14, 16, 0, 7, 0, 10, 1, 109, 1, 98, 0,
    1, 98, 0, 0, 6, 0, 1, 0, 0, 0, 60, 0, 24, 1, 110, 0, 0,
      0, 0, 0, 1, 0, 0, 0, 2, 0, 0, 0, 3, 0, 0, 0, 4, 0, 0, 0, 5,
    1, 98, 0, 0, 16, 0, 3, 0, 0, 0, 0, 0, 4, 2, 104, 105, 0,
    1, 109, 1, 98, 0, 0, 1, 0, 1, 0, 0, 0, 7, 0, 4, 192, 0, 2, 1]

theorem mailResponse_wellFormed : mailResponse.WellFormed where
  flags := ⟨⟨2, rfl⟩, by decide, by decide, ⟨13, rfl⟩, by decide⟩
  questions := by
    simp only [mailResponse, List.forall_mem_singleton]
    exact ⟨by decide, ⟨15, rfl⟩, ⟨255, rfl⟩⟩
  records := by
    simp only [mailResponse, records, ResourceRecord.ofContent, List.forall_mem_append,
      List.forall_mem_cons]
    refine ⟨⟨⟨?_, by simp⟩, ?_, by simp⟩, ?_, ?_, by simp⟩
    · exact ⟨by decide, ⟨15, rfl⟩, ⟨1, rfl⟩, rfl, by decide⟩
    · exact ⟨by decide, ⟨6, rfl⟩, ⟨1, rfl⟩, rfl, by decide⟩
    · exact ⟨by decide, ⟨16, rfl⟩, ⟨3, rfl⟩, rfl, by decide⟩
    · exact ⟨by decide, ⟨1, rfl⟩, ⟨1, rfl⟩, rfl, by decide⟩

/-- The response is written and read back with two octets behind it. -/
theorem decode_mailOctets :
    mailResponse.WellFormed ∧
      (mailResponse.serialize .fixAll []).outcome = .ok ⟨mailOctets, []⟩ ∧
      decode fresh (mailOctets ++ [7, 7]) = .accept (mailResponse.received 118) := by
  have hwritten : (mailResponse.serialize .fixAll []).outcome = .ok ⟨mailOctets, []⟩ := rfl
  refine ⟨mailResponse_wellFormed, hwritten, ?_⟩
  exact (decode_serialized_message mailResponse_wellFormed rfl hwritten fresh [7, 7]).1

end DnsMessage

end PacketLayers
