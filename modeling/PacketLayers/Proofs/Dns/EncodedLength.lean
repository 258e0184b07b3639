import Mathlib.Algebra.GroupWithZero.Nat
import PacketLayers.Proofs.Dns.DottedName
import PacketLayers.Proofs.Dns.RoundTrip

/-!
# The length of a message that is written

The octets of a message are counted from its entries: a name counts with its length on the
wire, a record with the data that its interpretation gives.  A message that could be written
has this length (`DnsMessage.of_serialize`), whether lengths are fixed or written as stored,
since the counts and data lengths in it have fixed places.
-/

namespace PacketLayers

open Dns

namespace Dns

variable {octets : Octets}

namespace Question

/-- The octets of a question: its name, type and class. -/
def encodedLength (q : Question) : Nat := Name.encodedLength q.name + fixedLength

theorem length_of_toOctets {q : Question} (h : q.toOctets = .ok octets) :
    octets.length = q.encodedLength := by
  obtain ⟨name, hname, hoctets⟩ := except_bind_eq_ok_iff.mp h
  obtain rfl := Except.ok.inj hoctets
  simp only [List.length_append, length_be16, Name.length_of_toOctets hname, encodedLength,
    fixedLength]

end Question

namespace ResourceRecord

/-- The octets of a record: its name, its fixed fields and its data. -/
def encodedLength (r : ResourceRecord) : Nat :=
  Name.encodedLength r.name + fixedLength + r.encodedData.length

theorem length_of_toOctets {r : ResourceRecord} {data : Octets} (h : r.toOctets data = .ok octets) :
    octets.length = Name.encodedLength r.name + fixedLength + data.length := by
  obtain ⟨name, hname, hoctets⟩ := except_bind_eq_ok_iff.mp h
  obtain rfl := Except.ok.inj hoctets
  simp only [List.length_append, length_be16, length_be32, Name.length_of_toOctets hname,
    fixedLength]

theorem length_of_write {r : ResourceRecord} {fixLengths : Bool}
    (h : (r.write fixLengths).outcome = .ok octets) : octets.length = r.encodedLength := by
  unfold write at h
  split at h
  · cases h
  · next data hdata =>
      rw [encodedLength, encodedData_of_dataToOctets hdata]
      split at h
      · split at h
        · cases h
        · have hsized := length_of_toOctets h
          exact hsized
      · exact length_of_toOctets h

end ResourceRecord

end Dns

namespace DnsMessage

variable {d : DnsMessage}

/-- The octets of a message: its header, its questions and the records of its sections. -/
def encodedLength (d : DnsMessage) : Nat :=
  headerLength + (d.questions.map (·.encodedLength)).sum + (d.records.map (·.encodedLength)).sum

theorem length_of_mapM {questions : List Question} {parts : List Octets}
    (h : questions.mapM Question.toOctets = .ok parts) :
    parts.flatten.length = (questions.map (·.encodedLength)).sum := by
  induction questions generalizing parts with
  | nil =>
      obtain rfl := Except.ok.inj h
      rfl
  | cons q questions ih =>
      simp only [List.mapM_cons, except_bind_eq_ok_iff] at h
      obtain ⟨part, hpart, parts', hparts, hsplit⟩ := h
      obtain rfl := Except.ok.inj hsplit
      rw [List.flatten_cons, List.length_append, ih hparts, Question.length_of_toOctets hpart,
        List.map_cons, List.sum_cons]

theorem length_of_writeSection {fixLengths : Bool} {records : List ResourceRecord}
    {octets : Octets} (h : (writeSection fixLengths records).outcome = .ok octets) :
    octets.length = (records.map (·.encodedLength)).sum := by
  induction records generalizing octets with
  | nil =>
      obtain rfl := Except.ok.inj h
      rfl
  | cons r records ih =>
      obtain ⟨first, behind, hfirst, hbehind, rfl⟩ := writeSection_cons_eq_ok_iff.mp h
      rw [List.length_append, ih hbehind, ResourceRecord.length_of_write hfirst, List.map_cons,
        List.sum_cons]

theorem of_writeEntries {fixLengths : Bool} {w : Wrapping}
    (h : (d.writeEntries fixLengths).outcome = .ok w) :
    w.header.length = d.encodedLength ∧ w.trailer = [] := by
  unfold writeEntries at h
  split at h
  · cases h
  · next questions hquestions =>
      simp only at h
      split at h
      · cases h
      · next answers hanswers =>
          split at h
          · cases h
          · next authorities hauthorities =>
              split at h
              · cases h
              · next additionals hadditionals =>
                  obtain rfl := Except.ok.inj h
                  refine ⟨?_, rfl⟩
                  simp only [List.length_append, length_headerToOctets, length_of_mapM hquestions,
                    length_of_writeSection hanswers, length_of_writeSection hauthorities,
                    length_of_writeSection hadditionals, encodedLength, records, List.map_append,
                    List.sum_append, Nat.add_assoc]

/-- A message that could be written has the octets of its entries, and puts nothing behind
the octets of a payload. -/
theorem of_serialize {options : SerializeOptions} {inner : Octets} {w : Wrapping}
    (h : (d.serialize options inner).outcome = .ok w) :
    w.header.length = d.encodedLength ∧ w.trailer = [] := by
  unfold serialize at h
  split at h
  · split at h
    · cases h
    · next counted hcounts =>
        -- Storing the counts leaves the entries as they are.
        obtain ⟨rfl, -⟩ := fixCounts_eq_none hcounts
        have hcounted := of_writeEntries h
        exact hcounted
  · exact of_writeEntries h

end DnsMessage

end PacketLayers
