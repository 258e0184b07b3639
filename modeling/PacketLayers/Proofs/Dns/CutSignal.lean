import PacketLayers.Proofs.Decoding.Truncation
import PacketLayers.Proofs.Dns.Cut

/-!
# Which cuts of a message are signalled

A message that is cut short is refused at the first entry that is not read whole, and whether
the refusal is signalled as truncation depends on where in that entry the cut lies.  In the
header, and in the fields and the data of an entry, missing octets are an error of their own.
A name has errors that do not tell incomplete from wrong, and so has everything that is found
when data is interpreted: there nothing is signalled (`DnsMessage.decode_quietCut`).

`DnsMessage.truncated_take_iff` says for every message that is accepted which of its cuts are
signalled: those inside the header, and those that leave the name of the first incomplete entry
whole but not its fields and its data (`Dns.CutBehindName`).
-/

namespace PacketLayers

open Dns
open Dns.Name (Cursor)

namespace Dns

variable {message : Octets} {n start stop : Nat} {error : DecodeError}

/-! ## Entries -/

/-- An entry of any section of a message. -/
inductive Entry where
  | question (question : Question)
  | record (record : ResourceRecord)

namespace Entry

/-- An entry stands in the message from `start` up to `stop`. -/
def StandsAt (message : Octets) (start : Nat) (entry : Entry) (stop : Nat) : Prop :=
  match entry with
  | .question q => q.StandsAt message start stop
  | .record r => r.StandsAt message start stop

/-- An entry up to `stop` is read within the first `n` octets. -/
def Within (message : Octets) (n start : Nat) (entry : Entry) (stop : Nat) : Prop :=
  match entry with
  | .question _ => Question.Within message n start stop
  | .record r => r.Within message n start stop

variable {entry : Entry}

theorem Within.stop_le (h : entry.Within message n start stop) : stop ≤ n := by
  cases entry with
  | question q => exact h.2
  | record r => exact h.2.1

theorem StandsAt.stop_unique {stop' : Nat} (h : entry.StandsAt message start stop)
    (h' : entry.StandsAt message start stop') : stop = stop' := by
  cases entry with
  | question q => exact (DnsMessage.standsAt_unique Question.read_eq_ok_iff h h').2
  | record r => exact (DnsMessage.standsAt_unique ResourceRecord.read_eq_ok_iff h h').2

end Entry

/-- Entries stand one behind the other from a position on, and of the first one that is not
read within the first `n` octets the name is, but not the fields and the data. -/
inductive CutBehindName (message : Octets) (n : Nat) : Nat → List Entry → Prop where
  | here {start stop : Nat} {entry : Entry} {entries : List Entry}
      (hstands : entry.StandsAt message start stop) (hname : Name.Within message n start)
      (hcut : n < stop) : CutBehindName message n start (entry :: entries)
  | later {start middle : Nat} {entry : Entry} {entries : List Entry}
      (hstands : entry.StandsAt message start middle)
      (hwithin : entry.Within message n start middle)
      (hrest : CutBehindName message n middle entries) :
      CutBehindName message n start (entry :: entries)

theorem not_cutBehindName_nil {start : Nat} : ¬ CutBehindName message n start [] := by
  rintro ⟨⟩

/-- Behind an entry that is read whole, the cut is looked for among the further ones. -/
theorem cutBehindName_cons_of_within {entry : Entry} {entries : List Entry}
    (hstands : entry.StandsAt message start stop) (hwithin : entry.Within message n start stop) :
    CutBehindName message n start (entry :: entries) ↔ CutBehindName message n stop entries := by
  constructor
  · rintro (⟨hstands', -, hcut⟩ | ⟨hstands', -, hrest⟩)
    · obtain rfl := hstands.stop_unique hstands'
      exact absurd hwithin.stop_le (Nat.not_le.mpr hcut)
    · obtain rfl := hstands.stop_unique hstands'
      exact hrest
  · intro hrest
    exact .later hstands hwithin hrest

theorem cutBehindName_cons_of_not_within {entry : Entry} {entries : List Entry}
    (hstands : entry.StandsAt message start stop)
    (hwithin : ¬ entry.Within message n start stop) :
    CutBehindName message n start (entry :: entries) ↔
      Name.Within message n start ∧ n < stop := by
  constructor
  · rintro (⟨hstands', hname, hcut⟩ | ⟨hstands', hwithin', -⟩)
    · obtain rfl := hstands.stop_unique hstands'
      exact ⟨hname, hcut⟩
    · obtain rfl := hstands.stop_unique hstands'
      exact absurd hwithin' hwithin
  · rintro ⟨hname, hcut⟩
    exact .here hstands hname hcut

/-! ## What is signalled when an entry is read -/

/-- An entry of a cut message is refused behind its name if that lies within the octets that are
left, and at its name without a signal otherwise. -/
theorem error_behind_name {A : Type} {name : Octets}
    {further : Octets × Cursor → Except DecodeError A}
    (hname : Name.Spells message start name stop)
    (h : (readEntryName (message.take n) (.ofPosition (message.take n) start) >>= further) =
      .error error) :
    (Name.Within message n start ∧
      further (name, .ofPosition (message.take n) stop) = .error error) ∨
    (¬ Name.Within message n start ∧ error.isTruncated = false) := by
  rw [except_bind_eq_error_iff] at h
  by_cases hwithin : Name.Within message n start
  · have hread := readEntryName_eq_ok_iff.mpr
      ⟨stop, Name.spells_take_iff.mpr ⟨hname, hwithin⟩, rfl⟩
    refine .inl ⟨hwithin, ?_⟩
    rcases h with hnone | ⟨found, hfound, herror⟩
    · rw [hread] at hnone
      cases hnone
    · obtain rfl := Except.ok.inj (hread.symm.trans hfound)
      exact herror
  · refine .inr ⟨hwithin, ?_⟩
    rcases h with hnone | ⟨⟨other, c⟩, hfound, -⟩
    · exact not_isTruncated_of_readEntryName hnone
    · obtain ⟨stop', hcut, -⟩ := readEntryName_eq_ok_iff.mp hfound
      exact absurd (Name.spells_take_iff.mp hcut).2 hwithin

/-- Octets that are missing in a message cut to `n` are missing behind these. -/
theorem lt_of_readFixed_take {length : Nat} (hinside : start + length ≤ message.length)
    (h : readFixed (message.take n) length (.ofPosition (message.take n) start) =
      .error error) : error.isTruncated = true ∧ n < start + length := by
  obtain ⟨rfl, hshort⟩ := truncated_of_readFixed h
  rw [List.length_take] at hshort
  exact ⟨rfl, by omega⟩

theorem Question.isTruncated_read_take_iff {q : Question} (h : q.StandsAt message start stop)
    (herror : read (message.take n) (.ofPosition (message.take n) start) = .error error) :
    error.isTruncated = true ↔ Name.Within message n start ∧ n < stop := by
  have hinside := h.bounds.2
  obtain ⟨-, -, middle, hname, -, rfl⟩ := h
  rcases error_behind_name hname herror with ⟨hwithin, herror⟩ | ⟨hwithin, hquiet⟩
  · rw [except_bind_eq_error_iff] at herror
    rcases herror with hfixed | ⟨fixed, -, hread⟩
    · obtain ⟨hsignal, hshort⟩ := lt_of_readFixed_take hinside hfixed
      exact iff_of_true hsignal ⟨hwithin, hshort⟩
    · cases hread
  · rw [hquiet]
    exact iff_of_false Bool.false_ne_true (fun hname => hwithin hname.1)

theorem ResourceRecord.be16At_fieldOctets (r : ResourceRecord) :
    be16At r.fieldOctets 8 = r.dataLength := by
  have hself := stands_self r.fieldOctets
  rw [fieldOctets, stands_append_iff] at hself
  exact hself.2.be16At_eq

theorem ResourceRecord.isTruncated_read_take_iff {r : ResourceRecord}
    (h : r.StandsAt message start stop)
    (herror : read (message.take n) (.ofPosition (message.take n) start) = .error error) :
    error.isTruncated = true ↔ Name.Within message n start ∧ n < stop := by
  have hinside := h.bounds.2
  obtain ⟨-, -, hcount, -, middle, hname, hstands, -, rfl⟩ := h
  rcases error_behind_name hname herror with ⟨hwithin, herror⟩ | ⟨hwithin, hquiet⟩
  · rw [except_bind_eq_error_iff] at herror
    rcases herror with hfixed | ⟨⟨fixed, c⟩, hfixed, herror⟩
    · obtain ⟨hsignal, hshort⟩ :=
        lt_of_readFixed_take ((Nat.le_add_right _ _).trans hinside) hfixed
      exact iff_of_true hsignal ⟨hwithin, Nat.lt_add_right _ hshort⟩
    · obtain ⟨hcut, hlength, rfl⟩ := readFixed_eq_ok_iff.mp hfixed
      have hne : fixed ≠ [] := List.ne_nil_of_length_eq_add_one hlength
      obtain ⟨hwhole, hshort⟩ := (stands_take_iff hne).mp hcut
      -- the fields that are left announce the length of the data
      obtain rfl : fixed = r.fieldOctets := by
        rw [hwhole.eq_slice, (stands_append_iff.mp hstands).1.eq_slice, hlength,
          r.length_fieldOctets]
      simp only [be16At_fieldOctets, ← hcount, except_bind_eq_error_iff] at herror
      rcases herror with hdata | ⟨⟨data, c⟩, hdata, hcontent | ⟨content, -, hread⟩⟩
      · obtain ⟨hsignal, hshort⟩ := lt_of_readFixed_take hinside hdata
        exact iff_of_true hsignal ⟨hwithin, hshort⟩
      · obtain ⟨hcut, hcount', -⟩ := readFixed_eq_ok_iff.mp hdata
        rw [RecordData.not_isTruncated_of_read hcontent]
        refine iff_of_false Bool.false_ne_true ?_
        rintro ⟨-, hmissing⟩
        have hleft := hcut.add_length_le (by rw [List.length_take]; omega)
        rw [List.length_take, hcount'] at hleft
        omega
      · cases hread
  · rw [hquiet]
    exact iff_of_false Bool.false_ne_true (fun hname => hwithin hname.1)

/-! ## What is signalled when a section is read -/

/-- A reader of entries of a message that is cut to `n` octets reads those that lie within
them, and signals for the others what depends on their names. -/
def ReadsCut {A : Type} (message : Octets) (n : Nat) (entry : A → Entry)
    (read : Cursor → Except DecodeError (A × Cursor)) : Prop :=
  ∀ start a stop, (entry a).StandsAt message start stop →
    ((entry a).Within message n start stop ∧
      read (.ofPosition (message.take n) start) = .ok (a, .ofPosition (message.take n) stop)) ∨
    (¬ (entry a).Within message n start stop ∧
      ∃ error, read (.ofPosition (message.take n) start) = .error error ∧
        (error.isTruncated = true ↔ Name.Within message n start ∧ n < stop))

theorem readsCut_of {A : Type} {entry : A → Entry}
    {read : Cursor → Except DecodeError (A × Cursor)}
    (hread : ∀ {start a c}, read (.ofPosition (message.take n) start) = .ok (a, c) ↔
      ∃ stop, ((entry a).StandsAt message start stop ∧ (entry a).Within message n start stop) ∧
        c = .ofPosition (message.take n) stop)
    (hunique : ∀ {start a a' stop stop'}, (entry a).StandsAt message start stop →
      (entry a').StandsAt message start stop' → a = a' ∧ stop = stop')
    (hsignal : ∀ {start a stop error}, (entry a).StandsAt message start stop →
      read (.ofPosition (message.take n) start) = .error error →
        (error.isTruncated = true ↔ Name.Within message n start ∧ n < stop)) :
    ReadsCut message n entry read := by
  intro start a stop hstands
  cases hresult : read (.ofPosition (message.take n) start) with
  | error error =>
      refine .inr ⟨?_, error, rfl, hsignal hstands hresult⟩
      intro hwithin
      rw [hread.mpr ⟨stop, ⟨hstands, hwithin⟩, rfl⟩] at hresult
      cases hresult
  | ok found =>
      obtain ⟨a', c⟩ := found
      obtain ⟨stop', ⟨hstands', hwithin⟩, rfl⟩ := hread.mp hresult
      obtain ⟨rfl, rfl⟩ := hunique hstands hstands'
      exact .inl ⟨hwithin, rfl⟩

theorem Question.readsCut (message : Octets) (n : Nat) :
    ReadsCut message n Entry.question (read (message.take n)) := by
  apply readsCut_of
  · intro start q c
    rw [read_eq_ok_iff]
    simp only [standsAt_take_iff, Entry.StandsAt, Entry.Within]
  · exact DnsMessage.standsAt_unique read_eq_ok_iff
  · exact isTruncated_read_take_iff

theorem ResourceRecord.readsCut (message : Octets) (n : Nat) :
    ReadsCut message n Entry.record (read (message.take n)) := by
  apply readsCut_of
  · intro start r c
    rw [read_eq_ok_iff]
    simp only [standsAt_take_iff, Entry.StandsAt, Entry.Within]
  · exact DnsMessage.standsAt_unique read_eq_ok_iff
  · exact isTruncated_read_take_iff

end Dns

/-! ## Messages -/

namespace DnsMessage

variable {message : Octets} {n start stop : Nat}

/-- The entries of the four sections, in their order. -/
def entries (d : DnsMessage) : List Entry :=
  d.questions.map .question ++
    (d.answers.map .record ++ (d.authorities.map .record ++ d.additionals.map .record))

/-- A section of a message that is cut is read up to its end, and then the cut is looked for
behind it; or it is refused, and then the refusal says where the cut is. -/
theorem outcome_readEntries_take {A : Type} {entry : A → Entry}
    {read : Cursor → Except DecodeError (A × Cursor)} (hread : ReadsCut message n entry read)
    {section_ : List A} (found : List A)
    (hentries : Entries (fun start a stop => (entry a).StandsAt message start stop)
      start section_ stop) :
    let outcome :=
      (readEntries read found section_.length (.ofPosition (message.take n) start)).outcome
    (outcome = .ok (.ofPosition (message.take n) stop) ∧ ∀ behind,
      CutBehindName message n start (section_.map entry ++ behind) ↔
        CutBehindName message n stop behind) ∨
    ∃ error, outcome = .error error ∧ ∀ behind,
      error.isTruncated = true ↔
        CutBehindName message n start (section_.map entry ++ behind) := by
  intro outcome
  induction hentries generalizing found with
  | nil start => exact .inl ⟨rfl, fun behind => Iff.rfl⟩
  | @cons start middle stop a section_ hstands hrest ih =>
      simp only [List.length_cons, readEntries, List.map_cons, List.cons_append, outcome]
      rcases hread start a middle hstands with ⟨hwithin, hok⟩ | ⟨hwithin, error, herror, hsignal⟩
      · simp only [hok, cutBehindName_cons_of_within hstands hwithin]
        exact ih (a :: found)
      · simp only [herror, cutBehindName_cons_of_not_within hstands hwithin]
        exact .inr ⟨error, rfl, fun behind => hsignal⟩

/-- A message that is cut is signalled as truncated exactly if it is cut inside its header, or
behind the name of the first entry that is not read whole. -/
theorem truncated_take_iff {old d : DnsMessage} (h : decode old message = .accept d)
    (other : DnsMessage) (n : Nat) :
    (decode other (message.take n)).truncated = true ↔
      n < headerLength ∨ CutBehindName message n headerLength d.entries := by
  obtain ⟨-, stop, hlaid⟩ := decode_eq_accept_iff.mp h
  have hlong := hlaid.bounds.1.trans hlaid.bounds.2
  by_cases hheader : n < headerLength
  · have hshort : (message.take n).length < headerLength :=
      (List.length_take_le _ _).trans_lt hheader
    unfold decode
    rw [if_pos hshort]
    exact iff_of_true rfl (.inl hheader)
  · have hleft : headerLength ≤ (message.take n).length := by
      rw [List.length_take]
      exact Nat.le_min.mpr ⟨Nat.le_of_not_lt hheader, hlong⟩
    have hstands := stands_header_take_iff.mpr ⟨hlaid.header, Nat.le_of_not_lt hheader⟩
    obtain ⟨p₁, p₂, p₃, hfirst, hsecond, hthird, hfourth⟩ := hlaid.sections
    have hrecords := ResourceRecord.readsCut message n
    have hquestions := outcome_readEntries_take (Question.readsCut message n) [] hfirst
    have hanswers := outcome_readEntries_take hrecords [] hsecond
    have hauthorities := outcome_readEntries_take hrecords [] hthird
    have hadditionals := outcome_readEntries_take hrecords [] hfourth
    rw [or_iff_right hheader, entries]
    unfold decode
    rw [if_neg (Nat.not_lt.mpr hleft), readHeader_of_stands other hlaid.flags hstands]
    simp only [readSection, ← hlaid.counts.questions, ← hlaid.counts.answers,
      ← hlaid.counts.authorities, ← hlaid.counts.additionals]
    rcases hquestions with ⟨hend, hcut⟩ | ⟨error, hend, hcut⟩
    · rw [hcut]
      simp only [hend]
      rcases hanswers with ⟨hend, hcut⟩ | ⟨error, hend, hcut⟩
      · rw [hcut]
        simp only [hend]
        rcases hauthorities with ⟨hend, hcut⟩ | ⟨error, hend, hcut⟩
        · rw [hcut]
          simp only [hend]
          rw [← List.append_nil (d.additionals.map Entry.record)]
          rcases hadditionals with ⟨hend, hcut⟩ | ⟨error, hend, hcut⟩
          · rw [hcut]
            simp only [hend]
            exact iff_of_false Bool.false_ne_true not_cutBehindName_nil
          · simp only [hend]
            exact hcut []
        · simp only [hend]
          exact hcut _
      · simp only [hend]
        exact hcut _
    · simp only [hend]
      exact hcut _

/-- A query for the addresses of the root. -/
def rootOctets : Octets := [0, 0, 0, 0, 0, 1, 0, 0, 0, 0, 0, 0, 0, 0, 1, 0, 1]

def rootQuery : DnsMessage :=
  { fresh with
    extent := .whole 17
    questionCount := 1
    questions := [⟨[], .a, .internet⟩] }

theorem decode_rootOctets : decode fresh rootOctets = .accept rootQuery := by
  decide +kernel

/-- A query that is cut in front of its name is refused, and nothing is signalled. -/
theorem decode_quietCut :
    decode fresh rootOctets = .accept rootQuery ∧
      (decode fresh (rootOctets.take 12)).error = some (.name .noData) ∧
      (decode fresh (rootOctets.take 12)).truncated = false :=
  ⟨decode_rootOctets, by decide +kernel, by decide +kernel⟩

/-- The query is cut behind its name after 14 octets, and not after 12. -/
theorem rootQuery_cutBehindName :
    decode fresh rootOctets = .accept rootQuery ∧
      ¬ CutBehindName rootOctets 12 headerLength rootQuery.entries ∧
      CutBehindName rootOctets 14 headerLength rootQuery.entries := by
  have hcut : ∀ n, ¬ n < headerLength →
      ((decode fresh (rootOctets.take n)).truncated = true ↔
        CutBehindName rootOctets n headerLength rootQuery.entries) := by
    intro n hbehind
    rw [truncated_take_iff decode_rootOctets, or_iff_right hbehind]
  refine ⟨decode_rootOctets, ?_, ?_⟩
  · rw [← hcut 12 (by decide)]
    decide +kernel
  · rw [← hcut 14 (by decide)]
    decide +kernel

end DnsMessage

end PacketLayers
