import PacketLayers.Dns.Message
import PacketLayers.Proofs.Dns.RecordLayout

/-!
# Messages as they stand in their octets

A message is laid out in a string of octets if its header stands at the start and
the entries of its four sections stand one behind the other from there on
(`DnsMessage.LaysOut`).  The decoder accepts exactly the strings in which a
message is laid out, and gives that message (`DnsMessage.decode_eq_accept_iff`).
-/

namespace PacketLayers

open Dns
open Dns.Name (Cursor)

/-! ## Sections -/

/-- Entries stand one behind the other from a position up to another one. -/
inductive Entries {A : Type} (standsAt : Nat → A → Nat → Prop) : Nat → List A → Nat → Prop where
  | nil (start : Nat) : Entries standsAt start [] start
  | cons {start middle stop : Nat} {entry : A} {entries : List A}
      (hentry : standsAt start entry middle) (hrest : Entries standsAt middle entries stop) :
      Entries standsAt start (entry :: entries) stop

namespace Entries

variable {A : Type} {standsAt standsAt' : Nat → A → Nat → Prop} {entries : List A}

theorem nil_iff {start stop : Nat} : Entries standsAt start [] stop ↔ start = stop := by
  constructor
  · rintro ⟨⟩
    rfl
  · rintro rfl
    exact .nil start

theorem cons_iff {start stop : Nat} {entry : A} :
    Entries standsAt start (entry :: entries) stop ↔
      ∃ middle, standsAt start entry middle ∧ Entries standsAt middle entries stop := by
  constructor
  · rintro (_ | ⟨hentry, hrest⟩)
    exact ⟨_, hentry, hrest⟩
  · rintro ⟨middle, hentry, hrest⟩
    exact .cons hentry hrest

theorem mono (h : ∀ {start entry stop}, standsAt start entry stop → standsAt' start entry stop)
    {start stop : Nat} (hentries : Entries standsAt start entries stop) :
    Entries standsAt' start entries stop := by
  induction hentries with
  | nil start => exact .nil start
  | cons hentry _ ih => exact .cons (h hentry) ih

/-- Entries that stand one behind the other stand there as what each of them becomes. -/
theorem map {B : Type} {standsAt' : Nat → B → Nat → Prop} {f : A → B} {start stop : Nat}
    (hentries : Entries standsAt start entries stop)
    (h : ∀ entry ∈ entries, ∀ {start stop}, standsAt start entry stop →
      standsAt' start (f entry) stop) :
    Entries standsAt' start (entries.map f) stop := by
  induction hentries with
  | nil start => exact .nil start
  | cons hentry _ ih =>
      rw [List.forall_mem_cons] at h
      exact .cons (h.1 hentry) (ih h.2)

theorem append {start middle stop : Nat} {further : List A}
    (hentries : Entries standsAt start entries middle)
    (hfurther : Entries standsAt middle further stop) :
    Entries standsAt start (entries ++ further) stop := by
  induction hentries with
  | nil start => exact hfurther
  | cons hentry _ ih => exact .cons hentry (ih hfurther)

theorem exists_standsAt {start stop : Nat} (h : Entries standsAt start entries stop) :
    ∀ entry ∈ entries, ∃ start stop, standsAt start entry stop := by
  induction h with
  | nil start => exact fun _ hmem => absurd hmem List.not_mem_nil
  | cons hentry _ ih => exact List.forall_mem_cons.mpr ⟨⟨_, _, hentry⟩, ih⟩

/-- Entries that stand inside a message each stand inside it together. -/
theorem bounds {length : Nat}
    (h : ∀ start entry stop, standsAt start entry stop → start ≤ stop ∧ stop ≤ length)
    {start stop : Nat} (hentries : Entries standsAt start entries stop) (hstart : start ≤ length) :
    start ≤ stop ∧ stop ≤ length := by
  induction hentries with
  | nil start => exact ⟨Nat.le_refl _, hstart⟩
  | cons hentry _ ih =>
      obtain ⟨hbehind, hinside⟩ := h _ _ _ hentry
      obtain ⟨hrest, hstop⟩ := ih hinside
      exact ⟨hbehind.trans hrest, hstop⟩

end Entries

namespace DnsMessage

variable {message : Octets}

section Readers

variable {A : Type} {read : Cursor → Except DecodeError (A × Cursor)}
  {standsAt : Nat → A → Nat → Prop} {start : Nat}
  (hread : ∀ {start entry c}, read (.ofPosition message start) = .ok (entry, c) ↔
    ∃ stop, standsAt start entry stop ∧ c = .ofPosition message stop)

include hread

/-- What is read from one position to another one stands between them. -/
theorem standsAt_iff_read {entry : A} {stop : Nat} :
    standsAt start entry stop ↔
      read (.ofPosition message start) = .ok (entry, .ofPosition message stop) := by
  rw [hread]
  constructor
  · intro h
    exact ⟨stop, h, rfl⟩
  · rintro ⟨stop', h, hsame⟩
    obtain rfl : stop = stop' := congrArg Cursor.position hsame
    exact h

/-- One entry only stands at a position, with one end. -/
theorem standsAt_unique {entry entry' : A} {stop stop' : Nat} (h : standsAt start entry stop)
    (h' : standsAt start entry' stop') : entry = entry' ∧ stop = stop' := by
  rw [standsAt_iff_read hread] at h h'
  rw [h] at h'
  obtain ⟨rfl, hsame⟩ := Prod.mk.inj (Except.ok.inj h')
  exact ⟨rfl, congrArg Cursor.position hsame⟩

/-- A section is read as the entries that stand in it. -/
theorem readEntries_eq_iff {found entries : List A} {n start : Nat} {c : Cursor} :
    readEntries read found n (.ofPosition message start) = ⟨entries, .ok c⟩ ↔
      ∃ further stop, entries = found.reverse ++ further ∧ further.length = n ∧
        Entries standsAt start further stop ∧ c = .ofPosition message stop := by
  -- The entries found so far stay in front, so that the recursion is about the further ones.
  induction n generalizing found start with
  | zero =>
      rw [readEntries, Section.mk.injEq, Except.ok.injEq]
      constructor
      · rintro ⟨rfl, rfl⟩
        exact ⟨[], start, (List.append_nil _).symm, rfl, .nil start, rfl⟩
      · rintro ⟨further, stop, rfl, hnone, hentries, rfl⟩
        obtain rfl := List.length_eq_zero_iff.mp hnone
        obtain rfl := Entries.nil_iff.mp hentries
        exact ⟨(List.append_nil _).symm, rfl⟩
  | succ n ih =>
      rw [readEntries]
      constructor
      · intro h
        split at h
        · cases h
        · next entry behind hentry =>
            obtain ⟨middle, hstands, rfl⟩ := hread.mp hentry
            obtain ⟨further, stop, rfl, hlength, hentries, rfl⟩ := ih.mp h
            refine ⟨entry :: further, stop, ?_, ?_, .cons hstands hentries, rfl⟩
            · rw [List.reverse_cons, List.append_assoc, List.singleton_append]
            · rw [List.length_cons, hlength]
      · rintro ⟨further, stop, rfl, hlength, hentries, rfl⟩
        obtain ⟨entry, further, rfl⟩ := List.exists_cons_of_length_eq_add_one hlength
        obtain ⟨middle, hstands, hrest⟩ := Entries.cons_iff.mp hentries
        rw [hread.mpr ⟨middle, hstands, rfl⟩]
        refine ih.mpr ⟨further, stop, ?_, Nat.succ.inj hlength, hrest, rfl⟩
        rw [List.reverse_cons, List.append_assoc, List.singleton_append]

/-- Entries that start at a position have one end. -/
theorem entries_stop_unique {entries : List A} {stop stop' : Nat}
    (h : Entries standsAt start entries stop) (h' : Entries standsAt start entries stop') :
    stop = stop' := by
  have hend : ∀ {stop}, Entries standsAt start entries stop →
      readEntries read [] entries.length (.ofPosition message start) =
        ⟨entries, .ok (.ofPosition message stop)⟩ := by
    intro stop hentries
    exact (readEntries_eq_iff hread).mpr ⟨entries, stop, rfl, rfl, hentries, rfl⟩
  have hsame := (hend h).symm.trans (hend h')
  exact congrArg Cursor.position (Except.ok.inj (Section.mk.inj hsame).2)

/-- A section is read up to its end as the entries that stand in it. -/
theorem readSection_eq_iff {entries : List A} {count : UInt16} {start : Nat} {c : Cursor} :
    readSection read count (.ofPosition message start) = ⟨entries, .ok c⟩ ↔
      entries.length = count.toNat ∧
        ∃ stop, Entries standsAt start entries stop ∧ c = .ofPosition message stop := by
  rw [readSection, readEntries_eq_iff hread]
  constructor
  · rintro ⟨further, stop, rfl, hlength, hentries, rfl⟩
    exact ⟨hlength, stop, hentries, rfl⟩
  · rintro ⟨hlength, stop, hentries, rfl⟩
    exact ⟨entries, stop, rfl, hlength, hentries, rfl⟩

end Readers

/-! ## Headers -/

/-- The parts of the two octets of flags are those of some octets. -/
structure FlagsFit (d : DnsMessage) : Prop where
  opCode : IsCanonical OpCode.ofNumber d.opCode
  opCode_le : d.opCode.number.toNat ≤ 15
  z_le : d.z.toNat ≤ 7
  responseCode : IsCanonical ResponseCode.ofNumber d.responseCode
  responseCode_le : d.responseCode.number.toNat ≤ 15

/-- A bit is the parity of what is left of a number without the bits below it. -/
theorem testBit_eq_of_shift {n i : Nat} {b : Bool} (h : n >>> i % 2 = b.toNat) :
    n.testBit i = b := by
  rw [Nat.testBit_eq_decide_div_mod_eq, ← Nat.shiftRight_eq_div_pow, h]
  cases b <;> rfl

theorem toNat_firstFlags (d : DnsMessage) :
    d.firstFlags.toNat = d.qr.toNat * 128 + d.opCode.number.toNat % 16 * 8 + d.aa.toNat * 4 +
      d.tc.toNat * 2 + d.rd.toNat := by
  have hqr := d.qr.toNat_le
  have haa := d.aa.toNat_le
  have htc := d.tc.toNat_le
  have hrd := d.rd.toNat_le
  rw [firstFlags, UInt8.toNat_ofNat', Nat.mod_eq_of_lt (by omega)]

theorem toNat_secondFlags (d : DnsMessage) :
    d.secondFlags.toNat =
      d.ra.toNat * 128 + d.z.toNat % 8 * 16 + d.responseCode.number.toNat % 16 := by
  have hra := d.ra.toNat_le
  rw [secondFlags, UInt8.toNat_ofNat', Nat.mod_eq_of_lt (by omega)]

/-- The fields of the first octet of flags are read where it stands. -/
theorem firstFlags_of_stands {d : DnsMessage} (hfits : d.FlagsFit)
    (h : Stands message 2 [d.firstFlags]) :
    Header.qr message = d.qr ∧ Header.opCode message = d.opCode ∧ Header.aa message = d.aa ∧
      Header.tc message = d.tc ∧ Header.rd message = d.rd := by
  have hqr := d.qr.toNat_le
  have haa := d.aa.toNat_le
  have htc := d.tc.toNat_le
  have hrd := d.rd.toNat_le
  have hopCode := hfits.opCode_le
  have hnumber : d.firstFlags.toNat / 8 % 16 = d.opCode.number.toNat := by
    rw [toNat_firstFlags]
    omega
  simp only [Header.qr, Header.opCode, Header.aa, Header.tc, Header.rd, Header.firstBit,
    h.octetAt_eq, hnumber, UInt8.ofNat_toNat, hfits.opCode.ofNumber_number OpCode.number_ofNumber]
  refine ⟨testBit_eq_of_shift ?_, trivial, testBit_eq_of_shift ?_, testBit_eq_of_shift ?_,
    testBit_eq_of_shift ?_⟩
  · rw [toNat_firstFlags]
    omega
  · rw [toNat_firstFlags]
    omega
  · rw [toNat_firstFlags]
    omega
  · rw [toNat_firstFlags]
    omega

theorem secondFlags_of_stands {d : DnsMessage} (hfits : d.FlagsFit)
    (h : Stands message 3 [d.secondFlags]) :
    Header.ra message = d.ra ∧ Header.z message = d.z ∧
      Header.responseCode message = d.responseCode := by
  have hra := d.ra.toNat_le
  have hz := hfits.z_le
  have hresponseCode := hfits.responseCode_le
  have hzNumber : d.secondFlags.toNat / 16 % 8 = d.z.toNat := by
    rw [toNat_secondFlags]
    omega
  have hnumber : d.secondFlags.toNat % 16 = d.responseCode.number.toNat := by
    rw [toNat_secondFlags]
    omega
  simp only [Header.ra, Header.z, Header.responseCode, h.octetAt_eq, hzNumber, hnumber,
    UInt8.ofNat_toNat, hfits.responseCode.ofNumber_number ResponseCode.number_ofNumber]
  refine ⟨testBit_eq_of_shift ?_, trivial, trivial⟩
  rw [toNat_secondFlags]
  omega

theorem flagsFit_readHeader (old : DnsMessage) (message : Octets) :
    (readHeader old message).FlagsFit where
  opCode := ⟨_, rfl⟩
  opCode_le := by
    simp only [readHeader, Header.opCode, OpCode.number_ofNumber, UInt8.toNat_ofNat']
    omega
  z_le := by
    simp only [readHeader, Header.z, UInt8.toNat_ofNat']
    omega
  responseCode := ⟨_, rfl⟩
  responseCode_le := by
    simp only [readHeader, Header.responseCode, ResponseCode.number_ofNumber,
      UInt8.toNat_ofNat']
    omega

/-- Both octets of flags are their fields put together. -/
theorem flags_readHeader (old : DnsMessage) (message : Octets) :
    (readHeader old message).firstFlags = octetAt message 2 ∧
      (readHeader old message).secondFlags = octetAt message 3 := by
  have hfirst : (octetAt message 2).toNat < 256 := (octetAt message 2).toNat_lt
  have hsecond : (octetAt message 3).toNat < 256 := (octetAt message 3).toNat_lt
  constructor
  · apply UInt8.toNat_inj.mp
    rw [toNat_firstFlags]
    simp only [readHeader, Header.qr, Header.opCode, Header.aa, Header.tc, Header.rd,
      Header.firstBit, OpCode.number_ofNumber, UInt8.toNat_ofNat', Nat.toNat_testBit]
    omega
  · apply UInt8.toNat_inj.mp
    rw [toNat_secondFlags]
    simp only [readHeader, Header.ra, Header.z, Header.responseCode,
      ResponseCode.number_ofNumber, UInt8.toNat_ofNat', Nat.toNat_testBit]
    omega

@[simp] theorem length_headerToOctets (d : DnsMessage) :
    d.headerToOctets.length = headerLength := rfl

/-- The counts in the octets of a header are those of the message. -/
theorem counts_of_stands {d : DnsMessage} (h : Stands message 0 d.headerToOctets) :
    Header.questionCount message = d.questionCount ∧
      Header.answerCount message = d.answerCount ∧
      Header.authorityCount message = d.authorityCount ∧
      Header.additionalCount message = d.additionalCount := by
  simp only [headerToOctets, stands_append_iff, List.length_append, length_be16,
    List.length_cons, List.length_nil] at h
  obtain ⟨⟨⟨⟨-, hquestions⟩, hanswers⟩, hauthorities⟩, hadditionals⟩ := h
  exact ⟨Stands.be16At_eq hquestions, Stands.be16At_eq hanswers, Stands.be16At_eq hauthorities,
    Stands.be16At_eq hadditionals⟩

/-- A header is read where it stands. -/
theorem readHeader_of_stands {d : DnsMessage} (old : DnsMessage) (hfits : d.FlagsFit)
    (h : Stands message 0 d.headerToOctets) :
    readHeader old message =
      { d with
        extent := old.extent
        questions := []
        answers := []
        authorities := []
        additionals := [] } := by
  obtain ⟨hquestions, hanswers, hauthorities, hadditionals⟩ := counts_of_stands h
  simp only [headerToOctets, stands_append_iff, List.length_append, length_be16] at h
  obtain ⟨⟨⟨⟨⟨hid, hflags⟩, -⟩, -⟩, -⟩, -⟩ := h
  obtain ⟨hfirst, hsecond⟩ := stands_cons_iff.mp hflags
  obtain ⟨hqr, hopCode, haa, htc, hrd⟩ := firstFlags_of_stands hfits hfirst
  obtain ⟨hra, hz, hresponseCode⟩ := secondFlags_of_stands hfits hsecond
  simp only [readHeader, hqr, hopCode, haa, htc, hrd, hra, hz, hresponseCode, Header.id,
    hid.be16At_eq, hquestions, hanswers, hauthorities, hadditionals]

/-- A header that was read stands where it was read. -/
theorem stands_readHeader (old : DnsMessage) (h : headerLength ≤ message.length) :
    Stands message 0 (readHeader old message).headerToOctets := by
  obtain ⟨hfirst, hsecond⟩ := flags_readHeader old message
  rw [headerLength] at h
  have hflags : Stands message 2 [octetAt message 2, octetAt message 3] :=
    stands_cons_iff.mpr ⟨stands_octetAt (by omega), stands_octetAt (by omega)⟩
  simp only [headerToOctets, hfirst, hsecond, stands_append_iff, List.length_append, length_be16,
    List.length_cons, List.length_nil]
  exact ⟨⟨⟨⟨⟨stands_be16At (by omega), hflags⟩, stands_be16At (by omega)⟩,
    stands_be16At (by omega)⟩, stands_be16At (by omega)⟩, stands_be16At (by omega)⟩

/-! ## Messages -/

/-- The entries of the four sections of a message stand one behind the other, from
behind the header up to `stop`. -/
def SectionsStand (question : Nat → Question → Nat → Prop)
    (record : Nat → ResourceRecord → Nat → Prop) (d : DnsMessage) (stop : Nat) : Prop :=
  ∃ answers authorities additionals,
    Entries question headerLength d.questions answers ∧
    Entries record answers d.answers authorities ∧
    Entries record authorities d.authorities additionals ∧
    Entries record additionals d.additionals stop

/-- The counts of a message are those of its entries. -/
structure CountsHold (d : DnsMessage) : Prop where
  questions : d.questions.length = d.questionCount.toNat
  answers : d.answers.length = d.answerCount.toNat
  authorities : d.authorities.length = d.authorityCount.toNat
  additionals : d.additionals.length = d.additionalCount.toNat

/-- A message is laid out in a string of octets, with the last of its entries up to
the position `stop`. -/
structure LaysOut (message : Octets) (d : DnsMessage) (stop : Nat) : Prop where
  flags : d.FlagsFit
  counts : d.CountsHold
  header : Stands message 0 d.headerToOctets
  sections : d.SectionsStand (fun start q => q.StandsAt message start)
    (fun start r => r.StandsAt message start) stop

theorem SectionsStand.mono
    {question question' : Nat → Question → Nat → Prop}
    {record record' : Nat → ResourceRecord → Nat → Prop} {d : DnsMessage} {stop : Nat}
    (hquestion : ∀ {start q stop}, question start q stop → question' start q stop)
    (hrecord : ∀ {start r stop}, record start r stop → record' start r stop)
    (h : d.SectionsStand question record stop) : d.SectionsStand question' record' stop := by
  obtain ⟨p₁, p₂, p₃, hquestions, hanswers, hauthorities, hadditionals⟩ := h
  exact ⟨p₁, p₂, p₃, hquestions.mono hquestion, hanswers.mono hrecord, hauthorities.mono hrecord,
    hadditionals.mono hrecord⟩

/-- A section whose end was found is its entries and that end. -/
theorem Section.eq_of_outcome {A : Type} {s : Section A} {c : Cursor} (h : s.outcome = .ok c) :
    s = ⟨s.entries, .ok c⟩ := by
  rw [← h]

/-- A message is accepted if its four sections are read up to their ends. -/
theorem decode_eq_accept_iff_sections {old d : DnsMessage} :
    decode old message = .accept d ↔
      headerLength ≤ message.length ∧
      ∃ questions answers authorities additionals c₁ c₂ c₃ c₄,
        readSection (Question.read message) (Header.questionCount message)
          (.ofPosition message headerLength) = ⟨questions, .ok c₁⟩ ∧
        readSection (ResourceRecord.read message) (Header.answerCount message) c₁ =
          ⟨answers, .ok c₂⟩ ∧
        readSection (ResourceRecord.read message) (Header.authorityCount message) c₂ =
          ⟨authorities, .ok c₃⟩ ∧
        readSection (ResourceRecord.read message) (Header.additionalCount message) c₃ =
          ⟨additionals, .ok c₄⟩ ∧
        d = { readHeader old message with
          extent := .whole message.length
          questions := questions
          answers := answers
          authorities := authorities
          additionals := additionals } := by
  constructor
  · intro h
    unfold decode at h
    split at h
    · cases congrArg Decoding.error h
    · next hlong =>
        refine ⟨Nat.le_of_not_lt hlong, ?_⟩
        simp only at h
        split at h
        · cases congrArg Decoding.error h
        · next c₁ hquestions =>
            split at h
            · cases congrArg Decoding.error h
            · next c₂ hanswers =>
                split at h
                · cases congrArg Decoding.error h
                · next c₃ hauthorities =>
                    split at h
                    · cases congrArg Decoding.error h
                    · next c₄ hadditionals =>
                        exact ⟨_, _, _, _, c₁, c₂, c₃, c₄, Section.eq_of_outcome hquestions,
                          Section.eq_of_outcome hanswers, Section.eq_of_outcome hauthorities,
                          Section.eq_of_outcome hadditionals,
                          (congrArg Decoding.layer h).symm⟩
  · rintro ⟨hlong, questions, answers, authorities, additionals, c₁, c₂, c₃, c₄, hquestions,
      hanswers, hauthorities, hadditionals, rfl⟩
    have hquestionCount : (readHeader old message).questionCount =
      Header.questionCount message := rfl
    have hanswerCount : (readHeader old message).answerCount = Header.answerCount message := rfl
    have hauthorityCount : (readHeader old message).authorityCount =
      Header.authorityCount message := rfl
    have hadditionalCount : (readHeader old message).additionalCount =
      Header.additionalCount message := rfl
    unfold decode
    rw [if_neg (Nat.not_lt.mpr hlong)]
    simp only [hquestionCount, hanswerCount, hauthorityCount, hadditionalCount, hquestions,
      hanswers, hauthorities, hadditionals]

/-- The decoder accepts exactly the strings in which a message is laid out, and
gives that message. -/
theorem decode_eq_accept_iff {old d : DnsMessage} :
    decode old message = .accept d ↔
      d.extent = .whole message.length ∧ ∃ stop, d.LaysOut message stop := by
  rw [decode_eq_accept_iff_sections]
  constructor
  · rintro ⟨hlong, questions, answers, authorities, additionals, c₁, c₂, c₃, c₄, hquestions,
      hanswers, hauthorities, hadditionals, rfl⟩
    obtain ⟨hquestionCount, p₁, hfirst, rfl⟩ :=
      (readSection_eq_iff Question.read_eq_ok_iff).mp hquestions
    obtain ⟨hanswerCount, p₂, hsecond, rfl⟩ :=
      (readSection_eq_iff ResourceRecord.read_eq_ok_iff).mp hanswers
    obtain ⟨hauthorityCount, p₃, hthird, rfl⟩ :=
      (readSection_eq_iff ResourceRecord.read_eq_ok_iff).mp hauthorities
    obtain ⟨hadditionalCount, p₄, hfourth, rfl⟩ :=
      (readSection_eq_iff ResourceRecord.read_eq_ok_iff).mp hadditionals
    refine ⟨rfl, p₄, ?_, ⟨hquestionCount, hanswerCount, hauthorityCount, hadditionalCount⟩,
      stands_readHeader old hlong, p₁, p₂, p₃, hfirst, hsecond, hthird, hfourth⟩
    obtain ⟨hopCode, hopCode_le, hz_le, hresponseCode, hresponseCode_le⟩ :=
      flagsFit_readHeader old message
    exact ⟨hopCode, hopCode_le, hz_le, hresponseCode, hresponseCode_le⟩
  · rintro ⟨hextent, stop, hflags, hcounts, hheader, p₁, p₂, p₃, hquestions, hanswers,
      hauthorities, hadditionals⟩
    have hread := readHeader_of_stands old hflags hheader
    have hlong : headerLength ≤ message.length := by
      have hinside := hheader.add_length_le (Nat.zero_le _)
      rwa [length_headerToOctets, Nat.zero_add] at hinside
    obtain ⟨hquestionCount, hanswerCount, hauthorityCount, hadditionalCount⟩ :=
      counts_of_stands hheader
    rw [hquestionCount, hanswerCount, hauthorityCount, hadditionalCount, hread, ← hextent]
    refine ⟨hlong, d.questions, d.answers, d.authorities, d.additionals, _, _, _, _,
      (readSection_eq_iff Question.read_eq_ok_iff).mpr ⟨hcounts.questions, p₁, hquestions, rfl⟩,
      (readSection_eq_iff ResourceRecord.read_eq_ok_iff).mpr ⟨hcounts.answers, p₂, hanswers, rfl⟩,
      (readSection_eq_iff ResourceRecord.read_eq_ok_iff).mpr
        ⟨hcounts.authorities, p₃, hauthorities, rfl⟩,
      (readSection_eq_iff ResourceRecord.read_eq_ok_iff).mpr
        ⟨hcounts.additionals, stop, hadditionals, rfl⟩, rfl⟩

/-- The entries of a message end at one position only. -/
theorem LaysOut.stop_unique {d : DnsMessage} {stop stop' : Nat} (h : d.LaysOut message stop)
    (h' : d.LaysOut message stop') : stop = stop' := by
  obtain ⟨p₁, p₂, p₃, hquestions, hanswers, hauthorities, hadditionals⟩ := h.sections
  obtain ⟨p₁', p₂', p₃', hquestions', hanswers', hauthorities', hadditionals'⟩ := h'.sections
  obtain rfl := entries_stop_unique Question.read_eq_ok_iff hquestions hquestions'
  obtain rfl := entries_stop_unique ResourceRecord.read_eq_ok_iff hanswers hanswers'
  obtain rfl := entries_stop_unique ResourceRecord.read_eq_ok_iff hauthorities hauthorities'
  exact entries_stop_unique ResourceRecord.read_eq_ok_iff hadditionals hadditionals'

theorem LaysOut.bounds {d : DnsMessage} {stop : Nat} (h : d.LaysOut message stop) :
    headerLength ≤ stop ∧ stop ≤ message.length := by
  have hheader := h.header.add_length_le (Nat.zero_le _)
  rw [length_headerToOctets, Nat.zero_add] at hheader
  obtain ⟨p₁, p₂, p₃, hquestions, hanswers, hauthorities, hadditionals⟩ := h.sections
  have hrecord : ∀ (start : Nat) (r : ResourceRecord) (stop : Nat),
      r.StandsAt message start stop → start ≤ stop ∧ stop ≤ message.length := by
    intro start r stop hr
    exact hr.bounds
  obtain ⟨hfirst, hfirst'⟩ := hquestions.bounds (fun _ _ _ hq => hq.bounds) hheader
  obtain ⟨hsecond, hsecond'⟩ := hanswers.bounds hrecord hfirst'
  obtain ⟨hthird, hthird'⟩ := hauthorities.bounds hrecord hsecond'
  obtain ⟨hfourth, hfourth'⟩ := hadditionals.bounds hrecord hthird'
  exact ⟨hfirst.trans (hsecond.trans (hthird.trans hfourth)), hfourth'⟩

theorem LaysOut.withExtent {d : DnsMessage} {stop : Nat} (h : d.LaysOut message stop)
    (extent : Extent) : { d with extent := extent }.LaysOut message stop where
  flags := ⟨h.flags.opCode, h.flags.opCode_le, h.flags.z_le, h.flags.responseCode,
    h.flags.responseCode_le⟩
  counts := ⟨h.counts.questions, h.counts.answers, h.counts.authorities, h.counts.additionals⟩
  header := h.header
  sections := h.sections

/-- A message is accepted or refused. -/
theorem decode_eq_accept_or_reject (old : DnsMessage) (message : Octets) :
    (∃ d, decode old message = .accept d) ∨ ∃ d error, decode old message = .reject d error := by
  unfold decode
  split
  · exact Or.inr ⟨_, _, rfl⟩
  · simp only
    split
    · exact Or.inr ⟨_, _, rfl⟩
    · split
      · exact Or.inr ⟨_, _, rfl⟩
      · split
        · exact Or.inr ⟨_, _, rfl⟩
        · split
          · exact Or.inr ⟨_, _, rfl⟩
          · exact Or.inl ⟨_, rfl⟩

theorem error_eq_none_iff {old : DnsMessage} :
    (decode old message).error = none ↔ ∃ d, decode old message = .accept d := by
  constructor
  · intro h
    rcases decode_eq_accept_or_reject old message with haccept | ⟨d, error, hreject⟩
    · exact haccept
    · rw [hreject] at h
      cases h
  · rintro ⟨d, h⟩
    rw [h]
    rfl

end DnsMessage

end PacketLayers
