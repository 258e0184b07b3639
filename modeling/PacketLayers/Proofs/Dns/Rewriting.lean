import PacketLayers.Proofs.Dns.DottedName
import PacketLayers.Proofs.Dns.RoundTrip

/-!
# Names that are read are written again

On the wire any octet may stand in a label, and dotted text has no way to say that a dot belongs
to one.  A name that was read is therefore written again as itself exactly if each of its dots
stands between two octets of other kinds (`Name.DotsSeparate`); then the dots are taken for
separators, whatever they were.

The main statement is `DnsMessage.decoded_names_rewritten`: such names of at most 253 octets are
written and read back, and so is every message that was read with names of this kind only.
-/

namespace PacketLayers

open Dns

namespace Dns

variable {message name : Octets} {start stop : Nat}

namespace Name

/-! ## Dots that separate -/

/-- A name whose parts between dots are not empty, or that of the root. -/
def DotsSeparate (name : Octets) : Prop := name = [] ∨ [] ∉ splitLabels name

instance (name : Octets) : Decidable (DotsSeparate name) :=
  inferInstanceAs (Decidable (_ ∨ _))

theorem DotsSeparate.isUndotted (h : DotsSeparate name) : IsUndotted name := by
  intro hlast
  obtain ⟨front, rfl⟩ := List.getLast?_eq_some_iff.mp hlast
  rcases h with hnil | hparts
  · exact List.append_ne_nil_of_right_ne_nil _ (List.cons_ne_nil _ _) hnil
  · apply hparts
    rw [splitLabels_append_dot]
    exact List.mem_append_right _ List.mem_cons_self

/-! ## Labels that were read -/

/-- Dots inside of labels only make the parts of a name shorter. -/
theorem length_le_of_mem_splitLabels_intercalate {labels : List Octets}
    (h : ∀ label ∈ labels, label.length ≤ maxLabelLength) :
    ∀ part ∈ splitLabels ([dot].intercalate labels), part.length ≤ maxLabelLength := by
  induction labels with
  | nil => decide
  | cons label labels ih =>
      rw [List.forall_mem_cons] at h
      obtain ⟨hlabel, hlabels⟩ := h
      have hfirst : ∀ part ∈ splitLabels label, part.length ≤ maxLabelLength := by
        intro part hpart
        exact (length_le_of_mem_splitLabels hpart).trans hlabel
      cases labels with
      | nil =>
          rw [List.intercalate_singleton]
          exact hfirst
      | cons next labels =>
          rw [List.intercalate_cons_cons, List.append_assoc, List.singleton_append,
            splitLabels_append_dot, List.forall_mem_append]
          exact ⟨hfirst, ih hlabels⟩

/-- The parts of a name that was read are not longer than a label. -/
theorem Spells.length_le_of_mem_splitLabels (h : Spells message start name stop) :
    ∀ part ∈ splitLabels name, part.length ≤ maxLabelLength := by
  obtain ⟨first, rest, hchain, rfl, -, -, -⟩ := h
  apply length_le_of_mem_splitLabels_intercalate
  intro label hlabel
  exact (hchain.isLabel label hlabel).2

/-- A name that was read is dotted if its dots separate. -/
theorem Spells.isDotted (h : Spells message start name stop) (hdots : DotsSeparate name) :
    IsDotted name := by
  rcases hdots with rfl | hparts
  · exact isDotted_nil
  · by_cases hroot : name = []
    · rw [hroot]
      exact isDotted_nil
    · rw [isDotted_iff hroot]
      intro part hpart
      have hne : part ≠ [] := fun hnil => hparts (hnil ▸ hpart)
      exact ⟨List.length_pos_iff.mpr hne, h.length_le_of_mem_splitLabels part hpart⟩

theorem IsDotted.dotsSeparate (h : IsDotted name) : DotsSeparate name := by
  by_cases hroot : name = []
  · exact Or.inl hroot
  · right
    intro hempty
    exact absurd ((isDotted_iff hroot).mp h [] hempty).1 (Nat.lt_irrefl 0)

/-! ## Names that are written again -/

/-- A name that was read is written if its dots separate and it leaves room for the first length
and the root. -/
theorem exists_encode_of_spells (h : Spells message start name stop)
    (hshort : name.length + 2 ≤ maxNameLength) (hdots : DotsSeparate name) :
    ∃ octets, encode name = ⟨octets, none⟩ := by
  have hfine : (encode name).error = none := by
    rw [error_encode_eq_none_iff, trimRoot_of_getLast? hdots.isUndotted]
    exact ⟨h.isDotted hdots, hshort⟩
  exact ⟨(encode name).written, by rw [← hfine]⟩

/-- A name that has octets. -/
def IsWritable (name : Octets) : Prop := ∃ octets, toOctets name = .ok octets

/-- The octets of a name are read as the name without its trailing dot. -/
theorem decode_of_encode {octets : Octets} (h : encode name = ⟨octets, none⟩) :
    decode octets 0 = .ok (trimRoot name, octets.length) := by
  have hread := decode_of_stands (toOctets_eq_ok_iff.mpr h) (stands_self octets)
  rw [Nat.zero_add] at hread
  exact hread

/-- A name that is written and keeps its last octet has dots that separate. -/
theorem dotsSeparate_of_encode {octets : Octets} (h : encode name = ⟨octets, none⟩)
    (htrim : trimRoot name = name) : DotsSeparate name := by
  have hfine : (encode name).error = none := by rw [h]
  have hdotted := (error_encode_eq_none_iff.mp hfine).1
  rw [htrim] at hdotted
  exact hdotted.dotsSeparate

/-- A name that was read, and is not too long, is written again as itself exactly if its dots
separate. -/
theorem encode_decoded_iff (h : decode message start = .ok (name, stop))
    (hshort : name.length + 2 ≤ maxNameLength) :
    (∃ octets, encode name = ⟨octets, none⟩ ∧ decode octets 0 = .ok (name, octets.length)) ↔
      DotsSeparate name := by
  rw [decode_eq_ok_iff_spells] at h
  constructor
  · rintro ⟨octets, hwritten, hread⟩
    have hsame := (decode_of_encode hwritten).symm.trans hread
    exact dotsSeparate_of_encode hwritten (Prod.mk.inj (Except.ok.inj hsame)).1
  · intro hdots
    obtain ⟨octets, hwritten⟩ := exists_encode_of_spells h hshort hdots
    refine ⟨octets, hwritten, ?_⟩
    rw [decode_of_encode hwritten, trimRoot_of_getLast? hdots.isUndotted]

/-! ## Octets of a name -/

/-- A name that was written takes at most as many octets as the longest text. -/
theorem length_le_of_toOctets {octets : Octets} (h : toOctets name = .ok octets) :
    octets.length ≤ maxNameLength := by
  have hfine : (encode name).error = none := by rw [toOctets_eq_ok_iff.mp h]
  have hshort := (error_encode_eq_none_iff.mp hfine).2
  rw [length_of_toOctets h, encodedLength]
  split
  · decide
  · exact hshort

end Name

/-! ## Entries that are written again -/

theorem exists_mapM_of_forall {A B : Type} {E : Type} {f : A → Except E B} {entries : List A}
    (h : ∀ a ∈ entries, ∃ b, f a = .ok b) : ∃ found, entries.mapM f = .ok found := by
  induction entries with
  | nil => exact ⟨[], rfl⟩
  | cons a entries ih =>
      rw [List.forall_mem_cons] at h
      obtain ⟨⟨b, hb⟩, hentries⟩ := h
      obtain ⟨found, hfound⟩ := ih hentries
      refine ⟨b :: found, ?_⟩
      rw [List.mapM_cons, hb, hfound]
      rfl

theorem Question.exists_toOctets {q : Question} (h : Name.IsWritable q.name) :
    ∃ octets, q.toOctets = .ok octets := by
  obtain ⟨octets, hname⟩ := h
  refine ⟨octets ++ be16 q.type.number ++ be16 q.recordClass.number, ?_⟩
  rw [toOctets, hname]
  rfl

theorem exists_mapM_stringToOctets {strings : List Octets}
    (h : ∀ string ∈ strings, string.length ≤ 255) :
    ∃ parts, strings.mapM ResourceRecord.stringToOctets = .ok parts := by
  apply exists_mapM_of_forall
  intro string hstring
  exact ⟨_, if_neg (Nat.not_lt.mpr (h string hstring))⟩

namespace ResourceRecord

/-- The names of a record: its own and those inside of its data. -/
def names (r : ResourceRecord) : List Octets := r.name :: r.content.names

/-- The names of a record that was read are spelled in the message. -/
theorem StandsAt.spells {r : ResourceRecord} (h : r.StandsAt message start stop) :
    ∀ name ∈ r.names, ∃ start stop, Name.Spells message start name stop := by
  obtain ⟨-, -, -, -, middle, hname, -, hcontent, -⟩ := h
  rw [names, List.forall_mem_cons]
  refine ⟨⟨_, _, hname⟩, ?_⟩
  cases hkind : r.content with
  | ns name | cname name | ptr name =>
      rw [hkind] at hcontent
      exact List.forall_mem_singleton.mpr ⟨_, hcontent⟩
  | mx _ name | srv _ _ _ name =>
      rw [hkind] at hcontent
      exact List.forall_mem_singleton.mpr ⟨_, hcontent.2⟩
  | soa authority =>
      rw [hkind] at hcontent
      obtain ⟨middle, stop, hmname, hrname, -⟩ := hcontent
      exact List.forall_mem_cons.mpr
        ⟨⟨_, _, hmname⟩, List.forall_mem_singleton.mpr ⟨_, _, hrname⟩⟩
  | address host | txt strings | raw => exact fun _ hmem => absurd hmem List.not_mem_nil

/-- The data of a record that was read is written if its names are. -/
theorem exists_dataToOctets {r : ResourceRecord} (h : r.StandsAt message start stop)
    (hnames : ∀ name ∈ r.content.names, Name.IsWritable name) :
    ∃ data, r.dataToOctets = .ok data ∧ data.length ≤ 65535 := by
  obtain ⟨-, -, hlength, hsuits, middle, -, -, hcontent, -⟩ := h
  have hdata : r.data.length ≤ 65535 := by
    rw [hlength]
    exact Nat.le_of_lt_succ r.dataLength.toNat_lt
  rw [dataToOctets]
  cases hkind : r.content with
  | address host =>
      rw [hkind] at hsuits
      cases host with
      | v4 host =>
          have htype : r.type = .a := hsuits
          exact ⟨host.toOctets, if_pos htype, by simp⟩
      | v6 host =>
          have htype : r.type = .aaaa := hsuits
          exact ⟨host.toOctets, if_pos htype, by simp⟩
  | ns name | cname name | ptr name =>
      rw [hkind] at hnames
      obtain ⟨octets, hname⟩ := hnames name List.mem_cons_self
      exact ⟨octets, hname, (Name.length_le_of_toOctets hname).trans (by decide)⟩
  | mx _ name | srv _ _ _ name =>
      rw [hkind] at hnames
      obtain ⟨octets, hname⟩ := hnames name List.mem_cons_self
      have hoctets := Name.length_le_of_toOctets hname
      simp only [hname]
      refine ⟨_, rfl, ?_⟩
      simp only [List.length_append, length_be16, maxNameLength] at hoctets ⊢
      omega
  | txt strings =>
      rw [hkind] at hcontent
      obtain ⟨hshort, hstrings⟩ := hcontent
      obtain ⟨parts, hparts⟩ := exists_mapM_stringToOctets hshort
      have hflat := (strings_of_mapM hparts).2
      simp only [hparts]
      refine ⟨_, rfl, ?_⟩
      rw [hflat, ← hstrings]
      exact hdata
  | soa authority =>
      rw [hkind] at hnames
      obtain ⟨mname, hmname⟩ := hnames authority.mname List.mem_cons_self
      obtain ⟨rname, hrname⟩ :=
        hnames authority.rname (List.mem_cons_of_mem _ List.mem_cons_self)
      have hfirst := Name.length_le_of_toOctets hmname
      have hsecond := Name.length_le_of_toOctets hrname
      simp only [hmname, hrname]
      refine ⟨_, rfl, ?_⟩
      simp only [List.length_append, length_be32, maxNameLength] at hfirst hsecond ⊢
      omega
  | raw => exact ⟨r.data, rfl, hdata⟩

/-- A record that was read is written if its names are. -/
theorem exists_write {r : ResourceRecord} (h : r.StandsAt message start stop)
    (hnames : ∀ name ∈ r.names, Name.IsWritable name) (fixLengths : Bool) :
    ∃ octets, (r.write fixLengths).outcome = .ok octets := by
  rw [names, List.forall_mem_cons] at hnames
  obtain ⟨⟨name, hname⟩, hcontent⟩ := hnames
  obtain ⟨data, hdata, hlength⟩ := exists_dataToOctets h hcontent
  simp only [write, hdata]
  cases fixLengths with
  | true =>
      simp only [if_true, Nat.not_lt.mpr hlength, if_false, toOctets, hname]
      exact ⟨_, rfl⟩
  | false =>
      simp only [Bool.false_eq_true, if_false, toOctets, hname]
      exact ⟨_, rfl⟩

/-- Where the length of the data is stored already, nothing has to be fixed. -/
theorem write_false_eq {r : ResourceRecord} {data : Octets} (hdata : r.dataToOctets = .ok data)
    (hlength : r.dataLength.toNat = r.encodedData.length) : r.write false = r.write true := by
  rw [encodedData_of_dataToOctets hdata] at hlength
  have hshort : ¬ 65535 < data.length := by
    rw [← hlength]
    exact Nat.not_lt.mpr (Nat.le_of_lt_succ r.dataLength.toNat_lt)
  have hsame : UInt16.ofNat data.length = r.dataLength := by
    rw [← hlength, UInt16.ofNat_toNat]
  simp only [write, hdata, Bool.false_eq_true, if_false, if_true, hshort, hsame]

end ResourceRecord

end Dns

namespace DnsMessage

variable {message : Octets} {d : DnsMessage} {start stop : Nat}

/-- All names of a message. -/
def names (d : DnsMessage) : List Octets :=
  d.questions.map (·.name) ++ d.records.flatMap (·.names)

theorem forall_mem_names_iff {P : Octets → Prop} :
    (∀ name ∈ d.names, P name) ↔
      (∀ q ∈ d.questions, P q.name) ∧ ∀ r ∈ d.records, ∀ name ∈ r.names, P name := by
  simp only [names, List.forall_mem_append, List.forall_mem_map, List.forall_mem_flatMap]

/-! ## What was read -/

theorem LaysOut.exists_standsAt (h : d.LaysOut message stop) :
    (∀ q ∈ d.questions, ∃ start stop, q.StandsAt message start stop) ∧
      ∀ r ∈ d.records, ∃ start stop, r.StandsAt message start stop := by
  obtain ⟨p₁, p₂, p₃, hquestions, hanswers, hauthorities, hadditionals⟩ := h.sections
  simp only [records, List.forall_mem_append]
  exact ⟨hquestions.exists_standsAt, ⟨hanswers.exists_standsAt, hauthorities.exists_standsAt⟩,
    hadditionals.exists_standsAt⟩

theorem LaysOut.spells (h : d.LaysOut message stop) :
    ∀ name ∈ d.names, ∃ start stop, Name.Spells message start name stop := by
  obtain ⟨hquestions, hrecords⟩ := h.exists_standsAt
  rw [forall_mem_names_iff]
  constructor
  · intro q hq
    obtain ⟨start, stop, -, -, middle, hname, -⟩ := hquestions q hq
    exact ⟨start, middle, hname⟩
  · intro r hr
    obtain ⟨start, stop, hstands⟩ := hrecords r hr
    exact hstands.spells

/-- A message that was read is well formed if none of its names ends in a dot. -/
theorem LaysOut.wellFormed (h : d.LaysOut message stop)
    (hnames : ∀ name ∈ d.names, IsUndotted name) : d.WellFormed := by
  obtain ⟨hquestions, hrecords⟩ := h.exists_standsAt
  rw [forall_mem_names_iff] at hnames
  refine ⟨h.flags, ?_, ?_⟩
  · intro q hq
    obtain ⟨start, stop, htype, hclass, -⟩ := hquestions q hq
    exact ⟨hnames.1 q hq, htype, hclass⟩
  · intro r hr
    obtain ⟨start, stop, htype, hclass, -, hsuits, -⟩ := hrecords r hr
    have hall := hnames.2 r hr
    rw [ResourceRecord.names, List.forall_mem_cons] at hall
    exact ⟨hall.1, htype, hclass, hsuits, hall.2⟩

/-! ## What is written again -/

theorem exists_writeSection {records : List ResourceRecord} {fixLengths : Bool}
    (h : ∀ r ∈ records, ∃ octets, (r.write fixLengths).outcome = .ok octets) :
    ∃ octets, (writeSection fixLengths records).outcome = .ok octets := by
  induction records with
  | nil => exact ⟨[], rfl⟩
  | cons r records ih =>
      rw [List.forall_mem_cons] at h
      obtain ⟨⟨first, hfirst⟩, hrecords⟩ := h
      obtain ⟨behind, hbehind⟩ := ih hrecords
      exact ⟨_, writeSection_cons_eq_ok_iff.mpr ⟨first, behind, hfirst, hbehind, rfl⟩⟩

theorem exists_writeEntries {fixLengths : Bool}
    (hquestions : ∀ q ∈ d.questions, ∃ octets, q.toOctets = .ok octets)
    (hrecords : ∀ r ∈ d.records, ∃ octets, (r.write fixLengths).outcome = .ok octets) :
    ∃ octets, (d.writeEntries fixLengths).outcome = .ok ⟨octets, []⟩ := by
  simp only [records, List.forall_mem_append] at hrecords
  obtain ⟨⟨hanswers, hauthorities⟩, hadditionals⟩ := hrecords
  obtain ⟨questions, hquestions⟩ := exists_mapM_of_forall hquestions
  obtain ⟨answers, hanswers⟩ := exists_writeSection hanswers
  obtain ⟨authorities, hauthorities⟩ := exists_writeSection hauthorities
  obtain ⟨additionals, hadditionals⟩ := exists_writeSection hadditionals
  simp only [writeEntries, hquestions, hanswers, hauthorities, hadditionals]
  exact ⟨_, rfl⟩

/-- The counts of a message that was read are stored already. -/
theorem fixCounts_of_countsHold (h : d.CountsHold) : d.fixCounts = (d, none) := by
  have hcount : ∀ {A : Type} {entries : List A} {count : UInt16}, entries.length = count.toNat →
      sectionCount entries = .ok count := by
    intro A entries count hlength
    rw [sectionCount_eq_ok_iff, hlength, UInt16.ofNat_toNat]
    exact ⟨Nat.le_of_lt_succ count.toNat_lt, rfl⟩
  simp only [fixCounts, hcount h.questions, hcount h.answers, hcount h.authorities,
    hcount h.additionals]

/-- A message that was read is written, whether its lengths are fixed or not, if its names are. -/
theorem LaysOut.exists_serialize (h : d.LaysOut message stop)
    (hnames : ∀ name ∈ d.names, Name.IsWritable name)
    (options : SerializeOptions) (inner : Octets) :
    ∃ octets, (d.serialize options inner).outcome = .ok ⟨octets, []⟩ := by
  obtain ⟨hquestions, hrecords⟩ := h.exists_standsAt
  rw [forall_mem_names_iff] at hnames
  have hfirst : ∀ q ∈ d.questions, ∃ octets, q.toOctets = .ok octets := by
    intro q hq
    exact Question.exists_toOctets (hnames.1 q hq)
  have hbehind : ∀ fixLengths, ∀ r ∈ d.records, ∃ octets,
      (r.write fixLengths).outcome = .ok octets := by
    intro fixLengths r hr
    obtain ⟨start, stop, hstands⟩ := hrecords r hr
    exact ResourceRecord.exists_write hstands (hnames.2 r hr) fixLengths
  rw [serialize, fixCounts_of_countsHold h.counts]
  split
  · exact exists_writeEntries hfirst (hbehind true)
  · exact exists_writeEntries hfirst (hbehind false)

/-- The lengths of the data in a message are those of the data that is written for it. -/
def LengthsHold (d : DnsMessage) : Prop :=
  ∀ r ∈ d.records, r.dataLength.toNat = r.encodedData.length

/-- Where the lengths hold, a message that was read is written as with fixed lengths. -/
theorem LaysOut.serialize_eq_fixAll (h : d.LaysOut message stop)
    (hnames : ∀ name ∈ d.names, Name.IsWritable name)
    {options : SerializeOptions} (hlengths : options.fixLengths = true ∨ d.LengthsHold)
    (inner : Octets) : d.serialize options inner = d.serialize .fixAll inner := by
  obtain ⟨-, hrecords⟩ := h.exists_standsAt
  rw [forall_mem_names_iff] at hnames
  have hcounts := fixCounts_of_countsHold h.counts
  rcases hlengths with hfix | hhold
  · simp only [serialize, hfix, SerializeOptions.fixAll]
  · have hwrite : ∀ r ∈ d.records, r.write false = r.write true := by
      intro r hr
      obtain ⟨start, stop, hstands⟩ := hrecords r hr
      have hcontent := (List.forall_mem_cons.mp (hnames.2 r hr)).2
      obtain ⟨data, hdata, -⟩ := ResourceRecord.exists_dataToOctets hstands hcontent
      exact ResourceRecord.write_false_eq hdata (hhold r hr)
    simp only [records, List.forall_mem_append] at hwrite
    obtain ⟨⟨hanswers, hauthorities⟩, hadditionals⟩ := hwrite
    have hsection : ∀ {records : List ResourceRecord},
        (∀ r ∈ records, r.write false = r.write true) →
          writeSection false records = writeSection true records := by
      intro records hsame
      simp only [writeSection, List.map_congr_left hsame]
    have hentries : d.writeEntries false = d.writeEntries true := by
      simp only [writeEntries, hsection hanswers, hsection hauthorities, hsection hadditionals]
    cases hfix : options.fixLengths with
    | true => simp only [serialize, hfix, SerializeOptions.fixAll]
    | false =>
        simp only [serialize, hfix, SerializeOptions.fixAll, hcounts, hentries, if_true,
          Bool.false_eq_true, if_false]

theorem names_received (d : DnsMessage) (length : Nat) : (d.received length).names = d.names := by
  simp only [names, received, settled, counted, records, List.flatMap_append, List.flatMap_map]
  rfl

/-- A message that was read, with names whose dots separate and that are not too long, is written
again.  With its lengths fixed, or if they hold as they are, it is read back with the same names. -/
theorem serialize_decoded {old : DnsMessage} (h : decode old message = .accept d)
    (hnames : ∀ name ∈ d.names, name.length + 2 ≤ maxNameLength ∧ Name.DotsSeparate name)
    (options : SerializeOptions) (inner : Octets) :
    ∃ octets, (d.serialize options inner).outcome = .ok ⟨octets, []⟩ ∧
      (options.fixLengths = true ∨ d.LengthsHold → ∀ old',
        decode old' octets = .accept (d.received octets.length) ∧
          (d.received octets.length).names = d.names) := by
  obtain ⟨-, stop, hlaid⟩ := decode_eq_accept_iff.mp h
  have hwritable : ∀ name ∈ d.names, Name.IsWritable name := by
    intro name hname
    obtain ⟨start, stop, hspells⟩ := hlaid.spells name hname
    obtain ⟨hshort, hdots⟩ := hnames name hname
    obtain ⟨octets, hoctets⟩ := Name.exists_encode_of_spells hspells hshort hdots
    exact ⟨octets, Name.toOctets_eq_ok_iff.mpr hoctets⟩
  have hform : d.WellFormed := hlaid.wellFormed fun name hname => (hnames name hname).2.isUndotted
  obtain ⟨octets, hoctets⟩ := hlaid.exists_serialize hwritable options inner
  refine ⟨octets, hoctets, ?_⟩
  intro hlengths old'
  rw [hlaid.serialize_eq_fixAll hwritable hlengths] at hoctets
  have hback := laysOut_of_serialize hform rfl hoctets [] octets.length
  rw [List.append_nil] at hback
  exact ⟨decode_eq_accept_iff.mpr ⟨rfl, _, hback⟩, names_received d _⟩

/-- Of the names that are read and leave room for their first length and the root, those whose
dots separate are written again and read back as themselves, and no others.  A message that was
read with such names only is written again, and with its lengths right it is read back with the
same names. -/
theorem decoded_names_rewritten :
    (∀ message offset name stop, Name.decode message offset = .ok (name, stop) →
      name.length + 2 ≤ maxNameLength →
        ((∃ octets, Name.encode name = ⟨octets, none⟩ ∧
          Name.decode octets 0 = .ok (name, octets.length)) ↔ Name.DotsSeparate name)) ∧
    ∀ old message d, decode old message = .accept d →
      (∀ name ∈ d.names, name.length + 2 ≤ maxNameLength ∧ Name.DotsSeparate name) →
        ∀ options inner, ∃ octets, (d.serialize options inner).outcome = .ok ⟨octets, []⟩ ∧
          (options.fixLengths = true ∨ d.LengthsHold → ∀ old',
            decode old' octets = .accept (d.received octets.length) ∧
              (d.received octets.length).names = d.names) :=
  ⟨fun _ _ _ _ => Name.encode_decoded_iff, fun _ _ _ => serialize_decoded⟩

/-- A response about an alias, whose name is one label with a dot in it. -/
def aliasOctets : Octets :=
  [0, 0, 128, 0, 0, 1, 0, 1, 0, 0, 0, 0] ++ [3, 97, 46, 98, 0, 0, 5, 0, 1] ++
    [192, 12, 0, 5, 0, 1, 0, 0, 0, 9, 0, 4, 1, 99, 192, 12]

def aliasResponse : DnsMessage :=
  { fresh with
    extent := .whole 37
    qr := true
    questionCount := 1
    answerCount := 1
    questions := [⟨[97, 46, 98], .cname, .internet⟩]
    answers := [⟨[97, 46, 98], .cname, .internet, 9, 4, [1, 99, 192, 12],
      .cname [99, 46, 97, 46, 98]⟩] }

/-- The dots of the response separate, and it is written with two labels in place of one. -/
theorem decoded_names_rewritten_alias :
    decode fresh aliasOctets = .accept aliasResponse ∧
      (∃ octets, Name.encode [97, 46, 98] = ⟨octets, none⟩ ∧
        Name.decode octets 0 = .ok ([97, 46, 98], octets.length)) ∧
      ∃ octets, (aliasResponse.serialize .fixAll []).outcome = .ok ⟨octets, []⟩ ∧
        decode fresh octets = .accept (aliasResponse.received octets.length) := by
  have hread : decode fresh aliasOctets = .accept aliasResponse := by decide +kernel
  have hnames : ∀ name ∈ aliasResponse.names,
      name.length + 2 ≤ maxNameLength ∧ Name.DotsSeparate name := by decide +kernel
  have hname : Name.decode aliasOctets 12 = .ok ([97, 46, 98], 17) := by decide +kernel
  obtain ⟨hencode, hserialize⟩ := decoded_names_rewritten
  obtain ⟨octets, hwritten, hback⟩ := hserialize _ _ _ hread hnames .fixAll []
  refine ⟨hread, ?_, octets, hwritten, (hback (.inl rfl) fresh).1⟩
  exact (hencode _ _ _ _ hname (by decide)).mpr (by decide)

/-- A label that ends in a dot is read and written without it, and one with two dots in a row is
read and not written. -/
theorem dotted_labels_not_rewritten :
    Name.decode [2, 97, 46, 0] 0 = .ok ([97, 46], 4) ∧
      Name.encode [97, 46] = ⟨[1, 97, 0], none⟩ ∧ Name.decode [1, 97, 0] 0 = .ok ([97], 3) ∧
      Name.decode [4, 97, 46, 46, 98, 0] 0 = .ok ([97, 46, 46, 98], 6) ∧
      (Name.encode [97, 46, 46, 98]).error =
        some (.invalidField .dns "empty label in name") := by
  decide +kernel

end DnsMessage

end PacketLayers
