import PacketLayers.Dns.Record
import PacketLayers.Proofs.Dns.NameText
import PacketLayers.Proofs.Headers.Network

/-!
# Questions and records as they stand in a message

What the readers of questions and records accept, said without the readers: a
name that a chain spells, behind it the octets of the fixed fields, and behind
these the data, in which each kind of interpretation has its own form.  The
readers accept exactly this (`Question.read_eq_ok_iff`,
`ResourceRecord.read_eq_ok_iff`).
-/

namespace PacketLayers.Dns

open Name (Cursor Spells position_ofPosition rest_ofPosition advance_ofPosition)

variable {message : Octets} {start : Nat}

/-! ## Results of readers -/

theorem except_bind_eq_ok_iff {E A B : Type} {x : Except E A} {f : A → Except E B} {b : B} :
    (x >>= f) = .ok b ↔ ∃ a, x = .ok a ∧ f a = .ok b := by
  cases x <;> simp [bind, Except.bind]

theorem except_map_eq_ok_iff {E A B : Type} {x : Except E A} {f : A → B} {b : B} :
    x.map f = .ok b ↔ ∃ a, x = .ok a ∧ f a = b := by
  cases x <;> simp [Except.map]

/-! ## Names and fixed fields -/

theorem readName_eq_ok_iff {name : Octets} {c : Cursor} :
    readName message (.ofPosition message start) = .ok (name, c) ↔
      ∃ stop, Spells message start name stop ∧ c = .ofPosition message stop := by
  have hdecode : Name.decodeFrom message (.ofPosition message start) =
      Name.decode message start := rfl
  rw [readName, hdecode]
  cases hname : Name.decode message start with
  | error error =>
      constructor
      · intro h
        cases h
      · rintro ⟨stop, hspells, -⟩
        rw [← Name.decode_eq_ok_iff_spells, hname] at hspells
        cases hspells
  | ok found =>
      obtain ⟨found, stop⟩ := found
      have hspells := (Name.decode_eq_ok_iff_spells message start found stop).mp hname
      have hbehind : start + (stop - start) = stop := by
        have hbounds := hspells.bounds
        omega
      simp only [position_ofPosition, advance_ofPosition, hbehind, Except.ok.injEq,
        Prod.mk.injEq]
      constructor
      · rintro ⟨rfl, rfl⟩
        exact ⟨stop, hspells, rfl⟩
      · rintro ⟨stop', hspells', rfl⟩
        rw [← Name.decode_eq_ok_iff_spells, hname] at hspells'
        cases hspells'
        exact ⟨rfl, rfl⟩

/-- An entry must begin inside the message, as every name does. -/
theorem readEntryName_eq_ok_iff {name : Octets} {c : Cursor} :
    readEntryName message (.ofPosition message start) = .ok (name, c) ↔
      ∃ stop, Spells message start name stop ∧ c = .ofPosition message stop := by
  rw [readEntryName]
  split
  · next hempty =>
      constructor
      · intro h
        cases h
      · rintro ⟨stop, hspells, -⟩
        have hbounds := hspells.bounds
        rw [rest_ofPosition, List.drop_eq_nil_iff] at hempty
        omega
  · exact readName_eq_ok_iff

theorem readFixed_eq_ok_iff {length : Nat} {fixed : Octets} {c : Cursor} :
    readFixed message length (.ofPosition message start) = .ok (fixed, c) ↔
      Stands message start fixed ∧ fixed.length = length ∧
        c = .ofPosition message (start + length) := by
  simp only [readFixed, rest_ofPosition, advance_ofPosition]
  split
  · next hshort =>
      constructor
      · intro h
        cases h
      · rintro ⟨hstands, hlength, -⟩
        have htake := List.prefix_iff_eq_take.mp hstands
        rw [hlength] at htake
        rw [← htake, hlength] at hshort
        exact absurd hshort (Nat.lt_irrefl _)
  · next hall =>
      simp only [Except.ok.injEq, Prod.mk.injEq]
      constructor
      · rintro ⟨rfl, rfl⟩
        refine ⟨List.take_prefix _ _, ?_, rfl⟩
        exact Nat.le_antisymm (List.length_take_le _ _) (Nat.le_of_not_lt hall)
      · rintro ⟨hstands, hlength, rfl⟩
        have htake := List.prefix_iff_eq_take.mp hstands
        rw [hlength] at htake
        exact ⟨htake.symm, rfl⟩

/-! ## Questions -/

namespace Question

/-- The octets behind the name of a question. -/
def fieldOctets (q : Question) : Octets := be16 q.type.number ++ be16 q.recordClass.number

/-- A question stands in the message from `start` up to `stop`. -/
def StandsAt (message : Octets) (start : Nat) (q : Question) (stop : Nat) : Prop :=
  IsCanonical RecordType.ofNumber q.type ∧ IsCanonical RecordClass.ofNumber q.recordClass ∧
    ∃ middle, Spells message start q.name middle ∧ Stands message middle q.fieldOctets ∧
      stop = middle + fixedLength

@[simp] theorem length_fieldOctets (q : Question) : q.fieldOctets.length = fixedLength := rfl

theorem read_eq_ok_iff {q : Question} {c : Cursor} :
    read message (.ofPosition message start) = .ok (q, c) ↔
      ∃ stop, q.StandsAt message start stop ∧ c = .ofPosition message stop := by
  simp only [read, except_bind_eq_ok_iff, Prod.exists, readEntryName_eq_ok_iff]
  constructor
  · rintro ⟨name, c', ⟨middle, hname, rfl⟩, fixed, c'', hfixed, h⟩
    obtain ⟨hstands, hlength, rfl⟩ := readFixed_eq_ok_iff.mp hfixed
    cases h
    refine ⟨_, ⟨⟨_, rfl⟩, ⟨_, rfl⟩, middle, hname, ?_, rfl⟩, rfl⟩
    have hfields : Stands fixed 0 (be16 (be16At fixed 0) ++ be16 (be16At fixed 2)) :=
      stands_append_iff.mpr ⟨stands_be16At (hlength ▸ by decide),
        stands_be16At (Nat.le_of_eq hlength.symm)⟩
    rw [fieldOctets, RecordType.number_ofNumber, RecordClass.number_ofNumber,
      ← eq_of_stands_zero hfields hlength]
    exact hstands
  · rintro ⟨stop, ⟨htype, hclass, middle, hname, hfields, rfl⟩, rfl⟩
    have hread := readFixed_eq_ok_iff.mpr ⟨hfields, q.length_fieldOctets, rfl⟩
    refine ⟨_, _, ⟨middle, hname, rfl⟩, _, _, hread, ?_⟩
    obtain ⟨hnumber, hclassNumber⟩ := stands_append_iff.mp (stands_self q.fieldOctets)
    have hclassAt : be16At q.fieldOctets 2 = q.recordClass.number := hclassNumber.be16At_eq
    rw [hnumber.be16At_eq, hclassAt, htype.ofNumber_number RecordType.number_ofNumber,
      hclass.ofNumber_number RecordClass.number_ofNumber]

theorem StandsAt.bounds {q : Question} {stop : Nat} (h : q.StandsAt message start stop) :
    start ≤ stop ∧ stop ≤ message.length := by
  obtain ⟨-, -, middle, hname, hfields, rfl⟩ := h
  obtain ⟨hbehind, hinside⟩ := hname.bounds
  have hstop := hfields.add_length_le hinside
  rw [length_fieldOctets] at hstop
  exact ⟨Nat.le_add_right_of_le (Nat.le_of_lt hbehind), hstop⟩

end Question

/-! ## The data of records -/

namespace StartOfAuthority

/-- The numbers of a start of authority. -/
def numberOctets (soa : StartOfAuthority) : Octets :=
  be32 soa.serial ++ be32 soa.refresh ++ be32 soa.retry ++ be32 soa.expire ++ be32 soa.minimum

@[simp] theorem length_numberOctets (soa : StartOfAuthority) : soa.numberOctets.length = 20 := rfl

/-- The start of authority whose numbers stand at the start of a string. -/
def readNumbers (mname rname tail : Octets) : StartOfAuthority :=
  ⟨mname, rname, be32At tail 0, be32At tail 4, be32At tail 8, be32At tail 12, be32At tail 16⟩

theorem readNumbers_of_stands {soa : StartOfAuthority} {tail : Octets}
    (h : Stands tail 0 soa.numberOctets) : readNumbers soa.mname soa.rname tail = soa := by
  simp only [numberOctets, stands_append_iff, List.length_append, length_be32] at h
  obtain ⟨⟨⟨⟨hserial, hrefresh⟩, hretry⟩, hexpire⟩, hminimum⟩ := h
  rw [readNumbers, hserial.be32At_eq, Stands.be32At_eq hrefresh, Stands.be32At_eq hretry,
    Stands.be32At_eq hexpire, Stands.be32At_eq hminimum]

theorem numberOctets_readNumbers {mname rname tail : Octets} (h : tail.length = 20) :
    (readNumbers mname rname tail).numberOctets = tail := by
  symm
  apply eq_of_stands_zero
  · simp only [numberOctets, readNumbers, stands_append_iff, List.length_append, length_be32]
    exact ⟨⟨⟨⟨stands_be32At (by omega), stands_be32At (by omega)⟩, stands_be32At (by omega)⟩,
      stands_be32At (by omega)⟩, stands_be32At (by omega)⟩
  · exact h

end StartOfAuthority

namespace RecordData

/-- The types whose data is interpreted. -/
def interpretedTypes : List RecordType := [.a, .ns, .cname, .soa, .ptr, .mx, .txt, .aaaa, .srv]

/-- An interpretation is of the kind that a type has. -/
def Suits (type : RecordType) : RecordData → Prop
  | .address (.v4 _) => type = .a
  | .address (.v6 _) => type = .aaaa
  | .ns _ => type = .ns
  | .cname _ => type = .cname
  | .ptr _ => type = .ptr
  | .mx .. => type = .mx
  | .txt _ => type = .txt
  | .soa _ => type = .soa
  | .srv .. => type = .srv
  | .raw => type ∉ interpretedTypes

/-- An interpretation is found in the data of a record, which stands at `start`.
Names are found in the message, and so are the numbers behind them. -/
def StandsAt (message : Octets) (start : Nat) (data : Octets) : RecordData → Prop
  | .address (.v4 host) => data = host.toOctets
  | .address (.v6 host) => data = host.toOctets
  | .ns name | .cname name | .ptr name => ∃ stop, Spells message start name stop
  | .mx preference name =>
    Stands data 0 (be16 preference) ∧ ∃ stop, Spells message (start + 2) name stop
  | .txt strings => (∀ string ∈ strings, string.length ≤ 255) ∧ data = countedOctets strings
  | .soa authority => ∃ middle stop, Spells message start authority.mname middle ∧
    Spells message middle authority.rname stop ∧ Stands message stop authority.numberOctets
  | .srv priority weight port name =>
    Stands data 0 (be16 priority ++ be16 weight ++ be16 port) ∧
      ∃ stop, Spells message (start + 6) name stop
  | .raw => True

/-- The first octet of strings is the length of the first one, which stands behind
it. -/
theorem cons_eq_countedOctets_iff {length : UInt8} {tail : Octets} {strings : List Octets}
    (hshort : ∀ string ∈ strings, string.length ≤ 255) :
    length :: tail = countedOctets strings ↔
      length.toNat ≤ tail.length ∧ ∃ further, strings = tail.take length.toNat :: further ∧
        tail.drop length.toNat = countedOctets further := by
  constructor
  · intro h
    cases strings with
    | nil => simp at h
    | cons string further =>
        have hstring : string.length ≤ 255 := hshort string List.mem_cons_self
        rw [countedOctets_cons] at h
        obtain ⟨hlength, rfl⟩ := List.cons.inj h
        have hcount : length.toNat = string.length := by
          rw [hlength, UInt8.toNat_ofNat']
          omega
        rw [hcount, List.length_append, List.take_left, List.drop_left]
        exact ⟨Nat.le_add_right _ _, further, rfl, rfl⟩
  · rintro ⟨hinside, further, rfl, hfurther⟩
    rw [countedOctets_cons, List.length_take, Nat.min_eq_left hinside, UInt8.ofNat_toNat,
      ← hfurther, List.take_append_drop]

/-- Strings that were found are in front of those that are found behind them. -/
theorem readStringsOnto_eq_ok_iff {found strings : List Octets} {data : Octets} :
    readStringsOnto found data = .ok strings ↔
      ∃ further, strings = found.reverse ++ further ∧
        (∀ string ∈ further, string.length ≤ 255) ∧ data = countedOctets further := by
  induction found, data using readStringsOnto.induct with
  | case1 found =>
      rw [readStringsOnto, Except.ok.injEq]
      constructor
      · rintro rfl
        exact ⟨[], by simp, by simp, rfl⟩
      · rintro ⟨further, rfl, -, hdata⟩
        cases further with
        | nil => simp
        | cons string further => simp [countedOctets_cons] at hdata
  | case2 found length tail string hshort =>
      have hshort' : (tail.take length.toNat).length < length.toNat := hshort
      rw [readStringsOnto]
      simp only [hshort', if_true]
      constructor
      · intro h
        cases h
      · rintro ⟨further, -, hfurther, hdata⟩
        obtain ⟨hinside, -⟩ := (cons_eq_countedOctets_iff hfurther).mp hdata
        rw [List.length_take, Nat.min_eq_left hinside] at hshort'
        exact absurd hshort' (Nat.lt_irrefl _)
  | case3 found length tail string hlong ih =>
      have hlong' : ¬ (tail.take length.toNat).length < length.toNat := hlong
      have hinside : length.toNat ≤ tail.length := by
        rw [List.length_take] at hlong'
        omega
      have hstring : string.length ≤ 255 :=
        (List.length_take_le _ _).trans (Nat.le_of_lt_succ length.toNat_lt)
      rw [readStringsOnto]
      simp only [hlong', if_false]
      rw [ih]
      constructor
      · rintro ⟨further, rfl, hfurther, hdata⟩
        have hall : ∀ s ∈ string :: further, s.length ≤ 255 :=
          List.forall_mem_cons.mpr ⟨hstring, hfurther⟩
        refine ⟨string :: further, by simp, hall, ?_⟩
        exact (cons_eq_countedOctets_iff hall).mpr ⟨hinside, further, rfl, hdata⟩
      · rintro ⟨further, rfl, hfurther, hdata⟩
        obtain ⟨-, behind, rfl, hbehind⟩ := (cons_eq_countedOctets_iff hfurther).mp hdata
        refine ⟨behind, ?_, fun s hs => hfurther s (List.mem_cons_of_mem _ hs), hbehind⟩
        rw [List.reverse_cons, List.append_assoc]
        rfl

/-- The strings of a text record fill its data. -/
theorem readStrings_eq_ok_iff {strings : List Octets} {data : Octets} :
    readStrings data = .ok strings ↔
      (∀ string ∈ strings, string.length ≤ 255) ∧ data = countedOctets strings := by
  rw [readStrings, readStringsOnto_eq_ok_iff]
  constructor
  · rintro ⟨further, rfl, hfound⟩
    exact hfound
  · intro hfound
    exact ⟨strings, rfl, hfound⟩

/-- Whether the name at a position is interpreted depends on the name only. -/
theorem readName_map_eq_ok_iff {f : Octets → RecordData} {content : RecordData} :
    ((readName message (.ofPosition message start)).map fun found => f found.1) = .ok content ↔
      ∃ name stop, Spells message start name stop ∧ f name = content := by
  simp only [except_map_eq_ok_iff, Prod.exists, readName_eq_ok_iff]
  constructor
  · rintro ⟨name, c, ⟨stop, hname, -⟩, h⟩
    exact ⟨name, stop, hname, h⟩
  · rintro ⟨name, stop, hname, h⟩
    exact ⟨name, _, ⟨stop, hname, rfl⟩, h⟩

theorem readStartOfAuthority_eq_ok_iff {soa : StartOfAuthority} :
    readStartOfAuthority message (.ofPosition message start) = .ok soa ↔
      ∃ middle stop, Spells message start soa.mname middle ∧
        Spells message middle soa.rname stop ∧ Stands message stop soa.numberOctets := by
  simp only [readStartOfAuthority, except_bind_eq_ok_iff, Prod.exists, readName_eq_ok_iff]
  constructor
  · rintro ⟨mname, c, ⟨middle, hmname, rfl⟩, rname, c', hrname', h⟩
    obtain ⟨stop, hrname, rfl⟩ := readName_eq_ok_iff.mp hrname'
    rw [rest_ofPosition] at h
    split at h
    · cases h
    · next hall =>
        obtain rfl := Except.ok.inj h
        refine ⟨middle, stop, hmname, hrname, ?_⟩
        have hlength := Nat.le_antisymm (List.length_take_le _ _) (Nat.le_of_not_lt hall)
        have hnumbers := @StartOfAuthority.numberOctets_readNumbers mname rname _ hlength
        rw [StartOfAuthority.readNumbers] at hnumbers
        rw [hnumbers]
        exact List.take_prefix _ _
  · rintro ⟨middle, stop, hmname, hrname, hnumbers⟩
    refine ⟨_, _, ⟨middle, hmname, rfl⟩, _, _, readName_eq_ok_iff.mpr ⟨stop, hrname, rfl⟩, ?_⟩
    have htail : (message.drop stop).take 20 = soa.numberOctets :=
      (List.prefix_iff_eq_take.mp hnumbers).symm
    have hread := StartOfAuthority.readNumbers_of_stands (stands_self soa.numberOctets)
    rw [StartOfAuthority.readNumbers] at hread
    rw [rest_ofPosition, htail, StartOfAuthority.length_numberOctets, if_neg (Nat.lt_irrefl _),
      hread]

/-- What the data of a record is interpreted as is found in it. -/
theorem standsAt_of_read {type : RecordType} {data : Octets} {content : RecordData}
    (h : read type message (.ofPosition message start) data = .ok content) :
    content.Suits type ∧ content.StandsAt message start data := by
  cases type with
  | a =>
      simp only [read] at h
      split at h
      · next hlength =>
          obtain rfl := Except.ok.inj h
          have hwhole := Ipv4Address.stands_readAt (Nat.le_of_eq hlength.symm)
          have hall := hlength.trans (Ipv4Address.readAt data 0).length_toOctets.symm
          exact ⟨rfl, eq_of_stands_zero hwhole hall⟩
      · cases h
  | aaaa =>
      simp only [read] at h
      split at h
      · next hlength =>
          obtain rfl := Except.ok.inj h
          have hwhole := Ipv6Address.stands_readAt (Nat.le_of_eq hlength.symm)
          have hall := hlength.trans (Ipv6Address.readAt data 0).length_toOctets.symm
          exact ⟨rfl, eq_of_stands_zero hwhole hall⟩
      · cases h
  | ns | cname | ptr =>
      obtain ⟨name, stop, hname, rfl⟩ := readName_map_eq_ok_iff.mp h
      exact ⟨rfl, stop, hname⟩
  | mx =>
      simp only [read, advance_ofPosition] at h
      split at h
      · cases h
      · next hlong =>
          obtain ⟨name, stop, hname, rfl⟩ := readName_map_eq_ok_iff.mp h
          exact ⟨rfl, stands_be16At (Nat.le_of_not_lt hlong), stop, hname⟩
  | txt =>
      obtain ⟨strings, hstrings, rfl⟩ := except_map_eq_ok_iff.mp h
      exact ⟨rfl, readStrings_eq_ok_iff.mp hstrings⟩
  | soa =>
      obtain ⟨authority, hauthority, rfl⟩ := except_map_eq_ok_iff.mp h
      exact ⟨rfl, readStartOfAuthority_eq_ok_iff.mp hauthority⟩
  | srv =>
      simp only [read, advance_ofPosition] at h
      split at h
      · cases h
      · next hlong =>
          obtain ⟨name, stop, hname, rfl⟩ := readName_map_eq_ok_iff.mp h
          refine ⟨rfl, ?_, stop, hname⟩
          simp only [stands_append_iff, List.length_append, length_be16]
          exact ⟨⟨stands_be16At (by omega), stands_be16At (by omega)⟩, stands_be16At (by omega)⟩
  | _ =>
      obtain rfl := Except.ok.inj h
      exact ⟨by simp [Suits, interpretedTypes], trivial⟩

/-- Data is interpreted as what is found in it, if that is of the kind of the type. -/
theorem read_of_standsAt {type : RecordType} {data : Octets} {content : RecordData}
    (hsuits : content.Suits type) (h : content.StandsAt message start data) :
    read type message (.ofPosition message start) data = .ok content := by
  cases content with
  | address host =>
      cases host with
      | v4 host =>
          obtain rfl : type = .a := hsuits
          obtain rfl : data = host.toOctets := h
          have hread := Ipv4Address.readAt_of_stands (stands_self host.toOctets)
          rw [read, Ipv4Address.length_toOctets, if_pos rfl, hread]
      | v6 host =>
          obtain rfl : type = .aaaa := hsuits
          obtain rfl : data = host.toOctets := h
          have hread := Ipv6Address.readAt_of_stands (stands_self host.toOctets)
          rw [read, Ipv6Address.length_toOctets, if_pos rfl, hread]
  | ns name | cname name | ptr name =>
      obtain rfl : type = _ := hsuits
      obtain ⟨stop, hname⟩ := h
      exact readName_map_eq_ok_iff.mpr ⟨name, stop, hname, rfl⟩
  | mx preference name =>
      obtain rfl : type = .mx := hsuits
      obtain ⟨hpreference, stop, hname⟩ := h
      have hlong : 2 ≤ data.length := by
        have hinside := hpreference.add_length_le (Nat.zero_le _)
        rwa [length_be16, Nat.zero_add] at hinside
      simp only [read, advance_ofPosition, hpreference.be16At_eq]
      rw [if_neg (Nat.not_lt.mpr hlong)]
      exact readName_map_eq_ok_iff.mpr ⟨name, stop, hname, rfl⟩
  | txt strings =>
      obtain rfl : type = .txt := hsuits
      exact except_map_eq_ok_iff.mpr ⟨strings, readStrings_eq_ok_iff.mpr h, rfl⟩
  | soa authority =>
      obtain rfl : type = .soa := hsuits
      have hauthority := readStartOfAuthority_eq_ok_iff.mpr h
      exact except_map_eq_ok_iff.mpr ⟨authority, hauthority, rfl⟩
  | srv priority weight port name =>
      obtain rfl : type = .srv := hsuits
      obtain ⟨hnumbers, stop, hname⟩ := h
      have hlong : 6 ≤ data.length := by
        have hinside := hnumbers.add_length_le (Nat.zero_le _)
        simpa using hinside
      simp only [stands_append_iff, List.length_append, length_be16] at hnumbers
      obtain ⟨⟨hpriority, hweight⟩, hport⟩ := hnumbers
      have hweightAt : be16At data 2 = weight := hweight.be16At_eq
      have hportAt : be16At data 4 = port := hport.be16At_eq
      simp only [read, advance_ofPosition, hpriority.be16At_eq, hweightAt, hportAt]
      rw [if_neg (Nat.not_lt.mpr hlong)]
      exact readName_map_eq_ok_iff.mpr ⟨name, stop, hname, rfl⟩
  | raw =>
      have hnone : type ∉ interpretedTypes := hsuits
      cases type <;> first | rfl | exact absurd (by decide) hnone

/-- Data of a type is interpreted as what is found in it. -/
theorem read_eq_ok_iff {type : RecordType} {data : Octets} {content : RecordData} :
    read type message (.ofPosition message start) data = .ok content ↔
      content.Suits type ∧ content.StandsAt message start data :=
  ⟨standsAt_of_read, fun h => read_of_standsAt h.1 h.2⟩

end RecordData

/-! ## Records -/

namespace ResourceRecord

/-- The octets between the name and the data of a record. -/
def fieldOctets (r : ResourceRecord) : Octets :=
  be16 r.type.number ++ be16 r.recordClass.number ++ be32 r.ttl ++ be16 r.dataLength

@[simp] theorem length_fieldOctets (r : ResourceRecord) : r.fieldOctets.length = fixedLength := rfl

/-- A record stands in the message from `start` up to `stop`, with its data. -/
def StandsAt (message : Octets) (start : Nat) (r : ResourceRecord) (stop : Nat) : Prop :=
  IsCanonical RecordType.ofNumber r.type ∧ IsCanonical RecordClass.ofNumber r.recordClass ∧
    r.data.length = r.dataLength.toNat ∧ r.content.Suits r.type ∧
    ∃ middle, Spells message start r.name middle ∧
      Stands message middle (r.fieldOctets ++ r.data) ∧
      r.content.StandsAt message (middle + fixedLength) r.data ∧
      stop = middle + fixedLength + r.data.length

/-- Where the octets of a record stand, only reading what its data is interpreted as can
fail. -/
theorem read_of_stands {r : ResourceRecord} {name : Octets} {middle : Nat}
    (hname : Spells message start name middle) (hcount : r.data.length = r.dataLength.toNat)
    (hstands : Stands message middle (r.fieldOctets ++ r.data)) :
    read message (.ofPosition message start) =
      (RecordData.read (.ofNumber r.type.number) message
        (.ofPosition message (middle + fixedLength)) r.data).map fun content =>
          (⟨name, .ofNumber r.type.number, .ofNumber r.recordClass.number, r.ttl, r.dataLength,
            r.data, content⟩, .ofPosition message (middle + fixedLength + r.data.length)) := by
  obtain ⟨hfields, hdata⟩ := stands_append_iff.mp hstands
  rw [length_fieldOctets] at hdata
  have hself := stands_self r.fieldOctets
  simp only [fieldOctets, stands_append_iff, List.length_append, length_be16, length_be32] at hself
  obtain ⟨⟨⟨hnumber, hclassNumber⟩, httl⟩, hlength⟩ := hself
  have htypeAt : be16At r.fieldOctets 0 = r.type.number := hnumber.be16At_eq
  have hclassAt : be16At r.fieldOctets 2 = r.recordClass.number := hclassNumber.be16At_eq
  have httlAt : be32At r.fieldOctets 4 = r.ttl := httl.be32At_eq
  have hlengthAt : be16At r.fieldOctets 8 = r.dataLength := hlength.be16At_eq
  have hreadName := readEntryName_eq_ok_iff.mpr ⟨middle, hname, rfl⟩
  have hreadFields := readFixed_eq_ok_iff.mpr ⟨hfields, r.length_fieldOctets, rfl⟩
  have hreadData := readFixed_eq_ok_iff.mpr ⟨hdata, hcount, rfl⟩
  simp only [read, hreadName, hreadFields, bind, Except.bind, htypeAt, hclassAt, httlAt, hlengthAt,
    hreadData]
  rw [hcount]
  cases RecordData.read (.ofNumber r.type.number) message
    (.ofPosition message (middle + fixedLength)) r.data <;> rfl

theorem read_eq_ok_iff {r : ResourceRecord} {c : Cursor} :
    read message (.ofPosition message start) = .ok (r, c) ↔
      ∃ stop, r.StandsAt message start stop ∧ c = .ofPosition message stop := by
  constructor
  · intro hread
    simp only [read, except_bind_eq_ok_iff, Prod.exists, readEntryName_eq_ok_iff] at hread
    obtain ⟨name, c', ⟨middle, hname, rfl⟩, fixed, c'', hfixed, data, behind, hdata, content,
      hcontent, h⟩ := hread
    obtain ⟨hstands, hlength, rfl⟩ := readFixed_eq_ok_iff.mp hfixed
    obtain ⟨hbehind, hcount, rfl⟩ := readFixed_eq_ok_iff.mp hdata
    obtain ⟨hsuits, hfound⟩ := RecordData.read_eq_ok_iff.mp hcontent
    cases h
    refine ⟨_, ⟨⟨_, rfl⟩, ⟨_, rfl⟩, hcount, hsuits, middle, hname, ?_, hfound, rfl⟩, ?_⟩
    · have hfields : Stands fixed 0 (be16 (be16At fixed 0) ++ be16 (be16At fixed 2) ++
          be32 (be32At fixed 4) ++ be16 (be16At fixed 8)) := by
        simp only [stands_append_iff, List.length_append, length_be16, length_be32]
        rw [fixedLength] at hlength
        exact ⟨⟨⟨stands_be16At (by omega), stands_be16At (by omega)⟩, stands_be32At (by omega)⟩,
          stands_be16At (by omega)⟩
      rw [stands_append_iff, fieldOctets, RecordType.number_ofNumber, RecordClass.number_ofNumber,
        ← eq_of_stands_zero hfields hlength, hlength]
      exact ⟨hstands, hbehind⟩
    · rw [hcount]
  · rintro ⟨stop, ⟨htype, hclass, hcount, hsuits, middle, hname, hstands, hfound, rfl⟩, rfl⟩
    rw [read_of_stands hname hcount hstands, htype.ofNumber_number RecordType.number_ofNumber,
      hclass.ofNumber_number RecordClass.number_ofNumber,
      RecordData.read_eq_ok_iff.mpr ⟨hsuits, hfound⟩]
    rfl

theorem StandsAt.bounds {r : ResourceRecord} {stop : Nat}
    (h : r.StandsAt message start stop) : start ≤ stop ∧ stop ≤ message.length := by
  obtain ⟨-, -, -, -, middle, hname, hstands, -, rfl⟩ := h
  obtain ⟨hbehind, hinside⟩ := hname.bounds
  have hstop := hstands.add_length_le hinside
  rw [List.length_append, length_fieldOctets, ← Nat.add_assoc] at hstop
  exact ⟨Nat.le_add_right_of_le (Nat.le_add_right_of_le (Nat.le_of_lt hbehind)), hstop⟩

end ResourceRecord

end PacketLayers.Dns
