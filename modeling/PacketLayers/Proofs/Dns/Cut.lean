import PacketLayers.Proofs.Dns.MessageLayout

/-!
# Messages that are cut

Names inside the data of records are read from the whole message, and neither they
nor the numbers behind the names of a start of authority are held to the data of
their record.  So a message can depend on octets behind its last entry
(`DnsMessage.decode_strayOctets`).

How far reading goes is said for each part: the segments of a name end somewhere,
and so does what is interpreted.  What stands in the first octets of a message is
what stands in the message and is read within them, and a message that is cut is
accepted exactly if all of it is (`DnsMessage.decode_take_iff`).
-/

namespace PacketLayers

open Dns

namespace Dns

variable {message : Octets} {n start : Nat}

namespace Name

/-! ## Names -/

/-- The root octet or the pointer behind each segment ends within the first `n` octets. -/
def SegmentsWithin (n : Nat) : List Segment → Prop
  | [] => True
  | segment :: rest => segment.ending + (if rest = [] then 1 else 2) ≤ n ∧ SegmentsWithin n rest

/-- The name at a position is read within the first `n` octets. -/
def Within (message : Octets) (n start : Nat) : Prop :=
  ∃ segments, Chain message [] start segments ∧ SegmentsWithin n segments

theorem labels_take_iff {p q : Nat} {labels : List Octets} (hq : q ≤ n) :
    Labels (message.take n) p labels q ↔ Labels message p labels q := by
  constructor
  · intro h
    induction h with
    | nil p => exact .nil p
    | cons hpos hlength hstands _ ih =>
        have hwhole := ((stands_take_iff (List.cons_ne_nil _ _)).mp hstands).1
        exact .cons hpos hlength hwhole (ih hq)
  · intro h
    induction h with
    | nil p => exact .nil p
    | @cons p q label labels hpos hlength hstands hrest ih =>
        have hbehind := hrest.le
        have hinside : p + (UInt8.ofNat label.length :: label).length ≤ n := by
          rw [List.length_cons]
          omega
        have hcut := (stands_take_iff (List.cons_ne_nil _ _)).mpr ⟨hstands, hinside⟩
        exact .cons hpos hlength hcut (ih hq)

theorem pointerAt_take_iff {p target : Nat} :
    PointerAt (message.take n) p target ↔ PointerAt message p target ∧ p + 2 ≤ n := by
  constructor
  · rintro ⟨w, hstands, hbits, htarget⟩
    obtain ⟨hwhole, hinside⟩ := (stands_take_iff (List.cons_ne_nil _ _)).mp hstands
    exact ⟨⟨w, hwhole, hbits, htarget⟩, hinside⟩
  · rintro ⟨⟨w, hstands, hbits, htarget⟩, hinside⟩
    exact ⟨w, (stands_take_iff (List.cons_ne_nil _ _)).mpr ⟨hstands, hinside⟩, hbits, htarget⟩

theorem getElem?_take_eq_some_iff {p : Nat} {b : UInt8} :
    (message.take n)[p]? = some b ↔ message[p]? = some b ∧ p + 1 ≤ n := by
  rw [← stands_singleton_iff, stands_take_iff (List.cons_ne_nil _ _), stands_singleton_iff]
  rfl

/-- A chain in the first octets is a chain of the message that ends within them. -/
theorem chain_take_iff {earlier : List Nat} {segments : List Segment} :
    Chain (message.take n) earlier start segments ↔
      Chain message earlier start segments ∧ SegmentsWithin n segments := by
  constructor
  · intro h
    -- the last segment ends in one octet, each other one in the two of its pointer
    induction h with
    | root hlabels hroot =>
        obtain ⟨hwhole, hinside⟩ := getElem?_take_eq_some_iff.mp hroot
        have hlabels' := (labels_take_iff (Nat.le_of_succ_le hinside)).mp hlabels
        exact ⟨.root hlabels' hwhole, hinside, trivial⟩
    | pointer hlabels hpointer hbackward hearlier hrest ih =>
        obtain ⟨hwhole, hinside⟩ := pointerAt_take_iff.mp hpointer
        obtain ⟨hchain, hwithin⟩ := ih
        have hlabels' := (labels_take_iff (Nat.le_of_add_right_le hinside)).mp hlabels
        refine ⟨.pointer hlabels' hwhole hbackward hearlier hchain, ?_, hwithin⟩
        rw [if_neg hrest.ne_nil]
        exact hinside
  · rintro ⟨h, hwithin⟩
    induction h with
    | root hlabels hroot =>
        have hinside := hwithin.1
        rw [if_pos rfl] at hinside
        have hlabels' := (labels_take_iff (Nat.le_of_succ_le hinside)).mpr hlabels
        exact .root hlabels' (getElem?_take_eq_some_iff.mpr ⟨hroot, hinside⟩)
    | pointer hlabels hpointer hbackward hearlier hrest ih =>
        obtain ⟨hinside, hbehind⟩ := hwithin
        rw [if_neg hrest.ne_nil] at hinside
        have hlabels' := (labels_take_iff (Nat.le_of_add_right_le hinside)).mpr hlabels
        exact .pointer hlabels' (pointerAt_take_iff.mpr ⟨hpointer, hinside⟩) hbackward hearlier
          (ih hbehind)

/-! ## A position has one chain only -/

/-- In front of a label stands the octet with its length. -/
theorem octet_of_label {p : Nat} {label : Octets} (hpos : 0 < label.length)
    (hlength : label.length ≤ maxLabelLength)
    (hstands : UInt8.ofNat label.length :: label <+: message.drop p) :
    ∃ b, message[p]? = some b ∧ isLabelLength b = true ∧ b.toNat = label.length := by
  have hmax : label.length < 64 := Nat.lt_succ_of_le hlength
  have hcount : (UInt8.ofNat label.length).toNat = label.length := by
    rw [UInt8.toNat_ofNat', Nat.mod_eq_of_lt (by omega)]
  refine ⟨_, (cons_prefix_drop_iff.mp hstands).1, isLabelLength_eq_true_iff.mpr ⟨?_, ?_⟩, hcount⟩
  · intro hzero
    rw [hzero] at hcount
    exact absurd hcount (Nat.ne_of_lt hpos)
  · rw [UInt8.lt_iff_toNat_lt, hcount]
    exact hmax

/-- At the end of labels stands an octet that is not the length of a further one. -/
def EndsLabels (message : Octets) (q : Nat) : Prop :=
  ∃ b, message[q]? = some b ∧ isLabelLength b = false

theorem endsLabels_of_root {q : Nat} (h : message[q]? = some 0) : EndsLabels message q :=
  ⟨0, h, rfl⟩

theorem PointerAt.endsLabels {q target : Nat} (h : PointerAt message q target) :
    EndsLabels message q := by
  obtain ⟨high, low, hhigh, -, hbits, -⟩ := pointerAt_iff.mp h
  refine ⟨high, hhigh, Bool.eq_false_iff.mpr ?_⟩
  intro hlabel
  have hlow : high < 64 := (isLabelLength_eq_true_iff.mp hlabel).2
  exact absurd (UInt8.lt_of_le_of_lt hbits hlow) (by decide)

theorem PointerAt.unique {q target target' : Nat} (h : PointerAt message q target)
    (h' : PointerAt message q target') : target = target' := by
  obtain ⟨high, low, hhigh, hlow, -, rfl⟩ := pointerAt_iff.mp h
  obtain ⟨high', low', hhigh', hlow', -, rfl⟩ := pointerAt_iff.mp h'
  rw [hhigh, Option.some.injEq] at hhigh'
  rw [hlow, Option.some.injEq] at hlow'
  rw [hhigh', hlow']

/-- A pointer is no root octet. -/
theorem PointerAt.not_root {q target : Nat} (h : PointerAt message q target) :
    message[q]? ≠ some 0 := by
  intro hroot
  obtain ⟨high, low, hhigh, -, hbits, -⟩ := pointerAt_iff.mp h
  rw [hroot, Option.some.injEq] at hhigh
  rw [← hhigh] at hbits
  exact absurd hbits (by decide)

theorem not_endsLabels_of_label {p : Nat} {label : Octets} (hpos : 0 < label.length)
    (hlength : label.length ≤ maxLabelLength)
    (hstands : UInt8.ofNat label.length :: label <+: message.drop p) :
    ¬ EndsLabels message p := by
  rintro ⟨b, hb, hend⟩
  obtain ⟨b', hb', hlabel, -⟩ := octet_of_label hpos hlength hstands
  rw [hb, Option.some.injEq] at hb'
  rw [hb', hlabel] at hend
  cases hend

/-- Labels that come to an end are the only ones from their start on. -/
theorem Labels.unique {p q q' : Nat} {labels labels' : List Octets}
    (h : Labels message p labels q) (h' : Labels message p labels' q')
    (hend : EndsLabels message q) (hend' : EndsLabels message q') :
    labels = labels' ∧ q = q' := by
  induction h generalizing labels' with
  | nil p =>
      cases h' with
      | nil p => exact ⟨rfl, rfl⟩
      | cons hpos hlength hstands _ =>
          exact absurd hend (not_endsLabels_of_label hpos hlength hstands)
  | @cons p q label labels hpos hlength hstands hrest ih =>
      cases h' with
      | nil p => exact absurd hend' (not_endsLabels_of_label hpos hlength hstands)
      | @cons p q' label' labels' hpos' hlength' hstands' hrest' =>
          obtain ⟨b, hb, -, hcount⟩ := octet_of_label hpos hlength hstands
          obtain ⟨b', hb', -, hcount'⟩ := octet_of_label hpos' hlength' hstands'
          have hsame : label.length = label'.length := by
            rw [hb, Option.some.injEq] at hb'
            rw [← hcount, ← hcount', hb']
          have hlabel := List.prefix_iff_eq_take.mp (cons_prefix_drop_iff.mp hstands).2
          have hlabel' := List.prefix_iff_eq_take.mp (cons_prefix_drop_iff.mp hstands').2
          obtain rfl : label = label' := by rw [hlabel, hlabel', hsame]
          obtain ⟨rfl, rfl⟩ := ih hrest' hend
          exact ⟨rfl, rfl⟩

theorem Chain.unique {earlier earlier' : List Nat} {segments segments' : List Segment}
    (h : Chain message earlier start segments) (h' : Chain message earlier' start segments') :
    segments = segments' := by
  -- the positions visited earlier only restrict a chain, so they may differ
  induction h generalizing earlier' segments' with
  | root hlabels hroot =>
      cases h' with
      | root hlabels' hroot' =>
          obtain ⟨rfl, rfl⟩ := hlabels.unique hlabels' (endsLabels_of_root hroot)
            (endsLabels_of_root hroot')
          rfl
      | pointer hlabels' hpointer' _ _ _ =>
          obtain ⟨rfl, rfl⟩ := hlabels.unique hlabels' (endsLabels_of_root hroot)
            hpointer'.endsLabels
          exact absurd hroot hpointer'.not_root
  | pointer hlabels hpointer _ _ _ ih =>
      cases h' with
      | root hlabels' hroot' =>
          obtain ⟨rfl, rfl⟩ := hlabels.unique hlabels' hpointer.endsLabels
            (endsLabels_of_root hroot')
          exact absurd hroot' hpointer.not_root
      | pointer hlabels' hpointer' _ _ hrest' =>
          obtain ⟨rfl, rfl⟩ := hlabels.unique hlabels' hpointer.endsLabels hpointer'.endsLabels
          obtain rfl := hpointer.unique hpointer'
          rw [ih hrest']

theorem Spells.unique {name name' : Octets} {stop stop' : Nat}
    (h : Spells message start name stop) (h' : Spells message start name' stop') :
    name = name' ∧ stop = stop' := by
  rw [← decode_eq_ok_iff_spells] at h h'
  rw [h] at h'
  exact Prod.mk.inj (Except.ok.inj h')

/-- A name in the first octets is a name of the message that is read within them. -/
theorem spells_take_iff {name : Octets} {stop : Nat} :
    Spells (message.take n) start name stop ↔
      Spells message start name stop ∧ Within message n start := by
  constructor
  · rintro ⟨first, rest, hchain, hname⟩
    obtain ⟨hwhole, hwithin⟩ := chain_take_iff.mp hchain
    exact ⟨⟨first, rest, hwhole, hname⟩, _, hwhole, hwithin⟩
  · rintro ⟨⟨first, rest, hchain, hname⟩, segments, hchain', hwithin⟩
    obtain rfl := hchain.unique hchain'
    exact ⟨first, rest, chain_take_iff.mpr ⟨hchain, hwithin⟩, hname⟩

theorem exists_spells_take_iff {name : Octets} :
    (∃ stop, Spells (message.take n) start name stop) ↔
      (∃ stop, Spells message start name stop) ∧ Within message n start := by
  simp only [spells_take_iff, exists_and_right]

end Name

/-! ## Entries -/

/-- What the data of a record is interpreted as is read within the first `n` octets. -/
def RecordData.Within (message : Octets) (n start : Nat) : RecordData → Prop
  | .ns _ | .cname _ | .ptr _ => Name.Within message n start
  | .mx .. => Name.Within message n (start + 2)
  | .srv .. => Name.Within message n (start + 6)
  | .soa authority => Name.Within message n start ∧
    ∀ middle stop, Name.Spells message start authority.mname middle →
      Name.Spells message middle authority.rname stop →
        Name.Within message n middle ∧ stop + 20 ≤ n
  | .address _ | .txt _ | .raw => True

/-- A question up to `stop` is read within the first `n` octets. -/
def Question.Within (message : Octets) (n start stop : Nat) : Prop :=
  Name.Within message n start ∧ stop ≤ n

/-- A record up to `stop` is read within the first `n` octets, and so is what its data
is interpreted as. -/
def ResourceRecord.Within (message : Octets) (n start : Nat) (r : ResourceRecord) (stop : Nat) :
    Prop :=
  Name.Within message n start ∧ stop ≤ n ∧ r.content.Within message n (stop - r.data.length)

theorem RecordData.standsAt_take_iff {content : RecordData} {data : Octets} :
    content.StandsAt (message.take n) start data ↔
      content.StandsAt message start data ∧ content.Within message n start := by
  cases content with
  | address host => cases host <;> exact (and_iff_left trivial).symm
  | txt _ | raw => exact (and_iff_left trivial).symm
  | ns _ | cname _ | ptr _ => exact Name.exists_spells_take_iff
  | mx _ _ | srv _ _ _ _ =>
      simp only [StandsAt, Within, Name.exists_spells_take_iff]
      exact and_assoc.symm
  | soa authority =>
      simp only [StandsAt, Within]
      constructor
      · rintro ⟨middle, stop, hmname, hrname, hnumbers⟩
        obtain ⟨hmname, hfirst⟩ := Name.spells_take_iff.mp hmname
        obtain ⟨hrname, hsecond⟩ := Name.spells_take_iff.mp hrname
        obtain ⟨hnumbers, hinside⟩ := (stands_take_iff (List.cons_ne_nil _ _)).mp hnumbers
        refine ⟨⟨middle, stop, hmname, hrname, hnumbers⟩, hfirst, ?_⟩
        intro middle' stop' hmname' hrname'
        obtain ⟨-, rfl⟩ := hmname.unique hmname'
        obtain ⟨-, rfl⟩ := hrname.unique hrname'
        exact ⟨hsecond, hinside⟩
      · rintro ⟨⟨middle, stop, hmname, hrname, hnumbers⟩, hfirst, hbehind⟩
        obtain ⟨hsecond, hinside⟩ := hbehind middle stop hmname hrname
        exact ⟨middle, stop, Name.spells_take_iff.mpr ⟨hmname, hfirst⟩,
          Name.spells_take_iff.mpr ⟨hrname, hsecond⟩,
          (stands_take_iff (List.cons_ne_nil _ _)).mpr ⟨hnumbers, hinside⟩⟩

theorem Question.standsAt_take_iff {q : Question} {stop : Nat} :
    q.StandsAt (message.take n) start stop ↔
      q.StandsAt message start stop ∧ Question.Within message n start stop := by
  constructor
  · rintro ⟨htype, hclass, middle, hname, hfields, rfl⟩
    obtain ⟨hname, hwithin⟩ := Name.spells_take_iff.mp hname
    obtain ⟨hfields, hinside⟩ := (stands_take_iff (List.cons_ne_nil _ _)).mp hfields
    exact ⟨⟨htype, hclass, middle, hname, hfields, rfl⟩, hwithin, hinside⟩
  · rintro ⟨⟨htype, hclass, middle, hname, hfields, rfl⟩, hwithin, hinside⟩
    exact ⟨htype, hclass, middle, Name.spells_take_iff.mpr ⟨hname, hwithin⟩,
      (stands_take_iff (List.cons_ne_nil _ _)).mpr ⟨hfields, hinside⟩, rfl⟩

theorem ResourceRecord.standsAt_take_iff {r : ResourceRecord} {stop : Nat} :
    r.StandsAt (message.take n) start stop ↔
      r.StandsAt message start stop ∧ r.Within message n start stop := by
  have hne : r.fieldOctets ++ r.data ≠ [] := List.cons_ne_nil _ _
  constructor
  · rintro ⟨htype, hclass, hlength, hsuits, middle, hname, hstands, hcontent, rfl⟩
    obtain ⟨hname, hwithin⟩ := Name.spells_take_iff.mp hname
    obtain ⟨hstands, hinside⟩ := (stands_take_iff hne).mp hstands
    obtain ⟨hcontent, hread⟩ := RecordData.standsAt_take_iff.mp hcontent
    refine ⟨⟨htype, hclass, hlength, hsuits, middle, hname, hstands, hcontent, rfl⟩, hwithin,
      ?_, ?_⟩
    · rwa [List.length_append, length_fieldOctets, ← Nat.add_assoc] at hinside
    · rwa [Nat.add_sub_cancel]
  · rintro ⟨⟨htype, hclass, hlength, hsuits, middle, hname, hstands, hcontent, rfl⟩, hwithin,
      hinside, hread⟩
    rw [Nat.add_sub_cancel] at hread
    have hinside' : middle + (r.fieldOctets ++ r.data).length ≤ n := by
      rwa [List.length_append, length_fieldOctets, ← Nat.add_assoc]
    exact ⟨htype, hclass, hlength, hsuits, middle, Name.spells_take_iff.mpr ⟨hname, hwithin⟩,
      (stands_take_iff hne).mpr ⟨hstands, hinside'⟩,
      RecordData.standsAt_take_iff.mpr ⟨hcontent, hread⟩, rfl⟩

end Dns

/-! ## Messages -/

namespace DnsMessage

variable {message : Octets} {n : Nat}

/-- A message whose entries end at `stop` is read within the first `n` octets. -/
def ReadWithin (message : Octets) (n : Nat) (d : DnsMessage) (stop : Nat) : Prop :=
  headerLength ≤ n ∧
    d.SectionsStand
      (fun start q stop => q.StandsAt message start stop ∧ Question.Within message n start stop)
      (fun start r stop => r.StandsAt message start stop ∧ r.Within message n start stop) stop

theorem stands_header_take_iff {d : DnsMessage} :
    Stands (message.take n) 0 d.headerToOctets ↔
      Stands message 0 d.headerToOctets ∧ headerLength ≤ n := by
  have hne : d.headerToOctets ≠ [] := List.cons_ne_nil _ _
  rw [stands_take_iff hne, length_headerToOctets, Nat.zero_add]

/-- A message in the first octets is a message that is read within them. -/
theorem laysOut_take_iff {d : DnsMessage} {stop : Nat} :
    d.LaysOut (message.take n) stop ↔ d.LaysOut message stop ∧ d.ReadWithin message n stop := by
  constructor
  · rintro ⟨hflags, hcounts, hstands, hsections⟩
    obtain ⟨hstands, hlong⟩ := stands_header_take_iff.mp hstands
    have hwithin := hsections.mono Question.standsAt_take_iff.mp
      ResourceRecord.standsAt_take_iff.mp
    exact ⟨⟨hflags, hcounts, hstands, hwithin.mono And.left And.left⟩, hlong, hwithin⟩
  · rintro ⟨⟨hflags, hcounts, hstands, -⟩, hlong, hwithin⟩
    exact ⟨hflags, hcounts, stands_header_take_iff.mpr ⟨hstands, hlong⟩,
      hwithin.mono Question.standsAt_take_iff.mpr ResourceRecord.standsAt_take_iff.mpr⟩

/-- The first octets of a message are accepted exactly if the message is read within
them, and then as that message. -/
theorem decode_take_eq_accept_iff {old d e : DnsMessage} {stop : Nat}
    (h : decode old message = .accept d) (hlaid : d.LaysOut message stop) :
    decode old (message.take n) = .accept e ↔
      d.ReadWithin message n stop ∧
        e = { d with extent := .whole (message.take n).length } := by
  rw [decode_eq_accept_iff]
  constructor
  · rintro ⟨hextent, stop', hcut⟩
    obtain ⟨hwhole, hwithin⟩ := laysOut_take_iff.mp hcut
    -- the message of the cut octets is laid out in all of them too, where only `d` is
    have haccept : decode old message = .accept { e with extent := .whole message.length } :=
      decode_eq_accept_iff.mpr ⟨rfl, stop', hwhole.withExtent _⟩
    rw [h] at haccept
    obtain rfl : d = { e with extent := .whole message.length } :=
      congrArg Decoding.layer haccept
    obtain rfl := hlaid.stop_unique (hwhole.withExtent _)
    refine ⟨hwithin, ?_⟩
    rw [← hextent]
  · rintro ⟨hwithin, rfl⟩
    exact ⟨rfl, stop, (laysOut_take_iff.mpr ⟨hlaid, hwithin⟩).withExtent _⟩

/-- Every accepted message has a position behind its last entry, and octets from
there on matter only to names and numbers that run past it: cut anywhere, at that
position too, the message is accepted exactly if all of it is read within what is
left, and then all its fields are the same. -/
theorem decode_take_iff {old d : DnsMessage} (h : decode old message = .accept d) :
    ∃ stop, d.LaysOut message stop ∧ headerLength ≤ stop ∧ stop ≤ message.length ∧
      ∀ n, ((decode old (message.take n)).error = none ↔ d.ReadWithin message n stop) ∧
        (d.ReadWithin message n stop →
          decode old (message.take n) =
            .accept { d with extent := .whole (message.take n).length }) := by
  obtain ⟨-, stop, hlaid⟩ := decode_eq_accept_iff.mp h
  refine ⟨stop, hlaid, hlaid.bounds.1, hlaid.bounds.2, ?_⟩
  intro n
  have hcut : d.ReadWithin message n stop →
      decode old (message.take n) =
        .accept { d with extent := .whole (message.take n).length } := by
    intro hwithin
    exact (decode_take_eq_accept_iff h hlaid).mpr ⟨hwithin, rfl⟩
  refine ⟨?_, hcut⟩
  rw [error_eq_none_iff]
  constructor
  · rintro ⟨e, haccept⟩
    exact ((decode_take_eq_accept_iff h hlaid).mp haccept).1
  · intro hwithin
    exact ⟨_, hcut hwithin⟩

/-- A response with one record without data, behind which two labels stand. -/
def strayOctets : Octets :=
  [0, 0, 0, 0, 0, 0, 0, 1, 0, 0, 0, 0,
    0, 0, 2, 0, 1, 0, 0, 0, 0, 0, 0,
    1, 97, 0]

/-- The response, with the name that stands behind its record. -/
def strayResponse : DnsMessage :=
  { fresh with
    extent := .whole 26
    answerCount := 1
    answers := [⟨[], .ns, .internet, 0, 0, [], .ns [97]⟩] }

theorem decode_strayOctets_eq : decode fresh strayOctets = .accept strayResponse := by
  decide +kernel

theorem strayResponse_laysOut : strayResponse.LaysOut strayOctets 23 where
  flags := ⟨⟨0, rfl⟩, by decide, by decide, ⟨0, rfl⟩, by decide⟩
  counts := ⟨rfl, rfl, rfl, rfl⟩
  header := ⟨_, rfl⟩
  sections := by
    have hrecord : ResourceRecord.read strayOctets (.ofPosition strayOctets 12) =
        .ok (⟨[], .ns, .internet, 0, 0, [], .ns [97]⟩, .ofPosition strayOctets 23) := by
      decide +kernel
    have hstands := (standsAt_iff_read ResourceRecord.read_eq_ok_iff).mpr hrecord
    exact ⟨12, 23, 23, .nil 12, .cons hstands (.nil 23), .nil 23, .nil 23⟩

/-- Octets behind the last record were read: the response is accepted, and refused if
it is cut there. -/
theorem decode_strayOctets :
    decode fresh strayOctets = .accept strayResponse ∧
      strayResponse.LaysOut strayOctets 23 ∧
      (decode fresh (strayOctets.take 23)).error = some (.name (.offsetTooHigh 23 23)) :=
  ⟨decode_strayOctets_eq, strayResponse_laysOut, by decide +kernel⟩

/-- The response is read within all of its octets, and not within those of its entries. -/
theorem strayResponse_readWithin :
    decode fresh strayOctets = .accept strayResponse ∧
      ∃ stop, strayResponse.LaysOut strayOctets stop ∧
        ¬ strayResponse.ReadWithin strayOctets 23 stop ∧
        strayResponse.ReadWithin strayOctets 26 stop := by
  refine ⟨decode_strayOctets_eq, ?_⟩
  obtain ⟨stop, hlaid, -, -, hcut⟩ := decode_take_iff decode_strayOctets_eq
  refine ⟨stop, hlaid, ?_, ?_⟩
  · rw [← (hcut 23).1]
    decide +kernel
  · rw [← (hcut 26).1]
    decide +kernel

end DnsMessage

end PacketLayers
