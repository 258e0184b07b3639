import Mathlib.Order.Iterate
import PacketLayers.Dns.Name

/-!
# Compressed names as chains of segments

A name that was written with compression pointers is a chain of segments: each
is a run of labels, the last one ends in the root octet and every other one in
a pointer to where the next one starts.  This module states what such a chain
is (`Chain`) without reference to the reader, and shows that the reader accepts
exactly the chains whose pointers lead backwards (`decode_iff_chain`).

In between stands the reader taken one octet at a time (`Walk.step`).  It gives
the recursion that both directions follow, and it shows that the walk ends: a
label makes the name longer, a pointer lowers the limit, and `Walk.stepsLeft`
counts both.
-/

namespace PacketLayers.Dns.Name

/-! ## Chains of segments -/

/-- Labels stand one behind the other from position `p` up to position `q`. -/
inductive Labels (message : Octets) : Nat → List Octets → Nat → Prop where
  | nil (p : Nat) : Labels message p [] p
  | cons {p q : Nat} {label : Octets} {labels : List Octets}
      (hpos : 0 < label.length) (hlength : label.length ≤ maxLabelLength)
      (hstands : UInt8.ofNat label.length :: label <+: message.drop p)
      (hrest : Labels message (p + 1 + label.length) labels q) :
      Labels message p (label :: labels) q

/-- A compression pointer stands at position `p`: a word whose two highest bits
are set and whose other 14 bits are the target. -/
def PointerAt (message : Octets) (p target : Nat) : Prop :=
  ∃ w : UInt16, be16 w <+: message.drop p ∧ w.toNat / 16384 = 3 ∧
    target = w.toNat % 16384

/-- A run of labels, and the position of the root octet or pointer behind it. -/
structure Segment where
  start : Nat
  labels : List Octets
  ending : Nat

/-- The segments of a name that starts at a position.  `earlier` holds the
targets of the pointers that led there; every further one must lie before each
of them and before the pointer itself. -/
inductive Chain (message : Octets) : List Nat → Nat → List Segment → Prop where
  | root {earlier : List Nat} {p q : Nat} {labels : List Octets}
      (hlabels : Labels message p labels q) (hroot : message[q]? = some 0) :
      Chain message earlier p [⟨p, labels, q⟩]
  | pointer {earlier : List Nat} {p q target : Nat} {labels : List Octets}
      {rest : List Segment}
      (hlabels : Labels message p labels q) (hpointer : PointerAt message q target)
      (hbackward : target < q) (hearlier : ∀ t ∈ earlier, target < t)
      (hrest : Chain message (target :: earlier) target rest) :
      Chain message earlier p (⟨p, labels, q⟩ :: rest)

/-- The labels of a chain of segments, in order. -/
def chainLabels (segments : List Segment) : List Octets :=
  segments.flatMap (·.labels)

/-- The dotted text `name` is spelled by a chain from `offset` on, and `stop`
is the position behind its root octet or behind its first pointer. -/
def Spells (message : Octets) (offset : Nat) (name : Octets) (stop : Nat) : Prop :=
  ∃ first rest, Chain message [] offset (first :: rest) ∧
    name = [dot].intercalate (chainLabels (first :: rest)) ∧
    name.length ≤ maxNameLength ∧
    (rest ≠ [] → chainLabels (first :: rest) ≠ []) ∧
    stop = first.ending + if rest = [] then 1 else 2

/-! ## The reader, one octet at a time -/

/-- A reader in front of a length octet, a root octet or a pointer. -/
structure Walk where
  name : Octets
  /-- The position behind the first pointer, once one was followed. -/
  stop : Option Nat
  /-- Targets must lie before this. -/
  limit : Nat
  position : Nat

/-- A walk is under way, or it has come to its result. -/
inductive Progress where
  | walking (w : Walk)
  | finished (result : Except NameError (Octets × Nat))

namespace Walk

/-- Take one label, follow one pointer, or come to a result. -/
def step (message : Octets) (w : Walk) : Progress :=
  match message[w.position]? with
  | none => .finished (.error .indexOutOfRange)
  | some b =>
    if b = 0 then
      if w.name = [] ∧ w.stop.isSome then
        .finished (.error .noData)
      else
        .finished (.ok (w.name, w.stop.getD (w.position + 1)))
    else if b < 64 then
      let label := (message.drop (w.position + 1)).take b.toNat
      let longer := appendLabel w.name label
      if label.length < b.toNat then
        .finished (.error (.invalidIndex w.position))
      else if maxNameLength < longer.length then
        .finished (.error .nameTooLong)
      else
        .walking { w with name := longer, position := w.position + 1 + b.toNat }
    else if b < 192 then
      .finished (.error (.unsupportedLabel (b &&& 0xc0)))
    else
      match message[w.position + 1]? with
      | none => .finished (.error (.pointerTooHigh w.position))
      | some low =>
        let target := pointerTarget b low
        if message.length ≤ target then
          .finished (.error (.pointerTooHigh w.position))
        else if target < w.position ∧ target < w.limit then
          .walking ⟨w.name, some (w.stop.getD (w.position + 2)), target, target⟩
        else
          .finished (.error (.pointerLoop w.position target))

/-- The result that the reader gives from here on. -/
def result (message : Octets) (w : Walk) : Except NameError (Octets × Nat) :=
  follow message w.name w.stop w.limit (.ofPosition message w.position)

/-- A bound on the steps still to come. -/
def stepsLeft (message : Octets) (w : Walk) : Nat :=
  min w.limit message.length + (maxNameLength - w.name.length) + 1

end Walk

namespace Progress

/-- One step of a walk; a result stays. -/
def advance (message : Octets) : Progress → Progress
  | .walking w => w.step message
  | .finished r => .finished r

/-- The walk in front of a name. -/
def start (message : Octets) (offset : Nat) : Progress :=
  if message.length ≤ offset then
    .finished (.error (.offsetTooHigh offset message.length))
  else
    .walking ⟨[], none, pointerBound, offset⟩

end Progress

/-! ## One step of the reader -/

theorem drop_eq_cons_of_getElem? {message : Octets} {p : Nat} {b : UInt8}
    (h : message[p]? = some b) : message.drop p = b :: message.drop (p + 1) := by
  obtain ⟨hlt, rfl⟩ := List.getElem?_eq_some_iff.mp h
  exact List.drop_eq_getElem_cons hlt

theorem drop_eq_nil_of_getElem? {message : Octets} {p : Nat}
    (h : message[p]? = none) : message.drop p = [] :=
  List.drop_eq_nil_of_le (List.getElem?_eq_none_iff.mp h)

@[simp] theorem position_ofPosition (message : Octets) (p : Nat) :
    (Cursor.ofPosition message p).position = p := rfl

@[simp] theorem rest_ofPosition (message : Octets) (p : Nat) :
    (Cursor.ofPosition message p).rest = message.drop p := rfl

@[simp] theorem advance_ofPosition (message : Octets) (p n : Nat) :
    (Cursor.ofPosition message p).advance n = .ofPosition message (p + n) := by
  simp [Cursor.ofPosition, Cursor.advance]

/-- In front of anything but a label, no label is read. -/
theorem readLabels_of_not_label
    {message name : Octets} {p : Nat}
    (h : ∀ b, message[p]? = some b → isLabelLength b = false) :
    readLabels name (.ofPosition message p) =
      .ok (name, .ofPosition message p) := by
  rw [readLabels]
  split
  · rfl
  · next b tail hrest =>
      have hb : message[p]? = some b := by
        rw [rest_ofPosition] at hrest
        rw [← List.head?_drop, hrest, List.head?_cons]
      simp [h b hb]

/-- In front of a label, the label is read and the walk goes on behind it. -/
theorem readLabels_of_label
    {message name : Octets} {p : Nat} {b : UInt8}
    (hb : message[p]? = some b) (hlabel : isLabelLength b = true) :
    readLabels name (.ofPosition message p) =
      let label := (message.drop (p + 1)).take b.toNat
      if label.length < b.toNat then
        .error (.invalidIndex p)
      else if maxNameLength < (appendLabel name label).length then
        .error .nameTooLong
      else
        readLabels (appendLabel name label) (.ofPosition message (p + 1 + b.toNat)) := by
  rw [readLabels]
  split
  · next hrest =>
      rw [rest_ofPosition, drop_eq_cons_of_getElem? hb] at hrest
      simp at hrest
  · next b' tail hrest =>
      rw [rest_ofPosition, drop_eq_cons_of_getElem? hb] at hrest
      obtain ⟨rfl, rfl⟩ := List.cons.inj hrest
      simp only [hlabel, if_true, position_ofPosition, advance_ofPosition, Nat.add_assoc]

theorem isLabelLength_eq_true_iff {b : UInt8} :
    isLabelLength b = true ↔ b ≠ 0 ∧ b < 64 := by
  simp only [isLabelLength, Bool.and_eq_true, decide_eq_true_eq, UInt8.pos_iff_ne_zero]

/-- Behind a prefix of labels that reads the same, the same name follows. -/
theorem follow_congr
    {message name name' : Octets} {stop : Option Nat} {limit : Nat} {c c' : Cursor}
    (h : readLabels name c = readLabels name' c') :
    follow message name stop limit c = follow message name' stop limit c' := by
  rw [follow, follow, h]

/-- Behind the labels stands a root octet, a pointer, or neither. -/
theorem follow_of_not_label
    {message name : Octets} {stop : Option Nat} {limit p : Nat} {b : UInt8}
    (hb : message[p]? = some b) (hlabel : isLabelLength b = false) :
    follow message name stop limit (.ofPosition message p) =
      if b = 0 then
        if name = [] ∧ stop.isSome then .error .noData
        else .ok (name, stop.getD (p + 1))
      else if b < 192 then
        .error (.unsupportedLabel (b &&& 0xc0))
      else
        match message[p + 1]? with
        | none => .error (.pointerTooHigh p)
        | some low =>
          if message.length ≤ pointerTarget b low then
            .error (.pointerTooHigh p)
          else if pointerTarget b low < p ∧ pointerTarget b low < limit then
            follow message name (some (stop.getD (p + 2))) (pointerTarget b low)
              (.ofPosition message (pointerTarget b low))
          else
            .error (.pointerLoop p (pointerTarget b low)) := by
  have hread : readLabels name (.ofPosition message p) =
      .ok (name, .ofPosition message p) := by
    apply readLabels_of_not_label
    intro b' hb'
    rw [hb, Option.some.injEq] at hb'
    rw [← hb', hlabel]
  rw [follow, hread]
  simp only [rest_ofPosition, position_ofPosition, drop_eq_cons_of_getElem? hb]
  split
  · rfl
  · split
    · rfl
    · cases hlow : message[p + 1]? with
      | none => simp [drop_eq_nil_of_getElem? hlow]
      | some low =>
          simp only [drop_eq_cons_of_getElem? hlow, List.drop_eq_nil_iff]
          rfl

/-- The result does not change while the walk goes on. -/
theorem Walk.result_eq_step (message : Octets) (w : Walk) :
    w.result message =
      match w.step message with
      | .walking w' => w'.result message
      | .finished r => r := by
  cases hb : message[w.position]? with
  | none =>
      have hread : readLabels w.name (.ofPosition message w.position) =
          .ok (w.name, .ofPosition message w.position) :=
        readLabels_of_not_label (by simp [hb])
      rw [result, follow, hread]
      simp [step, hb, drop_eq_nil_of_getElem? hb]
  | some b =>
      by_cases hlabel : isLabelLength b = true
      · obtain ⟨hne, hlt⟩ := isLabelLength_eq_true_iff.mp hlabel
        have hread := @readLabels_of_label message w.name w.position b hb hlabel
        by_cases hshort : ((message.drop (w.position + 1)).take b.toNat).length < b.toNat
        · rw [result, follow, hread]
          simp only [step, hb, hne, hlt, hshort, if_true, if_false]
        · by_cases hlong : maxNameLength < (appendLabel w.name
              ((message.drop (w.position + 1)).take b.toNat)).length
          · rw [result, follow, hread]
            simp only [step, hb, hne, hlt, hshort, hlong, if_true, if_false]
          · simp only [hshort, hlong, if_false] at hread
            simp only [step, hb, hne, hlt, hshort, hlong, if_true, if_false]
            exact follow_congr hread
      · have hnot : isLabelLength b = false := Bool.eq_false_iff.mpr hlabel
        have hbound : b ≠ 0 → ¬ b < 64 := by
          intro hne hlt
          exact hlabel (isLabelLength_eq_true_iff.mpr ⟨hne, hlt⟩)
        rw [result, follow_of_not_label hb hnot]
        by_cases hroot : b = 0
        · by_cases hempty : w.name = [] ∧ w.stop.isSome
          · simp only [step, hb, hroot, hempty, if_true, and_self]
          · simp only [step, hb, hroot, hempty, if_true, if_false]
        · by_cases hreserved : b < 192
          · simp only [step, hb, hroot, hbound hroot, hreserved, if_true, if_false]
          · simp only [step, hb, hroot, hbound hroot, hreserved, if_false]
            cases hlow : message[w.position + 1]? with
            | none => rfl
            | some low =>
                by_cases hhigh : message.length ≤ pointerTarget b low
                · simp only [hhigh, if_true]
                · by_cases hback : pointerTarget b low < w.position ∧
                      pointerTarget b low < w.limit
                  · simp only [hhigh, hback, and_self, if_true, if_false]
                    rfl
                  · simp only [hhigh, hback, if_false]

/-! ## What a step finds in the message -/

theorem cons_prefix_drop_iff {message label : Octets} {b : UInt8} {p : Nat} :
    b :: label <+: message.drop p ↔
      message[p]? = some b ∧ label <+: message.drop (p + 1) := by
  cases hb : message[p]? with
  | none => simp [drop_eq_nil_of_getElem? hb]
  | some c =>
      rw [drop_eq_cons_of_getElem? hb, List.cons_prefix_cons, Option.some.injEq]
      constructor
      · rintro ⟨rfl, hlabel⟩
        exact ⟨rfl, hlabel⟩
      · rintro ⟨rfl, hlabel⟩
        exact ⟨rfl, hlabel⟩

/-- A pointer is two octets, the first one with its two highest bits set. -/
theorem pointerAt_iff {message : Octets} {p target : Nat} :
    PointerAt message p target ↔
      ∃ high low, message[p]? = some high ∧ message[p + 1]? = some low ∧
        192 ≤ high ∧ target = pointerTarget high low := by
  constructor
  · rintro ⟨w, hstands, hbits, htarget⟩
    rw [be16, cons_prefix_drop_iff, cons_prefix_drop_iff] at hstands
    obtain ⟨hhigh, hlow, -⟩ := hstands
    have hw : w.toNat < 65536 := w.toNat_lt
    refine ⟨_, _, hhigh, hlow, ?_, ?_⟩
    · rw [UInt8.le_iff_toNat_le]
      simp
      omega
    · simp [pointerTarget]
      omega
  · rintro ⟨high, low, hhigh, hlow, hbits, htarget⟩
    have hh : high.toNat < 256 := high.toNat_lt
    have hl : low.toNat < 256 := low.toNat_lt
    have hbits' : 192 ≤ high.toNat := UInt8.le_iff_toNat_le.mp hbits
    have hw : (UInt16.ofNat (high.toNat * 256 + low.toNat)).toNat =
        high.toNat * 256 + low.toNat := by
      rw [UInt16.toNat_ofNat', Nat.mod_eq_of_lt (by omega)]
    refine ⟨UInt16.ofNat (high.toNat * 256 + low.toNat), ?_, ?_, ?_⟩
    · have hfirst : (high.toNat * 256 + low.toNat) / 256 = high.toNat := by omega
      have hsecond : (high.toNat * 256 + low.toNat) % 256 = low.toNat := by omega
      rw [be16, hw, hfirst, hsecond, UInt8.ofNat_toNat, UInt8.ofNat_toNat,
        cons_prefix_drop_iff, cons_prefix_drop_iff]
      exact ⟨hhigh, hlow, List.nil_prefix⟩
    · rw [hw]
      omega
    · rw [hw, htarget, pointerTarget]
      omega

theorem length_lt_length_appendLabel {name label : Octets} (h : 0 < label.length) :
    name.length < (appendLabel name label).length := by
  unfold appendLabel
  split
  · next hname => simpa [hname] using h
  · simp

namespace Walk

variable {message : Octets} {w : Walk}

/-- In front of a label that keeps the name short enough, the label is taken. -/
theorem step_of_label {label : Octets}
    (hpos : 0 < label.length) (hlength : label.length ≤ maxLabelLength)
    (hstands : UInt8.ofNat label.length :: label <+: message.drop w.position)
    (hname : (appendLabel w.name label).length ≤ maxNameLength) :
    w.step message =
      .walking { w with
        name := appendLabel w.name label
        position := w.position + 1 + label.length } := by
  obtain ⟨hb, hlabel⟩ := cons_prefix_drop_iff.mp hstands
  have htoNat : (UInt8.ofNat label.length).toNat = label.length := by
    simp [maxLabelLength] at hlength ⊢
    omega
  have htake : (message.drop (w.position + 1)).take label.length = label :=
    (List.prefix_iff_eq_take.mp hlabel).symm
  have hne : UInt8.ofNat label.length ≠ 0 := by
    intro hzero
    rw [hzero] at htoNat
    simp at htoNat
    omega
  have hlt : UInt8.ofNat label.length < 64 := by
    rw [UInt8.lt_iff_toNat_lt, htoNat]
    simp [maxLabelLength] at hlength ⊢
    omega
  have hname' : ¬ maxNameLength < (appendLabel w.name label).length := by omega
  simp only [step, hb, hne, hlt, htoNat, htake, hname', Nat.lt_irrefl, if_true, if_false]

/-- In front of a pointer that leads back far enough, the pointer is followed. -/
theorem step_of_pointer {target : Nat}
    (hpointer : PointerAt message w.position target)
    (hbackward : target < w.position) (hlimit : target < w.limit) :
    w.step message =
      .walking ⟨w.name, some (w.stop.getD (w.position + 2)), target, target⟩ := by
  obtain ⟨high, low, hhigh, hlow, hbits, rfl⟩ := pointerAt_iff.mp hpointer
  have hinside : w.position < message.length := (List.getElem?_eq_some_iff.mp hhigh).1
  have hnot192 : ¬ high < 192 := UInt8.not_lt.mpr hbits
  have hnot64 : ¬ high < 64 := fun hlabel => hnot192 (UInt8.lt_trans hlabel (by decide))
  have hnot0 : high ≠ 0 := by
    rintro rfl
    exact hnot64 (by decide)
  have htarget : ¬ message.length ≤ pointerTarget high low := by omega
  simp only [step, hhigh, hlow, hnot0, hnot64, hnot192, htarget, hbackward, hlimit,
    and_self, if_true, if_false]

/-- The octets that a length octet announces, when they are all there, are a label
that stands in the message. -/
theorem stands_of_octet {p : Nat} {b : UInt8}
    (hb : message[p]? = some b) (hzero : b ≠ 0) (hlabel : b < 64)
    (hwhole : ¬ ((message.drop (p + 1)).take b.toNat).length < b.toNat) :
    let label := (message.drop (p + 1)).take b.toNat
    label.length = b.toNat ∧ 0 < label.length ∧ label.length ≤ maxLabelLength ∧
      UInt8.ofNat label.length :: label <+: message.drop p := by
  intro label
  have hlength : label.length = b.toNat :=
    Nat.le_antisymm (List.length_take_le _ _) (Nat.le_of_not_lt hwhole)
  have hpos : 0 < b.toNat := by
    rw [Nat.pos_iff_ne_zero]
    intro hnone
    exact hzero (UInt8.toNat_inj.mp hnone)
  have hmax : b.toNat < 64 := UInt8.lt_iff_toNat_lt.mp hlabel
  rw [hlength]
  refine ⟨rfl, hpos, Nat.le_of_lt_succ hmax, ?_⟩
  rw [UInt8.ofNat_toNat, cons_prefix_drop_iff]
  exact ⟨hb, List.take_prefix _ _⟩

/-- A walk goes on behind a label or at the target of a pointer. -/
theorem step_eq_walking {w' : Walk} (h : w.step message = .walking w') :
    (∃ label : Octets, 0 < label.length ∧ label.length ≤ maxLabelLength ∧
      UInt8.ofNat label.length :: label <+: message.drop w.position ∧
      (appendLabel w.name label).length ≤ maxNameLength ∧
      w' = { w with
        name := appendLabel w.name label
        position := w.position + 1 + label.length }) ∨
    (∃ target, PointerAt message w.position target ∧ target < w.position ∧
      target < w.limit ∧
      w' = ⟨w.name, some (w.stop.getD (w.position + 2)), target, target⟩) := by
  unfold step at h
  split at h
  · cases h
  · next b hb =>
      by_cases hzero : b = 0
      · simp only [hzero, if_true] at h
        split at h <;> cases h
      by_cases hlabel : b < 64
      · simp only [hzero, hlabel, if_true, if_false] at h
        split at h
        · cases h
        · next hwhole =>
            split at h
            · cases h
            · next hlong =>
                obtain ⟨hlength, hpos, hmax, hstands⟩ :=
                  stands_of_octet hb hzero hlabel hwhole
                refine Or.inl ⟨_, hpos, hmax, hstands, Nat.le_of_not_lt hlong, ?_⟩
                rw [hlength]
                exact (Progress.walking.inj h).symm
      by_cases hreserved : b < 192
      · simp only [hzero, hlabel, hreserved, if_true, if_false] at h
        cases h
      simp only [hzero, hlabel, hreserved, if_false] at h
      split at h
      · cases h
      · next low hlow =>
          split at h
          · cases h
          · split at h
            · next hback =>
                have hpointer : PointerAt message w.position (pointerTarget b low) :=
                  pointerAt_iff.mpr ⟨b, low, hb, hlow, UInt8.not_lt.mp hreserved, rfl⟩
                exact Or.inr ⟨_, hpointer, hback.1, hback.2, (Progress.walking.inj h).symm⟩
            · cases h

/-- A walk comes to a name at a root octet only. -/
theorem step_eq_finished_ok_iff {name : Octets} {stop : Nat} :
    w.step message = .finished (.ok (name, stop)) ↔
      message[w.position]? = some 0 ∧ (w.stop.isSome → w.name ≠ []) ∧
        name = w.name ∧ stop = w.stop.getD (w.position + 1) := by
  constructor
  · intro h
    unfold step at h
    split at h
    · cases h
    · next b hb =>
        by_cases hzero : b = 0
        · subst hzero
          simp only [if_true] at h
          split at h
          · cases h
          · next hnamed =>
              cases h
              refine ⟨hb, ?_, rfl, rfl⟩
              intro hstop hempty
              exact hnamed ⟨hempty, hstop⟩
        · simp only [hzero, if_false] at h
          repeat' split at h
          all_goals cases h
  · rintro ⟨hroot, hnamed, rfl, rfl⟩
    have hnot : ¬ (w.name = [] ∧ w.stop.isSome) := fun hempty => hnamed hempty.2 hempty.1
    simp only [step, hroot, hnot, if_true, if_false]

/-! ## The walk ends -/

/-- A label lengthens the name and a pointer lowers the limit, so a step leaves
fewer steps to come. -/
theorem stepsLeft_lt_of_step {w' : Walk} (h : w.step message = .walking w') :
    w'.stepsLeft message < w.stepsLeft message := by
  rcases step_eq_walking h with
    ⟨label, hpos, -, -, hname, rfl⟩ | ⟨target, hpointer, hbackward, hlimit, rfl⟩
  · have hlonger : w.name.length < (appendLabel w.name label).length :=
      length_lt_length_appendLabel hpos
    simp only [stepsLeft]
    omega
  · obtain ⟨high, low, hhigh, -, -, -⟩ := pointerAt_iff.mp hpointer
    have hinside : w.position < message.length :=
      (List.getElem?_eq_some_iff.mp hhigh).1
    simp only [stepsLeft]
    omega

/-- Every walk comes to the reader's result, within the steps it has left. -/
theorem exists_steps_to_result (message : Octets) (w : Walk) :
    ∃ steps ≤ w.stepsLeft message,
      (Progress.advance message)^[steps] (.walking w) = .finished (w.result message) := by
  induction hleft : w.stepsLeft message using Nat.strong_induction_on generalizing w with
  | _ left ih =>
      rw [result_eq_step]
      cases hstep : w.step message with
      | finished r =>
          refine ⟨1, ?_, ?_⟩
          · rw [← hleft, stepsLeft]
            omega
          · simpa [Progress.advance] using hstep
      | walking w' =>
          have hless := stepsLeft_lt_of_step hstep
          obtain ⟨steps, hsteps, hrun⟩ := ih _ (hleft ▸ hless) w' rfl
          refine ⟨steps + 1, by omega, ?_⟩
          rw [Function.iterate_succ_apply]
          simpa only [Progress.advance, hstep] using hrun

end Walk

/-! ## What the limit and the name stand for -/

/-- The limit of a walk stands for the targets of the pointers followed so far:
a pointer may lead to where it is below all of them. -/
def LimitOf (earlier : List Nat) (limit : Nat) : Prop :=
  ∀ target < pointerBound, target < limit ↔ ∀ t ∈ earlier, target < t

theorem limitOf_nil : LimitOf [] pointerBound := by
  intro target htarget
  simpa using htarget

theorem LimitOf.cons {earlier : List Nat} {limit target : Nat}
    (h : LimitOf earlier limit) (hbound : target < pointerBound) (hlimit : target < limit) :
    LimitOf (target :: earlier) target := by
  intro further _
  have hearlier := (h target hbound).mp hlimit
  constructor
  · intro hfurther t ht
    rcases List.mem_cons.mp ht with rfl | ht
    · exact hfurther
    · exact hfurther.trans (hearlier t ht)
  · intro hall
    exact hall target List.mem_cons_self

theorem PointerAt.lt_pointerBound {message : Octets} {p target : Nat}
    (h : PointerAt message p target) : target < pointerBound := by
  obtain ⟨w, -, -, rfl⟩ := h
  exact Nat.mod_lt _ (by decide)

theorem length_le_length_foldl (name : Octets) (labels : List Octets) :
    name.length ≤ (labels.foldl appendLabel name).length := by
  induction labels generalizing name with
  | nil => rfl
  | cons label labels ih =>
      have hname : name.length ≤ (appendLabel name label).length := by
        unfold appendLabel
        split
        · next hnil => simp [hnil]
        · simp
      exact hname.trans (ih _)

/-- Labels appended to a name that is not empty stand behind a dot each. -/
theorem foldl_appendLabel_of_ne_nil {name : Octets} (hname : name ≠ [])
    (labels : List Octets) :
    labels.foldl appendLabel name = name ++ labels.flatMap (dot :: ·) := by
  induction labels generalizing name with
  | nil => simp
  | cons label labels ih =>
      have happend : appendLabel name label = name ++ dot :: label := by
        rw [appendLabel, if_neg hname]
      rw [List.foldl_cons, happend, ih (by simp)]
      simp

/-- A label with further ones behind a dot each is these labels joined by dots. -/
theorem append_flatMap_eq_intercalate (label : Octets) (labels : List Octets) :
    label ++ labels.flatMap (dot :: ·) = [dot].intercalate (label :: labels) := by
  induction labels generalizing label with
  | nil => simp
  | cons next labels ih =>
      rw [List.flatMap_cons, List.intercalate_cons_cons, ← ih next]
      simp

/-- The name that a walk builds from its labels is these labels joined by dots. -/
theorem foldl_appendLabel_nil {labels : List Octets}
    (hlabels : ∀ label ∈ labels, label ≠ []) :
    labels.foldl appendLabel [] = [dot].intercalate labels := by
  cases labels with
  | nil => rfl
  | cons label labels =>
      have hlabel : label ≠ [] := hlabels label List.mem_cons_self
      have hfirst : appendLabel [] label = label := by simp [appendLabel]
      rw [List.foldl_cons, hfirst, foldl_appendLabel_of_ne_nil hlabel,
        append_flatMap_eq_intercalate]

/-! ## Both directions -/

theorem Labels.le {message : Octets} {p q : Nat} {labels : List Octets}
    (h : Labels message p labels q) : p ≤ q := by
  induction h with
  | nil p => exact le_rfl
  | cons _ _ _ _ ih => omega

/-- A label has one to 63 octets. -/
def IsLabel (label : Octets) : Prop := 0 < label.length ∧ label.length ≤ maxLabelLength

theorem Labels.isLabel {message : Octets} {p q : Nat} {labels : List Octets}
    (h : Labels message p labels q) : ∀ label ∈ labels, IsLabel label := by
  induction h with
  | nil p => exact fun _ hmem => absurd hmem List.not_mem_nil
  | cons hpos hlength _ _ ih => exact List.forall_mem_cons.mpr ⟨⟨hpos, hlength⟩, ih⟩

theorem Chain.isLabel {message : Octets} {earlier : List Nat} {p : Nat}
    {segments : List Segment} (h : Chain message earlier p segments) :
    ∀ label ∈ chainLabels segments, IsLabel label := by
  induction h with
  | root hlabels _ =>
      rw [chainLabels, List.flatMap_singleton]
      exact hlabels.isLabel
  | pointer hlabels _ _ _ _ ih =>
      rw [chainLabels, List.flatMap_cons, List.forall_mem_append]
      exact ⟨hlabels.isLabel, ih⟩

theorem Chain.labels_ne_nil {message : Octets} {earlier : List Nat} {p : Nat}
    {segments : List Segment} (h : Chain message earlier p segments) :
    ∀ label ∈ chainLabels segments, label ≠ [] := by
  intro label hlabel
  exact List.ne_nil_of_length_pos (h.isLabel label hlabel).1

theorem Chain.ne_nil {message : Octets} {earlier : List Nat} {p : Nat}
    {segments : List Segment} (h : Chain message earlier p segments) : segments ≠ [] := by
  cases h <;> simp

/-- A label in front of a chain becomes the first one of its first segment. -/
theorem Chain.cons_label
    {message : Octets} {earlier : List Nat} {p : Nat} {label : Octets}
    {first : Segment} {rest : List Segment}
    (hpos : 0 < label.length) (hlength : label.length ≤ maxLabelLength)
    (hstands : UInt8.ofNat label.length :: label <+: message.drop p)
    (h : Chain message earlier (p + 1 + label.length) (first :: rest)) :
    Chain message earlier p (⟨p, label :: first.labels, first.ending⟩ :: rest) := by
  cases h with
  | root hlabels hroot =>
      exact .root (.cons hpos hlength hstands hlabels) hroot
  | pointer hlabels hpointer hbackward hearlier hrest =>
      exact .pointer (.cons hpos hlength hstands hlabels) hpointer hbackward hearlier hrest

/-- A walk whose pointers led to the targets `earlier` goes on along a chain and
so comes to a name and to the position behind it. -/
def Walk.Completes (message : Octets) (earlier : List Nat) (w : Walk) (name : Octets)
    (stop : Nat) : Prop :=
  ∃ first rest, Chain message earlier w.position (first :: rest) ∧
    name = (chainLabels (first :: rest)).foldl appendLabel w.name ∧
    name.length ≤ maxNameLength ∧
    (w.stop.isSome ∨ rest ≠ [] → name ≠ []) ∧
    stop = w.stop.getD (first.ending + if rest = [] then 1 else 2)

namespace Walk

variable {message : Octets} {w : Walk}

/-- A result that is a name was read along a chain. -/
theorem completes_of_result (w : Walk) {earlier : List Nat} {name : Octets} {stop : Nat}
    (hlimit : LimitOf earlier w.limit) (hname : w.name.length ≤ maxNameLength)
    (h : w.result message = .ok (name, stop)) :
    w.Completes message earlier name stop := by
  -- A step of the walk is the chain behind it with a label or a pointer in front.
  induction hleft : w.stepsLeft message using Nat.strong_induction_on
    generalizing w earlier with
  | _ left ih =>
      rw [result_eq_step] at h
      cases hstep : w.step message with
      | finished r =>
          simp only [hstep] at h
          rw [h, step_eq_finished_ok_iff] at hstep
          obtain ⟨hroot, hnamed, rfl, rfl⟩ := hstep
          refine ⟨⟨w.position, [], w.position⟩, [], .root (.nil _) hroot, rfl, hname, ?_, ?_⟩
          · simpa using hnamed
          · simp
      | walking w' =>
          simp only [hstep] at h
          have hless := hleft ▸ stepsLeft_lt_of_step hstep
          rcases step_eq_walking hstep with
            ⟨label, hpos, hlength, hstands, hlonger, hw'⟩ |
            ⟨target, hpointer, hbackward, hlower, hw'⟩
          · have hlimit' : LimitOf earlier w'.limit := by rw [hw']; exact hlimit
            have hname' : w'.name.length ≤ maxNameLength := by rw [hw']; exact hlonger
            obtain ⟨first, rest, hchain, hlabels, hshort, hnamed, hstop⟩ :=
              ih _ hless w' hlimit' hname' h rfl
            subst hw'
            refine ⟨⟨w.position, label :: first.labels, first.ending⟩, rest,
              hchain.cons_label hpos hlength hstands, ?_, hshort, hnamed, hstop⟩
            simpa [chainLabels] using hlabels
          · have hbound := hpointer.lt_pointerBound
            have hlimit' : LimitOf (target :: earlier) w'.limit := by
              rw [hw']
              exact hlimit.cons hbound hlower
            have hname' : w'.name.length ≤ maxNameLength := by rw [hw']; exact hname
            obtain ⟨first, rest, hchain, hlabels, hshort, hnamed, hstop⟩ :=
              ih _ hless w' hlimit' hname' h rfl
            subst hw'
            refine ⟨⟨w.position, [], w.position⟩, first :: rest,
              .pointer (.nil _) hpointer hbackward ((hlimit target hbound).mp hlower) hchain,
              ?_, hshort, ?_, ?_⟩
            · simpa [chainLabels] using hlabels
            · intro _
              exact hnamed (Or.inl rfl)
            · simpa using hstop

/-- A walk takes all labels in front of it, as long as the name stays short. -/
theorem result_of_labels {q : Nat} {labels : List Octets}
    (hlabels : Labels message w.position labels q)
    (hname : (labels.foldl appendLabel w.name).length ≤ maxNameLength) :
    w.result message =
      { w with name := labels.foldl appendLabel w.name, position := q }.result message := by
  generalize hp : w.position = p at hlabels
  induction hlabels generalizing w with
  | nil p => simp [← hp]
  | @cons p q label labels hpos hlength hstands hrest ih =>
      subst hp
      have hlonger : (appendLabel w.name label).length ≤ maxNameLength :=
        (length_le_length_foldl _ labels).trans hname
      rw [result_eq_step, step_of_label hpos hlength hstands hlonger]
      exact ih hname rfl

/-- Along a chain a walk comes to the name that the chain spells. -/
theorem result_of_chain
    {earlier : List Nat} {first : Segment} {rest : List Segment} {name : Octets}
    (hlimit : LimitOf earlier w.limit)
    (hchain : Chain message earlier w.position (first :: rest))
    (hname : name = (chainLabels (first :: rest)).foldl appendLabel w.name)
    (hshort : name.length ≤ maxNameLength)
    (hnamed : w.stop.isSome ∨ rest ≠ [] → name ≠ []) :
    w.result message =
      .ok (name, w.stop.getD (first.ending + if rest = [] then 1 else 2)) := by
  -- The walk takes a whole segment before the hypothesis is about the rest of the
  -- chain; what the chain went through before is in the limit only.
  generalize hp : w.position = p at hchain
  generalize hsegments : first :: rest = segments at hchain
  induction hchain generalizing w first rest with
  | @root earlier p q labels hlabels hroot =>
      obtain ⟨rfl, rfl⟩ := List.cons.inj hsegments
      subst hp
      have hfolded : name = labels.foldl appendLabel w.name := by
        simpa [chainLabels] using hname
      rw [result_of_labels hlabels (hfolded ▸ hshort), result_eq_step]
      have hnamed' : w.stop.isSome → labels.foldl appendLabel w.name ≠ [] := by
        intro hstop
        rw [← hfolded]
        exact hnamed (Or.inl hstop)
      have hfinish : step message { w with name := labels.foldl appendLabel w.name, position := q } =
          .finished (.ok (labels.foldl appendLabel w.name, w.stop.getD (q + 1))) :=
        step_eq_finished_ok_iff.mpr ⟨hroot, hnamed', rfl, rfl⟩
      rw [hfinish, hfolded]
      simp
  | @pointer earlier p q target labels rest' hlabels hpointer hbackward hearlier hrest ih =>
      obtain ⟨rfl, rfl⟩ := List.cons.inj hsegments
      subst hp
      have hbound := hpointer.lt_pointerBound
      have hlower : target < w.limit := (hlimit target hbound).mpr hearlier
      have hfolded : name =
          (chainLabels rest).foldl appendLabel (labels.foldl appendLabel w.name) := by
        simpa [chainLabels] using hname
      have hshort' : (labels.foldl appendLabel w.name).length ≤ maxNameLength := by
        rw [hfolded] at hshort
        exact (length_le_length_foldl _ _).trans hshort
      obtain ⟨second, others, rfl⟩ := List.exists_cons_of_ne_nil hrest.ne_nil
      have hstep := @step_of_pointer message
        { w with name := labels.foldl appendLabel w.name, position := q } target
        hpointer hbackward hlower
      have hthere := ih (w := ⟨labels.foldl appendLabel w.name,
        some (w.stop.getD (q + 2)), target, target⟩)
        (hlimit.cons hbound hlower) hfolded (fun _ => hnamed (Or.inr (by simp))) rfl rfl
      rw [result_of_labels hlabels hshort', result_eq_step, hstep]
      simpa using hthere

end Walk

/-! ## The reader accepts exactly the chains -/

/-- A chain starts inside the message and ends inside it, and so does its first
segment. -/
theorem Chain.bounds
    {message : Octets} {earlier : List Nat} {p : Nat} {first : Segment}
    {rest : List Segment} (h : Chain message earlier p (first :: rest)) :
    p ≤ first.ending ∧
      first.ending + (if rest = [] then 1 else 2) ≤ message.length := by
  cases h with
  | root hlabels hroot =>
      have hinside := (List.getElem?_eq_some_iff.mp hroot).1
      refine ⟨hlabels.le, ?_⟩
      simp only [if_true]
      omega
  | pointer hlabels hpointer _ _ hrest =>
      obtain ⟨high, low, -, hlow, -, -⟩ := pointerAt_iff.mp hpointer
      have hinside := (List.getElem?_eq_some_iff.mp hlow).1
      have hne := hrest.ne_nil
      refine ⟨hlabels.le, ?_⟩
      simp only [hne, if_false]
      omega

/-- The position behind a name lies behind its start and inside the message. -/
theorem Spells.bounds {message name : Octets} {offset stop : Nat}
    (h : Spells message offset name stop) : offset < stop ∧ stop ≤ message.length := by
  obtain ⟨first, rest, hchain, -, -, -, rfl⟩ := h
  obtain ⟨hbehind, hinside⟩ := hchain.bounds
  by_cases hrest : rest = []
  · simp only [hrest, if_true] at hinside ⊢
    omega
  · simp only [hrest, if_false] at hinside ⊢
    omega

/-- Joined labels are empty only if there are none. -/
theorem intercalate_eq_nil_iff {labels : List Octets}
    (hlabels : ∀ label ∈ labels, label ≠ []) :
    [dot].intercalate labels = [] ↔ labels = [] := by
  cases labels with
  | nil => simp
  | cons label labels =>
      have hlabel : label ≠ [] := hlabels label List.mem_cons_self
      rw [← append_flatMap_eq_intercalate]
      simp [hlabel]

/-- What a walk completes from the start of a name is what a chain spells. -/
theorem completes_start_iff {message name : Octets} {offset stop : Nat} :
    Walk.Completes message [] ⟨[], none, pointerBound, offset⟩ name stop ↔
      Spells message offset name stop := by
  refine exists_congr fun first => exists_congr fun rest => and_congr_right fun hchain => ?_
  have hlabels := hchain.labels_ne_nil
  rw [foldl_appendLabel_nil hlabels]
  constructor
  · rintro ⟨rfl, hshort, hnamed, hstop⟩
    refine ⟨rfl, hshort, ?_, hstop⟩
    intro hrest
    exact mt (intercalate_eq_nil_iff hlabels).mpr (hnamed (Or.inr hrest))
  · rintro ⟨rfl, hshort, hnamed, hstop⟩
    refine ⟨rfl, hshort, ?_, hstop⟩
    rintro (hsome | hrest)
    · cases hsome
    · exact mt (intercalate_eq_nil_iff hlabels).mp (hnamed hrest)

theorem decode_of_lt {message : Octets} {offset : Nat} (h : offset < message.length) :
    decode message offset = Walk.result message ⟨[], none, pointerBound, offset⟩ := by
  have hrest : message.drop offset ≠ [] := by
    simpa using h
  simp only [decode, decodeFrom, rest_ofPosition, hrest, if_false]
  rfl

theorem decode_of_le {message : Octets} {offset : Nat} (h : message.length ≤ offset) :
    decode message offset = .error (.offsetTooHigh offset message.length) := by
  simp only [decode, decodeFrom, rest_ofPosition, List.drop_eq_nil_of_le h, if_true,
    position_ofPosition]

/-- The reader gives the names that chains spell. -/
theorem decode_eq_ok_iff_spells (message : Octets) (offset : Nat) (name : Octets)
    (stop : Nat) :
    decode message offset = .ok (name, stop) ↔ Spells message offset name stop := by
  rcases Nat.lt_or_ge offset message.length with hinside | houtside
  · rw [decode_of_lt hinside, ← completes_start_iff]
    constructor
    · exact Walk.completes_of_result _ limitOf_nil (Nat.zero_le _)
    · rintro ⟨first, rest, hchain, hname, hshort, hnamed, rfl⟩
      exact Walk.result_of_chain limitOf_nil hchain hname hshort hnamed
  · rw [decode_of_le houtside]
    constructor
    · intro h
      cases h
    · intro h
      have hbounds := h.bounds
      omega

/-- The walk from the start of a name ends, whatever the pointers of the message are. -/
theorem exists_steps_to_decode (message : Octets) (offset : Nat) :
    ∃ steps ≤ message.length + 256,
      (Progress.advance message)^[steps] (.start message offset) =
        .finished (decode message offset) := by
  rcases Nat.lt_or_ge offset message.length with hinside | houtside
  · obtain ⟨steps, hsteps, hrun⟩ :=
      Walk.exists_steps_to_result message ⟨[], none, pointerBound, offset⟩
    refine ⟨steps, ?_, ?_⟩
    · simp only [Walk.stepsLeft, maxNameLength, List.length_nil] at hsteps
      omega
    · rw [Progress.start, if_neg (Nat.not_le.mpr hinside), hrun, decode_of_lt hinside]
  · refine ⟨0, Nat.zero_le _, ?_⟩
    rw [Function.iterate_zero_apply, Progress.start, if_pos houtside, decode_of_le houtside]

/-- The reader accepts exactly the names that a chain of segments with backward
pointers spells, gives the position behind them, which lies inside the message,
and comes to its result within a number of steps that the length of the message
bounds. -/
theorem decode_iff_chain (message : Octets) (offset : Nat) :
    (∀ name stop, decode message offset = .ok (name, stop) ↔
      Spells message offset name stop) ∧
    (∀ name stop, Spells message offset name stop →
      offset < stop ∧ stop ≤ message.length) ∧
    ∃ steps ≤ message.length + 256,
      (Progress.advance message)^[steps] (.start message offset) =
        .finished (decode message offset) :=
  ⟨decode_eq_ok_iff_spells message offset, fun _ _ h => h.bounds,
    exists_steps_to_decode message offset⟩

end PacketLayers.Dns.Name
