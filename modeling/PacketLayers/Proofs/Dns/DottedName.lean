import PacketLayers.Proofs.Dns.NameText

/-!
# Which texts are names

A text is a name if it is a list of labels with a dot between each two of them
(`Name.IsDotted`).  Writing one turns each dot into the length of the label behind it
and adds the first length and the root, so that the octets are two more than those of
the text.

The main statement is `Name.encode_iff_dotted`: the texts that are written are the
dotted ones of at most 253 octets, but for a trailing dot, and what was written is read
back wherever it stands.
-/

namespace PacketLayers.Dns.Name

/-- Labels with a dot between each two of them.  No label holds a dot, and the root has
no labels. -/
def IsDotted (text : Octets) : Prop :=
  ∃ labels, (∀ label ∈ labels, IsLabel label ∧ dot ∉ label) ∧ text = [dot].intercalate labels

variable {text name : Octets}

/-! ## The labels of a dotted text -/

/-- No part between dots holds a dot. -/
theorem dot_not_mem_of_mem_splitLabels {part : Octets} (h : part ∈ splitLabels text) :
    dot ∉ part := by
  induction text generalizing part with
  | nil =>
      obtain rfl := List.mem_singleton.mp h
      exact List.not_mem_nil
  | cons b rest ih =>
      rw [splitLabels] at h
      by_cases hdot : b = dot
      · rw [if_pos hdot] at h
        rcases List.mem_cons.mp h with rfl | h
        · exact List.not_mem_nil
        · exact ih h
      · rw [if_neg hdot] at h
        cases hrest : splitLabels rest with
        | nil =>
            rw [hrest] at h
            obtain rfl := List.mem_singleton.mp h
            exact fun hmem => hdot (List.mem_singleton.mp hmem).symm
        | cons label labels =>
            rw [hrest] at h ih
            rcases List.mem_cons.mp h with rfl | h
            · intro hmem
              rcases List.mem_cons.mp hmem with hfirst | hmem
              · exact hdot hfirst.symm
              · exact ih List.mem_cons_self hmem
            · exact ih (List.mem_cons_of_mem _ h)

/-- A text that is not empty is dotted if the parts between its dots are labels. -/
theorem isDotted_iff (hne : text ≠ []) :
    IsDotted text ↔ ∀ part ∈ splitLabels text, IsLabel part := by
  constructor
  · rintro ⟨labels, hlabels, rfl⟩
    have hsome : labels ≠ [] := by
      rintro rfl
      exact hne rfl
    have hparts : splitLabels ([dot].intercalate labels) = labels := by
      rw [splitLabels_eq_splitOn]
      exact List.splitOn_intercalate dot (fun label hlabel => (hlabels label hlabel).2) hsome
    rw [hparts]
    exact fun label hlabel => (hlabels label hlabel).1
  · intro hparts
    refine ⟨splitLabels text, ?_, (intercalate_splitLabels text).symm⟩
    intro part hpart
    exact ⟨hparts part hpart, dot_not_mem_of_mem_splitLabels hpart⟩

theorem isDotted_nil : IsDotted [] := ⟨[], by simp, rfl⟩

/-- A dotted text does not end in a dot. -/
theorem IsDotted.getLast?_ne (h : IsDotted text) : text.getLast? ≠ some dot := by
  intro hlast
  obtain ⟨front, rfl⟩ := List.getLast?_eq_some_iff.mp hlast
  have hparts := (isDotted_iff (List.append_ne_nil_of_right_ne_nil _ (List.cons_ne_nil _ _))).mp h
  have hempty : [] ∈ splitLabels (front ++ [dot]) := by
    rw [splitLabels_append_dot]
    exact List.mem_append_right _ List.mem_cons_self
  exact absurd (hparts [] hempty).1 (Nat.lt_irrefl 0)

/-! ## Texts that are written -/

/-- Parts are written exactly if each is a label. -/
theorem error_encodeLabels_eq_none_iff {labels : List Octets} :
    (encodeLabels labels).error = none ↔ ∀ label ∈ labels, IsLabel label := by
  constructor
  · intro h
    exact (encodeLabels_of_error_eq_none h).1
  · intro h
    rw [encodeLabels_of_isLabel h]

/-- A name is written if its text, without a trailing dot, is dotted and leaves room for the first
length and the root. -/
theorem error_encode_eq_none_iff :
    (encode name).error = none ↔
      IsDotted (trimRoot name) ∧ (trimRoot name).length + 2 ≤ maxNameLength := by
  have hlength (hdotted : IsDotted (trimRoot name)) (hne : trimRoot name ≠ []) :
      encodedLength (trimRoot name) = (trimRoot name).length + 2 := by
    simp only [encodedLength, trimRoot_of_getLast? hdotted.getLast?_ne, if_neg hne]
  unfold encode
  by_cases hroot : trimRoot name = []
  · rw [hroot]
    exact iff_of_true rfl ⟨isDotted_nil, by decide⟩
  · constructor
    · intro h
      by_cases hlong : maxNameLength < encodedLength (trimRoot name)
      · simp [hlong] at h
      · simp only [hlong, hroot, if_false] at h
        have hdotted := (isDotted_iff hroot).mpr (error_encodeLabels_eq_none_iff.mp h)
        exact ⟨hdotted, hlength hdotted hroot ▸ Nat.le_of_not_lt hlong⟩
    · rintro ⟨hdotted, hshort⟩
      have hfits : ¬ maxNameLength < encodedLength (trimRoot name) := by
        rw [hlength hdotted hroot]
        exact Nat.not_lt.mpr hshort
      simp only [hfits, hroot, if_false]
      exact error_encodeLabels_eq_none_iff.mpr ((isDotted_iff hroot).mp hdotted)

theorem toOctets_eq_ok_iff {octets : Octets} :
    toOctets name = .ok octets ↔ encode name = ⟨octets, none⟩ := by
  unfold toOctets
  split
  · next error herror =>
      constructor
      · intro h
        cases h
      · intro h
        rw [h] at herror
        cases herror
  · next hfine =>
      rw [Except.ok.injEq, ← hfine]
      constructor
      · rintro rfl
        rfl
      · intro h
        rw [h]

/-! ## Octets that were written -/

/-- Each label takes as many octets as it does behind a dot. -/
theorem length_countedOctets (labels : List Octets) :
    (countedOctets labels).length = (labels.flatMap (dot :: ·)).length := by
  rw [countedOctets, List.length_flatMap, List.length_flatMap]
  rfl

/-- The octets of a name are as many as its text announces. -/
theorem length_of_toOctets {octets : Octets} (h : toOctets name = .ok octets) :
    octets.length = encodedLength name := by
  obtain ⟨labels, hlabels, rfl, htext, -⟩ := exists_labels_of_toOctets h
  rw [encodedLength, htext, List.length_append, List.length_singleton]
  cases labels with
  | nil => rfl
  | cons label labels =>
      rw [List.forall_mem_cons] at hlabels
      have hne : label ++ labels.flatMap (dot :: ·) ≠ [] :=
        List.append_ne_nil_of_left_ne_nil (List.ne_nil_of_length_pos hlabels.1.1) _
      rw [← append_flatMap_eq_intercalate, if_neg hne, countedOctets_cons, List.length_cons,
        List.length_append, List.length_append, length_countedOctets]

/-- The octets of a name are read, wherever they stand, as the name without its trailing dot. -/
theorem decode_of_stands {message octets : Octets} {p : Nat} (hwritten : toOctets name = .ok octets)
    (h : Stands message p octets) :
    decode message p = .ok (trimRoot name, p + octets.length) :=
  (decode_eq_ok_iff_spells message p _ _).mpr (spells_of_toOctets hwritten h)

/-- A text is written exactly if, without a trailing dot, it is a list of labels with dots between
them that leaves room for the first length and the root.  Then it takes the octets that
`encodedLength` announces, and between any other octets these are read as the text without its
trailing dot. -/
theorem encode_iff_dotted (name : Octets) :
    ((encode name).error = none ↔
        IsDotted (trimRoot name) ∧ (trimRoot name).length + 2 ≤ maxNameLength) ∧
      ((encode name).error = none →
        (encode name).written.length = encodedLength name ∧
        ∀ front behind, decode (front ++ (encode name).written ++ behind) front.length =
          .ok (trimRoot name, front.length + encodedLength name)) := by
  refine ⟨error_encode_eq_none_iff, ?_⟩
  intro hfine
  have hwritten : toOctets name = .ok (encode name).written := by
    rw [toOctets_eq_ok_iff, ← hfine]
  have hlength := length_of_toOctets hwritten
  refine ⟨hlength, ?_⟩
  intro front behind
  have hstands : Stands (front ++ (encode name).written ++ behind) front.length
      (encode name).written := by
    rw [Stands, List.append_assoc, List.drop_left]
    exact List.prefix_append _ _
  rw [decode_of_stands hwritten hstands, hlength]

/-- The name `a.bc`, written with a trailing dot, is read behind two octets and in front of one. -/
theorem encode_iff_dotted_between :
    let name : Octets := [97, dot, 98, 99, dot]
    (encode name).error = none ∧ (encode name).written.length = 6 ∧
      decode ([7, 7] ++ (encode name).written ++ [7]) 2 = .ok ([97, dot, 98, 99], 8) := by
  intro name
  have hfine : (encode name).error = none := by decide
  obtain ⟨hlength, hread⟩ := (encode_iff_dotted name).2 hfine
  exact ⟨hfine, hlength, hread [7, 7] [7]⟩

end PacketLayers.Dns.Name
