import PacketLayers.Proofs.Dns.NameChain
import PacketLayers.Proofs.Octets.Stands

/-!
# Names that are written

A dotted text is written as its labels, each behind an octet with its length, and
the root label.  The labels are the parts between the dots, so that joining them
gives the text back, and on the wire they are a chain of one segment.  What was
written is therefore spelled wherever it stands in a message
(`spells_of_toOctets`).
-/

namespace PacketLayers.Dns

/-- Labels or other short strings, each behind an octet with its length. -/
def countedOctets (strings : List Octets) : Octets :=
  strings.flatMap fun string => UInt8.ofNat string.length :: string

@[simp] theorem countedOctets_nil : countedOctets [] = [] := rfl

theorem countedOctets_cons (string : Octets) (strings : List Octets) :
    countedOctets (string :: strings) =
      UInt8.ofNat string.length :: (string ++ countedOctets strings) := List.flatMap_cons

namespace Name

/-! ## Labels of a text -/

/-- The parts between dots are those of the standard library. -/
theorem splitLabels_eq_splitOn (name : Octets) : splitLabels name = name.splitOn dot := by
  induction name with
  | nil => rfl
  | cons b rest ih =>
      rw [List.splitOn, List.splitOnP_cons_eq_if_modifyHead, splitLabels, ih, List.splitOn]
      by_cases hdot : b = dot
      · simp [hdot]
      · obtain ⟨label, labels, hrest⟩ :=
          List.exists_cons_of_ne_nil (List.splitOnP_ne_nil (· == dot) rest)
        simp [hdot, hrest]

/-- Joining the labels of a text gives the text back. -/
theorem intercalate_splitLabels (name : Octets) :
    [dot].intercalate (splitLabels name) = name := by
  rw [splitLabels_eq_splitOn]
  exact List.intercalate_splitOn dot

/-- The parts in front of a dot and those behind it. -/
theorem splitLabels_append_dot (name behind : Octets) :
    splitLabels (name ++ dot :: behind) = splitLabels name ++ splitLabels behind := by
  simp only [splitLabels_eq_splitOn]
  exact List.splitOnP_append_cons name behind (beq_self_eq_true dot)

/-- A part is not longer than the text. -/
theorem length_le_of_mem_splitLabels {name part : Octets} (h : part ∈ splitLabels name) :
    part.length ≤ name.length := by
  induction name generalizing part with
  | nil =>
      obtain rfl := List.mem_singleton.mp h
      exact Nat.le_refl _
  | cons b rest ih =>
      rw [splitLabels] at h
      by_cases hdot : b = dot
      · rw [if_pos hdot] at h
        rcases List.mem_cons.mp h with rfl | h
        · exact Nat.zero_le _
        · exact Nat.le_succ_of_le (ih h)
      · rw [if_neg hdot] at h
        cases hrest : splitLabels rest with
        | nil =>
            rw [hrest] at h
            obtain rfl := List.mem_singleton.mp h
            exact Nat.succ_le_succ (Nat.zero_le _)
        | cons label labels =>
            rw [hrest] at h ih
            rcases List.mem_cons.mp h with rfl | h
            · exact Nat.succ_le_succ (ih List.mem_cons_self)
            · exact Nat.le_succ_of_le (ih (List.mem_cons_of_mem _ h))

theorem length_le_length_trimRoot (name : Octets) :
    name.length ≤ (trimRoot name).length + 1 := by
  unfold trimRoot
  split
  · rw [List.length_dropLast]
    omega
  · exact Nat.le_succ _

/-- A text that does not end in a dot has none to lose. -/
theorem trimRoot_of_getLast? {name : Octets} (h : name.getLast? ≠ some dot) :
    trimRoot name = name := if_neg h

/-! ## Labels on the wire -/

/-- Writing goes well if each part is a label, and gives all of them and the root
label. -/
theorem encodeLabels_of_error_eq_none {labels : List Octets}
    (h : (encodeLabels labels).error = none) :
    (∀ label ∈ labels, IsLabel label) ∧
      (encodeLabels labels).written = countedOctets labels ++ [0] := by
  induction labels with
  | nil => exact ⟨by simp, rfl⟩
  | cons label labels ih =>
      unfold encodeLabels at h ⊢
      by_cases hempty : label = []
      · simp [hempty] at h
      · by_cases hlong : maxLabelLength < label.length
        · simp [hempty, hlong] at h
        · simp only [hempty, hlong, if_false] at h ⊢
          obtain ⟨hlabels, hwritten⟩ := ih h
          refine ⟨?_, ?_⟩
          · rw [List.forall_mem_cons]
            exact ⟨⟨List.length_pos_iff.mpr hempty, Nat.le_of_not_lt hlong⟩, hlabels⟩
          · rw [hwritten, countedOctets_cons, ← List.append_assoc]
            rfl

/-- Labels are written as they are. -/
theorem encodeLabels_of_isLabel {labels : List Octets} (h : ∀ label ∈ labels, IsLabel label) :
    encodeLabels labels = ⟨countedOctets labels ++ [0], none⟩ := by
  induction labels with
  | nil => rfl
  | cons label labels ih =>
      rw [List.forall_mem_cons] at h
      obtain ⟨⟨hpos, hlength⟩, hlabels⟩ := h
      rw [encodeLabels, if_neg (List.ne_nil_of_length_pos hpos), if_neg (Nat.not_lt.mpr hlength),
        ih hlabels, countedOctets_cons]
      simp only [List.cons_append, List.append_assoc]

/-- A name that could be written is a list of labels behind each other, whose text
it is but for a trailing dot. -/
theorem exists_labels_of_toOctets {name octets : Octets} (h : toOctets name = .ok octets) :
    ∃ labels, (∀ label ∈ labels, IsLabel label) ∧ octets = countedOctets labels ++ [0] ∧
      trimRoot name = [dot].intercalate labels ∧
      (trimRoot name).length ≤ maxNameLength := by
  unfold toOctets at h
  split at h
  · cases h
  · next hfine =>
      obtain rfl := Except.ok.inj h
      unfold encode at hfine ⊢
      by_cases hlong : maxNameLength < encodedLength (trimRoot name)
      · simp [hlong] at hfine
      · by_cases hroot : trimRoot name = []
        · refine ⟨[], by simp, ?_, ?_, ?_⟩
          · rw [if_neg hlong, if_pos hroot]
            rfl
          · rw [hroot]
            rfl
          · rw [hroot]
            exact Nat.zero_le _
        · simp only [hlong, hroot, if_false] at hfine ⊢
          obtain ⟨hlabels, hwritten⟩ := encodeLabels_of_error_eq_none hfine
          refine ⟨_, hlabels, hwritten, (intercalate_splitLabels _).symm, ?_⟩
          have hshort := length_le_length_trimRoot (trimRoot name)
          have htrimmed : encodedLength (trimRoot name) ≤ maxNameLength :=
            Nat.le_of_not_lt hlong
          unfold encodedLength at htrimmed
          simp only at htrimmed
          split at htrimmed
          · next hdot =>
              rw [hdot, List.length_nil] at hshort
              exact hshort.trans (by decide)
          · omega

/-! ## Labels that stand in a message -/

variable {message : Octets} {p : Nat}

/-- Written labels stand one behind the other. -/
theorem labels_of_stands {labels : List Octets} (hlabels : ∀ label ∈ labels, IsLabel label)
    (h : Stands message p (countedOctets labels)) :
    Labels message p labels (p + (countedOctets labels).length) := by
  induction labels generalizing p with
  | nil => exact .nil p
  | cons label labels ih =>
      rw [List.forall_mem_cons] at hlabels
      have hcons : countedOctets (label :: labels) =
          (UInt8.ofNat label.length :: label) ++ countedOctets labels := countedOctets_cons _ _
      rw [hcons, stands_append_iff] at h
      obtain ⟨hfirst, hbehind⟩ := h
      have hrest := ih hlabels.2 hbehind
      rw [hcons, List.length_append, List.length_cons]
      rw [List.length_cons] at hrest
      refine .cons hlabels.1.1 hlabels.1.2 hfirst ?_
      have hstop : p + (label.length + 1 + (countedOctets labels).length) =
          p + (label.length + 1) + (countedOctets labels).length := (Nat.add_assoc _ _ _).symm
      have hstart : p + 1 + label.length = p + (label.length + 1) := by omega
      rw [hstop, hstart]
      exact hrest

/-- A written name is spelled where it stands. -/
theorem spells_of_toOctets {name octets : Octets} (hwritten : toOctets name = .ok octets)
    (h : Stands message p octets) :
    Spells message p (trimRoot name) (p + octets.length) := by
  obtain ⟨labels, hlabels, rfl, htext, hshort⟩ := exists_labels_of_toOctets hwritten
  obtain ⟨hstands, hroot⟩ := stands_append_iff.mp h
  refine ⟨⟨p, labels, p + (countedOctets labels).length⟩, [], ?_, ?_, hshort, ?_, ?_⟩
  · exact .root (labels_of_stands hlabels hstands) (stands_singleton_iff.mp hroot)
  · simpa [chainLabels] using htext
  · intro hrest
    exact absurd rfl hrest
  · rw [List.length_append, List.length_singleton, if_pos rfl, Nat.add_assoc]

end Name
end PacketLayers.Dns
