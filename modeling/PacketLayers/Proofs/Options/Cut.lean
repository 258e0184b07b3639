import PacketLayers.Proofs.Options.Layout

/-!
# Option lists that are cut

A walk over the first octets of a list hands out the options of the whole list that end
inside them.  Where the cut lies between two options, or behind the end of the list,
the walk then ends without an error; where it lies inside an option, or inside the
header of the option that the walk over the whole list could not read, the walk ends
with an error of missing input.

The two walks are compared step by step: `next_cutTo_of_le` is the step over an option
that is not cut, and the lemmas beside it are the last steps.  The main statement is
`OptionWalk.walk_of_cut`.
-/

namespace PacketLayers

namespace OptionWalk

variable {w behind : OptionWalk} {option : RawOption} {options : List RawOption}
  {error : DecodeError} {failure : Option DecodeError} {cut kept : Nat}

/-! ## One step of the walk over a cut list -/

/-- The walk, with only the next octets left. -/
def cutTo (w : OptionWalk) (cut : Nat) : OptionWalk := { w with rest := w.rest.take cut }

theorem next_cutTo_of_next_eq_none (h : w.next = none) (cut : Nat) : (w.cutTo cut).next = none := by
  rw [next_eq_none_iff] at h ⊢
  rcases h with hrest | hdone
  · left
    rw [cutTo, hrest, List.take_nil]
  · exact Or.inr hdone

theorem next_cutTo_zero (w : OptionWalk) : (w.cutTo 0).next = none := by
  rw [next_eq_none_iff]
  left
  rw [cutTo, List.take_zero]

theorem take_take_headerLength (h : w.format.headerLength ≤ cut) :
    (w.rest.take cut).take w.format.headerLength = w.rest.take w.format.headerLength := by
  rw [List.take_take, Nat.min_eq_left h]

theorem slice_take {data : Octets} {start stop : Nat} (h : stop ≤ cut) :
    slice (data.take cut) start stop = slice data start stop := by
  rw [slice, slice, List.drop_take, List.take_take]
  congr 1
  omega

/-- An option that ends inside the octets that are left is read as before. -/
theorem readOption_cutTo_of_le (h : w.readOption = .ok option) (hcut : option.length ≤ cut) :
    (w.cutTo cut).readOption = .ok option := by
  obtain ⟨hheader, hinside, rfl⟩ := readOption_eq_ok_iff.mp h
  simp only at hcut
  rw [readOption_eq_ok_iff]
  simp only [cutTo, take_take_headerLength (Nat.le_trans hheader hcut), slice_take hcut,
    List.length_take]
  exact ⟨hheader, by omega, trivial⟩

/-- An option that is cut is missing octets. -/
theorem readOption_cutTo_of_lt (h : w.readOption = .ok option) (hcut : cut < option.length) :
    ∃ needed available,
      (w.cutTo cut).readOption = .error (.truncated w.layer needed available) := by
  obtain ⟨hheader, hinside, rfl⟩ := readOption_eq_ok_iff.mp h
  simp only at hcut
  have hlength : (w.rest.take cut).length = cut := by
    rw [List.length_take]
    omega
  rw [readOption_eq]
  simp only [cutTo, hlength]
  split
  · exact ⟨_, _, rfl⟩
  · next hlong =>
      rw [take_take_headerLength (Nat.le_of_not_lt hlong), if_neg (Nat.not_lt.mpr hheader),
        if_pos hcut]
      exact ⟨_, _, rfl⟩

/-- An option that could not be read cannot be read where the list is cut; inside its header it
is missing octets. -/
theorem readOption_cutTo_of_error (h : w.readOption = .error error) (cut : Nat) :
    ∃ error', (w.cutTo cut).readOption = .error error' ∧
      (cut < w.format.headerLength →
        ∃ needed available, error' = .truncated w.layer needed available) := by
  by_cases hshort : (w.rest.take cut).length < w.format.headerLength
  · refine ⟨.truncated w.layer w.format.headerLength (w.rest.take cut).length, ?_, ?_⟩
    · rw [readOption_eq]
      simp only [cutTo, hshort, if_true]
    · intro
      exact ⟨_, _, rfl⟩
  · have hlong : w.format.headerLength ≤ cut := by
      rw [List.length_take] at hshort
      omega
    cases hread : (w.cutTo cut).readOption with
    | error error' => exact ⟨error', rfl, fun hless => absurd hless (Nat.not_lt.mpr hlong)⟩
    | ok option =>
        -- What is read from the first octets is read from all of them.
        obtain ⟨hheader, hinside, -⟩ := readOption_eq_ok_iff.mp hread
        simp only [cutTo, take_take_headerLength hlong] at hheader hinside
        rw [List.length_take] at hinside
        rw [readOption_eq_ok_iff.mpr ⟨hheader, by omega, rfl⟩] at h
        cases h

theorem exists_rest_cutTo {first : UInt8} {tail : Octets} (hrest : w.rest = first :: tail)
    (hcut : 0 < cut) : (w.cutTo cut).rest = first :: tail.take (cut - 1) := by
  obtain ⟨n, rfl⟩ := Nat.exists_eq_add_of_lt hcut
  rw [cutTo, hrest, Nat.zero_add, List.take_succ_cons, Nat.add_sub_cancel]

/-- The step over an option that ends inside the octets that are left. -/
theorem next_cutTo_of_le (h : w.next = some (.ok option, behind)) (hcut : option.length ≤ cut) :
    (w.cutTo cut).next = some (.ok option, behind.cutTo (cut - option.length)) := by
  have hpos : 0 < cut := Nat.lt_of_lt_of_le (takes_of_next h).pos hcut
  obtain ⟨hopen, hstep⟩ := next_eq_some_iff.mp h
  rw [next_eq_some_iff]
  refine ⟨hopen, ?_⟩
  cases hstep with
  | lone hrest hsingle =>
      have hstep := Step.lone (exists_rest_cutTo hrest hpos) hsingle
      simp only [cutTo, advance, List.drop_take] at hstep ⊢
      exact hstep
  | read hrest hsingle hread =>
      have hstep := Step.read (exists_rest_cutTo hrest hpos) hsingle
        (readOption_cutTo_of_le hread hcut)
      simp only [cutTo, advance, List.drop_take] at hstep ⊢
      exact hstep

/-- The last step, at an option that is cut. -/
theorem next_cutTo_of_lt (h : w.next = some (.ok option, behind)) (hpos : 0 < cut)
    (hcut : cut < option.length) :
    ∃ needed available behind',
      (w.cutTo cut).next = some (.error (.truncated w.layer needed available), behind') := by
  obtain ⟨hopen, hstep⟩ := next_eq_some_iff.mp h
  cases hstep with
  | lone hrest hsingle =>
      simp only at hcut
      omega
  | read hrest hsingle hread =>
      obtain ⟨needed, available, hcutread⟩ := readOption_cutTo_of_lt hread hcut
      exact ⟨needed, available, _, next_eq_some_iff.mpr
        ⟨hopen, .fail (exists_rest_cutTo hrest hpos) hsingle hcutread⟩⟩

/-- The last step, at the option that could not be read. -/
theorem next_cutTo_of_error (h : w.next = some (.error error, behind)) (hpos : 0 < cut) :
    ∃ error' behind', (w.cutTo cut).next = some (.error error', behind') ∧
      (cut < w.format.headerLength →
        ∃ needed available, error' = .truncated w.layer needed available) := by
  obtain ⟨hopen, hstep⟩ := next_eq_some_iff.mp h
  cases hstep with
  | fail hrest hsingle hread =>
      obtain ⟨error', hcutread, hheader⟩ := readOption_cutTo_of_error hread cut
      exact ⟨error', _, next_eq_some_iff.mpr
        ⟨hopen, .fail (exists_rest_cutTo hrest hpos) hsingle hcutread⟩, hheader⟩

/-! ## Where a cut lies -/

variable {format : OptionFormat}

/-- As many options of a list end at or before a position. -/
def EndBy (options : List RawOption) (position kept : Nat) : Prop :=
  ∀ n < options.length, n < kept ↔ lengthOf (options.take (n + 1)) ≤ position

/-- A position between two options of a list, in front of the first or behind the last one. -/
def Between (options : List RawOption) (position : Nat) : Prop :=
  ∃ n ≤ options.length, position = lengthOf (options.take n)

/-- A position inside an option of a list. -/
def Inside (options : List RawOption) (position : Nat) : Prop :=
  ∃ n < options.length,
    lengthOf (options.take n) < position ∧ position < lengthOf (options.take (n + 1))

/-- A cut between the options that a walk hands out, or behind the option that ends the list. -/
def CleanCut (format : OptionFormat) (options : List RawOption) (cut : Nat) : Prop :=
  Between options cut ∨ (Ended format options ∧ lengthOf options ≤ cut)

/-- A cut inside an option that a walk hands out, or inside the header of the one behind them
that it cannot read. -/
def CutWithin (format : OptionFormat) (options : List RawOption) (failure : Option DecodeError)
    (cut : Nat) : Prop :=
  Inside options cut ∨
    (failure ≠ none ∧ lengthOf options < cut ∧ cut < lengthOf options + format.headerLength)

theorem endBy_nil : EndBy [] cut 0 := by
  intro n hn
  exact absurd hn (Nat.not_lt_zero n)

theorem endBy_zero_of_lt (hlt : cut < option.length) : EndBy (option :: options) cut 0 := by
  intro n hn
  rw [List.take_succ_cons, lengthOf_cons]
  omega

theorem EndBy.cons (h : EndBy options (cut - option.length) kept) (hle : option.length ≤ cut) :
    EndBy (option :: options) cut (kept + 1) := by
  intro n hn
  rw [List.take_succ_cons, lengthOf_cons]
  cases n with
  | zero =>
      rw [List.take_zero, lengthOf_nil]
      omega
  | succ n =>
      have htail := h n (Nat.lt_of_succ_lt_succ hn)
      omega

theorem cleanCut_nil_iff : CleanCut format [] cut ↔ cut = 0 := by
  simp [CleanCut, Between, Ended]

/-- Behind its first octet, a clean cut of a list is behind the first option, and there is the
end of the list or a clean cut of the others. -/
theorem CleanCut.of_cons (h : CleanCut format (option :: options) cut) (hpos : 0 < cut) :
    option.length ≤ cut ∧
      (format.isEnd option.tag.toUInt8 = true ∨ CleanCut format options (cut - option.length)) := by
  rcases h with ⟨n, hn, rfl⟩ | ⟨hended, hlength⟩
  · cases n with
    | zero => exact absurd hpos (Nat.lt_irrefl 0)
    | succ n =>
        rw [List.take_succ_cons, lengthOf_cons, Nat.add_sub_cancel_left]
        exact ⟨Nat.le_add_right _ _, Or.inr (Or.inl ⟨n, Nat.le_of_succ_le_succ hn, rfl⟩)⟩
  · rw [lengthOf_cons] at hlength
    refine ⟨by omega, ?_⟩
    rcases ended_cons_iff.mp hended with ⟨-, hend⟩ | hothers
    · exact Or.inl hend
    · exact Or.inr (Or.inr ⟨hothers, by omega⟩)

theorem CutWithin.pos (h : CutWithin format options failure cut) : 0 < cut := by
  rcases h with ⟨n, -, hstart, -⟩ | ⟨-, hstart, -⟩
  · exact Nat.zero_lt_of_lt hstart
  · exact Nat.zero_lt_of_lt hstart

theorem cutWithin_nil_iff :
    CutWithin format [] failure cut ↔ failure ≠ none ∧ 0 < cut ∧ cut < format.headerLength := by
  simp [CutWithin, Inside]

/-- Behind the first option, a list is cut inside one of the others. -/
theorem CutWithin.of_cons (h : CutWithin format (option :: options) failure cut)
    (hle : option.length ≤ cut) : CutWithin format options failure (cut - option.length) := by
  rcases h with ⟨n, hn, hstart, hstop⟩ | ⟨hfailure, hstart, hstop⟩
  · rw [List.take_succ_cons, lengthOf_cons] at hstop
    cases n with
    | zero =>
        rw [List.take_zero, lengthOf_nil] at hstop
        omega
    | succ n =>
        rw [List.take_succ_cons, lengthOf_cons] at hstart
        exact Or.inl ⟨n, Nat.lt_of_succ_lt_succ hn, by omega, by omega⟩
  · rw [lengthOf_cons] at hstart hstop
    exact Or.inr ⟨hfailure, by omega, by omega⟩

/-! ## The walk over a cut list -/

/-- The two walks, call by call: over the options that end before the cut both take the same
steps, and there the walk over the cut list ends. -/
theorem Run.cutTo (h : Run w options failure) (cut : Nat) :
    ∃ kept failure', Run (w.cutTo cut) (options.take kept) failure' ∧ EndBy options cut kept ∧
      (w.done = true ∨ CleanCut w.format options cut → failure' = none) ∧
      (CutWithin w.format options failure cut →
        ∃ needed available, failure' = some (.truncated w.layer needed available)) := by
  induction h generalizing cut with
  | stop hend =>
      refine ⟨0, none, .stop (next_cutTo_of_next_eq_none hend cut), endBy_nil, fun _ => rfl, ?_⟩
      intro hwithin
      exact absurd rfl (cutWithin_nil_iff.mp hwithin).1
  | @fail w behind error hnext =>
      have hopen := (next_eq_some_iff.mp hnext).1
      rcases Nat.eq_zero_or_pos cut with rfl | hpos
      · refine ⟨0, none, .stop (next_cutTo_zero w), endBy_nil, fun _ => rfl, ?_⟩
        intro hwithin
        exact absurd hwithin.pos (Nat.lt_irrefl 0)
      · obtain ⟨error', behind', hcut, hheader⟩ := next_cutTo_of_error hnext hpos
        refine ⟨0, some error', .fail hcut, endBy_nil, ?_, ?_⟩
        · rintro (hdone | hclean)
          · rw [hopen] at hdone
            cases hdone
          · exact absurd (cleanCut_nil_iff.mp hclean) (Nat.ne_of_gt hpos)
        · intro hwithin
          obtain ⟨needed, available, rfl⟩ := hheader (cutWithin_nil_iff.mp hwithin).2.2
          exact ⟨needed, available, rfl⟩
  | @more w behind option options failure hnext hrest ih =>
      have htakes := takes_of_next hnext
      have hopen := (next_eq_some_iff.mp hnext).1
      rcases Nat.lt_or_ge cut option.length with hlt | hle
      · rcases Nat.eq_zero_or_pos cut with rfl | hpos
        · refine ⟨0, none, .stop (next_cutTo_zero w), endBy_zero_of_lt hlt, fun _ => rfl, ?_⟩
          intro hwithin
          exact absurd hwithin.pos (Nat.lt_irrefl 0)
        · obtain ⟨needed, available, behind', hcut⟩ := next_cutTo_of_lt hnext hpos hlt
          refine ⟨0, some _, .fail hcut, endBy_zero_of_lt hlt, ?_, fun _ => ⟨_, _, rfl⟩⟩
          rintro (hdone | hclean)
          · rw [hopen] at hdone
            cases hdone
          · exact absurd (hclean.of_cons hpos).1 (Nat.not_le.mpr hlt)
      · obtain ⟨kept, failure', hrun, hkept, hclean, hwithin⟩ := ih (cut - option.length)
        rw [htakes.done, htakes.format] at hclean
        rw [htakes.format, htakes.layer] at hwithin
        refine ⟨kept + 1, failure', .more (next_cutTo_of_le hnext hle) hrun, hkept.cons hle, ?_,
          fun hcut => hwithin (hcut.of_cons hle)⟩
        rintro (hdone | hcut)
        · rw [hopen] at hdone
          cases hdone
        · exact hclean (hcut.of_cons (Nat.lt_of_lt_of_le htakes.pos hle)).2

/-- The walk over the first octets of a list hands out exactly the options of the list that end
inside them, in their order.  It ends without an error where the cut lies between two options or
behind the end of the list, and with an error of missing input where it lies inside an option or
inside the header of the one that the walk over the list could not read. -/
theorem walk_of_cut (format : OptionFormat) (layer : LayerType) (data : Octets) (cut : Nat) :
    ∃ options failure kept failure', HandsOut (start format layer data) options failure ∧
      HandsOut (start format layer (data.take cut)) (options.take kept) failure' ∧
      EndBy options cut kept ∧
      (CleanCut format options cut → failure' = none) ∧
      (CutWithin format options failure cut →
        ∃ needed available, failure' = some (.truncated layer needed available)) := by
  obtain ⟨options, failure, hrun⟩ := exists_run (start format layer data)
  obtain ⟨kept, failure', hcut, hkept, hclean, hwithin⟩ := hrun.cutTo cut
  exact ⟨options, failure, kept, failure', hrun.handsOut, hcut.handsOut, hkept,
    fun h => hclean (Or.inr h), hwithin⟩

end OptionWalk

end PacketLayers
