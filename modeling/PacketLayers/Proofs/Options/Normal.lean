import PacketLayers.Proofs.Options.Layout

/-!
# The normal form of a kind-length list

Options need not come back from their octets as they were given.  A lone octet has no
room for data, nothing is read behind an end of the list, and where the list is padded
the first octet of the padding is read as an end of the list.  What comes back is
`KindLength.normalize` of the list that was written (`KindLength.collect_encode`).

The lists that come back unchanged are those in `KindLength.DecodedForm`
(`KindLength.normalize_eq_self_iff`).  A walk that ends without an error leaves such a
list, and it leaves one that can be written again (`KindLength.of_collect`).  The octets
come back unchanged if those behind an end of the list are padding that the encoder
writes (`KindLength.encode_of_collect`).
-/

namespace PacketLayers

namespace OptionWalk

variable {w w' : OptionWalk} {options : List RawOption} {failure : Option DecodeError}

theorem run_of_yields (h : Yields w options w') (hend : w'.next = none) : Run w options none := by
  induction h with
  | nil w => exact .stop hend
  | cons hnext hrest ih => exact .more hnext (ih hend)

/-- The options that are handed out are the octets in front of those where the walk then stands. -/
theorem rest_of_yields (h : Yields w options w') :
    w.rest = (options.map w.format.encode).flatten ++ w'.rest := by
  induction h with
  | nil w => rfl
  | cons hnext hrest ih =>
      have htakes := takes_of_next hnext
      rw [htakes.format] at ih
      rw [htakes.octets, ih, List.map_cons, List.flatten_cons, List.append_assoc]

/-- A lone octet is handed out without data. -/
theorem Run.data_eq_nil (h : Run w options failure) :
    ∀ option ∈ options, w.format.isSingle option.tag.toUInt8 = true → option.data = [] := by
  induction h with
  | stop hend => simp
  | fail hnext => simp
  | more hnext hrest ih =>
      rw [(takes_of_next hnext).format] at ih
      rw [List.forall_mem_cons]
      refine ⟨?_, ih⟩
      obtain ⟨-, hstep⟩ := next_eq_some_iff.mp hnext
      cases hstep with
      | lone hfirst hsingle => exact fun _ => rfl
      | read hfirst hsingle hread =>
          obtain ⟨-, -, htag⟩ := encode_of_readOption hfirst hsingle hread
          rw [htag]
          exact fun h => absurd h Bool.false_ne_true

/-- Only the last option that is handed out can end the list. -/
theorem Run.isEnd_eq_false (h : Run w options failure) :
    ∀ option ∈ options.dropLast, w.format.isEnd option.tag.toUInt8 = false := by
  induction h with
  | stop hend => simp
  | fail hnext => simp
  | @more w behind option options failure hnext hrest ih =>
      have htakes := takes_of_next hnext
      rw [htakes.format] at ih
      cases options with
      | nil => simp
      | cons second others =>
          rw [List.dropLast_cons_cons, List.forall_mem_cons]
          refine ⟨?_, ih⟩
          rw [← htakes.done, Bool.eq_false_iff]
          intro hdone
          obtain ⟨hnil, -⟩ := hrest.eq_nil_of_done hdone
          cases hnil

end OptionWalk

namespace KindLength

variable {options : List (UInt8 × Octets)} {encoded area : Octets} {layer : LayerType}

/-- An option as its octets tell it: a lone octet has no room for data. -/
def bare (option : UInt8 × Octets) : UInt8 × Octets :=
  if option.1 ≤ 1 then (option.1, []) else option

/-- The options up to the first end of the list, which is kept. -/
def upToEnd : List (UInt8 × Octets) → List (UInt8 × Octets)
  | [] => []
  | option :: options => if option.1 = 0 then [option] else option :: upToEnd options

/-- An end of the list is among the options. -/
def HasEnd (options : List (UInt8 × Octets)) : Prop := ∃ option ∈ options, option.1 = 0

instance : Decidable (HasEnd options) := inferInstanceAs (Decidable (∃ option ∈ options, _))

/-- What a walk makes of the octets that are written for a list of options. -/
def normalize (options : List (UInt8 × Octets)) : List (UInt8 × Octets) :=
  if HasEnd options ∨ listLength options % 4 = 0 then
    (upToEnd options).map bare
  else
    (upToEnd options).map bare ++ [(0, [])]

/-- The octets that a list takes with its padding. -/
def paddedLength (options : List (UInt8 × Octets)) : Nat := (listLength options + 3) / 4 * 4

/-- The length octet of each option has room for its data. -/
def Short (options : List (UInt8 × Octets)) : Prop :=
  ∀ option ∈ options, 1 < option.1 → option.2.length ≤ 253

instance : Decidable (Short options) := inferInstanceAs (Decidable (∀ option ∈ options, _ → _))

/-- Options for which a header has room: the data of each fits its length octet, and the padded
list fits behind the fixed fields. -/
structure Writable (options : List (UInt8 × Octets)) : Prop where
  short : Short options
  fits : paddedLength options ≤ 40

/-! ## The octets of a list -/

/-- The octets of an option, as a walk finds it. -/
def octets (option : UInt8 × Octets) : Octets := OptionFormat.kindLength.encode (toRaw option)

theorem octets_eq (option : UInt8 × Octets) :
    octets option =
      if option.1 ≤ 1 then [option.1]
      else option.1 :: UInt8.ofNat (option.2.length + 2) :: option.2 := by
  simp [octets, OptionFormat.encode, OptionFormat.isSingle, OptionFormat.headerOctets,
    OptionFormat.headerLength, toRaw, Nat.add_comm]

theorem encodeOption_eq_some_iff {kind : UInt8} {data part : Octets} :
    encodeOption kind data = some part ↔
      (1 < kind → data.length ≤ 253) ∧ part = octets (kind, data) := by
  rw [encodeOption, octets_eq]
  by_cases hsingle : kind ≤ 1
  · simp [hsingle, UInt8.not_lt.mpr hsingle, eq_comm]
  · have hlong : 1 < kind := UInt8.not_le.mp hsingle
    have hroom : data.length + 2 ≤ 255 ↔ data.length ≤ 253 := by omega
    simp [hsingle, hlong, hroom, eq_comm]

theorem mapM_encodeOption_eq_some_iff {parts : List Octets} :
    options.mapM (fun option => encodeOption option.1 option.2) = some parts ↔
      Short options ∧ parts = options.map octets := by
  induction options generalizing parts with
  | nil => simp [Short, eq_comm]
  | cons option options ih =>
      constructor
      · intro h
        obtain ⟨part, parts', hpart, hparts', rfl⟩ := exists_of_mapM_cons h
        obtain ⟨hfirst, rfl⟩ := encodeOption_eq_some_iff.mp hpart
        obtain ⟨hothers, rfl⟩ := ih.mp hparts'
        exact ⟨List.forall_mem_cons.mpr ⟨hfirst, hothers⟩, rfl⟩
      · rintro ⟨hshort, rfl⟩
        obtain ⟨hfirst, hothers⟩ := List.forall_mem_cons.mp hshort
        rw [List.mapM_cons, encodeOption_eq_some_iff.mpr ⟨hfirst, rfl⟩, ih.mpr ⟨hothers, rfl⟩]
        rfl

theorem length_octets (option : UInt8 × Octets) : (octets option).length = optionLength option := by
  rw [octets_eq, optionLength]
  split <;> rfl

theorem length_flatten_octets (options : List (UInt8 × Octets)) :
    (options.map octets).flatten.length = listLength options := by
  induction options with
  | nil => rfl
  | cons option options ih =>
      rw [List.map_cons, List.flatten_cons, List.length_append, length_octets, ih, listLength]

/-- A list is written if the data of each option is short enough. -/
theorem encode_eq_some_iff :
    encode options = some encoded ↔
      Short options ∧
        encoded = (options.map octets).flatten ++ padding (listLength options) := by
  rw [encode, Option.map_eq_some_iff]
  constructor
  · rintro ⟨parts, hparts, rfl⟩
    obtain ⟨hshort, rfl⟩ := mapM_encodeOption_eq_some_iff.mp hparts
    rw [length_flatten_octets]
    exact ⟨hshort, rfl⟩
  · rintro ⟨hshort, rfl⟩
    refine ⟨_, mapM_encodeOption_eq_some_iff.mpr ⟨hshort, rfl⟩, ?_⟩
    rw [length_flatten_octets]

theorem length_of_encode (h : encode options = some encoded) :
    encoded.length = paddedLength options := by
  obtain ⟨-, rfl⟩ := encode_eq_some_iff.mp h
  rw [List.length_append, length_flatten_octets, padding, List.length_replicate, paddedLength]
  omega

theorem writable_iff :
    Writable options ↔ ∃ encoded, encode options = some encoded ∧ encoded.length ≤ 40 := by
  constructor
  · rintro ⟨hshort, hfits⟩
    have hencode := encode_eq_some_iff.mpr ⟨hshort, rfl⟩
    refine ⟨_, hencode, ?_⟩
    rw [length_of_encode hencode]
    exact hfits
  · rintro ⟨encoded, hencode, hfits⟩
    rw [length_of_encode hencode] at hfits
    exact ⟨(encode_eq_some_iff.mp hencode).1, hfits⟩

/-! ## Lists in normal form -/

@[simp] theorem bare_fst (option : UInt8 × Octets) : (bare option).1 = option.1 := by
  rw [bare]
  split <;> rfl

@[simp] theorem octets_bare (option : UInt8 × Octets) : octets (bare option) = octets option := by
  rw [octets_eq, octets_eq, bare_fst]
  split
  · rfl
  · next hlong => rw [bare, if_neg hlong]

/-- Only lone octets lose their data. -/
theorem bare_eq_self {option : UInt8 × Octets} (h : option.1 ≤ 1 → option.2 = []) :
    bare option = option := by
  rw [bare]
  split
  · next hsingle => rw [← h hsingle]
  · rfl

theorem isPrefix_upToEnd (options : List (UInt8 × Octets)) : upToEnd options <+: options := by
  induction options with
  | nil => exact List.prefix_rfl
  | cons option options ih =>
      rw [upToEnd]
      split
      · exact ⟨options, rfl⟩
      · exact (List.prefix_cons_inj option).mpr ih

theorem hasEnd_cons_iff {option : UInt8 × Octets} :
    HasEnd (option :: options) ↔ option.1 = 0 ∨ HasEnd options := by
  simp [HasEnd]

theorem upToEnd_of_not_hasEnd (h : ¬ HasEnd options) : upToEnd options = options := by
  induction options with
  | nil => rfl
  | cons option options ih =>
      rw [hasEnd_cons_iff, not_or] at h
      rw [upToEnd, if_neg h.1, ih h.2]

/-- Where only the last option can be an end of the list, nothing stands behind one. -/
theorem upToEnd_eq_self (h : ∀ option ∈ options.dropLast, option.1 ≠ 0) :
    upToEnd options = options := by
  induction options with
  | nil => rfl
  | cons option options ih =>
      cases options with
      | nil =>
          rw [upToEnd]
          split <;> rfl
      | cons second others =>
          rw [List.dropLast_cons_cons, List.forall_mem_cons] at h
          rw [upToEnd, if_neg h.1, ih h.2]

/-- Only the last of the options that are kept can be an end of the list. -/
theorem ne_zero_of_mem_dropLast_upToEnd :
    ∀ option ∈ (upToEnd options).dropLast, option.1 ≠ 0 := by
  induction options with
  | nil => simp [upToEnd]
  | cons option options ih =>
      rw [upToEnd]
      split
      · simp
      · next hkind =>
          cases hkept : upToEnd options with
          | nil => simp
          | cons second others =>
              rw [hkept] at ih
              rw [List.dropLast_cons_cons, List.forall_mem_cons]
              exact ⟨hkind, ih⟩

theorem hasEnd_upToEnd (h : HasEnd options) : HasEnd (upToEnd options) := by
  induction options with
  | nil => exact h
  | cons option options ih =>
      rw [upToEnd]
      split
      · next hkind => exact ⟨option, List.mem_singleton_self option, hkind⟩
      · next hkind =>
          obtain ⟨last, hlast, hzero⟩ := ih ((hasEnd_cons_iff.mp h).resolve_left hkind)
          exact ⟨last, List.mem_cons_of_mem _ hlast, hzero⟩

/-- An end of the list that no option but the last can be is the last option. -/
theorem getLast?_of_hasEnd (hends : ∀ option ∈ options.dropLast, option.1 ≠ 0)
    (h : HasEnd options) : ∃ option, options.getLast? = some option ∧ option.1 = 0 := by
  obtain ⟨option, hmem, hzero⟩ := h
  have hne : options ≠ [] := List.ne_nil_of_mem hmem
  refine ⟨options.getLast hne, List.getLast?_eq_some_getLast hne, ?_⟩
  rw [← List.dropLast_concat_getLast hne, List.mem_append, List.mem_singleton] at hmem
  rcases hmem with hinner | rfl
  · exact absurd hzero (hends option hinner)
  · exact hzero

theorem map_octets_bare (options : List (UInt8 × Octets)) :
    (options.map bare).map octets = options.map octets := by
  rw [List.map_map]
  exact List.map_congr_left fun option _ => octets_bare option

theorem listLength_map_bare (options : List (UInt8 × Octets)) :
    listLength (options.map bare) = listLength options := by
  rw [← length_flatten_octets, map_octets_bare, length_flatten_octets]

theorem decodedForm_normalize (options : List (UInt8 × Octets)) :
    DecodedForm (normalize options) := by
  have hlone : ∀ option ∈ (upToEnd options).map bare, option.1 ≤ 1 → option.2 = [] := by
    intro option hmem hsingle
    obtain ⟨given, -, rfl⟩ := List.mem_map.mp hmem
    rw [bare_fst] at hsingle
    rw [bare, if_pos hsingle]
  have hends : ∀ option ∈ ((upToEnd options).map bare).dropLast, option.1 ≠ 0 := by
    intro option hmem
    rw [← List.map_dropLast] at hmem
    obtain ⟨given, hgiven, rfl⟩ := List.mem_map.mp hmem
    rw [bare_fst]
    exact ne_zero_of_mem_dropLast_upToEnd given hgiven
  rw [normalize]
  split
  · next hkeep =>
      refine ⟨hlone, hends, fun hwords => getLast?_of_hasEnd hends ?_⟩
      by_cases hend : HasEnd options
      · obtain ⟨last, hlast, hzero⟩ := hasEnd_upToEnd hend
        exact ⟨bare last, List.mem_map_of_mem hlast, by rw [bare_fst, hzero]⟩
      · rw [upToEnd_of_not_hasEnd hend, listLength_map_bare] at hwords
        exact absurd (hkeep.resolve_left hend) hwords
  · next hpad =>
      obtain ⟨hend, -⟩ := not_or.mp hpad
      refine ⟨?_, ?_, fun _ => ⟨(0, []), by rw [List.getLast?_concat], rfl⟩⟩
      · intro option hmem
        rcases List.mem_append.mp hmem with hkept | hlast
        · exact hlone option hkept
        · rw [List.mem_singleton.mp hlast]
          exact fun _ => rfl
      · intro option hmem
        rw [List.dropLast_concat, upToEnd_of_not_hasEnd hend] at hmem
        obtain ⟨given, hgiven, rfl⟩ := List.mem_map.mp hmem
        rw [bare_fst]
        exact fun hzero => hend ⟨given, hgiven, hzero⟩

/-- The lists in normal form are those that have the form in which a walk leaves them. -/
theorem normalize_eq_self_iff : normalize options = options ↔ DecodedForm options := by
  constructor
  · intro h
    rw [← h]
    exact decodedForm_normalize options
  · intro hform
    have hkeep : HasEnd options ∨ listLength options % 4 = 0 := by
      by_cases hwords : listLength options % 4 = 0
      · exact Or.inr hwords
      · obtain ⟨last, hlast, hzero⟩ := hform.padded hwords
        exact Or.inl ⟨last, List.mem_of_getLast? hlast, hzero⟩
    rw [normalize, if_pos hkeep, upToEnd_eq_self hform.ends]
    have hbare : ∀ option ∈ options, bare option = id option :=
      fun option hmem => bare_eq_self (hform.lone option hmem)
    rw [List.map_congr_left hbare, List.map_id]

theorem normalize_normalize (options : List (UInt8 × Octets)) :
    normalize (normalize options) = normalize options :=
  normalize_eq_self_iff.mpr (decodedForm_normalize options)

/-! ## Written, then walked -/

/-- The octets of the normal form are in front of the padded list.  What is behind them follows an
end of the list. -/
theorem exists_octets_normalize (options : List (UInt8 × Octets)) :
    ∃ behind, (options.map octets).flatten ++ padding (listLength options) =
        ((normalize options).map octets).flatten ++ behind ∧
      (behind = [] ∨ HasEnd (normalize options)) := by
  by_cases hend : HasEnd options
  · obtain ⟨others, hothers⟩ := isPrefix_upToEnd options
    obtain ⟨last, hlast, hzero⟩ := hasEnd_upToEnd hend
    rw [normalize, if_pos (Or.inl hend), map_octets_bare]
    refine ⟨(others.map octets).flatten ++ padding (listLength options), ?_,
      Or.inr ⟨bare last, List.mem_map_of_mem hlast, by rw [bare_fst, hzero]⟩⟩
    rw [← List.append_assoc, ← List.flatten_append, ← List.map_append, hothers]
  · by_cases hwords : listLength options % 4 = 0
    · rw [normalize, if_pos (Or.inr hwords), upToEnd_of_not_hasEnd hend, map_octets_bare]
      refine ⟨[], ?_, Or.inl rfl⟩
      rw [padding, hwords]
      rfl
    · rw [normalize, if_neg (not_or.mpr ⟨hend, hwords⟩), upToEnd_of_not_hasEnd hend]
      refine ⟨List.replicate (3 - listLength options % 4) 0, ?_,
        Or.inr ⟨(0, []), List.mem_append_right _ (List.mem_singleton_self _), rfl⟩⟩
      -- The first octet of the padding is the end that the normal form adds.
      have hpadding : padding (listLength options) =
          octets (0, []) ++ List.replicate (3 - listLength options % 4) 0 := by
        have hcount : (4 - listLength options % 4) % 4 = 3 - listLength options % 4 + 1 := by omega
        rw [padding, hcount]
        rfl
      rw [hpadding, List.map_append, map_octets_bare, List.flatten_append, List.append_assoc]
      rfl

theorem short_normalize (h : Short options) : Short (normalize options) := by
  have hkept : Short ((upToEnd options).map bare) := by
    intro option hmem hlong
    obtain ⟨given, hgiven, rfl⟩ := List.mem_map.mp hmem
    rw [bare_fst] at hlong
    rw [bare, if_neg (UInt8.not_le.mpr hlong)]
    exact h given ((isPrefix_upToEnd options).subset hgiven) hlong
  rw [normalize]
  split
  · exact hkept
  · intro option hmem
    rcases List.mem_append.mp hmem with hinner | hlast
    · exact hkept option hinner
    · rw [List.mem_singleton.mp hlast]
      exact fun hlong => absurd hlong (by decide)

/-- A normal form takes no more octets than the list that it is made of. -/
theorem writable_normalize (h : Writable options) : Writable (normalize options) := by
  refine ⟨short_normalize h.short, ?_⟩
  obtain ⟨behind, hsplit, -⟩ := exists_octets_normalize options
  have hlength := congrArg List.length hsplit
  have hfits := h.fits
  rw [List.length_append, List.length_append, length_flatten_octets, length_flatten_octets,
    padding, List.length_replicate] at hlength
  rw [paddedLength] at hfits ⊢
  omega

/-- A walk over a written list hands out its normal form. -/
theorem collect_encode (layer : LayerType) (h : encode options = some encoded) :
    OptionWalk.collect .kindLength layer encoded = .accept ((normalize options).map toRaw) := by
  obtain ⟨hshort, rfl⟩ := encode_eq_some_iff.mp h
  obtain ⟨behind, hsplit, hbehind⟩ := exists_octets_normalize options
  have hform := decodedForm_normalize options
  obtain ⟨w', hyields, hrest, hlast⟩ := yields_of_mapM_encodeOption
    (mapM_encodeOption_eq_some_iff.mpr ⟨short_normalize hshort, rfl⟩) hform.lone hform.ends
    (w := .start .kindLength layer
      ((options.map octets).flatten ++ padding (listLength options))) rfl rfl hsplit
  refine OptionWalk.collect_of_yields hyields ?_
  rw [OptionWalk.next_eq_none_iff, hrest, hlast]
  exact hbehind.imp id (getLast?_of_hasEnd hform.ends)

/-- A list in decoded form that was written is walked back to the same options. -/
theorem collect_of_encode (layer : LayerType) (hform : DecodedForm options)
    (h : encode options = some encoded) :
    OptionWalk.collect .kindLength layer encoded = .accept (options.map toRaw) := by
  rw [collect_encode layer h, normalize_eq_self_iff.mpr hform]

theorem map_ofRaw_toRaw (options : List (UInt8 × Octets)) :
    (options.map toRaw).map ofRaw = options := by
  simp [ofRaw, toRaw, Function.comp_def]

/-! ## Walked, then written -/

theorem octets_ofRaw (option : RawOption) :
    octets (ofRaw option) = OptionFormat.kindLength.encode option := by
  simp only [octets, OptionFormat.encode, OptionFormat.headerOctets, toRaw, ofRaw,
    UInt8.toUInt8_toUInt16]

theorem map_octets_ofRaw (found : List RawOption) :
    (found.map ofRaw).map octets = found.map OptionFormat.kindLength.encode := by
  rw [List.map_map]
  exact List.map_congr_left fun option _ => octets_ofRaw option

/-- The length of an option that is read fits its length octet. -/
theorem length_le_of_next {w behind : OptionWalk} {option : RawOption}
    (hformat : w.format = .kindLength) (h : w.next = some (.ok option, behind)) :
    option.length ≤ 255 := by
  obtain ⟨-, hstep⟩ := OptionWalk.next_eq_some_iff.mp h
  cases hstep with
  | lone hrest hsingle => simp
  | read hrest hsingle hread =>
      obtain ⟨-, -, rfl⟩ := OptionWalk.readOption_eq_ok_iff.mp hread
      rw [hformat]
      exact Nat.le_of_lt_succ (UInt8.toNat_lt _)

variable {w : OptionWalk} {found : List RawOption} {failure : Option DecodeError}

/-- The options that a walk hands out can be written. -/
theorem short_of_run (hformat : w.format = .kindLength) (h : OptionWalk.Run w found failure) :
    Short (found.map ofRaw) := by
  induction h with
  | stop hend => exact List.forall_mem_nil _
  | fail hnext => exact List.forall_mem_nil _
  | more hnext hrest ih =>
      have htakes := OptionWalk.takes_of_next hnext
      have hlength := length_le_of_next hformat hnext
      rw [← htakes.length, hformat, ← octets_ofRaw, octets_eq] at hlength
      refine List.forall_mem_cons.mpr ⟨fun hlong => ?_, ih (htakes.format.trans hformat)⟩
      rw [if_neg (UInt8.not_le.mpr hlong), List.length_cons, List.length_cons] at hlength
      omega

theorem listLength_map_ofRaw (hformat : w.format = .kindLength)
    (h : OptionWalk.Run w found failure) :
    listLength (found.map ofRaw) = OptionWalk.lengthOf found := by
  obtain ⟨hoctets, hinside⟩ := h.octets
  rw [← length_flatten_octets, map_octets_ofRaw, ← hformat, hoctets, List.length_take,
    Nat.min_eq_left hinside]

theorem eq_padding {behind : Octets} {n : Nat}
    (hlength : (n + behind.length) % 4 = 0) (hshort : behind.length < 4)
    (hzero : ∀ b ∈ behind, b = 0) : behind = padding n := by
  have hcount : (4 - n % 4) % 4 = behind.length := by omega
  rw [padding, hcount]
  exact List.eq_replicate_of_mem hzero

/-- A list of whole words that was walked to its end is written again as it was. -/
theorem encode_of_collect (hwords : area.length % 4 = 0) (hlate : EndsLate layer area)
    (h : (OptionWalk.collect .kindLength layer area).error = none) :
    encode ((OptionWalk.collect .kindLength layer area).layer.map ofRaw) = some area := by
  obtain ⟨w, hyields, hend, -⟩ := OptionWalk.yields_of_collect h
  have hrun := OptionWalk.run_of_yields hyields hend
  have hsplit : area = (((OptionWalk.collect .kindLength layer area).layer.map ofRaw).map
      octets).flatten ++ w.rest := by
    rw [map_octets_ofRaw]
    exact OptionWalk.rest_of_yields hyields
  have hsum := congrArg List.length hsplit
  rw [List.length_append, length_flatten_octets] at hsum
  rw [encode_eq_some_iff]
  refine ⟨short_of_run rfl hrun, hsplit.trans ?_⟩
  congr 1
  rcases OptionWalk.next_eq_none_iff.mp hend with hrest | hdone
  · rw [hrest, List.length_nil] at hsum
    rw [hrest]
    exact eq_padding (by rw [List.length_nil]; omega) (by decide) (by simp)
  · rw [EndsLate, OptionWalk.final_of_yields hyields hend] at hlate
    obtain ⟨hshort, hzero⟩ := hlate hdone
    exact eq_padding (by omega) hshort hzero

/-- The options of an area of whole words that was walked to its end are in the form that a walk
leaves behind, and can be written again in no more octets. -/
theorem of_collect (hwords : area.length % 4 = 0)
    (h : (OptionWalk.collect .kindLength layer area).error = none) :
    let options := (OptionWalk.collect .kindLength layer area).layer.map ofRaw
    DecodedForm options ∧ Short options ∧ paddedLength options ≤ area.length := by
  intro options
  obtain ⟨w, hyields, hend, -⟩ := OptionWalk.yields_of_collect h
  have hrun := OptionWalk.run_of_yields hyields hend
  have hlength : listLength options = _ := listLength_map_ofRaw rfl hrun
  obtain ⟨-, hinside⟩ := hrun.octets
  simp only [OptionWalk.start] at hinside
  refine ⟨⟨?_, ?_, ?_⟩, short_of_run rfl hrun, ?_⟩
  · intro option hmem hsingle
    obtain ⟨found, hfound, rfl⟩ := List.mem_map.mp hmem
    exact hrun.data_eq_nil found hfound (decide_eq_true hsingle)
  · intro option hmem
    rw [← List.map_dropLast] at hmem
    obtain ⟨found, hfound, rfl⟩ := List.mem_map.mp hmem
    exact beq_eq_false_iff_ne.mp (hrun.isEnd_eq_false found hfound)
  · intro hodd
    rw [hlength] at hodd
    rcases (hrun.failure_eq_none_iff rfl).mp rfl with hall | ⟨last, hlast, hzero⟩
    · rw [hall] at hodd
      exact absurd hwords hodd
    · refine ⟨ofRaw last, ?_, beq_iff_eq.mp hzero⟩
      rw [List.getLast?_map, hlast]
      rfl
  · rw [paddedLength, hlength]
    omega

end KindLength

end PacketLayers
