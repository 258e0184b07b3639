import PacketLayers.Options.KindLength
import PacketLayers.Proofs.Bounds.OptionList

/-!
# Kind-length lists, written and walked

The option lists of IPv4 and TCP headers are written option by option and padded,
and a walk takes them apart again.  `OptionWalk.Yields` is the walk as a relation:
the options it hands out, and where it then stands.  In front of a written option it
hands out that option, so that a walk over a written list is followed by induction
over its options (`KindLength.yields_of_mapM_encodeOption`).

What the walk does not see is the padding.  A list that was walked is written
again in as many octets if the end-of-list octet, should there be one, lies in the
last four octets (`EndsLate`).  What a written list is walked back to depends on
whether it is in the form that a walk leaves behind (`DecodedForm`).
-/

namespace PacketLayers

namespace OptionWalk

/-- From the first walk, the walk hands out these options and then stands at the
second one. -/
inductive Yields : OptionWalk → List RawOption → OptionWalk → Prop where
  | nil (w : OptionWalk) : Yields w [] w
  | cons {w w' w'' : OptionWalk} {option : RawOption} {options : List RawOption}
      (hnext : w.next = some (.ok option, w')) (hrest : Yields w' options w'') :
      Yields w (option :: options) w''

/-- Where a walk stands when it hands out nothing more. -/
def final (w : OptionWalk) : OptionWalk :=
  match _found : w.next with
  | some (.ok _, w') => w'.final
  | some (.error _, _) | none => w
  termination_by w.rest.length
  decreasing_by exact next_shortens _found

/-- Taking options onto those that were found so far. -/
def push (found : List RawOption) (option : RawOption) : List RawOption × Option DecodeError :=
  (option :: found, none)

variable {w w' : OptionWalk} {options : List RawOption}

/-- A walk hands out nothing where no octets are left and behind an end of the list. -/
theorem next_eq_none_iff : w.next = none ↔ w.rest = [] ∨ w.done = true := by
  unfold next
  cases hrest : w.rest with
  | nil => simp
  | cons first tail =>
      cases hdone : w.done with
      | true => simp
      | false =>
          simp only [Bool.false_eq_true, if_false, or_false, reduceCtorEq, iff_false]
          split
          · simp
          · split <;> simp

theorem final_of_next_eq_none (h : w.next = none) : w.final = w := by
  rw [final]
  split
  · next heq =>
      rw [h] at heq
      cases heq
  · rfl
  · rfl

/-- A walk that hands out nothing more stands where it comes to in the end. -/
theorem final_of_yields (h : Yields w options w') (hend : w'.next = none) : w.final = w' := by
  induction h with
  | nil w => exact final_of_next_eq_none hend
  | @cons w w' w'' option options hnext hrest ih =>
      rw [final]
      split
      · next option' behind heq =>
          rw [hnext] at heq
          obtain ⟨-, rfl⟩ := Prod.mk.inj (Option.some.inj heq)
          exact ih hend
      · next error behind heq =>
          rw [hnext] at heq
          cases heq
      · next heq =>
          rw [hnext] at heq
          cases heq

theorem visitAll_of_yields
    (found : List RawOption) (h : Yields w options w') (hend : w'.next = none) :
    visitAll push found w = .accept (options.reverse ++ found) := by
  induction h generalizing found with
  | nil w =>
      rw [visitAll_eq_match, hend]
      rfl
  | @cons w w' w'' option options hnext hrest ih =>
      rw [visitAll_eq_match, hnext]
      simp only [push]
      rw [ih _ hend, List.reverse_cons, List.append_assoc]
      rfl

theorem yields_of_visitAll (found : List RawOption) (w : OptionWalk)
    (h : (visitAll push found w).error = none) :
    ∃ options w', Yields w options w' ∧ w'.next = none ∧
      (visitAll push found w).layer = options.reverse ++ found := by
  induction found, w using visitAll.induct push with
  | case1 found w hend =>
      refine ⟨[], w, .nil w, hend, ?_⟩
      rw [visitAll_eq_match, hend]
      rfl
  | case2 found w error behind hfound =>
      rw [visitAll_eq_match, hfound] at h
      cases h
  | case3 found w option behind hfound found' error hvisit =>
      cases hvisit
  | case4 found w option behind hfound found' hvisit ih =>
      cases hvisit
      rw [visitAll_eq_match, hfound] at h ⊢
      simp only [push] at h ih ⊢
      obtain ⟨options, w', hyields, hend, hlayer⟩ := ih h
      refine ⟨option :: options, w', .cons hfound hyields, hend, ?_⟩
      rw [hlayer, List.reverse_cons, List.append_assoc]
      rfl

variable {format : OptionFormat} {layer : LayerType} {data : Octets}

/-- A walk that ends without an error hands out the whole list. -/
theorem collect_of_yields (h : Yields (start format layer data) options w')
    (hend : w'.next = none) : collect format layer data = .accept options := by
  have hvisit := visitAll_of_yields [] h hend
  rw [List.append_nil] at hvisit
  change (visitAll push [] (start format layer data)).map List.reverse = .accept options
  rw [hvisit]
  simp [Decoding.accept, Decoding.map]

theorem yields_of_collect (h : (collect format layer data).error = none) :
    ∃ w', Yields (start format layer data) (collect format layer data).layer w' ∧
      w'.next = none ∧ collect format layer data = .accept (collect format layer data).layer := by
  obtain ⟨options, w', hyields, hend, -⟩ :=
    yields_of_visitAll [] (start format layer data) h
  rw [collect_of_yields hyields hend]
  exact ⟨w', hyields, hend, rfl⟩

end OptionWalk

namespace KindLength

open OptionWalk (Yields)

/-- An option as the encoder takes it. -/
def ofRaw (option : RawOption) : UInt8 × Octets := (option.tag.toUInt8, option.data)

/-- The octets that an option takes in a list. -/
def optionLength (option : UInt8 × Octets) : Nat :=
  if option.1 ≤ 1 then 1 else option.2.length + 2

/-- The octets that all options of a list take. -/
def listLength : List (UInt8 × Octets) → Nat
  | [] => 0
  | option :: options => optionLength option + listLength options

/-- An option as a walk finds it. -/
def toRaw (option : UInt8 × Octets) : RawOption :=
  ⟨option.1.toUInt16, optionLength option, option.2⟩

/-- The form of the lists that a walk hands out: the lone octets carry no data, an
end of the list is the last option, and it is there if the octets in front of it do
not fill up words of four. -/
structure DecodedForm (options : List (UInt8 × Octets)) : Prop where
  lone : ∀ option ∈ options, option.1 ≤ 1 → option.2 = []
  ends : ∀ option ∈ options.dropLast, option.1 ≠ 0
  padded : listLength options % 4 ≠ 0 →
    ∃ option, options.getLast? = some option ∧ option.1 = 0

/-- Behind an end-of-list octet that the walk over a list comes to, at most three
octets are left, and these are zero. -/
def EndsLate (layer : LayerType) (area : Octets) : Prop :=
  let w := (OptionWalk.start .kindLength layer area).final
  w.done = true → w.rest.length < 4 ∧ ∀ b ∈ w.rest, b = 0

instance (layer : LayerType) (area : Octets) : Decidable (EndsLate layer area) :=
  inferInstanceAs (Decidable (_ → _))

/-! ## One step -/

/-- In front of a written option, a walk finds that option. -/
theorem next_of_encodeOption {w : OptionWalk} {kind : UInt8} {data part behind : Octets}
    (hformat : w.format = .kindLength) (hdone : w.done = false)
    (hpart : encodeOption kind data = some part) (hlone : kind ≤ 1 → data = [])
    (hrest : w.rest = part ++ behind) :
    ∃ w', w.next = some (.ok (toRaw (kind, data)), w') ∧ w'.format = .kindLength ∧
      w'.rest = behind ∧ (w'.done = true ↔ kind = 0) := by
  unfold encodeOption at hpart
  split at hpart
  · next hsingle =>
      obtain rfl := Option.some.inj hpart
      obtain rfl := hlone hsingle
      refine ⟨{ w.advance 1 with done := w.format.isEnd kind }, ?_, hformat, ?_, ?_⟩
      · simp [OptionWalk.next, hrest, hdone, hformat, OptionFormat.isSingle, hsingle, toRaw,
          optionLength]
      · simp [OptionWalk.advance, hrest]
      · simp [hformat, OptionFormat.isEnd]
  · next hsingle =>
      split at hpart
      · next hshort =>
          obtain rfl := Option.some.inj hpart
          have hlength : (data.length + 2) % 256 = data.length + 2 := Nat.mod_eq_of_lt (by omega)
          have hread : w.readOption = .ok (toRaw (kind, data)) := by
            simp [OptionWalk.readOption, hformat, hrest, OptionFormat.headerLength,
              OptionFormat.totalLength, OptionFormat.tag, octetAt, slice, toRaw, optionLength,
              hsingle, hlength]
          refine ⟨w.advance (data.length + 2), ?_, hformat, ?_, ?_⟩
          · simp [OptionWalk.next, hrest, hdone, hformat, OptionFormat.isSingle, hsingle, hread,
              toRaw, optionLength]
          · simp [OptionWalk.advance, hrest]
          · have hkind : kind ≠ 0 := by
              rintro rfl
              exact hsingle (by decide)
            simp [OptionWalk.advance, hdone, hkind]
      · cases hpart

/-! ## Whole lists -/

/-- Options are written one after the other. -/
theorem exists_of_mapM_cons
    {option : UInt8 × Octets} {options : List (UInt8 × Octets)} {parts : List Octets}
    (h : (option :: options).mapM (fun option => encodeOption option.1 option.2) = some parts) :
    ∃ part parts', encodeOption option.1 option.2 = some part ∧
      options.mapM (fun option => encodeOption option.1 option.2) = some parts' ∧
      parts = part :: parts' := by
  simp only [List.mapM_cons, Option.bind_eq_bind, Option.bind_eq_some_iff, Option.pure_def,
    Option.some.injEq] at h
  obtain ⟨part, hpart, parts', hparts, rfl⟩ := h
  exact ⟨part, parts', hpart, hparts, rfl⟩

/-- A walk over written options hands them out, if an end of the list is the last of
them. -/
theorem yields_of_mapM_encodeOption
    {options : List (UInt8 × Octets)} {parts : List Octets}
    (hparts : options.mapM (fun option => encodeOption option.1 option.2) = some parts)
    (hlone : ∀ option ∈ options, option.1 ≤ 1 → option.2 = [])
    (hends : ∀ option ∈ options.dropLast, option.1 ≠ 0)
    {w : OptionWalk} {behind : Octets} (hformat : w.format = .kindLength)
    (hdone : w.done = false) (hrest : w.rest = parts.flatten ++ behind) :
    ∃ w', Yields w (options.map toRaw) w' ∧ w'.rest = behind ∧
      (w'.done = true ↔ ∃ option, options.getLast? = some option ∧ option.1 = 0) := by
  induction options generalizing w parts with
  | nil =>
      obtain rfl : parts = [] := by simpa using hparts.symm
      exact ⟨w, .nil w, by simpa using hrest, by simp [hdone]⟩
  | cons option options ih =>
      obtain ⟨part, parts', hpart, hparts', rfl⟩ := exists_of_mapM_cons hparts
      rw [List.flatten_cons, List.append_assoc] at hrest
      obtain ⟨w', hnext, hformat', hrest', hdone'⟩ :=
        next_of_encodeOption hformat hdone hpart (hlone option List.mem_cons_self) hrest
      cases options with
      | nil =>
          obtain rfl : parts' = [] := by simpa using hparts'.symm
          refine ⟨w', .cons hnext (.nil w'), by simpa using hrest', ?_⟩
          rw [hdone']
          simp
      | cons second others =>
          have hkind : option.1 ≠ 0 := hends option (by simp)
          have hopen : w'.done = false := Bool.eq_false_iff.mpr fun h => hkind (hdone'.mp h)
          obtain ⟨w'', hyields, hbehind, hlast⟩ := ih hparts'
            (fun o ho => hlone o (List.mem_cons_of_mem _ ho))
            (fun o ho => hends o (List.mem_cons_of_mem _ ho)) hformat' hopen hrest'
          refine ⟨w'', .cons hnext hyields, hbehind, ?_⟩
          rw [hlast, List.getLast?_cons_cons]

theorem length_encode
    {options : List (UInt8 × Octets)} {encoded : Octets} (h : encode options = some encoded) :
    encoded.length % 4 = 0 := by
  obtain ⟨parts, -, rfl⟩ := Option.map_eq_some_iff.mp h
  rw [List.length_append, padding, List.length_replicate]
  omega

end KindLength
end PacketLayers
