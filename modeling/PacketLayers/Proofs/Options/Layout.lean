import Mathlib.Logic.Function.Iterate
import PacketLayers.Proofs.Octets.Stands
import PacketLayers.Proofs.Options.KindLength

/-!
# Where the options of a list lie

A walk over an option list hands out options, then at most one error, and then
nothing.  The options lie one behind the other from the first octet on, and written
again one by one (`OptionFormat.encode`) they are the octets that were walked: a walk
loses nothing and skips nothing.

What one call of `next` does is said once for all formats, by `OptionWalk.Step` case by
case and by `OptionWalk.Takes` for an option that is handed out.  What all calls do
together is `OptionWalk.HandsOut`.  The main statement is `OptionWalk.walk_lossless`.
-/

namespace PacketLayers

namespace OptionFormat

variable {format : OptionFormat} {header : Octets}

/-- Tag and length as they stand in front of the data.  The length is that of the whole
option; each format counts it in its own unit. -/
def headerOctets (format : OptionFormat) (tag : UInt16) (length : Nat) : Octets :=
  match format with
  | .kindLength => [tag.toUInt8, UInt8.ofNat length]
  | .neighborDiscovery => [tag.toUInt8, UInt8.ofNat (length / 8)]
  | .commonPacketFormat => le16 tag ++ le16 (UInt16.ofNat (length - 4))

/-- The octets of an option: a lone tag octet for the kinds that are one, and otherwise
tag, length and data. -/
def encode (format : OptionFormat) (option : RawOption) : Octets :=
  if format.isSingle option.tag.toUInt8 then
    [option.tag.toUInt8]
  else
    format.headerOctets option.tag (format.headerLength + option.data.length) ++ option.data

/-- A header is made of the tag and the length that are read from it. -/
theorem headerOctets_of_length (h : header.length = format.headerLength) :
    format.headerOctets (format.tag header) (format.totalLength header) = header := by
  have hpair (i : Nat) (hi : i + 2 ≤ header.length) :
      Stands header i [octetAt header i, octetAt header (i + 1)] := by
    rw [stands_cons_iff]
    exact ⟨stands_octetAt (by omega), stands_octetAt (by omega)⟩
  symm
  cases format with
  | commonPacketFormat =>
      have hfour : header.length = 4 := h
      simp only [headerOctets, tag, totalLength, Nat.add_sub_cancel, UInt16.ofNat_toNat,
        le16_le16At]
      refine eq_of_stands_zero ?_ h
      rw [stands_append_iff]
      exact ⟨hpair 0 (by omega), hpair 2 (by omega)⟩
  | _ =>
      have htwo : header.length = 2 := h
      simp only [headerOctets, tag, totalLength, UInt8.toUInt8_toUInt16, UInt8.ofNat_toNat,
        Nat.mul_div_cancel _ (Nat.succ_pos 7)]
      exact eq_of_stands_zero (hpair 0 (by omega)) h

/-- An octet that ends a list is a lone one. -/
theorem isEnd_eq_false {first : UInt8} (h : format.isSingle first = false) :
    format.isEnd first = false := by
  cases format with
  | kindLength =>
      rw [isSingle, decide_eq_false_iff_not] at h
      rw [isEnd, beq_eq_false_iff_ne]
      rintro rfl
      exact h (by decide)
  | _ => rfl

/-- Only an option that is read from a lone octet has the tag of one. -/
theorem isSingle_tag {first : UInt8} {tail : Octets} :
    format.isSingle (format.tag ((first :: tail).take format.headerLength)).toUInt8 =
      format.isSingle first := by
  cases format with
  | kindLength => simp [headerLength, tag, octetAt]
  | _ => rfl

end OptionFormat

namespace OptionWalk

variable {w behind : OptionWalk} {option : RawOption} {error : DecodeError}
  {item : Except DecodeError RawOption}

/-! ## One call -/

/-- What is read where no lone octet stands, by the octets that are left. -/
theorem readOption_eq (w : OptionWalk) :
    w.readOption =
      let header := w.rest.take w.format.headerLength
      let length := w.format.totalLength header
      if w.rest.length < w.format.headerLength then
        .error (.truncated w.layer w.format.headerLength w.rest.length)
      else if length < w.format.headerLength then
        .error (.malformed w.layer "option length shorter than its header")
      else if w.rest.length < length then
        .error (.truncated w.layer length w.rest.length)
      else
        .ok ⟨w.format.tag header, length, slice w.rest w.format.headerLength length⟩ := by
  unfold readOption
  simp only [List.length_take, slice, List.length_drop]
  by_cases hheader : w.rest.length < w.format.headerLength
  · rw [if_pos hheader, if_pos (by omega)]
  · rw [if_neg hheader, if_neg (by omega)]
    split
    · rfl
    · next hlength =>
        -- With the header inside, the data is cut exactly where the option is.
        split
        · next hcut => rw [if_pos (by omega)]
        · next hwhole => rw [if_neg (by omega)]

/-- An option is read if it has room for its header and the octets left have room for it. -/
theorem readOption_eq_ok_iff :
    w.readOption = .ok option ↔
      let header := w.rest.take w.format.headerLength
      let length := w.format.totalLength header
      w.format.headerLength ≤ length ∧ length ≤ w.rest.length ∧
        option = ⟨w.format.tag header, length, slice w.rest w.format.headerLength length⟩ := by
  rw [readOption_eq]
  simp only
  constructor
  · intro h
    split at h
    · cases h
    · split at h
      · cases h
      · next hheader =>
          split at h
          · cases h
          · next hinside =>
              exact ⟨Nat.le_of_not_lt hheader, Nat.le_of_not_lt hinside, (Except.ok.inj h).symm⟩
  · rintro ⟨hheader, hinside, rfl⟩
    rw [if_neg (Nat.not_lt.mpr (Nat.le_trans hheader hinside)), if_neg (Nat.not_lt.mpr hheader),
      if_neg (Nat.not_lt.mpr hinside)]

/-- An option that is read is the octets that it takes, its header in front of its data. -/
theorem encode_of_readOption {first : UInt8} {tail : Octets} (hrest : w.rest = first :: tail)
    (hsingle : w.format.isSingle first = false) (h : w.readOption = .ok option) :
    w.format.encode option = w.rest.take option.length ∧ option.length ≤ w.rest.length ∧
      w.format.isSingle option.tag.toUInt8 = false := by
  obtain ⟨hheader, hinside, rfl⟩ := readOption_eq_ok_iff.mp h
  simp only
  have htag : w.format.isSingle
      (w.format.tag (w.rest.take w.format.headerLength)).toUInt8 = false := by
    rw [hrest, OptionFormat.isSingle_tag, hsingle]
  refine ⟨?_, hinside, htag⟩
  have hlength : (w.rest.take w.format.headerLength).length = w.format.headerLength := by
    rw [List.length_take]
    omega
  rw [OptionFormat.encode, if_neg (by rw [htag]; decide), length_slice hinside,
    Nat.add_sub_cancel' hheader, OptionFormat.headerOctets_of_length hlength, slice,
    ← List.take_add, Nat.add_sub_cancel' hheader]

/-- What one call of `next` does at the first octet that is left. -/
inductive Step (w : OptionWalk) : Except DecodeError RawOption → OptionWalk → Prop where
  | lone {first : UInt8} {tail : Octets} (hrest : w.rest = first :: tail)
      (hsingle : w.format.isSingle first = true) :
      Step w (.ok ⟨first.toUInt16, 1, []⟩) { w.advance 1 with done := w.format.isEnd first }
  | read {first : UInt8} {tail : Octets} {option : RawOption} (hrest : w.rest = first :: tail)
      (hsingle : w.format.isSingle first = false) (hread : w.readOption = .ok option) :
      Step w (.ok option) (w.advance option.length)
  | fail {first : UInt8} {tail : Octets} {error : DecodeError} (hrest : w.rest = first :: tail)
      (hsingle : w.format.isSingle first = false) (hread : w.readOption = .error error) :
      Step w (.error error) { w with done := true }

/-- A walk hands something out if it is not done and octets are left. -/
theorem next_eq_some_iff : w.next = some (item, behind) ↔ w.done = false ∧ w.Step item behind := by
  unfold next
  constructor
  · intro h
    split at h
    · cases h
    · next first tail hrest =>
        split at h
        · cases h
        · next hopen =>
            refine ⟨Bool.eq_false_iff.mpr hopen, ?_⟩
            split at h
            · next hsingle =>
                obtain ⟨rfl, rfl⟩ := Prod.mk.inj (Option.some.inj h)
                exact .lone hrest hsingle
            · next hsingle =>
                have hlong := Bool.eq_false_iff.mpr hsingle
                split at h
                · next error hread =>
                    obtain ⟨rfl, rfl⟩ := Prod.mk.inj (Option.some.inj h)
                    exact .fail hrest hlong hread
                · next option hread =>
                    obtain ⟨rfl, rfl⟩ := Prod.mk.inj (Option.some.inj h)
                    exact .read hrest hlong hread
  · rintro ⟨hopen, hstep⟩
    cases hstep with
    | lone hrest hsingle => simp [hrest, hopen, hsingle]
    | read hrest hsingle hread => simp [hrest, hopen, hsingle, hread]
    | fail hrest hsingle hread => simp [hrest, hopen, hsingle, hread]

/-- From the first walk to the second one, an option is taken from the octets that are left. -/
structure Takes (w : OptionWalk) (option : RawOption) (behind : OptionWalk) : Prop where
  octets : w.rest = w.format.encode option ++ behind.rest
  length : (w.format.encode option).length = option.length
  pos : 0 < option.length
  offset : behind.offset = w.offset + option.length
  format : behind.format = w.format
  layer : behind.layer = w.layer
  done : behind.done = w.format.isEnd option.tag.toUInt8

theorem takes_of_next (h : w.next = some (.ok option, behind)) : w.Takes option behind := by
  obtain ⟨hopen, hstep⟩ := next_eq_some_iff.mp h
  cases hstep with
  | @lone first tail hrest hsingle =>
      have hencode : w.format.encode ⟨first.toUInt16, 1, []⟩ = [first] := by
        simp [OptionFormat.encode, hsingle]
      refine ⟨?_, ?_, Nat.one_pos, rfl, rfl, rfl, ?_⟩
      · rw [hencode, hrest]
        simp [advance, hrest]
      · rw [hencode]
        rfl
      · rw [UInt8.toUInt8_toUInt16]
  | read hrest hsingle hread =>
      obtain ⟨hencode, hinside, htag⟩ := encode_of_readOption hrest hsingle hread
      refine ⟨?_, ?_, length_pos_of_readOption hread, rfl, rfl, rfl, ?_⟩
      · rw [hencode]
        exact (List.take_append_drop option.length w.rest).symm
      · rw [hencode, List.length_take, Nat.min_eq_left hinside]
      · rw [OptionFormat.isEnd_eq_false htag]
        exact hopen

/-- Behind an error a walk stands where it was, and is done. -/
theorem behind_of_error (h : w.next = some (.error error, behind)) :
    behind = { w with done := true } := by
  obtain ⟨-, hstep⟩ := next_eq_some_iff.mp h
  cases hstep with
  | fail hrest hsingle hread => rfl

/-! ## All calls -/

variable {options : List RawOption} {failure : Option DecodeError}

/-- Where a walk stands after one more call of `next`. -/
def called (w : OptionWalk) : OptionWalk := (w.next.map Prod.snd).getD w

/-- The octets that options take in a list. -/
def lengthOf : List RawOption → Nat
  | [] => 0
  | option :: options => option.length + lengthOf options

/-- Options, and then at most one error. -/
def items (options : List RawOption) (failure : Option DecodeError) :
    List (Except DecodeError RawOption) :=
  options.map .ok ++ failure.toList.map .error

/-- The calls of `next` on a walk hand out these options, then this error, if there is one, and
then nothing. -/
structure HandsOut (w : OptionWalk) (options : List RawOption) (failure : Option DecodeError) :
    Prop where
  next : ∀ n, (called^[n] w).next.map Prod.fst = (items options failure)[n]?
  /-- After each call the walk stands behind the options handed out so far; an error moves
  nothing. -/
  stands : ∀ n, (called^[n] w).offset = w.offset + lengthOf (options.take n) ∧
    (called^[n] w).rest = w.rest.drop (lengthOf (options.take n))

/-- The last of some options ends their list. -/
def Ended (format : OptionFormat) (options : List RawOption) : Prop :=
  ∃ last, options.getLast? = some last ∧ format.isEnd last.tag.toUInt8 = true

/-- A walk, taken call by call to its end. -/
inductive Run : OptionWalk → List RawOption → Option DecodeError → Prop where
  | stop {w : OptionWalk} (h : w.next = none) : Run w [] none
  | fail {w behind : OptionWalk} {error : DecodeError}
      (h : w.next = some (.error error, behind)) : Run w [] (some error)
  | more {w behind : OptionWalk} {option : RawOption} {options : List RawOption}
      {failure : Option DecodeError} (h : w.next = some (.ok option, behind))
      (hrest : Run behind options failure) : Run w (option :: options) failure

@[simp] theorem lengthOf_nil : lengthOf [] = 0 := rfl

@[simp] theorem lengthOf_cons : lengthOf (option :: options) = option.length + lengthOf options :=
  rfl

theorem called_of_next (h : w.next = some (item, behind)) : w.called = behind := by
  rw [called, h]
  rfl

theorem iterate_called_of_next_eq_none (h : w.next = none) (n : Nat) : called^[n] w = w := by
  apply Function.iterate_fixed
  rw [called, h]
  rfl

/-- Every walk comes to an end. -/
theorem exists_run (w : OptionWalk) : ∃ options failure, Run w options failure := by
  induction w using final.induct with
  | case1 w option behind hnext ih =>
      obtain ⟨options, failure, hrun⟩ := ih
      exact ⟨option :: options, failure, .more hnext hrun⟩
  | case2 w error behind hnext => exact ⟨[], some error, .fail hnext⟩
  | case3 w hnext => exact ⟨[], none, .stop hnext⟩

theorem Run.handsOut (h : Run w options failure) : w.HandsOut options failure := by
  induction h with
  | @stop w hend =>
      constructor
      · intro n
        rw [iterate_called_of_next_eq_none hend, hend]
        rfl
      · intro n
        rw [iterate_called_of_next_eq_none hend, List.take_nil]
        exact ⟨rfl, rfl⟩
  | @fail w behind error hnext =>
      obtain rfl := behind_of_error hnext
      have hend : ({ w with done := true } : OptionWalk).next = none :=
        next_eq_none_iff.mpr (Or.inr rfl)
      have hcalled (n : Nat) : called^[n + 1] w = { w with done := true } := by
        rw [Function.iterate_succ_apply, called_of_next hnext, iterate_called_of_next_eq_none hend]
      constructor
      · intro n
        cases n with
        | zero =>
            rw [Function.iterate_zero_apply, hnext]
            rfl
        | succ n =>
            rw [hcalled, hend]
            rfl
      · intro n
        cases n with
        | zero => exact ⟨rfl, rfl⟩
        | succ n =>
            rw [hcalled]
            exact ⟨rfl, rfl⟩
  | @more w behind option options failure hnext hrest ih =>
      have htakes := takes_of_next hnext
      have hdrop (k : Nat) : behind.rest.drop k = w.rest.drop (option.length + k) := by
        rw [htakes.octets, ← htakes.length, List.drop_length_add_append]
      constructor
      · intro n
        cases n with
        | zero =>
            rw [Function.iterate_zero_apply, hnext]
            rfl
        | succ n =>
            rw [Function.iterate_succ_apply, called_of_next hnext, ih.next n]
            rfl
      · intro n
        cases n with
        | zero => exact ⟨rfl, rfl⟩
        | succ n =>
            obtain ⟨hoffset, hleft⟩ := ih.stands n
            rw [Function.iterate_succ_apply, called_of_next hnext, hoffset, hleft, htakes.offset,
              hdrop, List.take_succ_cons, lengthOf_cons, Nat.add_assoc]
            exact ⟨rfl, rfl⟩

theorem Run.sized (h : Run w options failure) :
    ∀ option ∈ options, 0 < option.length ∧ (w.format.encode option).length = option.length := by
  induction h with
  | stop hend => simp
  | fail hnext => simp
  | more hnext hrest ih =>
      have htakes := takes_of_next hnext
      rw [htakes.format] at ih
      rw [List.forall_mem_cons]
      exact ⟨⟨htakes.pos, htakes.length⟩, ih⟩

/-- The options of a walk, written one behind the other, are the octets that it took. -/
theorem Run.octets (h : Run w options failure) :
    (options.map w.format.encode).flatten = w.rest.take (lengthOf options) ∧
      lengthOf options ≤ w.rest.length := by
  induction h with
  | stop hend => simp
  | fail hnext => simp
  | more hnext hrest ih =>
      have htakes := takes_of_next hnext
      obtain ⟨hoctets, hinside⟩ := ih
      rw [htakes.format] at hoctets
      constructor
      · rw [List.map_cons, List.flatten_cons, lengthOf_cons, hoctets, htakes.octets,
          ← htakes.length, List.take_length_add_append]
      · rw [lengthOf_cons, htakes.octets, List.length_append, htakes.length]
        omega

theorem ended_cons_iff {format : OptionFormat} :
    Ended format (option :: options) ↔
      (options = [] ∧ format.isEnd option.tag.toUInt8 = true) ∨ Ended format options := by
  cases options with
  | nil => simp [Ended]
  | cons second others => simp [Ended, List.getLast?_cons_cons]

/-- A walk that is done hands out nothing. -/
theorem Run.eq_nil_of_done (h : Run w options failure) (hdone : w.done = true) :
    options = [] ∧ failure = none := by
  have hend : w.next = none := next_eq_none_iff.mpr (Or.inr hdone)
  cases h with
  | stop => exact ⟨rfl, rfl⟩
  | fail hnext =>
      rw [hend] at hnext
      cases hnext
  | more hnext hrest =>
      rw [hend] at hnext
      cases hnext

/-- A walk ends without an error where the octets end and behind an end of the list. -/
theorem Run.failure_eq_none_iff (h : Run w options failure) (hopen : w.done = false) :
    failure = none ↔ lengthOf options = w.rest.length ∨ Ended w.format options := by
  induction h with
  | stop hend =>
      have hempty := (next_eq_none_iff.mp hend).resolve_right (by rw [hopen]; decide)
      simp [hempty]
  | @fail w behind error hnext =>
      obtain ⟨-, hstep⟩ := next_eq_some_iff.mp hnext
      cases hstep with
      | fail hrest hsingle hread => simp [hrest, Ended]
  | @more w behind option options failure hnext hrest ih =>
      have htakes := takes_of_next hnext
      have hlength : lengthOf (option :: options) = w.rest.length ↔
          lengthOf options = behind.rest.length := by
        rw [lengthOf_cons, htakes.octets, List.length_append, htakes.length]
        omega
      rw [hlength, ended_cons_iff, ← htakes.done]
      cases hdone : behind.done with
      | true =>
          obtain ⟨rfl, rfl⟩ := hrest.eq_nil_of_done hdone
          simp
      | false =>
          rw [ih hdone, htakes.format]
          simp

/-- Every walk hands out options that take the octets of the list one behind the other, from the
first one on, and that are written as the octets they take.  It ends without an error exactly if
these are all octets of the list or the last option ends the list; otherwise one error follows the
options, and the walk stays where the option begins that it could not read. -/
theorem walk_lossless (format : OptionFormat) (layer : LayerType) (data : Octets) :
    ∃ options failure, HandsOut (start format layer data) options failure ∧
      (∀ option ∈ options, 0 < option.length ∧ (format.encode option).length = option.length) ∧
      lengthOf options ≤ data.length ∧
      (options.map format.encode).flatten = data.take (lengthOf options) ∧
      (failure = none ↔ lengthOf options = data.length ∨ Ended format options) := by
  obtain ⟨options, failure, hrun⟩ := exists_run (start format layer data)
  obtain ⟨hoctets, hinside⟩ := hrun.octets
  exact ⟨options, failure, hrun.handsOut, hrun.sized, hinside, hoctets,
    hrun.failure_eq_none_iff rfl⟩

end OptionWalk

end PacketLayers
