import PacketLayers.Options.Walk
import PacketLayers.Proofs.Bounds.Reading

/-!
# Option lists are read inside their octets

The walk over an option list with checked readers.  Lengths in the list are
under the control of the sender; the walk compares them with the octets that are
left before it uses them, so the checked walk always has a value, which is that
of `OptionWalk.collect`.
-/

namespace PacketLayers

namespace OptionFormat

variable {format : OptionFormat} {header : Octets}

def tag? (format : OptionFormat) (header : Octets) : Option UInt16 :=
  match format with
  | .kindLength | .neighborDiscovery => (octet? header 0).map UInt8.toUInt16
  | .commonPacketFormat => le16? header 0

def totalLength? (format : OptionFormat) (header : Octets) : Option Nat :=
  match format with
  | .kindLength => (octet? header 1).map UInt8.toNat
  | .neighborDiscovery => (octet? header 1).map fun units => units.toNat * 8
  | .commonPacketFormat => (le16? header 2).map fun length => length.toNat + 4

theorem tag?_eq (h : format.headerLength ≤ header.length) :
    format.tag? header = some (format.tag header) := by
  cases format with
  | commonPacketFormat =>
      exact le16?_eq (Nat.le_trans (by decide) h)
  | _ =>
      have hinside : 0 < header.length := Nat.lt_of_lt_of_le (by decide) h
      simp [tag?, tag, octet?_eq hinside]

theorem totalLength?_eq (h : format.headerLength ≤ header.length) :
    format.totalLength? header = some (format.totalLength header) := by
  cases format with
  | commonPacketFormat =>
      have hinside : 2 + 2 ≤ header.length := h
      simp [totalLength?, totalLength, le16?_eq hinside]
  | _ =>
      have hinside : 1 < header.length := h
      simp [totalLength?, totalLength, octet?_eq hinside]

end OptionFormat

namespace OptionWalk

variable {w : OptionWalk}

def advance? (w : OptionWalk) (length : Nat) : Option OptionWalk := do
  let rest ← behind? w.rest length
  return { w with rest := rest, offset := w.offset + length }

def readOption? (w : OptionWalk) : Option (Except DecodeError RawOption) :=
  let header := w.rest.take w.format.headerLength
  if header.length < w.format.headerLength then
    some (.error (.truncated w.layer w.format.headerLength w.rest.length))
  else do
    let length ← w.format.totalLength? header
    if length < w.format.headerLength then
      return .error (.malformed w.layer "option length shorter than its header")
    else
      let data := slice w.rest w.format.headerLength length
      if data.length < length - w.format.headerLength then
        return .error (.truncated w.layer length w.rest.length)
      else
        let tag ← w.format.tag? header
        return .ok ⟨tag, length, data⟩

def next? (w : OptionWalk) : Option (Option (Except DecodeError RawOption × OptionWalk)) :=
  match w.rest with
  | [] => some none
  | first :: _ =>
    if w.done then
      some none
    else if w.format.isSingle first then do
      let behind ← w.advance? 1
      return some (.ok ⟨first.toUInt16, 1, []⟩, { behind with done := w.format.isEnd first })
    else do
      match ← w.readOption? with
      | .error error => return some (.error error, { w with done := true })
      | .ok option =>
        let behind ← w.advance? option.length
        return some (.ok option, behind)

theorem advance?_eq {length : Nat} (h : length ≤ w.rest.length) :
    w.advance? length = some (w.advance length) := by
  simp [advance?, advance, behind?_eq h]

theorem readOption?_eq (w : OptionWalk) : w.readOption? = some w.readOption := by
  by_cases hheader : (w.rest.take w.format.headerLength).length < w.format.headerLength
  · simp only [readOption?, readOption, hheader, if_true]
  · have hlength := OptionFormat.totalLength?_eq (Nat.le_of_not_lt hheader)
    have htag := OptionFormat.tag?_eq (Nat.le_of_not_lt hheader)
    simp only [readOption?, readOption, hheader, if_false, hlength, htag,
      Option.bind_eq_bind, Option.bind_some]
    split
    · rfl
    · split
      · rfl
      · rfl

/-- An option that could be read lies in the octets that are left, its data
behind its header. -/
theorem bounds_of_readOption {option : RawOption} (h : w.readOption = .ok option) :
    w.format.headerLength ≤ option.length ∧ option.length ≤ w.rest.length ∧
      option.data.length = option.length - w.format.headerLength := by
  unfold readOption at h
  simp only at h
  split at h
  · cases h
  · next hheader =>
      split at h
      · cases h
      · next hlength =>
          split at h
          · cases h
          · next hdata =>
              obtain rfl := Except.ok.inj h
              simp only [slice, List.length_take, List.length_drop] at hheader hdata ⊢
              omega

/-- A step of a walk never reads outside of the octets that are left. -/
theorem next?_eq (w : OptionWalk) : w.next? = some w.next := by
  cases hrest : w.rest with
  | nil => simp only [next?, next, hrest]
  | cons first tail =>
      have hone : 1 ≤ w.rest.length := by simp [hrest]
      by_cases hdone : w.done = true
      · simp only [next?, next, hrest, hdone, if_true]
      · by_cases hsingle : w.format.isSingle first = true
        · simp [next?, next, hrest, hdone, hsingle, advance?_eq hone]
        · cases hread : w.readOption with
          | error error => simp [next?, next, hrest, hdone, hsingle, readOption?_eq, hread]
          | ok option =>
              have hbehind := advance?_eq (bounds_of_readOption hread).2.1
              simp [next?, next, hrest, hdone, hsingle, readOption?_eq, hread, hbehind]

theorem next_of_next? {found : Option (Except DecodeError RawOption × OptionWalk)}
    (h : w.next? = some found) : w.next = found :=
  Option.some.inj ((next?_eq w).symm.trans h)

variable {S : Type}

def visitAll? (visit : S → RawOption → S × Option DecodeError) (state : S) (w : OptionWalk) :
    Option (Decoding S) :=
  match _found : w.next? with
  | none => none
  | some none => some (.accept state)
  | some (some (.error error, _)) => some (.reject state error)
  | some (some (.ok option, behind)) =>
    match visit state option with
    | (state', some error) => some ⟨state', some error, false⟩
    | (state', none) => visitAll? visit state' behind
  termination_by w.rest.length
  decreasing_by exact next_shortens (next_of_next? _found)

def collect? (format : OptionFormat) (layer : LayerType) (data : Octets) :
    Option (Decoding (List RawOption)) := do
  let found ← visitAll? (fun found option => (option :: found, none)) [] (start format layer data)
  return found.map List.reverse

/-- One step of the checked visit, its look at the list replaced by that of the
walk. -/
theorem visitAll?_eq_match (visit : S → RawOption → S × Option DecodeError) (state : S)
    (w : OptionWalk) :
    visitAll? visit state w =
      match w.next with
      | none => some (.accept state)
      | some (.error error, _) => some (.reject state error)
      | some (.ok option, behind) =>
        match visit state option with
        | (state', some error) => some ⟨state', some error, false⟩
        | (state', none) => visitAll? visit state' behind := by
  -- Each arm of the match on the checked look is the arm on the plain one; the
  -- arm without a value is never taken.
  rw [visitAll?]
  split
  · next hfault => simp [next?_eq] at hfault
  · next hend => rw [next_of_next? hend]
  · next error behind herror => rw [next_of_next? herror]
  · next option behind hoption => rw [next_of_next? hoption]

theorem visitAll_eq_match (visit : S → RawOption → S × Option DecodeError) (state : S)
    (w : OptionWalk) :
    visitAll visit state w =
      match w.next with
      | none => .accept state
      | some (.error error, _) => .reject state error
      | some (.ok option, behind) =>
        match visit state option with
        | (state', some error) => ⟨state', some error, false⟩
        | (state', none) => visitAll visit state' behind := by
  rw [visitAll]
  split
  · next hend => simp only [hend]
  · next error behind herror => simp only [herror]
  · next option behind hoption =>
      cases hvisit : visit state option with
      | mk state' outcome =>
          cases outcome with
          | none => simp only [hoption, hvisit]
          | some error => simp only [hoption, hvisit]

/-- No walk reads outside of its octets, whatever it is used for. -/
theorem visitAll?_eq (visit : S → RawOption → S × Option DecodeError) (state : S)
    (w : OptionWalk) : visitAll? visit state w = some (visitAll visit state w) := by
  induction state, w using visitAll.induct visit with
  | case1 state w hend => simp only [visitAll?_eq_match, visitAll_eq_match visit state w, hend]
  | case2 state w error behind hfound =>
      simp only [visitAll?_eq_match, visitAll_eq_match visit state w, hfound]
  | case3 state w option behind hfound state' error hvisit =>
      simp only [visitAll?_eq_match, visitAll_eq_match visit state w, hfound, hvisit]
  | case4 state w option behind hfound state' hvisit ih =>
      rw [visitAll?_eq_match, visitAll_eq_match visit state w]
      simp only [hfound, hvisit]
      exact ih

theorem collect?_eq (format : OptionFormat) (layer : LayerType) (data : Octets) :
    collect? format layer data = some (collect format layer data) := by
  simp [collect?, collect, visitAll?_eq]

end OptionWalk
end PacketLayers
