import PacketLayers.Proofs.Octets.Writes
import PacketLayers.Stack

/-!
# The octets of a stack

`Buffer.octets` is the string that a buffer stands for, and each operation of a
buffer is described by what it does to that string: room that is made in front is
not part of it, a header is put in front of it and a trailer behind it.

From this follows what a stack of layers writes.  The octets of a stack are those of
the layers inside, with the header and the trailer of the outermost layer around
them, and there are such octets exactly if all of the layers could be written.
-/

namespace PacketLayers

/-! ## Buffers -/

namespace Buffer

variable {b : Buffer} {bs : Octets} {i n : Nat}

/-- An array is overwritten as the string of its octets is. -/
theorem toList_overwrite (data : Array UInt8) (i : Nat) (bs : Octets) :
    (overwrite data i bs).toList = putAt data.toList i bs := by
  induction bs generalizing data i with
  | nil => rfl
  | cons b bs ih => rw [overwrite, ih, Array.toList_setIfInBounds, putAt]

theorem octets_eq (b : Buffer) : b.octets = b.data.toList.drop b.start := by
  rw [octets, Array.toList_extract, List.extract_eq_take_drop]
  apply List.take_of_length_le
  apply Nat.le_of_eq
  rw [List.length_drop, Array.length_toList]

theorem length_octets (b : Buffer) : b.octets.length = b.length := by
  rw [octets_eq, List.length_drop, Array.length_toList, length]

@[simp] theorem octets_empty : empty.octets = [] := rfl

/-- Room in front of a string is not part of it. -/
theorem octets_makeRoom (b : Buffer) (n : Nat) :
    (b.makeRoom n).octets = b.octets ∧ n ≤ (b.makeRoom n).start := by
  unfold makeRoom
  split
  · constructor
    · simp [octets_eq, List.drop_append]
    · simp only
      omega
  · next hroom => exact ⟨rfl, Nat.le_of_not_lt hroom⟩

theorem octets_prependZeros (b : Buffer) (n : Nat) :
    (b.prependZeros n).octets = List.replicate n 0 ++ b.octets := by
  obtain ⟨hsame, hroom⟩ := octets_makeRoom b n
  have hinside := (b.makeRoom n).start_le
  have hsize : (b.makeRoom n).data.toList.length = (b.makeRoom n).data.size :=
    Array.length_toList
  rw [← hsame]
  simp only [prependZeros, octets_eq]
  rw [toList_overwrite, putAt_eq (by rw [List.length_replicate]; omega), List.drop_append,
    List.length_take, hsize, Nat.min_eq_left (by omega), Nat.sub_self, List.drop_zero,
    List.drop_take, Nat.sub_self, List.take_zero, List.nil_append, List.length_replicate,
    Nat.sub_add_cancel hroom]

theorem octets_appendZeros (b : Buffer) (n : Nat) :
    (b.appendZeros n).octets = b.octets ++ List.replicate n 0 := by
  have hinside := b.start_le
  simp only [appendZeros, octets_eq, Array.toList_append, Array.toList_replicate, List.drop_append,
    Array.length_toList, Nat.sub_eq_zero_of_le hinside, List.drop_zero]

/-- Octets that fit are written in place, and nothing else changes. -/
theorem octets_write (h : i + bs.length ≤ b.octets.length) :
    (b.write i bs).octets = b.octets.take i ++ (bs ++ b.octets.drop (i + bs.length)) := by
  have hinside := b.start_le
  have hsize : b.data.toList.length = b.data.size := Array.length_toList
  rw [length_octets, length] at h
  simp only [write, octets_eq]
  rw [toList_overwrite, putAt_eq (by omega), List.drop_append, List.length_take, hsize,
    Nat.min_eq_left (by omega), Nat.sub_eq_zero_of_le (Nat.le_add_right _ _), List.drop_zero,
    List.drop_take, Nat.add_sub_cancel_left, List.drop_drop, Nat.add_assoc]

/-- A header is put in front of a string. -/
theorem octets_prepend (b : Buffer) (bs : Octets) : (b.prepend bs).octets = bs ++ b.octets := by
  have hzeros := octets_prependZeros b bs.length
  rw [prepend, octets_write]
  · rw [hzeros, Nat.zero_add, List.take_zero, List.nil_append,
      List.drop_left' (List.length_replicate)]
  · rw [hzeros, List.length_append, List.length_replicate]
    omega

/-- A trailer is put behind a string. -/
theorem octets_append (b : Buffer) (bs : Octets) : (b.append bs).octets = b.octets ++ bs := by
  have hzeros := octets_appendZeros b bs.length
  have hlength : b.octets.length + bs.length = (b.appendZeros bs.length).octets.length := by
    rw [hzeros, List.length_append, List.length_replicate]
  rw [append, ← length_octets, octets_write (Nat.le_of_eq hlength), hlength, List.drop_length,
    hzeros, List.take_left, List.append_nil]

/-- A layer puts its header in front of the octets of its payload and its trailer
behind them. -/
theorem octets_wrap (b : Buffer) (w : Wrapping) :
    (b.wrap w).octets = w.header ++ (b.octets ++ w.trailer) := by
  rw [wrap, octets_append, octets_prepend, List.append_assoc]

end Buffer

/-! ## Stacks -/

theorem Serialization.map_eq_write {L M : Type} (f : L → M) {s : Serialization L} {layer : L}
    {header : Octets} (h : s = .write layer header) : s.map f = .write (f layer) header := by
  rw [h]
  rfl

/-- Octets that are there can be computed. -/
theorem StackWriting.octets_eq_ok_iff {L : Type} {s : StackWriting L} {octets : Octets} :
    s.octets = .ok octets ↔ s.octets.toOption = some octets := by
  cases s.octets with
  | error error => simp [Except.toOption]
  | ok written => simp [Except.toOption]

variable {L : Type} [Layer L] {options : SerializeOptions} {outer : L} {inner : List L}

@[simp] theorem serializeStack_nil_octets :
    (serializeStack (L := L) options []).octets = .ok [] := rfl

/-- The octets of a stack are those of the layers inside, wrapped by the outermost
layer. -/
theorem serializeStack_cons_octets_iff {octets : Octets} :
    (serializeStack options (outer :: inner)).octets = .ok octets ↔
      ∃ body w, (serializeStack options inner).octets = .ok body ∧
        (Layer.serialize outer options body).outcome = .ok w ∧
        octets = w.header ++ (body ++ w.trailer) := by
  rw [StackWriting.octets, StackWriting.octets, serializeStack]
  cases hbelow : (serializeStack options inner).outcome with
  | error error => simp [Except.map]
  | ok buffer =>
      cases hwritten : (Layer.serialize outer options buffer.octets).outcome with
      | error error => simp [Except.map, hwritten]
      | ok w => simp [Except.map, hwritten, Buffer.octets_wrap, eq_comm]

/-- The octets of a stack without a buffer, if all of its layers can be written. -/
def stackOctets? (options : SerializeOptions) : List L → Option Octets
  | [] => some []
  | outer :: inner =>
    (stackOctets? options inner).bind fun body =>
      (Layer.serialize outer options body).outcome.toOption.map fun w =>
        w.header ++ (body ++ w.trailer)

/-- The octets that are there are computed faster without a buffer. -/
theorem serializeStack_octets_eq_ok_iff {stack : List L} {octets : Octets} :
    (serializeStack options stack).octets = .ok octets ↔
      stackOctets? options stack = some octets := by
  induction stack generalizing octets with
  | nil =>
      rw [serializeStack_nil_octets, stackOctets?, Except.ok.injEq, Option.some.injEq]
  | cons outer inner ih =>
      rw [serializeStack_cons_octets_iff, stackOctets?, Option.bind_eq_some_iff]
      constructor
      · rintro ⟨body, w, hbody, hw, rfl⟩
        exact ⟨body, ih.mp hbody, by rw [hw]; rfl⟩
      · rintro ⟨body, hbody, hwrapped⟩
        cases hw : (Layer.serialize outer options body).outcome with
        | error error =>
            rw [hw] at hwrapped
            cases hwrapped
        | ok w =>
            rw [hw] at hwrapped
            exact ⟨body, w, ih.mpr hbody, hw, (Option.some.inj hwrapped).symm⟩

/-- The layers of a stack come back one by one. -/
theorem serializeStack_cons_layers {body : Octets}
    (h : (serializeStack options inner).octets = .ok body) :
    (serializeStack options (outer :: inner)).layers =
      (Layer.serialize outer options body).layer :: (serializeStack options inner).layers := by
  rw [StackWriting.octets] at h
  rw [serializeStack]
  cases hbelow : (serializeStack options inner).outcome with
  | error error =>
      rw [hbelow] at h
      cases h
  | ok buffer =>
      rw [hbelow] at h
      obtain rfl : buffer.octets = body := Except.ok.inj h
      rfl

/-- An outermost layer that writes a header and no trailer. -/
theorem serializeStack_cons_of_write {body header : Octets} {written : L}
    (h : (serializeStack options inner).octets = .ok body)
    (houter : Layer.serialize outer options body = .write written header) :
    (serializeStack options (outer :: inner)).octets = .ok (header ++ body) ∧
      (serializeStack options (outer :: inner)).layers =
        written :: (serializeStack options inner).layers := by
  constructor
  · rw [serializeStack_cons_octets_iff]
    refine ⟨body, ⟨header, []⟩, h, ?_, ?_⟩
    · rw [houter]
      rfl
    · rw [List.append_nil]
  · rw [serializeStack_cons_layers h, houter]
    rfl

end PacketLayers
