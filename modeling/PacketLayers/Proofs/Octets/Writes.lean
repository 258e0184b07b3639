import PacketLayers.Proofs.Octets.Stands

/-!
# Octets written in place

An encoder reserves zero octets and then writes the fields of a header over them, each
at its own position and not always in the order of the positions.  Writes that do not
reach into each other are all found in the result (`stands_putAll`), and what none of
them reaches is found there as it was (`Stands.putAll`).  So the order does not matter,
and a header is known from where its fields were written.

What is behind a string is not reached by a write that ends inside of it
(`putAt_append`).
-/

namespace PacketLayers

variable {data part : Octets} {i j : Nat}

/-! ## One write -/

/-- A write changes nothing in front of it and nothing behind it. -/
theorem getElem?_putAt {bs : Octets} (h : j < i ∨ i + bs.length ≤ j) :
    (putAt data i bs)[j]? = data[j]? := by
  induction bs generalizing data i with
  | nil => rfl
  | cons b bs ih =>
      rw [List.length_cons] at h
      rw [putAt, ih (by omega), List.getElem?_set_ne (by omega)]

/-- Octets that fit are written in place, between those in front and those behind. -/
theorem putAt_eq {bs : Octets} (h : i + bs.length ≤ data.length) :
    putAt data i bs = data.take i ++ (bs ++ data.drop (i + bs.length)) := by
  induction bs generalizing data i with
  | nil => simp [putAt]
  | cons b bs ih =>
      rw [List.length_cons] at h
      have hinside : i + 1 + bs.length ≤ (data.set i b).length := by
        rw [List.length_set]
        omega
      have htake : (data.set i b).take (i + 1) = data.take i ++ [b] := by
        rw [List.take_add_one, List.take_set_of_le (Nat.le_refl i),
          List.getElem?_set_self (by omega)]
        rfl
      have hdrop : (data.set i b).drop (i + 1 + bs.length) =
          data.drop (i + (bs.length + 1)) := by
        rw [List.drop_set_of_lt (by omega)]
        congr 1
        omega
      rw [putAt, ih hinside, htake, hdrop, List.append_assoc]
      rfl

/-- What was written is found where it was written. -/
theorem stands_putAt {bs : Octets} (h : i + bs.length ≤ data.length) :
    Stands (putAt data i bs) i bs := by
  have hfront : (data.take i).length = i := List.length_take_of_le (by omega)
  rw [putAt_eq h, Stands, List.drop_left' hfront]
  exact List.prefix_append _ _

/-- What a write does not reach is found where it was. -/
theorem Stands.putAt {bs : Octets} (h : Stands data j part)
    (hapart : i + bs.length ≤ j ∨ j + part.length ≤ i) : Stands (putAt data i bs) j part := by
  rw [Stands, List.prefix_iff_getElem?] at h ⊢
  intro k hk
  have hbefore := h k hk
  rw [List.getElem?_drop] at hbefore ⊢
  rw [getElem?_putAt (by omega), hbefore]

/-- A write inside a string leaves what is behind the string. -/
theorem putAt_append {bs : Octets} (h : i + bs.length ≤ data.length) (behind : Octets) :
    putAt (data ++ behind) i bs = putAt data i bs ++ behind := by
  have hinside : i + bs.length ≤ (data ++ behind).length := by
    rw [List.length_append]
    omega
  rw [putAt_eq h, putAt_eq hinside, List.take_append_of_le_length (by omega),
    List.drop_append_of_le_length h, List.append_assoc, List.append_assoc]

/-- Octets between others are written over by as many. -/
theorem putAt_between {front old new back : Octets} (h : new.length = old.length) :
    putAt (front ++ (old ++ back)) front.length new = front ++ (new ++ back) := by
  have hinside : front.length + new.length ≤ (front ++ (old ++ back)).length := by
    rw [List.length_append, List.length_append]
    omega
  rw [putAt_eq hinside, List.take_left, ← List.drop_drop, List.drop_left, h, List.drop_left]

/-! ## Several writes -/

/-- Octets that are written at a position. -/
structure Write where
  start : Nat
  octets : Octets

namespace Write

/-- The position behind what is written. -/
def stop (w : Write) : Nat := w.start + w.octets.length

/-- Neither of two writes reaches into the other. -/
def Apart (v w : Write) : Prop := v.stop ≤ w.start ∨ w.stop ≤ v.start

end Write

/-- The string after some writes, one after the other. -/
def putAll (data : Octets) (writes : List Write) : Octets :=
  writes.foldl (fun data w => putAt data w.start w.octets) data

variable {writes : List Write}

@[simp] theorem length_putAll (data : Octets) (writes : List Write) :
    (putAll data writes).length = data.length := by
  induction writes generalizing data with
  | nil => rfl
  | cons w writes ih => rw [putAll, List.foldl_cons, ← putAll, ih, length_putAt]

/-- What none of the writes reaches is found where it was. -/
theorem Stands.putAll (h : Stands data i part) (hapart : ∀ w ∈ writes, w.Apart ⟨i, part⟩) :
    Stands (putAll data writes) i part := by
  induction writes generalizing data with
  | nil => exact h
  | cons w writes ih =>
      rw [List.forall_mem_cons] at hapart
      exact ih (h.putAt hapart.1) hapart.2

/-- Writes that do not reach into each other are all found. -/
theorem stands_putAll (hapart : writes.Pairwise Write.Apart)
    (hinside : ∀ w ∈ writes, w.stop ≤ data.length) :
    ∀ w ∈ writes, Stands (putAll data writes) w.start w.octets := by
  induction writes generalizing data with
  | nil => exact fun _ hmem => absurd hmem List.not_mem_nil
  | cons v writes ih =>
      obtain ⟨hfirst, hothers⟩ := List.pairwise_cons.mp hapart
      rw [List.forall_mem_cons] at hinside ⊢
      constructor
      · -- The first write is in place when the others come, and none of them reaches it.
        exact (stands_putAt hinside.1).putAll fun w hw => (hfirst w hw).symm
      · apply ih hothers
        intro w hw
        rw [length_putAt]
        exact hinside.2 w hw

/-- A string of the length of a header is the header once all its parts were written. -/
theorem putAll_eq_of_stands {header : Octets} (hapart : writes.Pairwise Write.Apart)
    (hinside : ∀ w ∈ writes, w.stop ≤ data.length) (hlength : data.length = header.length)
    (hparts : ∀ data, (∀ w ∈ writes, Stands data w.start w.octets) → Stands data 0 header) :
    putAll data writes = header :=
  eq_of_stands_zero (hparts _ (stands_putAll hapart hinside))
    ((length_putAll data writes).trans hlength)

/-- A zero that is written over zero octets changes nothing. -/
theorem putAt_zeros (n i : Nat) :
    putAt (List.replicate n 0) i (be16 0) = List.replicate n 0 := by
  have hzero : be16 0 = [0, 0] := rfl
  rw [hzero, putAt, putAt, putAt, List.set_replicate_self, List.set_replicate_self]

/-- Zero octets are a header once all its parts were written but for one that is zero. -/
theorem putAll_zeros_eq_of_stands {header : Octets} (i : Nat)
    (hapart : (⟨i, be16 0⟩ :: writes).Pairwise Write.Apart)
    (hinside : ∀ w ∈ (⟨i, be16 0⟩ : Write) :: writes, w.stop ≤ header.length)
    (hparts : ∀ data, Stands data i (be16 0) → (∀ w ∈ writes, Stands data w.start w.octets) →
      Stands data 0 header) :
    putAll (List.replicate header.length 0) writes = header := by
  have hlength : (List.replicate header.length (0 : UInt8)).length = header.length :=
    List.length_replicate
  rw [← hlength] at hinside
  have hall := putAll_eq_of_stands hapart hinside hlength fun data h =>
    hparts data (List.forall_mem_cons.mp h).1 (List.forall_mem_cons.mp h).2
  rwa [putAll, List.foldl_cons, putAt_zeros, ← putAll] at hall

end PacketLayers
