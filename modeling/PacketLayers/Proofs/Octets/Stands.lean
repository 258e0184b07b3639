import PacketLayers.Octets

/-!
# Octets that stand in a string

`Stands data i part` says that the octets `part` are found in `data` from position
`i` on.  What an encoder wrote is said with it field by field, and so is what a
decoder read: a reader at a position gives the value whose octets stand there, and
inside a string the octets of the value that it gives stand there.

A header that was written and is read back, and a header that was read and is
written again, are both settled by the two families of lemmas below.
-/

namespace PacketLayers

/-- The octets `part` are found in `data` from position `i` on. -/
def Stands (data : Octets) (i : Nat) (part : Octets) : Prop := part <+: data.drop i

variable {data part : Octets} {i n : Nat}

/-! ## Parts of parts -/

theorem stands_zero_iff : Stands data 0 part ↔ part <+: data := by
  rw [Stands, List.drop_zero]

theorem stands_append_iff {first second : Octets} :
    Stands data i (first ++ second) ↔
      Stands data i first ∧ Stands data (i + first.length) second := by
  rw [Stands, Stands, Stands, ← List.drop_drop]
  constructor
  · rintro ⟨rest, hrest⟩
    rw [← hrest, List.append_assoc]
    refine ⟨List.prefix_append _ _, ?_⟩
    rw [List.drop_left]
    exact List.prefix_append _ _
  · rintro ⟨⟨rest, hrest⟩, hsecond⟩
    rw [← hrest, List.drop_left] at hsecond
    rw [← hrest]
    exact List.prefix_append_right_inj first |>.mpr hsecond

theorem stands_cons_iff {b : UInt8} :
    Stands data i (b :: part) ↔ Stands data i [b] ∧ Stands data (i + 1) part := by
  rw [← List.singleton_append, stands_append_iff]
  rfl

/-- A string stands at its own start. -/
theorem stands_self (data : Octets) : Stands data 0 data :=
  stands_zero_iff.mpr List.prefix_rfl

/-- What stands at the start of a string and is as long as the string is all of it. -/
theorem eq_of_stands_zero (h : Stands data 0 part)
    (hlength : data.length = part.length) : data = part :=
  ((stands_zero_iff.mp h).eq_of_length hlength.symm).symm

/-- What stands in a string is a slice of it. -/
theorem Stands.eq_slice (h : Stands data i part) : part = slice data i (i + part.length) := by
  rw [slice, Nat.add_sub_cancel_left]
  exact List.prefix_iff_eq_take.mp h

theorem Stands.eq_take (h : Stands data 0 part) (hlength : part.length = n) :
    part = data.take n := by
  rw [← hlength]
  exact List.prefix_iff_eq_take.mp (stands_zero_iff.mp h)

/-- What stands in a string ends inside it. -/
theorem Stands.add_length_le (h : Stands data i part) (hi : i ≤ data.length) :
    i + part.length ≤ data.length := by
  have hlength : part.length ≤ (data.drop i).length := List.IsPrefix.length_le h
  rw [List.length_drop] at hlength
  omega

theorem stands_slice {stop : Nat} : Stands data i (slice data i stop) :=
  List.take_prefix _ _

/-- What stands in a part of a string stands in the string. -/
theorem Stands.trans {whole : Octets} {j : Nat} (h : Stands whole j data)
    (hpart : Stands data i part) : Stands whole (j + i) part := by
  have hinside : data.drop i <+: whole.drop (j + i) := by
    obtain ⟨rest, hrest⟩ := h
    rw [← List.drop_drop, ← hrest, List.drop_append]
    exact List.prefix_append _ _
  exact List.IsPrefix.trans hpart hinside

/-- What stands in the first octets of a string is what stands in the string and
ends inside them. -/
theorem stands_take_iff (hpart : part ≠ []) :
    Stands (data.take n) i part ↔ Stands data i part ∧ i + part.length ≤ n := by
  rw [Stands, Stands, List.drop_take]
  have hpos : 0 < part.length := List.length_pos_iff.mpr hpart
  constructor
  · intro h
    have hlength : part.length ≤ (List.take (n - i) (data.drop i)).length :=
      List.IsPrefix.length_le h
    rw [List.length_take] at hlength
    refine ⟨h.trans (List.take_prefix _ _), ?_⟩
    omega
  · rintro ⟨h, hinside⟩
    exact List.prefix_take_iff.mpr ⟨h, by omega⟩

/-! ## Readers give what stands in the string -/

theorem stands_singleton_iff {b : UInt8} : Stands data i [b] ↔ data[i]? = some b := by
  rw [Stands, List.singleton_prefix_iff_head?_eq_some, List.head?_drop]

theorem Stands.octetAt_eq {b : UInt8} (h : Stands data i [b]) : octetAt data i = b := by
  rw [octetAt, List.getD_eq_getElem?_getD, stands_singleton_iff.mp h, Option.getD_some]

theorem Stands.be16At_eq {w : UInt16} (h : Stands data i (be16 w)) : be16At data i = w := by
  obtain ⟨hhigh, hlow⟩ := stands_cons_iff.mp h
  have hw : w.toNat < 65536 := w.toNat_lt
  apply UInt16.toNat_inj.mp
  rw [be16At, hhigh.octetAt_eq, hlow.octetAt_eq]
  simp
  omega

theorem Stands.be32At_eq {w : UInt32} (h : Stands data i (be32 w)) : be32At data i = w := by
  obtain ⟨hhigh, hlow⟩ := stands_append_iff.mp h
  have hw : w.toNat < 4294967296 := w.toNat_lt
  apply UInt32.toNat_inj.mp
  rw [be32At, hhigh.be16At_eq, ← length_be16, hlow.be16At_eq]
  simp
  omega

theorem Stands.le16At_eq {w : UInt16} (h : Stands data i (le16 w)) : le16At data i = w := by
  obtain ⟨hlow, hhigh⟩ := stands_cons_iff.mp h
  have hw : w.toNat < 65536 := w.toNat_lt
  apply UInt16.toNat_inj.mp
  rw [le16At, hhigh.octetAt_eq, hlow.octetAt_eq]
  simp
  omega

theorem Stands.le32At_eq {w : UInt32} (h : Stands data i (le32 w)) : le32At data i = w := by
  obtain ⟨hlow, hhigh⟩ := stands_append_iff.mp h
  have hw : w.toNat < 4294967296 := w.toNat_lt
  apply UInt32.toNat_inj.mp
  rw [le32At, hlow.le16At_eq, ← length_le16, hhigh.le16At_eq]
  simp
  omega

theorem Stands.blockAt_eq {block : Vector UInt8 n} (h : Stands data i block.toList) :
    blockAt n data i = block := by
  refine Vector.ext ?_
  intro k hk
  have hread : (data.drop i)[k]? = block.toList[k]? := by
    rw [List.prefix_iff_eq_take.mp h, List.getElem?_take, if_pos]
    simpa using hk
  rw [blockAt, Vector.getElem_ofFn, octetAt, List.getD_eq_getElem?_getD, ← List.getElem?_drop,
    hread]
  simp [hk]

/-! ## Words as numbers -/

theorem toNat_be16At (data : Octets) (i : Nat) :
    (be16At data i).toNat = (octetAt data i).toNat * 256 + (octetAt data (i + 1)).toNat := by
  have hhigh : (octetAt data i).toNat < 256 := (octetAt data i).toNat_lt
  have hlow : (octetAt data (i + 1)).toNat < 256 := (octetAt data (i + 1)).toNat_lt
  rw [be16At, UInt16.toNat_ofNat', Nat.mod_eq_of_lt (by omega)]

theorem toNat_be32At (data : Octets) (i : Nat) :
    (be32At data i).toNat = (be16At data i).toNat * 65536 + (be16At data (i + 2)).toNat := by
  have hhigh : (be16At data i).toNat < 65536 := (be16At data i).toNat_lt
  have hlow : (be16At data (i + 2)).toNat < 65536 := (be16At data (i + 2)).toNat_lt
  rw [be32At, UInt32.toNat_ofNat', Nat.mod_eq_of_lt (by omega)]

theorem toNat_le16At (data : Octets) (i : Nat) :
    (le16At data i).toNat = (octetAt data (i + 1)).toNat * 256 + (octetAt data i).toNat := by
  have hlow : (octetAt data i).toNat < 256 := (octetAt data i).toNat_lt
  have hhigh : (octetAt data (i + 1)).toNat < 256 := (octetAt data (i + 1)).toNat_lt
  rw [le16At, UInt16.toNat_ofNat', Nat.mod_eq_of_lt (by omega)]

theorem toNat_le32At (data : Octets) (i : Nat) :
    (le32At data i).toNat = (le16At data (i + 2)).toNat * 65536 + (le16At data i).toNat := by
  have hhigh : (le16At data (i + 2)).toNat < 65536 := (le16At data (i + 2)).toNat_lt
  have hlow : (le16At data i).toNat < 65536 := (le16At data i).toNat_lt
  rw [le32At, UInt32.toNat_ofNat', Nat.mod_eq_of_lt (by omega)]

/-! ## Inside a string, what is read stands there -/

theorem stands_octetAt (h : i < data.length) : Stands data i [octetAt data i] := by
  rw [stands_singleton_iff, octetAt, List.getD_eq_getElem?_getD, List.getElem?_eq_getElem h]
  rfl

theorem be16_be16At (data : Octets) (i : Nat) :
    be16 (be16At data i) = [octetAt data i, octetAt data (i + 1)] := by
  have hlow : (octetAt data (i + 1)).toNat < 256 := (octetAt data (i + 1)).toNat_lt
  have hword := toNat_be16At data i
  have hfirst : (be16At data i).toNat / 256 = (octetAt data i).toNat := by omega
  have hsecond : (be16At data i).toNat % 256 = (octetAt data (i + 1)).toNat := by omega
  rw [be16, hfirst, hsecond, UInt8.ofNat_toNat, UInt8.ofNat_toNat]

theorem stands_be16At (h : i + 2 ≤ data.length) : Stands data i (be16 (be16At data i)) := by
  rw [be16_be16At, stands_cons_iff]
  exact ⟨stands_octetAt (by omega), stands_octetAt (by omega)⟩

theorem stands_be32At (h : i + 4 ≤ data.length) : Stands data i (be32 (be32At data i)) := by
  have hlow : (be16At data (i + 2)).toNat < 65536 := (be16At data (i + 2)).toNat_lt
  have hword := toNat_be32At data i
  have hfirst : (be32At data i).toNat / 65536 = (be16At data i).toNat := by omega
  have hsecond : (be32At data i).toNat % 65536 = (be16At data (i + 2)).toNat := by omega
  rw [be32, hfirst, hsecond, UInt16.ofNat_toNat, UInt16.ofNat_toNat, stands_append_iff,
    length_be16]
  exact ⟨stands_be16At (by omega), stands_be16At (by omega)⟩

theorem le16_le16At (data : Octets) (i : Nat) :
    le16 (le16At data i) = [octetAt data i, octetAt data (i + 1)] := by
  have hlow : (octetAt data i).toNat < 256 := (octetAt data i).toNat_lt
  have hword := toNat_le16At data i
  have hfirst : (le16At data i).toNat % 256 = (octetAt data i).toNat := by omega
  have hsecond : (le16At data i).toNat / 256 = (octetAt data (i + 1)).toNat := by omega
  rw [le16, hfirst, hsecond, UInt8.ofNat_toNat, UInt8.ofNat_toNat]

theorem stands_le16At (h : i + 2 ≤ data.length) : Stands data i (le16 (le16At data i)) := by
  rw [le16_le16At, stands_cons_iff]
  exact ⟨stands_octetAt (by omega), stands_octetAt (by omega)⟩

theorem stands_le32At (h : i + 4 ≤ data.length) : Stands data i (le32 (le32At data i)) := by
  have hlow : (le16At data i).toNat < 65536 := (le16At data i).toNat_lt
  have hword := toNat_le32At data i
  have hfirst : (le32At data i).toNat % 65536 = (le16At data i).toNat := by omega
  have hsecond : (le32At data i).toNat / 65536 = (le16At data (i + 2)).toNat := by omega
  rw [le32, hfirst, hsecond, UInt16.ofNat_toNat, UInt16.ofNat_toNat, stands_append_iff,
    length_le16]
  exact ⟨stands_le16At (by omega), stands_le16At (by omega)⟩

theorem stands_blockAt (h : i + n ≤ data.length) : Stands data i (blockAt n data i).toList := by
  have hslice : (blockAt n data i).toList = slice data i (i + n) := by
    refine List.ext_getElem ?_ ?_
    · rw [Vector.length_toList, length_slice h, Nat.add_sub_cancel_left]
    · intro k hk hk'
      have hinside : i + k < data.length := by
        rw [Vector.length_toList] at hk
        omega
      simp [blockAt, slice, octetAt, hinside]
  rw [hslice]
  exact stands_slice

end PacketLayers
