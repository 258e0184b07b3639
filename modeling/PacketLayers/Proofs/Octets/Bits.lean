import Mathlib.Data.Nat.Digits.Lemmas
import PacketLayers.Proofs.Octets.Writes

/-!
# Bits of a string

The bits of a string are counted in the order in which they travel: bit 0 is the highest
bit of the first octet.  `bitsAt` is the number that some bits in a row spell.  Fields of
a header are such numbers, whatever octets they begin and end in.

A number is known from the octets that it lies in (`Stands.bitsAt_eq`).  So readers of
octets, words and blocks give the numbers of their bits, and a write leaves all bits
outside of it as they were (`bitsAt_putAt`).
-/

namespace PacketLayers

variable {data part : Octets} {i n offset width : Nat}

/-! ## Numbers -/

/-- The number that octets spell, the highest first. -/
def numberOf (octets : Octets) : Nat := Nat.ofDigits 256 (octets.reverse.map UInt8.toNat)

theorem numberOf_append (front back : Octets) :
    numberOf (front ++ back) = numberOf front * 2 ^ (8 * back.length) + numberOf back := by
  rw [numberOf, List.reverse_append, List.map_append, Nat.ofDigits_append, List.length_map,
    List.length_reverse, Nat.add_comm, Nat.mul_comm, pow_mul]
  rfl

theorem numberOf_lt (octets : Octets) : numberOf octets < 2 ^ (8 * octets.length) := by
  have hlt : numberOf octets < 256 ^ (octets.reverse.map UInt8.toNat).length := by
    refine Nat.ofDigits_lt_base_pow_length (by decide) fun d hd => ?_
    obtain ⟨b, -, rfl⟩ := List.mem_map.mp hd
    exact b.toNat_lt
  rwa [List.length_map, List.length_reverse, show 256 = 2 ^ 8 from rfl, ← pow_mul] at hlt

@[simp] theorem numberOf_singleton (b : UInt8) : numberOf [b] = b.toNat :=
  Nat.ofDigits_singleton

@[simp] theorem numberOf_be16 (w : UInt16) : numberOf (be16 w) = w.toNat := by
  have hw : w.toNat < 65536 := w.toNat_lt
  simp [be16, numberOf, Nat.ofDigits_cons]
  omega

@[simp] theorem numberOf_be32 (w : UInt32) : numberOf (be32 w) = w.toNat := by
  have hw : w.toNat < 4294967296 := w.toNat_lt
  rw [be32, numberOf_append, numberOf_be16, numberOf_be16, length_be16]
  simp
  omega

/-- A number as a block of octets, the highest first. -/
def blockOf (n number : Nat) : Vector UInt8 n :=
  Vector.ofFn fun k => UInt8.ofNat (number / 2 ^ (8 * n - (8 * k + 8)))

/-! ## Bits -/

/-- The number that `width` bits of a string spell from bit `offset` on. -/
def bitsAt (data : Octets) (offset width : Nat) : Nat :=
  numberOf data / 2 ^ (8 * data.length - (offset + width)) % 2 ^ width

/-- Bits inside of octets that stand in a string are bits of these octets. -/
theorem Stands.bitsAt_eq (h : Stands data i part) (hi : i ≤ data.length)
    (hstart : 8 * i ≤ offset) (hstop : offset + width ≤ 8 * (i + part.length)) :
    bitsAt data offset width = bitsAt part (offset - 8 * i) width := by
  obtain ⟨back, hback⟩ := h
  have hdata : data = data.take i ++ (part ++ back) := by rw [hback, List.take_append_drop]
  have hlength : data.length = i + part.length + back.length := by
    rw [hdata, List.length_append, List.length_append, List.length_take_of_le hi, Nat.add_assoc]
  -- What is behind the octets is cut off by the division, what is in front by the remainder.
  obtain ⟨below, hfront⟩ : ∃ below, 8 * part.length = width + (offset - 8 * i) + below :=
    Nat.exists_eq_add_of_le (by omega)
  have hdrop : 8 * data.length - (offset + width) = 8 * back.length + below := by omega
  have hbelow : 8 * part.length - (offset - 8 * i + width) = below := by omega
  have hnumber : numberOf data =
      (numberOf (data.take i) * 2 ^ (8 * part.length) + numberOf part) * 2 ^ (8 * back.length) +
        numberOf back := by
    conv_lhs => rw [hdata, ← List.append_assoc, numberOf_append, numberOf_append]
  have hcut : numberOf data / 2 ^ (8 * back.length) =
      numberOf (data.take i) * 2 ^ (8 * part.length) + numberOf part := by
    rw [hnumber, Nat.mul_comm, Nat.mul_add_div (Nat.two_pow_pos _),
      Nat.div_eq_of_lt (numberOf_lt back), Nat.add_zero]
  rw [bitsAt, bitsAt, hdrop, hbelow, pow_add, ← Nat.div_div_eq_div_mul, hcut, hfront, pow_add,
    ← Nat.mul_assoc, Nat.mul_comm _ (2 ^ below), Nat.mul_add_div (Nat.two_pow_pos _), pow_add,
    ← Nat.mul_assoc, Nat.mul_right_comm, Nat.mul_comm _ (2 ^ width), Nat.mul_add_mod]

/-- A write changes no bits in front of it and none behind it. -/
theorem bitsAt_putAt {octets : Octets} (hinside : offset + width ≤ 8 * data.length)
    (hapart : 8 * (i + octets.length) ≤ offset ∨ offset + width ≤ 8 * i) :
    bitsAt (putAt data i octets) offset width = bitsAt data offset width := by
  -- The octets in which the bits lie stand in both strings, so both give the same bits.
  let start := offset / 8
  let stop := (offset + width + 7) / 8
  have hstart : 8 * start ≤ offset := Nat.mul_div_le offset 8
  have hstop : offset + width ≤ 8 * stop := by omega
  have hle : stop ≤ data.length := by omega
  have hlength : start + (slice data start stop).length = stop := by
    rw [length_slice hle]
    omega
  have hstands : Stands data start (slice data start stop) := stands_slice
  have hkept : Stands (putAt data i octets) start (slice data start stop) :=
    hstands.putAt (by omega)
  have hin : start ≤ data.length := by omega
  rw [hstands.bitsAt_eq hin hstart (by omega),
    hkept.bitsAt_eq (by rwa [length_putAt]) hstart (by omega)]

/-! ## Readers -/

theorem bitsAt_octet (h : i < data.length) (hstart : 8 * i ≤ offset)
    (hstop : offset + width ≤ 8 * (i + 1)) :
    bitsAt data offset width =
      (octetAt data i).toNat / 2 ^ (8 * (i + 1) - (offset + width)) % 2 ^ width := by
  have hbelow : 8 * 1 - (offset - 8 * i + width) = 8 * (i + 1) - (offset + width) := by omega
  rw [(stands_octetAt h).bitsAt_eq (Nat.le_of_lt h) hstart hstop, bitsAt, numberOf_singleton,
    List.length_singleton, hbelow]

theorem bitsAt_word (h : i + 2 ≤ data.length) (hstart : 8 * i ≤ offset)
    (hstop : offset + width ≤ 8 * (i + 2)) :
    bitsAt data offset width =
      (be16At data i).toNat / 2 ^ (8 * (i + 2) - (offset + width)) % 2 ^ width := by
  have hbelow : 8 * 2 - (offset - 8 * i + width) = 8 * (i + 2) - (offset + width) := by omega
  rw [(stands_be16At h).bitsAt_eq (by omega) hstart hstop, bitsAt, numberOf_be16, length_be16,
    hbelow]

theorem bitsAt_doubleWord (h : i + 4 ≤ data.length) (hstart : 8 * i ≤ offset)
    (hstop : offset + width ≤ 8 * (i + 4)) :
    bitsAt data offset width =
      (be32At data i).toNat / 2 ^ (8 * (i + 4) - (offset + width)) % 2 ^ width := by
  have hbelow : 8 * 4 - (offset - 8 * i + width) = 8 * (i + 4) - (offset + width) := by omega
  rw [(stands_be32At h).bitsAt_eq (by omega) hstart hstop, bitsAt, numberOf_be32, length_be32,
    hbelow]

theorem toList_blockOf_succ (n number : Nat) :
    (blockOf (n + 1) number).toList =
      (blockOf n (number / 2 ^ 8)).toList ++ [UInt8.ofNat number] := by
  have hlast : 8 * (n + 1) - (8 * n + 8) = 0 := by omega
  rw [blockOf, blockOf, Vector.toList_ofFn, Vector.toList_ofFn, List.ofFn_succ',
    List.concat_eq_append]
  simp only [Fin.val_castSucc, Fin.val_last, hlast, pow_zero, Nat.div_one,
    Nat.div_div_eq_div_mul, ← pow_add]
  congr 2
  funext k
  have hk : 8 * (n + 1) - (8 * k.val + 8) = 8 + (8 * n - (8 * k.val + 8)) := by omega
  rw [hk]

/-- A number that is not too large is the number of its block. -/
theorem numberOf_blockOf {number : Nat} (h : number < 2 ^ (8 * n)) :
    numberOf (blockOf n number).toList = number := by
  induction n generalizing number with
  | zero =>
      obtain rfl : number = 0 := by simpa using h
      rfl
  | succ n ih =>
      have hhigh : number / 2 ^ 8 < 2 ^ (8 * n) := by
        rw [Nat.div_lt_iff_lt_mul (Nat.two_pow_pos 8), ← pow_add]
        exact h
      rw [toList_blockOf_succ, numberOf_append, ih hhigh, numberOf_singleton, UInt8.toNat_ofNat']
      exact Nat.div_add_mod' number (2 ^ 8)

theorem octetAt_eq (h : i < data.length) :
    octetAt data i = UInt8.ofNat (bitsAt data (8 * i) 8) := by
  have hall : 8 * (i + 1) - (8 * i + 8) = 0 := by omega
  have hbits := bitsAt_octet h (Nat.le_refl (8 * i)) (by omega : 8 * i + 8 ≤ 8 * (i + 1))
  rw [hbits, hall, pow_zero, Nat.div_one, Nat.mod_eq_of_lt (octetAt data i).toNat_lt,
    UInt8.ofNat_toNat]

theorem be16At_eq (h : i + 2 ≤ data.length) :
    be16At data i = UInt16.ofNat (bitsAt data (8 * i) 16) := by
  have hall : 8 * (i + 2) - (8 * i + 16) = 0 := by omega
  have hbits := bitsAt_word h (Nat.le_refl (8 * i)) (by omega : 8 * i + 16 ≤ 8 * (i + 2))
  rw [hbits, hall, pow_zero, Nat.div_one, Nat.mod_eq_of_lt (be16At data i).toNat_lt,
    UInt16.ofNat_toNat]

theorem be32At_eq (h : i + 4 ≤ data.length) :
    be32At data i = UInt32.ofNat (bitsAt data (8 * i) 32) := by
  have hall : 8 * (i + 4) - (8 * i + 32) = 0 := by omega
  have hbits := bitsAt_doubleWord h (Nat.le_refl (8 * i)) (by omega : 8 * i + 32 ≤ 8 * (i + 4))
  rw [hbits, hall, pow_zero, Nat.div_one, Nat.mod_eq_of_lt (be32At data i).toNat_lt,
    UInt32.ofNat_toNat]

/-- A block is the block of its number. -/
theorem blockOf_numberOf (block : Vector UInt8 n) : blockOf n (numberOf block.toList) = block := by
  refine Vector.ext fun k hk => ?_
  have hlength : block.toList.length = n := Vector.length_toList
  have hread : octetAt block.toList k = block[k] := by simp [octetAt, hk]
  rw [blockOf, Vector.getElem_ofFn, ← hread, octetAt_eq (by omega), bitsAt, hlength]
  exact UInt8.ofNat_mod_size.symm

/-- A block that is read is the one that its bits spell. -/
theorem blockAt_eq (h : i + n ≤ data.length) :
    blockAt n data i = blockOf n (bitsAt data (8 * i) (8 * n)) := by
  have hlength : (blockAt n data i).toList.length = n := Vector.length_toList
  have hnumber := numberOf_lt (blockAt n data i).toList
  have hall : 8 * n - (8 * i - 8 * i + 8 * n) = 0 := by omega
  rw [hlength] at hnumber
  rw [(stands_blockAt h).bitsAt_eq (by omega) (Nat.le_refl (8 * i)) (by omega), bitsAt, hlength,
    hall, pow_zero, Nat.div_one, Nat.mod_eq_of_lt hnumber, blockOf_numberOf]

end PacketLayers
