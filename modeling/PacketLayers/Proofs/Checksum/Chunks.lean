import PacketLayers.Proofs.Checksum.OnesComplement

/-!
# Checksums taken in chunks

A checksum need not be taken word by word.  `ofChunks` adds up the words of thirty-two
octets on their own before it adds them to the sum, then the words that are left, then an
odd octet, and it folds the carries with shifts and masks in the widths of the machine.

A chunk is added at once, but every addition is checked, and a chain of checked additions
has a value just if the exact total fits.  So the chunks make no difference, whatever the
length of the string: both sums are there or neither is (`accumulateChunks_eq`).  Up to
131072 octets the sum is there, and the main statement `ofChunks_reference` says that the
result is the ones' complement sum of the words, that it is zero for zeros only, and that
the checksums of two parts give that of the whole.
-/

namespace PacketLayers
namespace Checksum

/-- The octets whose words are added up on their own. -/
def chunkLength : Nat := 32

/-- The big-endian words of a string; an odd last octet is left out. -/
def wholeWords : Octets → List UInt16
  | a :: b :: rest => be16At [a, b] 0 :: wholeWords rest
  | _ => []

/-- The sum of the words of a chunk. -/
def chunkSum (chunk : Octets) : Option UInt32 :=
  checkedSum ((wholeWords chunk).map UInt16.toUInt32)

/-- Add the words of a string chunk by chunk, and what does not fill a chunk word by word. -/
def accumulateChunks (sum : UInt32) (data : Octets) : Option UInt32 :=
  if chunkLength ≤ data.length then
    match (chunkSum (data.take chunkLength)).bind (checkedAdd sum) with
    | none => none
    | some sum => accumulateChunks sum (data.drop chunkLength)
  else
    accumulate sum data
  termination_by data.length
  decreasing_by
    rw [List.length_drop]
    have : 0 < chunkLength := by decide
    omega

/-- Add the high half of a sum to its low half, first in 32 bits, then in 16; both additions are
checked. -/
def propagateCarries (sum : UInt32) : Option UInt16 := do
  let once ← checkedAdd (sum >>> 16) (sum &&& 0xffff)
  let high := (once >>> 16).toUInt16
  let low := once.toUInt16
  if high.toNat + low.toNat < 65536 then some (high + low) else none

/-- The checksum of a string, taken in chunks and not complemented. -/
def ofChunks (data : Octets) : Option UInt16 := (accumulateChunks 0 data).bind propagateCarries

variable {data first second : Octets} {sum total : UInt32}

/-! ## The accumulator -/

theorem toNat_be16At (a b : UInt8) : (be16At [a, b] 0).toNat = a.toNat * 256 + b.toNat := by
  have ha : a.toNat < 256 := a.toNat_lt
  have hb : b.toNat < 256 := b.toNat_lt
  have hword : be16At [a, b] 0 = UInt16.ofNat (a.toNat * 256 + b.toNat) := rfl
  rw [hword, UInt16.toNat_ofNat', Nat.mod_eq_of_lt (by omega)]

/-- Without an odd octet, the whole words are all that is added up. -/
theorem sum_wholeWords (h : data.length % 2 = 0) :
    ((wholeWords data).map UInt16.toNat).sum = wordSum data := by
  induction data using wordSum.induct with
  | case1 => rfl
  | case2 a => simp at h
  | case3 a b rest ih =>
      have hrest : rest.length % 2 = 0 := by
        rw [List.length_cons, List.length_cons] at h
        omega
      rw [wholeWords, List.map_cons, List.sum_cons, toNat_be16At, ih hrest, wordSum]

/-- A chunk is added to a sum just if the total fits. -/
theorem chunkSum_bind_eq_some_iff (h : data.length % 2 = 0) :
    (chunkSum data).bind (checkedAdd sum) = some total ↔
      total.toNat = sum.toNat + wordSum data := by
  have hchunk : ∀ added, chunkSum data = some added ↔ added.toNat = wordSum data := by
    intro added
    rw [chunkSum, checkedSum_eq_some_iff, List.map_map, ← sum_wholeWords h]
    rfl
  have htotal : total.toNat < capacity := total.toNat_lt
  rw [Option.bind_eq_some_iff]
  constructor
  · rintro ⟨added, hadded, hsum⟩
    rw [checkedAdd_eq_some_iff, (hchunk added).mp hadded] at hsum
    exact hsum
  · intro hsum
    obtain ⟨added, hadded⟩ := exists_toNat_eq (by omega : wordSum data < capacity)
    refine ⟨added, (hchunk added).mpr hadded, ?_⟩
    rw [checkedAdd_eq_some_iff, hadded, hsum]

/-- Chunk by chunk, too, a string is added just if the total fits. -/
theorem accumulateChunks_eq_some_iff :
    accumulateChunks sum data = some total ↔ total.toNat = sum.toNat + wordSum data := by
  have htotal : total.toNat < capacity := total.toNat_lt
  have hchunk : ∀ {data : Octets}, chunkLength ≤ data.length →
      (data.take chunkLength).length % 2 = 0 := by
    intro data hlong
    rw [List.length_take, Nat.min_eq_left hlong]
    decide
  have hsplit : ∀ {data : Octets}, chunkLength ≤ data.length →
      wordSum data = wordSum (data.take chunkLength) + wordSum (data.drop chunkLength) := by
    intro data hlong
    rw [← wordSum_append (hchunk hlong), List.take_append_drop]
  induction sum, data using accumulateChunks.induct with
  | case1 sum data hlong hnone =>
      rw [accumulateChunks, if_pos hlong, hnone, hsplit hlong]
      rw [eq_none_iff_of_eq_some_iff fun _ => chunkSum_bind_eq_some_iff (hchunk hlong)] at hnone
      refine iff_of_false nofun ?_
      omega
  | case2 sum data hlong next hnext ih =>
      rw [accumulateChunks, if_pos hlong, hnext, hsplit hlong]
      rw [chunkSum_bind_eq_some_iff (hchunk hlong)] at hnext
      refine ih.trans ?_
      rw [hnext, Nat.add_assoc]
  | case3 sum data hshort =>
      rw [accumulateChunks, if_neg hshort]
      exact accumulate_eq_some_iff

/-- Chunks make no difference to the sum, also where there is none. -/
theorem accumulateChunks_eq (sum : UInt32) (data : Octets) :
    accumulateChunks sum data = accumulate sum data := by
  refine Option.ext fun total => ?_
  rw [accumulateChunks_eq_some_iff, accumulate_eq_some_iff]

/-! ## Carries -/

/-- Neither of the two additions leaves its width. -/
theorem propagateCarries_eq (sum : UInt32) : propagateCarries sum = some (foldCarries sum) := by
  have hsum : sum.toNat < 4294967296 := sum.toNat_lt
  have hhigh : ∀ word : UInt32, (word >>> 16).toNat = word.toNat / 65536 := by
    intro word
    simp [Nat.shiftRight_eq_div_pow]
  have hlow : (sum &&& 0xffff).toNat = sum.toNat % 65536 := by
    rw [UInt32.toNat_and]
    exact Nat.and_two_pow_sub_one_eq_mod _ 16
  obtain ⟨once, honce⟩ := exists_toNat_eq
    (by rw [capacity]; omega : sum.toNat / 65536 + sum.toNat % 65536 < capacity)
  have hadded : checkedAdd (sum >>> 16) (sum &&& 0xffff) = some once := by
    rw [checkedAdd_eq_some_iff, hhigh, hlow, honce]
  have hhigh' : (once >>> 16).toUInt16.toNat = once.toNat / 65536 := by
    rw [UInt32.toNat_toUInt16, hhigh]
    exact Nat.mod_eq_of_lt (by omega)
  have hlow' : once.toUInt16.toNat = once.toNat % 65536 := UInt32.toNat_toUInt16 once
  have hfits : (once >>> 16).toUInt16.toNat + once.toUInt16.toNat < 65536 := by omega
  rw [propagateCarries, hadded, Option.bind_eq_bind, Option.bind_some, if_pos hfits,
    Option.some_inj, ← UInt16.toNat_inj, UInt16.toNat_add, foldCarries, UInt16.toNat_ofNat', hhigh',
    hlow', honce]

/-- The checksum taken in chunks is that taken in words. -/
theorem ofChunks_eq (data : Octets) : ofChunks data = ofOctets data := by
  rw [ofChunks, accumulateChunks_eq, ofOctets, funext propagateCarries_eq]
  cases accumulate 0 data <;> rfl

/-! ## The reference sum -/

theorem wordSum_eq_zero_iff : wordSum data = 0 ↔ ∀ octet ∈ data, octet = 0 := by
  have hzero : ∀ a : UInt8, a.toNat = 0 ↔ a = 0 := fun a => UInt8.toNat_inj (b := 0)
  induction data using wordSum.induct with
  | case1 => simp [wordSum]
  | case2 a => simp [wordSum, hzero]
  | case3 a b rest ih => simp [wordSum, ih, hzero, and_assoc]

/-- Only zeros have the checksum zero. -/
theorem eq_zero_iff_of_sums {w : UInt16} (h : Sums w data) : w = 0 ↔ ∀ octet ∈ data, octet = 0 := by
  rw [← UInt16.toNat_inj, h, UInt16.toNat_zero, onesSum, (endAround_spec _).2.2,
    wordSum_eq_zero_iff]

/-- Up to the capacity of the accumulator, the checksums of two parts give that of the
whole. -/
theorem ofOctets_append (heven : first.length % 2 = 0)
    (h : (first ++ second).length ≤ 131072) :
    ∃ a b, ofOctets first = some a ∧ ofOctets second = some b ∧
      ofOctets (first ++ second) = combine [a, b] := by
  obtain ⟨whole, hwhole, hwhole'⟩ :=
    exists_ofOctets_of_length (by omega : (first ++ second).length ≤ 131074)
  rw [List.length_append] at h
  obtain ⟨a, ha, ha'⟩ := exists_ofOctets_of_length (by omega : first.length ≤ 131074)
  obtain ⟨b, hb, hb'⟩ := exists_ofOctets_of_length (by omega : second.length ≤ 131074)
  obtain ⟨sum, hsum, hsums⟩ := sums_combine_pair ha' hb' heven
  have hsame : whole = sum := UInt16.toNat_inj.mp (hwhole'.trans hsums.symm)
  exact ⟨a, b, ha, hb, by rw [hwhole, hsum, hsame]⟩

/-- A checksum taken in chunks is the reference sum.  It is the same as the checksum taken in words
for every string; up to 131072 octets there is one, it is the ones' complement sum of the big-endian
words, which is zero for zeros only, and the checksums of two parts are combined to that of the
whole where the first part ends with a word. -/
theorem ofChunks_reference :
    (∀ data : Octets, ofChunks data = ofOctets data) ∧
    (∀ data : Octets, data.length ≤ 131072 →
      ∃ sum, ofChunks data = some sum ∧ sum.toNat = onesSum data ∧
        (sum = 0 ↔ ∀ octet ∈ data, octet = 0)) ∧
    (∀ first second : Octets, first.length % 2 = 0 → (first ++ second).length ≤ 131072 →
      ∃ a b, ofChunks first = some a ∧ ofChunks second = some b ∧
        ofChunks (first ++ second) = combine [a, b]) := by
  refine ⟨ofChunks_eq, fun data hlength => ?_, fun first second heven hlength => ?_⟩
  · obtain ⟨sum, hsum, hsums⟩ := exists_ofOctets_of_length (by omega : data.length ≤ 131074)
    rw [ofChunks_eq]
    exact ⟨sum, hsum, hsums, eq_zero_iff_of_sums hsums⟩
  · rw [ofChunks_eq, ofChunks_eq, ofChunks_eq]
    exact ofOctets_append heven hlength

/-- A chunk of all ones with a word and an odd octet behind it: the carries leave all ones, and
so do those of the parts. -/
theorem ofChunks_reference_ones :
    let ones : Octets := List.replicate 34 0xff
    let zeros : Octets := [0, 0, 0]
    (∃ sum, ofChunks (ones ++ zeros) = some sum ∧ sum.toNat = onesSum (ones ++ zeros) ∧
      (sum = 0 ↔ ∀ octet ∈ ones ++ zeros, octet = 0)) ∧
    ∃ a b, ofChunks ones = some a ∧ ofChunks zeros = some b ∧
      ofChunks (ones ++ zeros) = combine [a, b] :=
  ⟨ofChunks_reference.2.1 (List.replicate 34 0xff ++ [0, 0, 0]) (by decide),
    ofChunks_reference.2.2 (List.replicate 34 0xff) [0, 0, 0] (by decide) (by decide)⟩

end Checksum
end PacketLayers
