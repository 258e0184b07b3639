import Mathlib.Algebra.GroupWithZero.Nat
import Mathlib.Algebra.Order.BigOperators.Group.List
import Mathlib.Algebra.Order.Group.Nat
import PacketLayers.Network.Checksum

/-!
# Ones' complement sums

The sum of the big-endian words of a string, without a bound on its size, and what
end-around carry makes of it.  A sum that fits 16 bits is known from its remainder by
65535 together with whether it is zero, since zero and all ones are the two
representations of the same remainder (`endAround_eq_iff`).

The accumulator of `Checksum.ofOctets` has 32 bits and folds its carries twice.  A chain
of checked additions has a value just if the exact total fits (`accumulate_eq_some_iff`),
so that there is a checksum up to the capacity and none beyond, and a checksum is always
this sum (`ofOctets_eq_some_iff`).  The checksums of parts are combined to that of the
whole (`sums_combine`).
-/

namespace PacketLayers
namespace Checksum

/-- The sum of the big-endian words of a string, an odd last octet padded with zero. -/
def wordSum : Octets → Nat
  | [] => 0
  | [a] => a.toNat * 256
  | a :: b :: rest => a.toNat * 256 + b.toNat + wordSum rest

/-- Add what lies above 16 bits of a number to what lies below, until nothing is above. -/
def endAround (n : Nat) : Nat :=
  if n < 65536 then n else endAround (n / 65536 + n % 65536)
  termination_by n
  decreasing_by omega

/-- The 16-bit ones' complement sum of a string. -/
def onesSum (data : Octets) : Nat := endAround (wordSum data)

variable {data first second : Octets} {n m : Nat}

/-! ## End-around carry -/

theorem endAround_of_lt (h : n < 65536) : endAround n = n := by
  rw [endAround, if_pos h]

/-- Carrying keeps the remainder, and does not make a sum zero. -/
theorem endAround_spec (n : Nat) :
    endAround n ≤ 65535 ∧ endAround n % 65535 = n % 65535 ∧ (endAround n = 0 ↔ n = 0) := by
  induction n using endAround.induct with
  | case1 n hfits =>
      rw [endAround_of_lt hfits]
      exact ⟨Nat.le_of_lt_succ hfits, rfl, Iff.rfl⟩
  | case2 n hlarge ih =>
      obtain ⟨hle, hmod, hzero⟩ := ih
      rw [endAround, if_neg hlarge]
      exact ⟨hle, by omega, by omega⟩

/-- The sum that end-around carry leaves is the only one that fits 16 bits, has the same
remainder and is zero just for zero. -/
theorem endAround_eq_iff :
    endAround n = m ↔ m ≤ 65535 ∧ m % 65535 = n % 65535 ∧ (m = 0 ↔ n = 0) := by
  obtain ⟨hle, hmod, hzero⟩ := endAround_spec n
  constructor
  · rintro rfl
    exact ⟨hle, hmod, hzero⟩
  · rintro ⟨hle', hmod', hzero'⟩
    omega

/-- Sums are all ones where they are a multiple of 65535 other than zero. -/
theorem endAround_eq_ones_iff : endAround n = 65535 ↔ n % 65535 = 0 ∧ n ≠ 0 := by
  rw [endAround_eq_iff]
  omega

/-- Carries may be taken in a part before it is added. -/
theorem endAround_endAround_add (n m : Nat) : endAround (endAround n + m) = endAround (n + m) := by
  obtain ⟨hle, hmod, hzero⟩ := endAround_spec n
  obtain ⟨hle', hmod', hzero'⟩ := endAround_spec (n + m)
  rw [endAround_eq_iff]
  exact ⟨hle', by omega, by omega⟩

theorem endAround_add_endAround (n m : Nat) :
    endAround (endAround n + endAround m) = endAround (n + m) := by
  rw [endAround_endAround_add, Nat.add_comm, endAround_endAround_add, Nat.add_comm]

/-- A sum to which its complement is added is all ones. -/
theorem endAround_add_complement (n : Nat) : endAround (n + (65535 - endAround n)) = 65535 := by
  obtain ⟨hle, hmod, hzero⟩ := endAround_spec n
  rw [endAround_eq_ones_iff]
  omega

/-- All ones are a second zero to any other sum. -/
theorem endAround_add_ones (h : n ≠ 0) : endAround (n + 65535) = endAround n := by
  obtain ⟨hle, hmod, hzero⟩ := endAround_spec n
  rw [endAround_eq_iff]
  exact ⟨hle, by omega, by omega⟩

/-! ## Sums of words -/

/-- Behind whole words, the words of a string are those of its parts. -/
theorem wordSum_append (h : first.length % 2 = 0) :
    wordSum (first ++ second) = wordSum first + wordSum second := by
  induction first using wordSum.induct with
  | case1 => simp [wordSum]
  | case2 a => simp at h
  | case3 a b rest ih =>
      have hrest : rest.length % 2 = 0 := by
        rw [List.length_cons, List.length_cons] at h
        omega
      simp only [List.cons_append, wordSum, ih hrest]
      omega

@[simp] theorem wordSum_be16 (w : UInt16) : wordSum (be16 w) = w.toNat := by
  have hw : w.toNat < 65536 := w.toNat_lt
  simp [be16, wordSum]
  omega

/-- A word inside of a string adds to the words around it. -/
theorem onesSum_insert (h : first.length % 2 = 0) (w : UInt16) :
    onesSum (first ++ (be16 w ++ second)) = endAround (wordSum (first ++ second) + w.toNat) := by
  have heven : (be16 w).length % 2 = 0 := by rw [length_be16]
  rw [onesSum, wordSum_append h, wordSum_append heven, wordSum_append h, wordSum_be16]
  congr 1
  omega

/-- No word is larger than 65535. -/
theorem wordSum_le (data : Octets) : wordSum data ≤ 65535 * ((data.length + 1) / 2) := by
  induction data using wordSum.induct with
  | case1 => simp [wordSum]
  | case2 a =>
      have ha : a.toNat < 256 := a.toNat_lt
      simp only [wordSum, List.length_singleton]
      omega
  | case3 a b rest ih =>
      have ha : a.toNat < 256 := a.toNat_lt
      have hb : b.toNat < 256 := b.toNat_lt
      simp only [wordSum, List.length_cons]
      omega

/-- The largest strings that fit the accumulator whatever their words are. -/
theorem wordSum_lt_capacity (h : data.length ≤ 131074) : wordSum data < capacity := by
  have hbound := wordSum_le data
  rw [capacity]
  omega

/-! ## The 32-bit accumulator -/

variable {sum word total : UInt32}

theorem checkedAdd_eq_some_iff :
    checkedAdd sum word = some total ↔ total.toNat = sum.toNat + word.toNat := by
  have htotal : total.toNat < capacity := total.toNat_lt
  unfold checkedAdd
  split
  · next hfits =>
      have hvalue : (sum + word).toNat = sum.toNat + word.toNat := by
        rw [UInt32.toNat_add]
        exact Nat.mod_eq_of_lt hfits
      rw [Option.some_inj, ← UInt32.toNat_inj, hvalue, eq_comm]
  · next hlarge =>
      refine iff_of_false nofun ?_
      omega

theorem exists_toNat_eq (h : n < capacity) : ∃ sum : UInt32, sum.toNat = n :=
  ⟨UInt32.ofNat n, UInt32.toNat_ofNat'.trans (Nat.mod_eq_of_lt h)⟩

/-- There is no sum just if the exact one does not fit. -/
theorem eq_none_iff_of_eq_some_iff {taken : Option UInt32}
    (h : ∀ total, taken = some total ↔ total.toNat = n) : taken = none ↔ capacity ≤ n := by
  rw [Option.eq_none_iff_forall_ne_some]
  constructor
  · intro hnone
    by_contra hfits
    obtain ⟨total, htotal⟩ := exists_toNat_eq (Nat.not_le.mp hfits)
    exact hnone total ((h total).mpr htotal)
  · intro hlarge total htaken
    have htotal : total.toNat < capacity := total.toNat_lt
    rw [(h total).mp htaken] at htotal
    omega

theorem checkedAdd_eq_none_iff :
    checkedAdd sum word = none ↔ capacity ≤ sum.toNat + word.toNat :=
  eq_none_iff_of_eq_some_iff fun _ => checkedAdd_eq_some_iff

/-- A chain of checked additions has a value just if the total fits; no addition in between fails
on its own. -/
theorem foldlM_checkedAdd_eq_some_iff {words : List UInt32} :
    words.foldlM checkedAdd sum = some total ↔
      total.toNat = sum.toNat + (words.map UInt32.toNat).sum := by
  have htotal : total.toNat < capacity := total.toNat_lt
  induction words generalizing sum with
  | nil => simp [← UInt32.toNat_inj, eq_comm]
  | cons word words ih =>
      rw [List.foldlM_cons, List.map_cons, List.sum_cons]
      cases hnext : checkedAdd sum word with
      | none =>
          rw [checkedAdd_eq_none_iff] at hnext
          refine iff_of_false nofun ?_
          omega
      | some next =>
          rw [checkedAdd_eq_some_iff] at hnext
          rw [Option.bind_eq_bind, Option.bind_some]
          refine ih.trans ?_
          rw [hnext, Nat.add_assoc]

theorem checkedSum_eq_some_iff {words : List UInt32} :
    checkedSum words = some total ↔ total.toNat = (words.map UInt32.toNat).sum := by
  rw [checkedSum, foldlM_checkedAdd_eq_some_iff, UInt32.toNat_zero, Nat.zero_add]

/-- Two octets are a word, which has room in 32 bits. -/
theorem toNat_ofNat_word (a b : UInt8) :
    (UInt32.ofNat (a.toNat * 256 + b.toNat)).toNat = a.toNat * 256 + b.toNat := by
  have ha : a.toNat < 256 := a.toNat_lt
  have hb : b.toNat < 256 := b.toNat_lt
  rw [UInt32.toNat_ofNat', Nat.mod_eq_of_lt (by omega)]

/-- So it is with the words of a string. -/
theorem accumulate_eq_some_iff :
    accumulate sum data = some total ↔ total.toNat = sum.toNat + wordSum data := by
  have htotal : total.toNat < capacity := total.toNat_lt
  induction sum, data using accumulate.induct with
  | case1 sum => simp [accumulate, wordSum, ← UInt32.toNat_inj, eq_comm]
  | case2 sum a =>
      have ha : a.toNat < 256 := a.toNat_lt
      rw [accumulate, checkedAdd_eq_some_iff, wordSum, UInt32.toNat_ofNat',
        Nat.mod_eq_of_lt (by omega)]
  | case3 sum a b rest hlarge =>
      rw [accumulate, hlarge]
      rw [checkedAdd_eq_none_iff, toNat_ofNat_word] at hlarge
      rw [wordSum]
      refine iff_of_false nofun ?_
      omega
  | case4 sum a b rest next hnext ih =>
      rw [accumulate, hnext, wordSum]
      rw [checkedAdd_eq_some_iff, toNat_ofNat_word] at hnext
      refine ih.trans ?_
      rw [hnext, Nat.add_assoc]

/-- For a sum of 32 bits, two carries are enough. -/
theorem toNat_foldCarries (sum : UInt32) : (foldCarries sum).toNat = endAround sum.toNat := by
  have hsum : sum.toNat < 4294967296 := sum.toNat_lt
  symm
  rw [endAround_eq_iff, foldCarries, UInt16.toNat_ofNat', Nat.mod_eq_of_lt (by omega)]
  omega

/-- What is left of a total that a chain of additions has where it fits. -/
theorem map_foldCarries_eq_some_iff {sum : Option UInt32} {w : UInt16}
    (h : ∀ total, sum = some total ↔ total.toNat = n) :
    sum.map foldCarries = some w ↔ n < capacity ∧ w.toNat = endAround n := by
  rw [Option.map_eq_some_iff]
  constructor
  · rintro ⟨total, htotal, rfl⟩
    obtain rfl := (h total).mp htotal
    exact ⟨total.toNat_lt, toNat_foldCarries total⟩
  · rintro ⟨hfits, hw⟩
    obtain ⟨total, rfl⟩ := exists_toNat_eq hfits
    refine ⟨total, (h total).mpr rfl, ?_⟩
    rw [← UInt16.toNat_inj, toNat_foldCarries, hw]

/-! ## Sums of parts -/

/-- A word that is the ones' complement sum of a string. -/
def Sums (w : UInt16) (data : Octets) : Prop := w.toNat = onesSum data

/-- A string has a checksum just if the sum of its words fits the accumulator, and this is its
ones' complement sum. -/
theorem ofOctets_eq_some_iff {w : UInt16} :
    ofOctets data = some w ↔ wordSum data < capacity ∧ Sums w data := by
  refine map_foldCarries_eq_some_iff fun total => ?_
  rw [accumulate_eq_some_iff, UInt32.toNat_zero, Nat.zero_add]

/-- Up to the capacity of the accumulator there is a checksum. -/
theorem exists_ofOctets (h : wordSum data < capacity) :
    ∃ w, ofOctets data = some w ∧ Sums w data := by
  have hbound : onesSum data < 65536 := Nat.lt_succ_of_le (endAround_spec _).1
  have hsums : Sums (UInt16.ofNat (onesSum data)) data := by
    rw [Sums, UInt16.toNat_ofNat', Nat.mod_eq_of_lt hbound]
  exact ⟨_, ofOctets_eq_some_iff.mpr ⟨h, hsums⟩, hsums⟩

theorem exists_ofOctets_of_length (h : data.length ≤ 131074) :
    ∃ w, ofOctets data = some w ∧ Sums w data :=
  exists_ofOctets (wordSum_lt_capacity h)

theorem ofOctets_eq_none_iff : ofOctets data = none ↔ capacity ≤ wordSum data := by
  rw [ofOctets, Option.map_eq_none_iff]
  refine eq_none_iff_of_eq_some_iff fun total => ?_
  rw [accumulate_eq_some_iff, UInt32.toNat_zero, Nat.zero_add]

theorem onesSum_append (h : first.length % 2 = 0) :
    onesSum (first ++ second) = endAround (onesSum first + onesSum second) := by
  rw [onesSum, wordSum_append h, onesSum, onesSum, endAround_add_endAround]

/-- The sum of a whole is that of the sums of its parts; only the last part may end in
half a word. -/
theorem onesSum_flatten {words : List UInt16} {parts : List Octets}
    (h : List.Forall₂ Sums words parts) (heven : ∀ part ∈ parts.dropLast, part.length % 2 = 0) :
    onesSum parts.flatten = endAround (words.map UInt16.toNat).sum := by
  induction h with
  | nil => simp [onesSum, wordSum]
  | @cons word part words parts hpart hparts ih =>
      cases parts with
      | nil =>
          obtain rfl : words = [] := List.forall₂_nil_right_iff.mp hparts
          have hword : word.toNat < 65536 := word.toNat_lt
          simpa [endAround_of_lt hword] using hpart.symm
      | cons second parts =>
          have hfirst : part.length % 2 = 0 := heven part (by simp)
          have hrest := ih fun other hmem => heven other (by simp [hmem])
          rw [List.flatten_cons, onesSum_append hfirst, hrest, ← hpart, Nat.add_comm,
            endAround_endAround_add, List.map_cons, List.sum_cons, Nat.add_comm]

theorem combine_eq_some_iff {words : List UInt16} {w : UInt16} :
    combine words = some w ↔ (words.map UInt16.toNat).sum < capacity ∧
      w.toNat = endAround (words.map UInt16.toNat).sum := by
  refine map_foldCarries_eq_some_iff fun total => ?_
  rw [checkedSum_eq_some_iff, List.map_map]
  rfl

/-- Checksums of parts are combined to that of the whole; the accumulator has room for all of
them, unless they are very many. -/
theorem sums_combine {words : List UInt16} {parts : List Octets}
    (h : List.Forall₂ Sums words parts) (heven : ∀ part ∈ parts.dropLast, part.length % 2 = 0)
    (hfew : words.length ≤ 65536) : ∃ w, combine words = some w ∧ Sums w parts.flatten := by
  have hbound : (words.map UInt16.toNat).sum ≤ (words.map UInt16.toNat).length * 65535 := by
    refine List.sum_le_card_nsmul _ _ ?_
    intro n hmem
    obtain ⟨word, -, rfl⟩ := List.mem_map.mp hmem
    exact Nat.le_of_lt_succ word.toNat_lt
  rw [List.length_map] at hbound
  obtain ⟨hle, -, -⟩ := endAround_spec (words.map UInt16.toNat).sum
  have hvalue : (UInt16.ofNat (endAround (words.map UInt16.toNat).sum)).toNat =
      endAround (words.map UInt16.toNat).sum := by
    rw [UInt16.toNat_ofNat', Nat.mod_eq_of_lt (Nat.lt_succ_of_le hle)]
  refine ⟨_, combine_eq_some_iff.mpr ⟨?_, hvalue⟩, ?_⟩
  · rw [capacity]
    omega
  · rw [Sums, hvalue, onesSum_flatten h heven]

/-- So it is with two parts, the first of whole words. -/
theorem sums_combine_pair {a b : UInt16} (ha : Sums a first) (hb : Sums b second)
    (heven : first.length % 2 = 0) :
    ∃ w, combine [a, b] = some w ∧ Sums w (first ++ second) := by
  have hparts := sums_combine (.cons ha (.cons hb .nil)) (by simpa using heven) (by simp)
  rwa [List.flatten_cons, List.flatten_cons, List.flatten_nil, List.append_nil] at hparts

theorem toNat_complement (w : UInt16) : (complement w).toNat = 65535 - w.toNat := by
  rw [complement, UInt16.toNat_ofNat', Nat.mod_eq_of_lt (by omega)]

end Checksum
end PacketLayers
