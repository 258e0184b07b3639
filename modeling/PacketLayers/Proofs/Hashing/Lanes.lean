import Mathlib.Data.Nat.Digits.Lemmas
import PacketLayers.Flow

/-!
# Octets folded into lanes

The hashes of endpoints and flows cut a 64-bit word into lanes of equal width and
combine the octets of an address into them by exclusive or, going round the lanes
again for long addresses.  `laneFold` is that fold for any number of lanes.

Octets of different lanes never meet: the word is the number whose digits are the
octets that the lanes have collected (`toNat_laneFold`).  So a string that goes round
at most once can be read off its word, up to the zero octets that empty lanes stand
for (`laneFold_eq_iff`).
-/

namespace PacketLayers

/-- An octet with its position, shifted into its lane and combined into the word. -/
def foldInto (width count : Nat) (hash : UInt64) (entry : UInt8 × Nat) : UInt64 :=
  hash ^^^ (entry.1.toUInt64 <<< UInt64.ofNat (width * (entry.2 % count)))

/-- Octet `i` shifted into lane `i mod count` of the given width, combined by exclusive or. -/
def laneFold (width count : Nat) (raw : Octets) : UInt64 :=
  raw.zipIdx.foldl (foldInto width count) 0

/-- An octet with its position, combined into the octet of its lane. -/
def collectInto (count : Nat) (lanes : Octets) (entry : UInt8 × Nat) : Octets :=
  lanes.modify (entry.2 % count) (· ^^^ entry.1)

/-- The octet that each lane has collected. -/
def laneOctets (count : Nat) (raw : Octets) : Octets :=
  raw.zipIdx.foldl (collectInto count) (List.replicate count 0)

/-- The word whose lanes hold the given octets, the lowest lane first. -/
def packLanes (width : Nat) (lanes : Octets) : Nat :=
  Nat.ofDigits (2 ^ width) (lanes.map UInt8.toNat)

theorem Endpoint.foldLanes_eq (raw : Octets) : foldLanes raw = laneFold 8 8 raw := rfl

theorem Flow.foldReversed_eq (raw : Octets) : foldReversed raw = laneFold 16 4 raw.reverse := rfl

variable {width count : Nat} {lanes : Octets}

/-! ## Words as numbers -/

@[simp] theorem packLanes_cons (width : Nat) (b : UInt8) (lanes : Octets) :
    packLanes width (b :: lanes) = b.toNat + 2 ^ width * packLanes width lanes :=
  Nat.ofDigits_cons

theorem packLanes_replicate_zero (width n : Nat) : packLanes width (List.replicate n 0) = 0 := by
  rw [packLanes, List.map_replicate]
  exact Nat.ofDigits_replicate_zero

/-- An octet fits a lane. -/
theorem toNat_lt_two_pow (hwidth : 8 ≤ width) (b : UInt8) : b.toNat < 2 ^ width :=
  b.toNat_lt.trans_le (Nat.pow_le_pow_right (by decide) hwidth)

/-- The lanes of a word can be read off it. -/
theorem packLanes_inj (hwidth : 8 ≤ width) {lanes lanes' : Octets}
    (hlength : lanes.length = lanes'.length) :
    packLanes width lanes = packLanes width lanes' ↔ lanes = lanes' := by
  constructor
  · intro h
    have hfits : ∀ lanes : Octets, ∀ digit ∈ lanes.map UInt8.toNat, digit < 2 ^ width := by
      intro lanes digit hdigit
      obtain ⟨b, -, rfl⟩ := List.mem_map.mp hdigit
      exact toNat_lt_two_pow hwidth b
    have hdigits : lanes.map UInt8.toNat = lanes'.map UInt8.toNat :=
      Nat.ofDigits_inj_of_len_eq (Nat.one_lt_two_pow (by omega)) (by simpa using hlength)
        (hfits lanes) (hfits lanes') h
    exact List.map_injective_iff.mpr (fun _ _ hb => UInt8.toNat_inj.mp hb) hdigits
  · rintro rfl
    rfl

/-- Exclusive or of numbers, the lowest `width` bits and the others apart. -/
theorem add_two_pow_mul_xor {a b : Nat} (ha : a < 2 ^ width) (hb : b < 2 ^ width) (m n : Nat) :
    (a + 2 ^ width * m) ^^^ (b + 2 ^ width * n) = (a ^^^ b) + 2 ^ width * (m ^^^ n) := by
  have hpos : 0 < 2 ^ width := Nat.two_pow_pos width
  have hlow : ∀ {a : Nat}, a < 2 ^ width → ∀ m, (a + 2 ^ width * m) % 2 ^ width = a := by
    intro a ha m
    rw [Nat.add_mul_mod_self_left, Nat.mod_eq_of_lt ha]
  have hhigh : ∀ {a : Nat}, a < 2 ^ width → ∀ m, (a + 2 ^ width * m) / 2 ^ width = m := by
    intro a ha m
    rw [Nat.add_mul_div_left _ _ hpos, Nat.div_eq_of_lt ha, Nat.zero_add]
  rw [← Nat.mod_add_div ((a + 2 ^ width * m) ^^^ (b + 2 ^ width * n)) (2 ^ width),
    Nat.xor_mod_two_pow, Nat.xor_div_two_pow, hlow ha, hlow hb, hhigh ha, hhigh hb]

/-- An octet combined into one lane of a word leaves the other lanes alone. -/
theorem packLanes_modify (hwidth : 8 ≤ width) {j : Nat} (hj : j < lanes.length) (b : UInt8) :
    packLanes width (lanes.modify j (· ^^^ b)) =
      packLanes width lanes ^^^ (b.toNat * 2 ^ (width * j)) := by
  induction lanes generalizing j with
  | nil => exact absurd hj (Nat.not_lt_zero j)
  | cons a lanes ih =>
      have ha := toNat_lt_two_pow hwidth a
      cases j with
      | zero =>
          have hxor := add_two_pow_mul_xor ha (toNat_lt_two_pow hwidth b)
            (packLanes width lanes) 0
          rw [Nat.mul_zero, Nat.add_zero, Nat.xor_zero] at hxor
          rw [List.modify_zero_cons, packLanes_cons, packLanes_cons, UInt8.toNat_xor, Nat.mul_zero,
            Nat.pow_zero, Nat.mul_one, hxor]
      | succ j =>
          have hxor := add_two_pow_mul_xor ha (Nat.two_pow_pos width) (packLanes width lanes)
            (b.toNat * 2 ^ (width * j))
          rw [Nat.xor_zero, Nat.zero_add] at hxor
          have hshift : b.toNat * 2 ^ (width * (j + 1)) =
              2 ^ width * (b.toNat * 2 ^ (width * j)) := by
            rw [Nat.mul_succ, Nat.pow_add]
            ring
          rw [List.modify_succ_cons, packLanes_cons, packLanes_cons,
            ih (Nat.lt_of_succ_lt_succ hj), hshift, hxor]

/-! ## The fold -/

/-- A shifted octet is not cut off by the end of the word. -/
theorem toNat_shifted (b : UInt8) {shift : Nat} (h : shift + 8 ≤ 64) :
    (b.toUInt64 <<< UInt64.ofNat shift).toNat = b.toNat * 2 ^ shift := by
  have hfits : b.toNat * 2 ^ shift < 2 ^ 64 :=
    calc b.toNat * 2 ^ shift < 2 ^ 8 * 2 ^ shift :=
          Nat.mul_lt_mul_of_pos_right b.toNat_lt (Nat.two_pow_pos shift)
      _ = 2 ^ (8 + shift) := (Nat.pow_add 2 8 shift).symm
      _ ≤ 2 ^ 64 := Nat.pow_le_pow_right (by decide) (by omega)
  have hshift : shift % 2 ^ 64 % 64 = shift := by omega
  rw [UInt64.toNat_shiftLeft, UInt8.toNat_toUInt64, UInt64.toNat_ofNat', hshift,
    Nat.shiftLeft_eq, Nat.mod_eq_of_lt hfits]

/-- The word and the octets that its lanes have collected stay together from octet to octet. -/
theorem toNat_foldl_lanes (hwidth : 8 ≤ width) (hsize : width * count = 64)
    (entries : List (UInt8 × Nat)) {hash : UInt64} (hlength : lanes.length = count)
    (hhash : hash.toNat = packLanes width lanes) :
    (entries.foldl (foldInto width count) hash).toNat =
      packLanes width (entries.foldl (collectInto count) lanes) := by
  induction entries generalizing hash lanes with
  | nil => exact hhash
  | cons entry entries ih =>
      have hcount : 0 < count := Nat.pos_of_ne_zero fun h => by simp [h] at hsize
      have hlane : entry.2 % count < count := Nat.mod_lt _ hcount
      have hshift : width * (entry.2 % count) + 8 ≤ 64 := by
        have hnext := Nat.mul_le_mul_left width (Nat.succ_le_of_lt hlane)
        rw [hsize, Nat.mul_succ] at hnext
        omega
      rw [List.foldl_cons, List.foldl_cons]
      refine ih ?_ ?_
      · rw [collectInto, List.length_modify, hlength]
      · rw [foldInto, UInt64.toNat_xor, toNat_shifted _ hshift, hhash, collectInto,
          packLanes_modify hwidth (hlength ▸ hlane)]

/-- A folded word is the number whose digits are the octets collected in its lanes. -/
theorem toNat_laneFold (hwidth : 8 ≤ width) (hsize : width * count = 64) (raw : Octets) :
    (laneFold width count raw).toNat = packLanes width (laneOctets count raw) :=
  toNat_foldl_lanes hwidth hsize raw.zipIdx List.length_replicate
    (packLanes_replicate_zero width count).symm

theorem length_laneOctets (count : Nat) (raw : Octets) :
    (laneOctets count raw).length = count := by
  have hkept : ∀ (entries : List (UInt8 × Nat)) (lanes : Octets),
      (entries.foldl (collectInto count) lanes).length = lanes.length := by
    intro entries
    induction entries with
    | nil => exact fun _ => rfl
    | cons entry entries ih => exact fun lanes => (ih _).trans (List.length_modify _ _ _)
  rw [laneOctets, hkept, List.length_replicate]

/-! ## Strings that go round once -/

/-- While octets are left for lanes that are still empty, each takes the next one. -/
theorem foldl_lanes_of_length_le (front raw : Octets) {back : Nat}
    (hlength : front.length + raw.length + back = count) :
    (raw.zipIdx front.length).foldl (collectInto count)
        (front ++ List.replicate (raw.length + back) 0) =
      front ++ raw ++ List.replicate back 0 := by
  induction raw generalizing front with
  | nil => simp
  | cons b raw ih =>
      rw [List.length_cons] at hlength
      have hlane : front.length % count = front.length := Nat.mod_eq_of_lt (by omega)
      have hempty : List.replicate ((b :: raw).length + back) (0 : UInt8) =
          0 :: List.replicate (raw.length + back) 0 := by
        rw [List.length_cons, Nat.succ_add, List.replicate_succ]
      have htaken : collectInto count (front ++ 0 :: List.replicate (raw.length + back) 0)
          (b, front.length) = front ++ [b] ++ List.replicate (raw.length + back) 0 := by
        have hmodify := List.modifyTailIdx_add (List.modifyHead (· ^^^ b)) 0 front
          (0 :: List.replicate (raw.length + back) 0)
        rw [collectInto, hlane, List.modify, ← Nat.add_zero front.length, hmodify]
        simp
      have hrest := ih (front ++ [b]) (by rw [List.length_append, List.length_singleton]; omega)
      rw [List.length_append, List.length_singleton] at hrest
      rw [List.zipIdx_cons, List.foldl_cons, hempty, htaken, hrest]
      simp

/-- Octets that go round at most once lie in the lanes in order, and the other lanes are empty. -/
theorem laneOctets_of_length_le {raw : Octets} (h : raw.length ≤ count) :
    laneOctets count raw = raw.rightpad count 0 := by
  have hcount : ([] : Octets).length + raw.length + (count - raw.length) = count := by
    rw [List.length_nil]
    omega
  have hfold := foldl_lanes_of_length_le [] raw hcount
  have hall : raw.length + (count - raw.length) = count := by omega
  rw [hall] at hfold
  exact hfold

/-- Strings that go round at most once are told apart by their words, but for zero octets at
their ends. -/
theorem laneFold_eq_iff (hwidth : 8 ≤ width) (hsize : width * count = 64) {a b : Octets}
    (ha : a.length ≤ count) (hb : b.length ≤ count) :
    laneFold width count a = laneFold width count b ↔
      a.rightpad count 0 = b.rightpad count 0 := by
  rw [← UInt64.toNat_inj, toNat_laneFold hwidth hsize, toNat_laneFold hwidth hsize,
    packLanes_inj hwidth (by rw [length_laneOctets, length_laneOctets]),
    laneOctets_of_length_le ha, laneOctets_of_length_le hb]

theorem laneFold_inj (hwidth : 8 ≤ width) (hsize : width * count = 64) {a b : Octets}
    (hlength : a.length = b.length) (ha : a.length ≤ count) :
    laneFold width count a = laneFold width count b ↔ a = b := by
  rw [laneFold_eq_iff hwidth hsize ha (hlength ▸ ha), List.rightpad, List.rightpad, hlength]
  exact List.append_left_inj _

/-! ## Strings that go round again -/

/-- What is folded does not depend on what the word holds already. -/
theorem foldl_foldInto (entries : List (UInt8 × Nat)) (hash : UInt64) :
    entries.foldl (foldInto width count) hash =
      hash ^^^ entries.foldl (foldInto width count) 0 := by
  induction entries generalizing hash with
  | nil => exact UInt64.xor_zero.symm
  | cons entry entries ih =>
      rw [List.foldl_cons, List.foldl_cons, ih, ih (foldInto width count 0 entry), foldInto,
        foldInto, UInt64.zero_xor, UInt64.xor_assoc]

/-- Going round the lanes once more is starting again. -/
theorem laneFold_append {front : Octets} (h : front.length = count) (raw : Octets) :
    laneFold width count (front ++ raw) =
      laneFold width count front ^^^ laneFold width count raw := by
  have hround : ∀ (start : Nat) (hash : UInt64),
      (raw.zipIdx (start + count)).foldl (foldInto width count) hash =
        (raw.zipIdx start).foldl (foldInto width count) hash := by
    induction raw with
    | nil => exact fun _ _ => rfl
    | cons b raw ih =>
        intro start hash
        have hlane : foldInto width count hash (b, start + count) =
            foldInto width count hash (b, start) := by
          simp only [foldInto, Nat.add_mod_right]
        rw [List.zipIdx_cons, List.zipIdx_cons, List.foldl_cons, List.foldl_cons, hlane,
          Nat.add_right_comm, ih]
  rw [laneFold, List.zipIdx_append, List.foldl_append, h, hround, foldl_foldInto]
  rfl

end PacketLayers
