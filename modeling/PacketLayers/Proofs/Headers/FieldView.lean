import PacketLayers.Address
import PacketLayers.Proofs.Octets.Bits

/-!
# Headers as views of fields

A header can be read and changed in place, one field at a time or, where fields share
octets, a few at a time.  `HeaderView` says what there is to call: the calls that set
fields, and for each field how it is read, what a call sets it to, and which bits of the
header it takes.

A header is laid out (`HeaderView.LaysOut`) if each field is read from its bits, and each
call is one write that gives the fields that it sets their numbers and reaches into no
others.  Then a call changes no other field and no other octet (`LaysOut.bitsAt_set`,
`LaysOut.getElem?_set`), and a run of calls leaves in each field what the last call gave
it (`LaysOut.bitsAt_run`, `LaysOut.get_run`, `LaysOut.getElem?_run`).
-/

namespace PacketLayers

/-! ## Values -/

/-- Values that have numbers.  A number of up to so many bits is read as a value that has it,
which need not be the only one. -/
class FieldValue (V : Type) where
  number : V → Nat
  ofNumber : Nat → V
  bits : Nat
  number_ofNumber : ∀ n < 2 ^ bits, number (ofNumber n) = n

namespace FieldValue

instance : FieldValue UInt8 := ⟨UInt8.toNat, UInt8.ofNat, 8, fun _ => UInt8.toNat_ofNat_of_lt⟩

instance : FieldValue UInt16 :=
  ⟨UInt16.toNat, UInt16.ofNat, 16, fun _ => UInt16.toNat_ofNat_of_lt⟩

instance : FieldValue UInt32 :=
  ⟨UInt32.toNat, UInt32.ofNat, 32, fun _ => UInt32.toNat_ofNat_of_lt⟩

instance : FieldValue Bool := ⟨Bool.toNat, (· == 1), 1, by decide⟩

instance : FieldValue MacAddress :=
  ⟨fun a => numberOf a.toOctets, fun n => ⟨blockOf 6 n⟩, 8 * 6, fun _ h => numberOf_blockOf h⟩

instance : FieldValue Ipv4Address :=
  ⟨fun a => numberOf a.toOctets, fun n => ⟨blockOf 4 n⟩, 8 * 4, fun _ h => numberOf_blockOf h⟩

instance : FieldValue Ipv6Address :=
  ⟨fun a => numberOf a.toOctets, fun n => ⟨blockOf 16 n⟩, 8 * 16, fun _ h => numberOf_blockOf h⟩

@[simp] theorem number_octet (b : UInt8) : number b = b.toNat := rfl

@[simp] theorem number_word (w : UInt16) : number w = w.toNat := rfl

@[simp] theorem number_doubleWord (w : UInt32) : number w = w.toNat := rfl

@[simp] theorem number_bit (b : Bool) : number b = b.toNat := rfl

@[simp] theorem number_macAddress (a : MacAddress) : number a = numberOf a.toOctets := rfl

@[simp] theorem number_ipv4Address (a : Ipv4Address) : number a = numberOf a.toOctets := rfl

@[simp] theorem number_ipv6Address (a : Ipv6Address) : number a = numberOf a.toOctets := rfl

/-- Values that stand for octets, some of them by name. -/
@[reducible] def ofOctets {E : Type} (number : E → UInt8) (ofNumber : UInt8 → E)
    (h : ∀ b, number (ofNumber b) = b) : FieldValue E :=
  ⟨fun e => (number e).toNat, fun n => ofNumber (.ofNat n), 8, fun n hn => by
    rw [h]
    exact UInt8.toNat_ofNat_of_lt hn⟩

/-- Values that stand for words, some of them by name. -/
@[reducible] def ofWords {E : Type} (number : E → UInt16) (ofNumber : UInt16 → E)
    (h : ∀ w, number (ofNumber w) = w) : FieldValue E :=
  ⟨fun e => (number e).toNat, fun n => ofNumber (.ofNat n), 16, fun n hn => by
    rw [h]
    exact UInt16.toNat_ofNat_of_lt hn⟩

end FieldValue

open FieldValue (number ofNumber)

/-! ## Fields -/

/-- A field of a header, and what calls do to it. -/
structure HeaderField (Call : Type) where
  {Value : Type}
  [value : FieldValue Value]
  get : Octets → Value
  /-- The value that a call is given for the field, whatever its size. -/
  given? : Call → Option Value
  /-- The first bit of the field. -/
  offset : Nat
  /-- The number of bits of the field. -/
  width : Nat

namespace HeaderField

variable {Call : Type}

instance (f : HeaderField Call) : FieldValue f.Value := f.value

/-- A value cut to the bits of the field. -/
def reduce (f : HeaderField Call) (v : f.Value) : f.Value := ofNumber (number v % 2 ^ f.width)

/-- The value that the last of some calls gives for the field, if one of them does. -/
def last? (f : HeaderField Call) (calls : List Call) : Option f.Value :=
  calls.reverse.findSome? f.given?

/-- Some bit of an octet belongs to the field. -/
def Holds (f : HeaderField Call) (j : Nat) : Prop :=
  f.offset < 8 * (j + 1) ∧ 8 * j < f.offset + f.width

instance (f : HeaderField Call) (j : Nat) : Decidable (f.Holds j) :=
  inferInstanceAs (Decidable (_ ∧ _))

/-- A write either leaves the bits of a field alone or gives them the number of a value. -/
def Follows (f : HeaderField Call) (w : Write) : Option f.Value → Prop
  | none => 8 * w.stop ≤ f.offset ∨ f.offset + f.width ≤ 8 * w.start
  | some v =>
    8 * w.start ≤ f.offset ∧ f.offset + f.width ≤ 8 * w.stop ∧
      bitsAt w.octets (f.offset - 8 * w.start) f.width = number v % 2 ^ f.width

/-- Cutting a value cuts its number. -/
theorem number_reduce (f : HeaderField Call) (hfits : f.width ≤ FieldValue.bits f.Value)
    (v : f.Value) : number (f.reduce v) = number v % 2 ^ f.width := by
  refine FieldValue.number_ofNumber _ ?_
  calc number v % 2 ^ f.width
    _ < 2 ^ f.width := Nat.mod_lt _ (Nat.two_pow_pos _)
    _ ≤ 2 ^ FieldValue.bits f.Value := Nat.pow_le_pow_right (by decide) hfits

theorem last?_cons (f : HeaderField Call) (c : Call) (calls : List Call) :
    f.last? (c :: calls) = (f.last? calls).or (f.given? c) := by
  rw [last?, List.reverse_cons, List.findSome?_append, List.findSome?_singleton]
  rfl

end HeaderField

/-! ## Headers -/

/-- A header that is read and changed field by field. -/
structure HeaderView where
  length : Nat
  /-- A call that sets fields. -/
  Call : Type
  set : Octets → Call → Octets
  fields : List (HeaderField Call)

namespace HeaderView

variable {h : HeaderView} {write : h.Call → Write} {f : HeaderField h.Call} {data : Octets}
  {c : h.Call} {j : Nat}

/-- The octets after some calls, one after the other. -/
def run (h : HeaderView) (data : Octets) (calls : List h.Call) : Octets := calls.foldl h.set data

/-- Each field is read from its bits, and each call is one write, in bits of the fields that it
sets and in no others. -/
structure LaysOut (h : HeaderView) (write : h.Call → Write) : Prop where
  set_eq : ∀ data c, h.set data c = putAt data (write c).start (write c).octets
  inside : ∀ c, (write c).stop ≤ h.length
  bounds : ∀ f ∈ h.fields, f.offset + f.width ≤ 8 * h.length ∧ f.width ≤ FieldValue.bits f.Value
  get_eq : ∀ data : Octets, h.length ≤ data.length → ∀ f ∈ h.fields,
    f.get data = ofNumber (bitsAt data f.offset f.width)
  follows : ∀ c, ∀ f ∈ h.fields, f.Follows (write c) (f.given? c)
  covers : ∀ c j, (write c).start ≤ j → j < (write c).stop →
    ∃ f ∈ h.fields, f.Holds j ∧ f.given? c ≠ none

namespace LaysOut

theorem length_set (hlaid : h.LaysOut write) (data : Octets) (c : h.Call) :
    (h.set data c).length = data.length := by
  rw [hlaid.set_eq, length_putAt]

/-- One call gives the fields that it sets their numbers, and leaves the others alone. -/
theorem bitsAt_set (hlaid : h.LaysOut write) (hf : f ∈ h.fields) (hdata : h.length ≤ data.length)
    (c : h.Call) :
    bitsAt (h.set data c) f.offset f.width =
      ((f.given? c).map fun v => number v % 2 ^ f.width).getD
        (bitsAt data f.offset f.width) := by
  have hwithin := (hlaid.bounds f hf).1
  have hinside := hlaid.inside c
  have hfollows := hlaid.follows c f hf
  rw [hlaid.set_eq]
  cases hgiven : f.given? c with
  | none =>
      rw [hgiven] at hfollows
      exact bitsAt_putAt (by omega) hfollows
  | some v =>
      rw [hgiven] at hfollows
      obtain ⟨hstart, hstop, hnumber⟩ := hfollows
      rw [Write.stop] at hinside
      have hstands : Stands (putAt data (write c).start (write c).octets) (write c).start
          (write c).octets := stands_putAt (by omega)
      rw [hstands.bitsAt_eq (by rw [length_putAt]; omega) hstart hstop]
      exact hnumber

/-- One call changes no octet outside of the fields that it sets. -/
theorem getElem?_set (hlaid : h.LaysOut write)
    (hnone : ∀ f ∈ h.fields, f.Holds j → f.given? c = none) :
    (h.set data c)[j]? = data[j]? := by
  rw [hlaid.set_eq]
  apply getElem?_putAt
  by_contra hinside
  obtain ⟨f, hf, hholds, hgiven⟩ := hlaid.covers c j (by omega) (by rw [Write.stop]; omega)
  exact hgiven (hnone f hf hholds)

/-! ## Runs -/

theorem length_run (hlaid : h.LaysOut write) (data : Octets) (calls : List h.Call) :
    (h.run data calls).length = data.length := by
  induction calls generalizing data with
  | nil => rfl
  | cons c calls ih => exact (ih (h.set data c)).trans (hlaid.length_set data c)

/-- A run of calls gives a field the number that the last call gave it. -/
theorem bitsAt_run (hlaid : h.LaysOut write) (hf : f ∈ h.fields) (hdata : h.length ≤ data.length)
    (calls : List h.Call) :
    bitsAt (h.run data calls) f.offset f.width =
      ((f.last? calls).map fun v => number v % 2 ^ f.width).getD
        (bitsAt data f.offset f.width) := by
  induction calls generalizing data with
  | nil => rfl
  | cons c calls ih =>
      have hafter : h.length ≤ (h.set data c).length := by rwa [hlaid.length_set]
      have hrun : h.run data (c :: calls) = h.run (h.set data c) calls := rfl
      rw [hrun, ih hafter, hlaid.bitsAt_set hf hdata, f.last?_cons]
      cases f.last? calls <;> rfl

/-- A field is read as the last call set it. -/
theorem get_run (hlaid : h.LaysOut write) (hf : f ∈ h.fields) (hdata : h.length ≤ data.length)
    (calls : List h.Call) :
    f.get (h.run data calls) = ((f.last? calls).map f.reduce).getD (f.get data) := by
  have hafter : h.length ≤ (h.run data calls).length := by rwa [hlaid.length_run]
  rw [hlaid.get_eq _ hafter f hf, hlaid.get_eq _ hdata f hf, hlaid.bitsAt_run hf hdata]
  cases f.last? calls <;> rfl

/-- A run of calls changes no octet outside of the fields that were set. -/
theorem getElem?_run (hlaid : h.LaysOut write) (calls : List h.Call)
    (hnone : ∀ f ∈ h.fields, f.Holds j → f.last? calls = none) :
    (h.run data calls)[j]? = data[j]? := by
  induction calls generalizing data with
  | nil => rfl
  | cons c calls ih =>
      have hunset : ∀ f ∈ h.fields, f.Holds j → f.last? calls = none ∧ f.given? c = none := by
        intro f hf hholds
        rw [← Option.or_eq_none_iff, ← f.last?_cons]
        exact hnone f hf hholds
      have hrun : h.run data (c :: calls) = h.run (h.set data c) calls := rfl
      rw [hrun, ih fun f hf hholds => (hunset f hf hholds).1,
        hlaid.getElem?_set fun f hf hholds => (hunset f hf hholds).2]

end LaysOut

end HeaderView

end PacketLayers
