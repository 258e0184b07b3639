/-! # Wire codes

Many header fields hold numbers of which a standard names only some.  Each such field has a type with
one constructor for every named number and one that keeps any other.  `WireCode` is what these types
have in common, for tools that read or list codes of any kind.
-/

namespace PacketLayers

/-- The values of a numeric field, some of them named. -/
class WireCode (E : Type) where
  /-- The value for a number, by its name if it has one. -/
  ofNat : Nat → E
  /-- The value that keeps a number without a name, even if the number has one. -/
  unnamed : Nat → E
  toNat : E → Nat
  /-- The identifier by which a value is listed. -/
  identifier : E → String

/-- A value that is read from some number, so that its number has no other name. -/
def IsCanonical {N E : Type} (ofNumber : N → E) (code : E) : Prop := ∃ n, ofNumber n = code

/-- A canonical value is read back from its number. -/
theorem IsCanonical.ofNumber_number {N E : Type} {ofNumber : N → E} {number : E → N} {code : E}
    (h : IsCanonical ofNumber code) (hnumber : ∀ n, number (ofNumber n) = n) :
    ofNumber (number code) = code := by
  obtain ⟨n, rfl⟩ := h
  rw [hnumber]

end PacketLayers
