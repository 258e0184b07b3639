import Mathlib.Data.Nat.PSub
import PacketLayers.Proofs.Bounds.Reading
import PacketLayers.Proofs.Stack.Wrapping

/-!
# The array under a buffer

A buffer keeps its string in an array, from a moving start on.  `GrowingArray` is the
array and the start alone, without the promise that the start lies inside of the array.
Each operation goes on with them step by step: it subtracts positions, allocates, copies
over a range, fills a range with zeros and hands a range out.  A step has no value where
its range is not there or a difference would be negative.

`BufferCall.stringAfter?` is what a caller has in mind: zero octets come in front of a
string or behind it, and octets are overwritten in place.  It has no value just if octets
are written where the string has none.  The main statement `buffer_grows_at_both_ends`
says that an array that was empty follows the string through every run of calls, and that
`Buffer`, on which the layers are written, is this array with the start known to be inside.
-/

namespace PacketLayers

/-! ## Calls -/

/-- A call on a buffer. -/
inductive BufferCall where
  /-- Reserve octets in front. -/
  | prepend (n : Nat)
  /-- Reserve octets behind. -/
  | append (n : Nat)
  /-- Overwrite octets from a position on, in a region that was handed out or in a view of
  the whole string. -/
  | write (i : Nat) (octets : Octets)

namespace BufferCall

/-- The string behind a call, if it has all the octets that are to be overwritten. -/
def onString? (s : Octets) : BufferCall → Option Octets
  | prepend n => some (List.replicate n 0 ++ s)
  | append n => some (s ++ List.replicate n 0)
  | write i octets =>
    if i + octets.length ≤ s.length then
      some (s.take i ++ (octets ++ s.drop (i + octets.length)))
    else
      none

/-- The string behind some calls, the first of which finds an empty one. -/
def stringAfter? (calls : List BufferCall) : Option Octets := calls.foldlM onString? []

end BufferCall

/-! ## Step by step -/

/-- An array that holds a string from `start` on. -/
structure GrowingArray where
  data : Array UInt8
  start : Nat

namespace GrowingArray

/-- Copy octets over a range of an array. -/
def copy? (data : Array UInt8) (i : Nat) (octets : Octets) : Option (Array UInt8) :=
  if i + octets.length ≤ data.size then some (Buffer.overwrite data i octets) else none

def empty : GrowingArray := ⟨#[], 0⟩

/-- A view of the string. -/
def view? (g : GrowingArray) : Option Octets := behind? g.data.toList g.start

def length? (g : GrowingArray) : Option Nat := g.data.size.psub g.start

def isEmpty? (g : GrowingArray) : Option Bool := g.length?.map (· == 0)

/-- Without room for `n` octets in front, copy the array to the end of a larger one. -/
def makeRoom? (g : GrowingArray) (n : Nat) : Option GrowingArray :=
  if g.start < n then do
    let missing ← n.psub g.start
    let extra := missing + Buffer.headroom
    let grown ← copy? (Array.replicate (extra + g.data.size) 0) extra g.data.toList
    return ⟨grown, g.start + extra⟩
  else
    some g

/-- Reserve octets in front, fill them with zeros and hand them out. -/
def prepend? (g : GrowingArray) (n : Nat) : Option (GrowingArray × Octets) := do
  let roomy ← g.makeRoom? n
  let start ← roomy.start.psub n
  let cleared ← copy? roomy.data start (List.replicate n 0)
  let region ← slice? cleared.toList start (start + n)
  return (⟨cleared, start⟩, region)

/-- Lengthen the array by zeros and hand them out. -/
def append? (g : GrowingArray) (n : Nat) : Option (GrowingArray × Octets) := do
  let longer := g.data ++ Array.replicate n 0
  let region ← behind? longer.toList g.data.size
  return (⟨longer, g.start⟩, region)

/-- Overwrite octets in a view. -/
def write? (g : GrowingArray) (i : Nat) (octets : Octets) : Option GrowingArray := do
  let view ← g.view?
  if i + octets.length ≤ view.length then
    let written ← copy? g.data (g.start + i) octets
    return ⟨written, g.start⟩
  else
    none

/-- Share the whole array, and cut off what is in front of the string. -/
def freeze? (g : GrowingArray) : Option Octets :=
  let shared := g.data.toList
  behind? shared g.start

def call? (g : GrowingArray) : BufferCall → Option GrowingArray
  | .prepend n => (g.prepend? n).map (·.1)
  | .append n => (g.append? n).map (·.1)
  | .write i octets => g.write? i octets

/-- The array behind some calls, one after the other. -/
def run? (g : GrowingArray) (calls : List BufferCall) : Option GrowingArray :=
  calls.foldlM call? g

theorem copy?_eq {data : Array UInt8} {i : Nat} {octets : Octets}
    (h : i + octets.length ≤ data.size) :
    copy? data i octets = some (Buffer.overwrite data i octets) :=
  if_pos h

end GrowingArray

/-! ## Buffers -/

namespace Buffer

open GrowingArray (copy?_eq)

variable {b : Buffer} {s : Octets}

/-- The array and the start, without the promise. -/
def bare (b : Buffer) : GrowingArray := ⟨b.data, b.start⟩

def call (b : Buffer) : BufferCall → Buffer
  | .prepend n => b.prependZeros n
  | .append n => b.appendZeros n
  | .write i octets => b.write i octets

/-- The buffer behind some calls, one after the other. -/
def run (b : Buffer) (calls : List BufferCall) : Buffer := calls.foldl call b

theorem view?_bare (b : Buffer) : b.bare.view? = some b.octets := by
  have hinside : b.start ≤ b.data.toList.length := by
    rw [Array.length_toList]
    exact b.start_le
  rw [GrowingArray.view?, bare, behind?_eq hinside, octets_eq]

theorem freeze?_bare (b : Buffer) : b.bare.freeze? = some b.octets := view?_bare b

theorem length?_bare (b : Buffer) : b.bare.length? = some b.octets.length := by
  rw [GrowingArray.length?, bare, Nat.psub_eq_sub b.start_le, length_octets, length]

theorem isEmpty_eq (b : Buffer) : b.isEmpty = b.octets.isEmpty := by
  rw [isEmpty, ← length_octets]
  cases b.octets <;> rfl

theorem isEmpty?_bare (b : Buffer) : b.bare.isEmpty? = some b.octets.isEmpty := by
  rw [GrowingArray.isEmpty?, length?_bare, Option.map_some, length_octets, ← isEmpty_eq]
  rfl

/-- The array that is copied behind a longer region of zeros. -/
theorem overwrite_replicate (data : Array UInt8) (n : Nat) :
    overwrite (Array.replicate (n + data.size) 0) n data.toList = Array.replicate n 0 ++ data := by
  apply Array.toList_inj.mp
  rw [toList_overwrite, Array.toList_replicate, Array.toList_append, Array.toList_replicate,
    putAt_eq (by simp), Array.length_toList]
  simp

theorem makeRoom?_bare (b : Buffer) (n : Nat) : b.bare.makeRoom? n = some (b.makeRoom n).bare := by
  unfold GrowingArray.makeRoom? makeRoom
  by_cases h : b.start < n
  · have hfits : n - b.start + headroom + b.data.toList.length ≤
        (Array.replicate (n - b.start + headroom + b.data.size) (0 : UInt8)).size := by
      rw [Array.size_replicate, Array.length_toList]
    simp only [bare, if_pos h, Nat.psub_eq_sub (Nat.le_of_lt h), copy?_eq hfits,
      overwrite_replicate, Option.bind_eq_bind, Option.bind_some]
    rfl
  · rw [if_neg h, bare, if_neg h]

/-- What is handed out in front is zero, whatever the array held there. -/
theorem prepend?_bare (b : Buffer) (n : Nat) :
    b.bare.prepend? n = some ((b.prependZeros n).bare, List.replicate n 0) := by
  obtain ⟨-, hroom⟩ := octets_makeRoom b n
  have hinside := (b.makeRoom n).start_le
  have hcleared : (b.makeRoom n).start - n + (List.replicate n (0 : UInt8)).length ≤
      (b.makeRoom n).data.toList.length := by
    rw [List.length_replicate, Array.length_toList]
    omega
  have hregion : slice? (b.prependZeros n).data.toList (b.prependZeros n).start
      ((b.prependZeros n).start + n) = some (List.replicate n 0) := by
    have hstands := (stands_putAt hcleared).eq_slice
    rw [← toList_overwrite, List.length_replicate] at hstands
    rw [slice?_eq (Nat.le_add_right _ _)]
    · exact congrArg some hstands.symm
    · simp only [prependZeros, Array.length_toList, size_overwrite]
      omega
  rw [Array.length_toList] at hcleared
  simp only [GrowingArray.prepend?, makeRoom?_bare, Option.bind_eq_bind, Option.bind_some]
  simp only [bare, Nat.psub_eq_sub hroom, copy?_eq hcleared, Option.bind_some]
  exact congrArg (Option.bind · _) hregion

/-- What is handed out behind is zero. -/
theorem append?_bare (b : Buffer) (n : Nat) :
    b.bare.append? n = some ((b.appendZeros n).bare, List.replicate n 0) := by
  have hregion : behind? (b.data ++ Array.replicate n 0).toList b.data.size =
      some (List.replicate n 0) := by
    rw [behind?_eq, Array.toList_append, Array.toList_replicate, ← Array.length_toList,
      List.drop_left]
    simp
  simp only [GrowingArray.append?, bare, hregion, Option.bind_eq_bind, Option.bind_some]
  rfl

theorem write?_bare (b : Buffer) (i : Nat) (octets : Octets) :
    b.bare.write? i octets =
      if i + octets.length ≤ b.octets.length then some (b.write i octets).bare else none := by
  simp only [GrowingArray.write?, view?_bare, Option.bind_eq_bind, Option.bind_some]
  refine if_ctx_congr Iff.rfl (fun hfits => ?_) fun _ => rfl
  have hinside : b.start + i + octets.length ≤ b.data.size := by
    have := b.start_le
    rw [length_octets, length] at hfits
    omega
  simp only [bare, copy?_eq hinside, Option.bind_some]
  rfl

/-! ## Runs -/

/-- A call goes through exactly if it does so on the string, and then gives the array of the
buffer that holds the string behind the call. -/
theorem call?_bare (b : Buffer) (c : BufferCall) :
    b.bare.call? c = (c.onString? b.octets).map fun _ => (b.call c).bare := by
  cases c with
  | prepend n => rw [GrowingArray.call?, prepend?_bare]; rfl
  | append n => rw [GrowingArray.call?, append?_bare]; rfl
  | write i octets =>
      rw [GrowingArray.call?, write?_bare, BufferCall.onString?]
      split <;> rfl

theorem octets_call {c : BufferCall} (h : c.onString? b.octets = some s) :
    (b.call c).octets = s := by
  cases c with
  | prepend n => exact (octets_prependZeros b n).trans (Option.some.inj h)
  | append n => exact (octets_appendZeros b n).trans (Option.some.inj h)
  | write i octets =>
      rw [BufferCall.onString?, Option.ite_none_right_eq_some] at h
      exact (octets_write h.1).trans (Option.some.inj h.2)

theorem run?_bare (b : Buffer) (calls : List BufferCall) :
    b.bare.run? calls =
      (calls.foldlM BufferCall.onString? b.octets).map fun _ => (b.run calls).bare := by
  induction calls generalizing b with
  | nil => rfl
  | cons c calls ih =>
      have hrun : b.run (c :: calls) = (b.call c).run calls := rfl
      rw [GrowingArray.run?, List.foldlM_cons, List.foldlM_cons, call?_bare, hrun]
      cases hstep : c.onString? b.octets with
      | none => rfl
      | some s =>
          have hnext := ih (b.call c)
          rw [octets_call hstep] at hnext
          exact hnext

theorem octets_run {calls : List BufferCall}
    (h : calls.foldlM BufferCall.onString? b.octets = some s) : (b.run calls).octets = s := by
  induction calls generalizing b with
  | nil => exact Option.some.inj h
  | cons c calls ih =>
      rw [List.foldlM_cons, Option.bind_eq_bind, Option.bind_eq_some_iff] at h
      obtain ⟨s', hstep, hrest⟩ := h
      rw [← octets_call hstep] at hrest
      exact ih hrest

end Buffer

/-- A buffer is a string that grows at both ends.  Let some calls be made on an empty one.  Step by
step, the array goes through all of them if and only if no octets are written where the string has
none, and what is left is then the array of the buffer on which the layers are written.  The string
starts inside of the array; each view gives it, and so do the shared octets in the end, and its
length is the one that is told.  Whatever was written before, the octets that are reserved next are
zeros, in front and behind. -/
theorem buffer_grows_at_both_ends (calls : List BufferCall) :
    let b := Buffer.empty.run calls
    GrowingArray.empty.run? calls = (BufferCall.stringAfter? calls).map (fun _ => b.bare) ∧
    ∀ s, BufferCall.stringAfter? calls = some s →
      (b.octets = s ∧ b.length = s.length ∧ b.isEmpty = s.isEmpty) ∧
      (b.bare.start ≤ b.bare.data.size ∧ b.bare.view? = some s ∧
        b.bare.length? = some s.length ∧ b.bare.isEmpty? = some s.isEmpty ∧
        b.bare.freeze? = some s) ∧
      ∀ n, (∃ longer, b.bare.prepend? n = some (longer, List.replicate n 0)) ∧
        ∃ longer, b.bare.append? n = some (longer, List.replicate n 0) := by
  intro b
  refine ⟨Buffer.empty.run?_bare calls, fun s hs => ?_⟩
  obtain rfl : b.octets = s := Buffer.octets_run hs
  refine ⟨⟨rfl, b.length_octets.symm, b.isEmpty_eq⟩, ?_, fun n => ?_⟩
  · exact ⟨b.start_le, b.view?_bare, b.length?_bare, b.isEmpty?_bare, b.freeze?_bare⟩
  · exact ⟨⟨_, b.prepend?_bare n⟩, _, b.append?_bare n⟩

/-- A header is put in front of four octets, a trailer behind it, and then more in front than there
is room for. -/
theorem buffer_grows_at_both_ends_trailed :
    let calls : List BufferCall :=
      [.append 2, .write 0 [3, 4], .prepend 2, .write 0 [1, 2], .append 1, .write 4 [5],
        .prepend 130]
    let s : Octets := List.replicate 130 0 ++ [1, 2, 3, 4, 5]
    BufferCall.stringAfter? calls = some s ∧
      (Buffer.empty.run calls).bare.freeze? = some s := by
  intro calls s
  have hstring : BufferCall.stringAfter? calls = some s := rfl
  obtain ⟨-, ⟨-, -, -, -, hshared⟩, -⟩ := (buffer_grows_at_both_ends calls).2 s hstring
  exact ⟨hstring, hshared⟩

end PacketLayers
