import PacketLayers.Industrial.Cip
import PacketLayers.Proofs.Octets.Stands

/-!
# The grammar of CIP messages

The path of a request is a sequence of segments (`Cip.PathSegment`), each a code
octet with a value of one octet, or a wide code with a pad octet and a little-endian
word.  The header of a response ends in a counted list of little-endian words.  Both
are stated here by what is written, and the decoder is shown to accept exactly that.

A path is followed segment by segment: `readPath_append` is what the reader does with
one segment, `exists_of_readPath` takes an accepted path apart again.  The main
statement is `Cip.decode_iff_grammar`.
-/

namespace PacketLayers.Cip

/-! ## Paths -/

/-- What a segment of a path names. -/
inductive SegmentKind where
  | classId
  | instanceId
  | attributeId
  deriving DecidableEq, Repr

/-- The octet that a segment starts with. -/
def SegmentKind.code (kind : SegmentKind) (wide : Bool) : UInt8 :=
  match kind, wide with
  | .classId, false => 0x20
  | .classId, true => 0x21
  | .instanceId, false => 0x24
  | .instanceId, true => 0x25
  | .attributeId, false => 0x30
  | .attributeId, true => 0x31

/-- A segment of a path. -/
inductive PathSegment where
  | narrow (kind : SegmentKind) (value : UInt8)
  | wide (kind : SegmentKind) (padding : UInt8) (value : UInt16)
  deriving DecidableEq, Repr

namespace PathSegment

def kind : PathSegment → SegmentKind
  | narrow kind _ => kind
  | wide kind _ _ => kind

def value : PathSegment → UInt16
  | narrow _ value => value.toUInt16
  | wide _ _ value => value

def octets : PathSegment → Octets
  | narrow kind value => [kind.code false, value]
  | wide kind padding value => kind.code true :: padding :: le16 value

end PathSegment

/-- The octets of a path. -/
def pathOctets (segments : List PathSegment) : Octets := segments.flatMap PathSegment.octets

/-- The value of the last segment of a kind. -/
def lastValue (kind : SegmentKind) (segments : List PathSegment) : Option UInt16 :=
  (segments.findRev? fun segment => segment.kind = kind).map PathSegment.value

/-- A layer with the value of a segment. -/
def assign (c : Cip) (kind : SegmentKind) (value : UInt16) : Cip :=
  match kind with
  | .classId => { c with classId := some value }
  | .instanceId => { c with instanceId := some value }
  | .attributeId => { c with attributeId := some value }

/-- A layer with the values of a path. -/
def assignAll (c : Cip) (segments : List PathSegment) : Cip :=
  segments.foldl (fun c segment => c.assign segment.kind segment.value) c

variable {old c : Cip} {path data : Octets}

/-! ### One segment -/

theorem isWide_code (kind : SegmentKind) (wide : Bool) : isWide (kind.code wide) = wide := by
  cases kind <;> cases wide <;> decide

theorem setSegment_code (c : Cip) (kind : SegmentKind) (wide : Bool) (value : UInt16) :
    c.setSegment (kind.code wide) value = some (c.assign kind value) := by
  cases kind <;> cases wide <;> rfl

/-- The lowest bit of a code is its width, the other bits are its kind. -/
theorem eq_of_half {first code : UInt8} (hhalf : first.toNat / 2 = code.toNat / 2)
    (hwide : isWide first = isWide code) : first = code := by
  apply UInt8.toNat_inj.mp
  simp only [isWide, Nat.testBit_zero, decide_eq_decide] at hwide
  omega

/-- Only segments that start with the code of a kind are assigned. -/
theorem exists_code_of_setSegment {first : UInt8} {value : UInt16} {longer : Cip}
    (h : c.setSegment first value = some longer) :
    ∃ kind : SegmentKind, first = kind.code (isWide first) := by
  have hcode (kind : SegmentKind) (hhalf : first.toNat / 2 = (kind.code (isWide first)).toNat / 2) :
      first = kind.code (isWide first) :=
    eq_of_half hhalf (isWide_code kind (isWide first)).symm
  unfold setSegment at h
  split at h
  · next hhalf =>
      refine ⟨.classId, hcode _ ?_⟩
      rw [hhalf]
      cases isWide first <;> rfl
  · next hhalf =>
      refine ⟨.instanceId, hcode _ ?_⟩
      rw [hhalf]
      cases isWide first <;> rfl
  · next hhalf =>
      refine ⟨.attributeId, hcode _ ?_⟩
      rw [hhalf]
      cases isWide first <;> rfl
  · cases h

/-- What reading a path does with a segment that it holds whole. -/
theorem readPath_of_setSegment {first : UInt8} {tail : Octets} {longer : Cip}
    (hinside : segmentLength first ≤ (first :: tail).length)
    (hset : c.setSegment first (segmentValue (first :: tail)) = some longer) :
    c.readPath (first :: tail) =
      longer.readPath ((first :: tail).drop (segmentLength first)) := by
  have hlong : ¬ ((first :: tail).take (segmentLength first)).length < segmentLength first := by
    rw [List.length_take]
    omega
  rw [readPath]
  simp only [hlong, if_false, hset]

/-- A segment in front of a path is assigned, and the path is read behind it. -/
theorem readPath_append (c : Cip) (segment : PathSegment) (rest : Octets) :
    c.readPath (segment.octets ++ rest) =
      (c.assign segment.kind segment.value).readPath rest := by
  cases segment with
  | narrow kind value =>
      have hlength : segmentLength (kind.code false) = 2 := by
        rw [segmentLength, isWide_code]
        rfl
      have hvalue : segmentValue (kind.code false :: value :: rest) = value.toUInt16 := by
        simp [segmentValue, octetAt, isWide_code]
      have hset := setSegment_code c kind false value.toUInt16
      rw [← hvalue] at hset
      refine (readPath_of_setSegment ?_ hset).trans ?_
      · rw [hlength]
        exact Nat.le_add_left 2 rest.length
      · rw [hlength, hvalue]
        rfl
  | wide kind padding value =>
      have hlength : segmentLength (kind.code true) = 4 := by
        rw [segmentLength, isWide_code]
        rfl
      have hstands : Stands (kind.code true :: padding :: (le16 value ++ rest)) 2 (le16 value) :=
        List.prefix_append _ _
      have hvalue : segmentValue (kind.code true :: padding :: (le16 value ++ rest)) = value := by
        simp only [segmentValue, octetAt, List.getD_cons_zero, isWide_code, if_true,
          hstands.le16At_eq]
      have hset := setSegment_code c kind true value
      rw [← hvalue] at hset
      refine (readPath_of_setSegment ?_ hset).trans ?_
      · rw [hlength]
        exact Nat.le_add_left 4 rest.length
      · rw [hlength, hvalue]
        rfl

/-- Octets that have room for the segment that their first one announces begin with it. -/
theorem exists_segment {first : UInt8} {tail : Octets} {kind : SegmentKind}
    (hfirst : first = kind.code (isWide first))
    (hinside : segmentLength first ≤ (first :: tail).length) :
    ∃ segment : PathSegment,
      first :: tail = segment.octets ++ (first :: tail).drop (segmentLength first) := by
  cases hwide : isWide first with
  | false =>
      have hlength : segmentLength first = 2 := by
        rw [segmentLength, hwide]
        rfl
      rw [hlength] at hinside ⊢
      rw [hwide] at hfirst
      match tail, hinside with
      | value :: rest, _ =>
          refine ⟨.narrow kind value, ?_⟩
          simp [PathSegment.octets, ← hfirst]
  | true =>
      have hlength : segmentLength first = 4 := by
        rw [segmentLength, hwide]
        rfl
      rw [hlength] at hinside ⊢
      rw [hwide] at hfirst
      match tail, hinside with
      | padding :: low :: high :: rest, _ =>
          have hvalue : le16 (le16At [low, high] 0) = [low, high] := le16_le16At _ 0
          refine ⟨.wide kind padding (le16At [low, high] 0), ?_⟩
          simp [PathSegment.octets, ← hfirst, hvalue]

/-! ### Whole paths -/

theorem readPath_pathOctets (c : Cip) (segments : List PathSegment) :
    c.readPath (pathOctets segments) = (c.assignAll segments, none) := by
  induction segments generalizing c with
  | nil =>
      rw [pathOctets, List.flatMap_nil, readPath]
      rfl
  | cons segment segments ih =>
      rw [pathOctets, List.flatMap_cons, readPath_append]
      exact ih (c.assign segment.kind segment.value)

/-- A path that was read is a sequence of segments. -/
theorem exists_of_readPath (h : (c.readPath path).2 = none) :
    ∃ segments, path = pathOctets segments := by
  -- The cases are the end of the path, a segment that is cut, one of no known kind, and one that
  -- is assigned.
  induction c, path using readPath.induct with
  | case1 c => exact ⟨[], rfl⟩
  | case2 c segment tail length hshort =>
      rw [readPath] at h
      simp only [length] at hshort
      simp only [hshort, if_true] at h
      cases h
  | case3 c segment tail length hlong hset =>
      rw [readPath] at h
      simp only [length] at hlong
      simp only [hlong, if_false, hset] at h
      cases h
  | case4 c segment tail length next hlong hset ih =>
      have hinside : segmentLength segment ≤ (segment :: tail).length := by
        rw [List.length_take] at hlong
        omega
      rw [readPath_of_setSegment hinside hset] at h
      obtain ⟨segments, hrest⟩ := ih h
      obtain ⟨kind, hcode⟩ := exists_code_of_setSegment hset
      obtain ⟨first, hoctets⟩ := exists_segment hcode hinside
      refine ⟨first :: segments, ?_⟩
      rw [hoctets, hrest, pathOctets, pathOctets, List.flatMap_cons]

theorem lastValue_cons (kind : SegmentKind) (segment : PathSegment)
    (segments : List PathSegment) :
    lastValue kind (segment :: segments) =
      (lastValue kind segments).or (if segment.kind = kind then some segment.value else none) := by
  rw [lastValue, lastValue, List.findRev?]
  cases segments.findRev? fun segment => segment.kind = kind with
  | some last => rfl
  | none => by_cases hkind : segment.kind = kind <;> simp [hkind]

/-- The last segment of each kind gives the layer its value; a kind without a segment leaves what
there was. -/
theorem assignAll_eq (c : Cip) (segments : List PathSegment) :
    c.assignAll segments =
      { c with
        classId := (lastValue .classId segments).or c.classId
        instanceId := (lastValue .instanceId segments).or c.instanceId
        attributeId := (lastValue .attributeId segments).or c.attributeId } := by
  induction segments generalizing c with
  | nil => rfl
  | cons segment segments ih =>
      have hcons : c.assignAll (segment :: segments) =
          (c.assign segment.kind segment.value).assignAll segments := rfl
      rw [hcons, ih]
      simp only [lastValue_cons, Option.or_assoc]
      cases hkind : segment.kind <;> simp [assign]

/-! ## Words -/

theorem length_words (data : Octets) : (words data).length = data.length / 2 := by
  induction data using words.induct with
  | case1 low high rest ih =>
      rw [words, List.length_cons, ih, List.length_cons, List.length_cons]
      omega
  | case2 data hshort =>
      match data, hshort with
      | [], _ => rfl
      | [low], _ => simp [words]
      | low :: high :: rest, hshort => exact (hshort low high rest rfl).elim

/-- The words of an even number of octets are these octets, two by two. -/
theorem flatMap_words (h : data.length % 2 = 0) : (words data).flatMap le16 = data := by
  induction data using words.induct with
  | case1 low high rest ih =>
      have hword : le16 (le16At [low, high] 0) = [low, high] := le16_le16At _ 0
      have hrest : rest.length % 2 = 0 := by
        rw [List.length_cons, List.length_cons] at h
        omega
      rw [words, List.flatMap_cons, hword, ih hrest]
      rfl
  | case2 data hshort =>
      match data, hshort, h with
      | [], _, _ => rfl
      | [low], _, h => exact absurd h (by simp)
      | low :: high :: rest, hshort, _ => exact (hshort low high rest rfl).elim

/-! ## Messages -/

/-- Whether a message answers another one. -/
def answers (data : Octets) : Bool := (octetAt data 0).toNat.testBit 7

/-- The octets of a request in front of its data. -/
def requestLength (data : Octets) : Nat := 2 + (octetAt data 1).toNat * 2

/-- The octets of a response in front of its data. -/
def responseLength (data : Octets) : Nat := 4 + (octetAt data 3).toNat * 2

/-- What a request with a path says; the fields of responses are empty. -/
def ofRequest (data : Octets) (segments : List PathSegment) : Cip :=
  { extent := .whole data.length
    response := false
    service := .ofNumber (UInt8.ofNat ((octetAt data 0).toNat % 128))
    pathSize := octetAt data 1
    classId := lastValue .classId segments
    instanceId := lastValue .instanceId segments
    attributeId := lastValue .attributeId segments
    status := 0
    additionalStatus := []
    data := data.drop (requestLength data) }

/-- What a response with words of additional status says; the fields of requests are empty. -/
def ofResponse (data : Octets) (status : List UInt16) : Cip :=
  { extent := .whole data.length
    response := true
    service := .ofNumber (UInt8.ofNat ((octetAt data 0).toNat % 128))
    pathSize := 0
    classId := none
    instanceId := none
    attributeId := none
    status := octetAt data 2
    additionalStatus := status
    data := data.drop (responseLength data) }

/-- A request is read if it has room for its path and the path is a sequence of segments. -/
theorem readRequest_eq (c : Cip) {segments : List PathSegment}
    (hinside : requestLength data ≤ data.length)
    (hpath : slice data 2 (requestLength data) = pathOctets segments) :
    c.readRequest data =
      ({ assignAll { c with pathSize := octetAt data 1 } segments with
        data := data.drop (requestLength data) }, none) := by
  have hhead : ¬ data.length < 2 := by
    unfold requestLength at hinside
    omega
  simp only [requestLength] at hinside hpath ⊢
  simp only [readRequest, hhead, if_false, Nat.not_lt.mpr hinside, hpath, readPath_pathOctets]

theorem exists_of_readRequest (h : (c.readRequest data).2 = none) :
    requestLength data ≤ data.length ∧
      ∃ segments, slice data 2 (requestLength data) = pathOctets segments := by
  unfold readRequest at h
  split at h
  · cases h
  · simp only at h
    split at h
    · cases h
    · next hinside =>
        refine ⟨Nat.le_of_not_lt hinside, ?_⟩
        split at h
        · cases h
        · next walked hpath => exact exists_of_readPath (congrArg Prod.snd hpath)

/-- A request is accepted as what it says. -/
theorem decode_request {segments : List PathSegment} (hkind : answers data = false)
    (hinside : requestLength data ≤ data.length)
    (hpath : slice data 2 (requestLength data) = pathOctets segments) :
    old.decode data = .accept (ofRequest data segments) := by
  cases data with
  | nil => exact absurd hinside (by decide)
  | cons first tail =>
      have hresponse : (readFirst old first).response = false := hkind
      simp only [decode, hresponse, Bool.false_eq_true, if_false, readRequest_eq _ hinside hpath,
        assignAll_eq]
      simp [ofRequest, readFirst, octetAt]

theorem exists_of_decode_request (hkind : answers data = false)
    (h : (old.decode data).error = none) :
    requestLength data ≤ data.length ∧
      ∃ segments, slice data 2 (requestLength data) = pathOctets segments := by
  cases data with
  | nil => cases h
  | cons first tail =>
      have hresponse : (readFirst old first).response = false := hkind
      simp only [decode, hresponse, Bool.false_eq_true, if_false] at h
      split at h
      · cases h
      · next read hread => exact exists_of_readRequest (congrArg Prod.snd hread)

/-- A response is read if it has room for its additional status. -/
theorem readResponse_eq (c : Cip) (hinside : responseLength data ≤ data.length) :
    c.readResponse data =
      ({ c with
        status := octetAt data 2
        additionalStatus := words (slice data 4 (responseLength data))
        data := data.drop (responseLength data) }, none) := by
  have hhead : ¬ data.length < 4 := by
    unfold responseLength at hinside
    omega
  simp only [responseLength] at hinside ⊢
  simp only [readResponse, hhead, if_false, Nat.not_lt.mpr hinside]

theorem length_le_of_readResponse (h : (c.readResponse data).2 = none) :
    responseLength data ≤ data.length := by
  unfold readResponse at h
  split at h
  · cases h
  · simp only at h
    split at h
    · cases h
    · next hinside => exact Nat.le_of_not_lt hinside

/-- A response is accepted as what it says. -/
theorem decode_response (hkind : answers data = true)
    (hinside : responseLength data ≤ data.length) :
    old.decode data =
      .accept (ofResponse data (words (slice data 4 (responseLength data)))) := by
  cases data with
  | nil => exact absurd hinside (by decide)
  | cons first tail =>
      have hresponse : (readFirst old first).response = true := hkind
      simp only [decode, hresponse, if_true, readResponse_eq _ hinside]
      simp [ofResponse, readFirst, octetAt]

theorem length_le_of_decode_response (hkind : answers data = true)
    (h : (old.decode data).error = none) : responseLength data ≤ data.length := by
  cases data with
  | nil => cases h
  | cons first tail =>
      have hresponse : (readFirst old first).response = true := hkind
      simp only [decode, hresponse, if_true] at h
      split at h
      · cases h
      · next read hread => exact length_le_of_readResponse (congrArg Prod.snd hread)

/-- A request is accepted exactly if it has room for the path that it announces and the path is a
sequence of segments; then it is read as these segments and the data behind the path.  A response is
accepted exactly if it has room for the additional status that it announces; then it is read as
these words and the data behind them.  Nothing of what the layer held before is left. -/
theorem decode_iff_grammar (old : Cip) (data : Octets) :
    (answers data = false →
      ((old.decode data).error = none ↔
        requestLength data ≤ data.length ∧
          ∃ segments, slice data 2 (requestLength data) = pathOctets segments) ∧
      ∀ segments, requestLength data ≤ data.length →
        slice data 2 (requestLength data) = pathOctets segments →
        old.decode data = .accept (ofRequest data segments)) ∧
    (answers data = true →
      ((old.decode data).error = none ↔ responseLength data ≤ data.length) ∧
      (responseLength data ≤ data.length →
        ∃ status : List UInt16, status.length = (octetAt data 3).toNat ∧
          slice data 4 (responseLength data) = status.flatMap le16 ∧
          old.decode data = .accept (ofResponse data status))) := by
  constructor
  · intro hkind
    refine ⟨⟨exists_of_decode_request hkind, ?_⟩, ?_⟩
    · rintro ⟨hinside, segments, hpath⟩
      rw [decode_request hkind hinside hpath]
      rfl
    · intro segments hinside hpath
      exact decode_request hkind hinside hpath
  · intro hkind
    refine ⟨⟨length_le_of_decode_response hkind, ?_⟩, ?_⟩
    · intro hinside
      rw [decode_response hkind hinside]
      rfl
    · intro hinside
      have harea : (slice data 4 (responseLength data)).length = (octetAt data 3).toNat * 2 := by
        rw [length_slice hinside, responseLength, Nat.add_sub_cancel_left]
      refine ⟨_, ?_, ?_, decode_response hkind hinside⟩
      · rw [length_words, harea, Nat.mul_div_cancel _ Nat.two_pos]
      · exact (flatMap_words (by rw [harea, Nat.mul_mod_left])).symm

/-- A request whose path has a wide segment, and names its class twice. -/
def twiceNamedRequest : Octets :=
  [0x0e, 0x04, 0x20, 0x01, 0x25, 0x00, 0x34, 0x12, 0x20, 0x02, 0xaa]

/-- A response with one word of additional status. -/
def extendedResponse : Octets := [0x8e, 0x00, 0x05, 0x01, 0x34, 0x12, 0xde, 0xad]

/-- The later class of the request is kept, and what is behind the path is its data; what is behind
the additional status is the data of the response. -/
theorem decode_iff_grammar_exchange :
    let path : List PathSegment :=
      [.narrow .classId 0x01, .wide .instanceId 0x00 0x1234, .narrow .classId 0x02]
    (answers twiceNamedRequest = false ∧
      requestLength twiceNamedRequest ≤ twiceNamedRequest.length ∧
      slice twiceNamedRequest 2 (requestLength twiceNamedRequest) = pathOctets path ∧
      fresh.decode twiceNamedRequest = .accept (ofRequest twiceNamedRequest path) ∧
      (ofRequest twiceNamedRequest path).classId = some 0x02 ∧
      (ofRequest twiceNamedRequest path).data = [0xaa]) ∧
    answers extendedResponse = true ∧
      responseLength extendedResponse ≤ extendedResponse.length ∧
      ∃ status, status.length = 1 ∧
        slice extendedResponse 4 (responseLength extendedResponse) = status.flatMap le16 ∧
        fresh.decode extendedResponse = .accept (ofResponse extendedResponse status) := by
  intro path
  have hrequest : answers twiceNamedRequest = false := by decide
  have hpath : slice twiceNamedRequest 2 (requestLength twiceNamedRequest) = pathOctets path := by
    decide
  have hread :=
    ((decode_iff_grammar fresh twiceNamedRequest).1 hrequest).2 path (by decide) hpath
  have hresponse : answers extendedResponse = true := by decide
  have hanswer := ((decode_iff_grammar fresh extendedResponse).2 hresponse).2 (by decide)
  exact ⟨⟨hrequest, by decide, hpath, hread, by decide, by decide⟩, hresponse, by decide, hanswer⟩

end PacketLayers.Cip
