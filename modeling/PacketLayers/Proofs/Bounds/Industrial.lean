import PacketLayers.Industrial.Cip
import PacketLayers.Industrial.Enip
import PacketLayers.Proofs.Bounds.OptionList

/-!
# EtherNet/IP and CIP messages are read inside their octets

The decoders of both protocols with checked readers.  The payload of an explicit
EtherNet/IP message is an item somewhere in the data of the command;
`ItemScan.Within` says that a scan of the items keeps it there, whatever the
lengths of the items are.
-/

namespace PacketLayers

variable {data : Octets}

/-! ## EtherNet/IP -/

namespace Enip

namespace ItemScan

def add? (scan : ItemScan) (position : Nat) (item : RawOption) :
    Option (Except DecodeError ItemScan) :=
  let dataStart := position + OptionFormat.commonPacketFormat.headerLength
  match EnipItemType.ofNumber item.tag with
  | .connectedData =>
    if item.data.length < 2 then
      some (.error (.malformed .enip "connected data without sequence count"))
    else do
      let sequenceCount ← le16? item.data 0
      return .ok {
        scan with
        sequenceCount := some sequenceCount
        dataItem := some .connectedData
        payload := some ⟨dataStart + 2, position + item.length⟩ }
  | .unconnectedData =>
    some (.ok {
      scan with
      dataItem := some .unconnectedData
      payload := some ⟨dataStart, position + item.length⟩ })
  | itemType => some (.ok
      { scan with reversedItems := ⟨itemType, item.data⟩ :: scan.reversedItems })

theorem add?_eq (scan : ItemScan) (position : Nat) (item : RawOption) :
    scan.add? position item = some (scan.add position item) := by
  cases htype : EnipItemType.ofNumber item.tag with
  | connectedData =>
      by_cases hshort : item.data.length < 2
      · simp only [add?, add, htype, hshort, if_true]
      · have hcount : le16? item.data 0 = some (le16At item.data 0) := le16?_eq (by omega)
        simp only [add?, add, htype, hshort, if_false, hcount]
        rfl
  | _ => simp only [add?, add, htype]

/-- The encapsulated message, if one was found, lies behind the prefix inside
the data of the command. -/
def Within (scan : ItemScan) (length : Nat) : Prop :=
  ∀ span, scan.payload = some span →
    prefixLength ≤ span.start ∧ span.start ≤ span.stop ∧ span.stop ≤ length

/-- An item inside the data of the command keeps the message there. -/
theorem Within.add
    {scan longer : ItemScan} {length position : Nat} {item : RawOption}
    (h : scan.Within length) (hposition : prefixLength ≤ position)
    (hinside : position + item.length ≤ length) (hheader : 4 ≤ item.length)
    (hdata : item.data.length = item.length - 4)
    (hadd : scan.add position item = .ok longer) : longer.Within length := by
  have hfour : OptionFormat.commonPacketFormat.headerLength = 4 := rfl
  unfold ItemScan.add at hadd
  split at hadd
  · split at hadd
    · cases hadd
    · next hlong =>
        obtain rfl := Except.ok.inj hadd
        intro span hspan
        obtain rfl := Option.some.inj hspan
        simp only [hfour]
        omega
  · obtain rfl := Except.ok.inj hadd
    intro span hspan
    obtain rfl := Option.some.inj hspan
    simp only [hfour]
    omega
  · obtain rfl := Except.ok.inj hadd
    exact h

end ItemScan

def scanItems? : Nat → OptionWalk → ItemScan → Option (ItemScan × Option DecodeError)
  | 0, _, scan => some (scan, none)
  | n + 1, walk, scan => do
    match ← walk.next? with
    | none => return (scan, some (.malformed .enip "fewer items than announced"))
    | some (.error error, _) => return (scan, some error)
    | some (.ok item, behind) =>
      match ← scan.add? (prefixLength + walk.offset) item with
      | .error error => return (scan, some error)
      | .ok longer => scanItems? n behind longer

theorem scanItems?_eq (n : Nat) (walk : OptionWalk) (scan : ItemScan) :
    scanItems? n walk scan = some (scanItems n walk scan) := by
  induction n generalizing walk scan with
  | zero => rfl
  | succ n ih =>
      simp only [scanItems?, scanItems, OptionWalk.next?_eq, Option.bind_eq_bind,
        Option.bind_some]
      cases hnext : walk.next with
      | none => rfl
      | some found =>
          obtain ⟨outcome, behind⟩ := found
          cases outcome with
          | error error => rfl
          | ok item =>
              simp only [ItemScan.add?_eq, Option.bind_some]
              cases scan.add (prefixLength + walk.offset) item with
              | error error => rfl
              | ok longer => exact ih behind longer

/-- What a walk over items finds next, and where it goes on. -/
theorem next_item
    {walk behind : OptionWalk} {item : RawOption} (hformat : walk.format = .commonPacketFormat)
    (h : walk.next = some (.ok item, behind)) :
    walk.readOption = .ok item ∧ behind = walk.advance item.length := by
  unfold OptionWalk.next at h
  split at h
  · cases h
  · next first tail hrest =>
      split at h
      · cases h
      · simp only [hformat, OptionFormat.isSingle, Bool.false_eq_true, if_false] at h
        split at h
        · cases h
        · next found hread =>
            obtain ⟨hitem, rfl⟩ := Prod.mk.inj (Option.some.inj h)
            obtain rfl := Except.ok.inj hitem
            exact ⟨hread, rfl⟩

/-- Scanning items keeps the message inside the data of the command. -/
theorem within_scanItems
    {length : Nat} (n : Nat) {walk : OptionWalk} {scan : ItemScan}
    (hformat : walk.format = .commonPacketFormat)
    (hlength : prefixLength + walk.offset + walk.rest.length = length)
    (h : scan.Within length) : (scanItems n walk scan).1.Within length := by
  -- The walk's place in the data is behind the prefix by its offset, and what is
  -- left of the list ends where the data ends.
  induction n generalizing walk scan with
  | zero => exact h
  | succ n ih =>
      unfold scanItems
      split
      · exact h
      · exact h
      · next item behind hnext =>
          obtain ⟨hread, rfl⟩ := next_item hformat hnext
          obtain ⟨hheader, hinside, hdata⟩ := OptionWalk.bounds_of_readOption hread
          simp only [hformat, OptionFormat.headerLength] at hheader hdata
          split
          · exact h
          · next longer hadd =>
              refine ih hformat ?_ (h.add (Nat.le_add_right _ _) ?_ hheader hdata hadd)
              · simp only [OptionWalk.advance, List.length_drop]
                omega
              · omega

def readFixed? (old : Enip) (data : Octets) : Option Enip := do
  let command ← le16? data 0
  let length ← le16? data 2
  let sessionHandle ← le32? data 4
  let status ← le32? data 8
  let senderContext ← block? 8 data 12
  let options ← le32? data 20
  return {
    old with
    command := .ofNumber command
    length := length
    sessionHandle := sessionHandle
    status := .ofNumber status
    senderContext := senderContext
    options := options
    interfaceHandle := 0
    timeout := 0
    items := []
    dataItem := none
    sequenceCount := none }

theorem readFixed?_eq (old : Enip) (h : 24 ≤ data.length) :
    readFixed? old data = some (readFixed old data) := by
  simp (disch := omega) only [readFixed?, le16?_eq, le32?_eq, block?_eq, Option.bind_eq_bind,
    Option.bind_some]
  rfl

def readItems? (e : Enip) (specific : Octets) :
    Option (Enip × Except DecodeError (Option Span)) :=
  if specific.length < prefixLength then
    some (e, .error (.malformed .enip "command data shorter than item list prefix"))
  else do
    let interfaceHandle ← le32? specific 0
    let timeout ← le16? specific 4
    let count ← le16? specific 6
    let list ← behind? specific prefixLength
    let found ← scanItems? count.toNat (.start .commonPacketFormat .enip list) .start
    let read : Enip :=
      { e with
        interfaceHandle := interfaceHandle
        timeout := timeout
        items := found.1.reversedItems.reverse
        dataItem := found.1.dataItem
        sequenceCount := found.1.sequenceCount }
    match found.2 with
    | some error => return (read, .error error)
    | none => return (read, .ok found.1.payload)

theorem readItems?_eq (e : Enip) (specific : Octets) :
    e.readItems? specific = some (e.readItems specific) := by
  by_cases hshort : specific.length < prefixLength
  · simp only [readItems?, readItems, hshort, if_true]
  · have hlong : 8 ≤ specific.length := Nat.le_of_not_lt hshort
    have hhandle : le32? specific 0 = some (le32At specific 0) := le32?_eq (by omega)
    have htimeout : le16? specific 4 = some (le16At specific 4) := le16?_eq (by omega)
    have hcount : le16? specific 6 = some (le16At specific 6) := le16?_eq (by omega)
    have hlist : behind? specific prefixLength = some (specific.drop prefixLength) :=
      behind?_eq hlong
    simp only [readItems?, readItems, hshort, if_false, hhandle, htimeout, hcount, hlist,
      scanItems?_eq, Option.bind_eq_bind, Option.bind_some]
    cases (scanItems (le16At specific 6).toNat
        (.start .commonPacketFormat .enip (specific.drop prefixLength)) .start).2 with
    | some error => rfl
    | none => rfl

/-- An encapsulated message lies in the data of the command it was found in. -/
theorem bounds_of_readItems
    {e read : Enip} {specific : Octets} {span : Span}
    (h : e.readItems specific = (read, .ok (some span))) :
    prefixLength ≤ span.start ∧ span.start ≤ span.stop ∧ span.stop ≤ specific.length := by
  unfold readItems at h
  simp only at h
  split at h
  · cases h
  · next hlong =>
      split at h
      · cases h
      · obtain ⟨-, houtcome⟩ := Prod.mk.inj h
        refine within_scanItems _ rfl ?_ ?_ span (Except.ok.inj houtcome)
        · simp only [OptionWalk.start, List.length_drop]
          omega
        · intro found hfound
          cases hfound

theorem length_of_readItems
    {e read : Enip} {specific : Octets} {outcome : Except DecodeError (Option Span)}
    (h : e.readItems specific = (read, outcome)) : read.length = e.length := by
  unfold readItems at h
  simp only at h
  split at h
  · obtain ⟨rfl, -⟩ := Prod.mk.inj h
    rfl
  · split at h
    · obtain ⟨rfl, -⟩ := Prod.mk.inj h
      rfl
    · obtain ⟨rfl, -⟩ := Prod.mk.inj h
      rfl

/-- An encapsulated message, if there is one, lies in the data that the header
announces. -/
def Announces (e : Enip) (payload : Option Span) : Prop :=
  ∀ span, payload = some span → span.start ≤ span.stop ∧ span.stop ≤ e.length.toNat

theorem announces_none (e : Enip) : e.Announces none := by
  intro span hspan
  cases hspan

/-- Where the encapsulated message lies in the whole message. -/
def carried (e : Enip) (payload : Option Span) : Span :=
  let stop := headerLength + e.length.toNat
  match payload with
  | some span => ⟨headerLength + span.start, headerLength + span.stop⟩
  | none => ⟨stop, stop⟩

def complete? (e : Enip) (data : Octets) (payload : Option Span) : Option Enip := do
  let span := e.carried payload
  let specificData ← slice? data headerLength span.start
  return {
    e with
    specificCommand := e.command
    specificData := specificData
    extent := ⟨⟨0, span.start⟩, span⟩ }

/-- What is carried stays inside the message if it stays inside the data of the
command. -/
theorem bounds_of_carried
    {e : Enip} {payload : Option Span} (h : headerLength + e.length.toNat ≤ data.length)
    (hpayload : e.Announces payload) :
    headerLength ≤ (e.carried payload).start ∧
      (e.carried payload).start ≤ (e.carried payload).stop ∧
      (e.carried payload).stop ≤ data.length := by
  cases payload with
  | none =>
      simp only [carried]
      omega
  | some span =>
      obtain ⟨horder, hstop⟩ := hpayload span rfl
      simp only [carried]
      omega

theorem complete?_eq
    {e : Enip} {payload : Option Span} (h : headerLength + e.length.toNat ≤ data.length)
    (hpayload : e.Announces payload) :
    e.complete? data payload = some (e.complete data payload) := by
  obtain ⟨hstart, horder, hstop⟩ := bounds_of_carried h hpayload
  rw [complete?, slice?_eq hstart (Nat.le_trans horder hstop)]
  rfl

theorem splits_complete
    {e : Enip} {payload : Option Span} (h : headerLength + e.length.toNat ≤ data.length)
    (hpayload : e.Announces payload) :
    (e.complete data payload).extent.Splits data.length := by
  obtain ⟨hstart, horder, hstop⟩ := bounds_of_carried h hpayload
  have hpos : 0 < headerLength := by decide
  exact ⟨rfl, rfl, horder, hstop, fun _ => Nat.lt_of_lt_of_le hpos hstart⟩

/-- Reading the items keeps to what the header announces. -/
theorem announces_of_readItems
    {e read : Enip} {payload : Option Span} {stop : Nat} (hstop : stop ≤ data.length)
    (hlength : stop = headerLength + e.length.toNat)
    (h : e.readItems (slice data headerLength stop) = (read, .ok payload)) :
    read.Announces payload := by
  rintro span rfl
  obtain ⟨-, horder, hinside⟩ := bounds_of_readItems h
  rw [length_slice hstop] at hinside
  rw [length_of_readItems h]
  omega

def decode? (old : Enip) (data : Octets) : Option (Decoding Enip) :=
  if data.length < headerLength then
    some (.reject old (.truncated .enip headerLength data.length))
  else do
    let read ← readFixed? old data
    let stop := headerLength + read.length.toNat
    if data.length < stop then
      return .reject read (.truncated .enip stop data.length)
    else if isExplicit read.command then
      match ← read.readItems? (slice data headerLength stop) with
      | (scanned, .error error) => return .reject scanned error
      | (scanned, .ok payload) =>
        let message ← scanned.complete? data payload
        return .accept message
    else
      let message ← read.complete? data none
      return .accept message

theorem decode?_eq (old : Enip) (data : Octets) : decode? old data = some (decode old data) := by
  by_cases hshort : data.length < headerLength
  · simp only [decode?, decode, hshort, if_true]
  · have hread := readFixed?_eq old (Nat.le_of_not_lt hshort)
    by_cases hcut : data.length < headerLength + (readFixed old data).length.toNat
    · simp only [decode?, decode, hshort, if_false, hread, hcut, if_true,
        Option.bind_eq_bind, Option.bind_some]
      rfl
    · have hstop : headerLength + (readFixed old data).length.toNat ≤ data.length :=
        Nat.le_of_not_lt hcut
      by_cases hexplicit : isExplicit (readFixed old data).command = true
      · simp only [decode?, decode, hshort, if_false, hread, hcut, hexplicit, if_true,
          Option.bind_eq_bind, Option.bind_some, readItems?_eq]
        cases hitems : (readFixed old data).readItems (slice data headerLength
            (headerLength + (readFixed old data).length.toNat)) with
        | mk scanned outcome =>
            cases outcome with
            | error error => rfl
            | ok payload =>
                have hsame := length_of_readItems hitems
                have hcomplete : scanned.complete? data payload =
                    some (scanned.complete data payload) :=
                  complete?_eq (hsame ▸ hstop) (announces_of_readItems hstop rfl hitems)
                simp only [hcomplete]
                rfl
      · have hcomplete : (readFixed old data).complete? data none =
            some ((readFixed old data).complete data none) :=
          complete?_eq hstop (announces_none _)
        simp only [decode?, decode, hshort, if_false, hread, hcut, hexplicit, hcomplete,
          Option.bind_eq_bind, Option.bind_some]
        rfl

theorem splits_of_decode {old : Enip} (h : (decode old data).error = none) :
    (decode old data).layer.extent.Splits data.length := by
  by_cases hshort : data.length < headerLength
  · simp [decode, hshort, Decoding.reject] at h
  · by_cases hcut : data.length < headerLength + (readFixed old data).length.toNat
    · simp [decode, hshort, hcut, Decoding.reject] at h
    · have hstop : headerLength + (readFixed old data).length.toNat ≤ data.length :=
        Nat.le_of_not_lt hcut
      by_cases hexplicit : isExplicit (readFixed old data).command = true
      · simp only [decode, hshort, hcut, hexplicit, if_true, if_false] at h ⊢
        cases hitems : (readFixed old data).readItems (slice data headerLength
            (headerLength + (readFixed old data).length.toNat)) with
        | mk scanned outcome =>
            cases outcome with
            | error error => simp [hitems, Decoding.reject] at h
            | ok payload =>
                have hsame := length_of_readItems hitems
                simp only
                exact splits_complete (hsame ▸ hstop) (announces_of_readItems hstop rfl hitems)
      · simp only [decode, hshort, hcut, hexplicit, if_false]
        exact splits_complete hstop (announces_none _)

end Enip

/-! ## CIP -/

namespace Cip

def segmentValue? (path : Octets) : Option UInt16 := do
  let segment ← octet? path 0
  if isWide segment then
    le16? path 2
  else
    let value ← octet? path 1
    return value.toUInt16

theorem segmentValue?_eq
    {path : Octets} (h : segmentLength (octetAt path 0) ≤ path.length) :
    segmentValue? path = some (segmentValue path) := by
  unfold segmentLength at h
  by_cases hwide : isWide (octetAt path 0) = true
  · simp only [hwide, if_true] at h
    have hsegment : octet? path 0 = some (octetAt path 0) := octet?_eq (by omega)
    have hvalue : le16? path 2 = some (le16At path 2) := le16?_eq (by omega)
    simp only [segmentValue?, segmentValue, hsegment, hwide, if_true, hvalue,
      Option.bind_eq_bind, Option.bind_some]
  · rw [if_neg hwide] at h
    have hsegment : octet? path 0 = some (octetAt path 0) := octet?_eq (by omega)
    have hvalue : octet? path 1 = some (octetAt path 1) := octet?_eq (by omega)
    simp only [segmentValue?, segmentValue, hsegment, hvalue, if_neg hwide,
      Option.bind_eq_bind, Option.bind_some]
    rfl

/-- The rest of a path behind a segment is shorter than the path. -/
theorem length_lt_of_behind?
    {segment : UInt8} {tail rest : Octets}
    (h : behind? (segment :: tail) (segmentLength segment) = some rest) :
    rest.length < (segment :: tail).length := by
  have hpos : 2 ≤ segmentLength segment := by
    unfold segmentLength
    split <;> decide
  rw [length_of_behind? h]
  simp only [List.length_cons]
  omega

def readPath? (c : Cip) (path : Octets) : Option (Cip × Option DecodeError) :=
  match path with
  | [] => some (c, none)
  | segment :: tail =>
    let length := segmentLength segment
    if ((segment :: tail).take length).length < length then
      some (c, some (.malformed .cip s!"path segment 0x{hexOctet segment} exceeds path"))
    else
      match segmentValue? (segment :: tail) with
      | none => none
      | some value =>
        match c.setSegment segment value with
        | none =>
          some (c, some (.malformed .cip s!"unsupported path segment 0x{hexOctet segment}"))
        | some longer =>
          match _rest : behind? (segment :: tail) length with
          | none => none
          | some rest => longer.readPath? rest
  termination_by path.length
  decreasing_by exact length_lt_of_behind? _rest

theorem readPath?_eq (c : Cip) (path : Octets) : c.readPath? path = some (c.readPath path) := by
  induction hlength : path.length using Nat.strongRecOn generalizing c path with
  | _ length ih =>
      subst hlength
      cases path with
      | nil => simp [readPath?, readPath]
      | cons segment tail =>
          by_cases hshort : ((segment :: tail).take (segmentLength segment)).length <
              segmentLength segment
          · rw [readPath?, readPath]
            simp only [hshort, if_true]
          · have hinside : segmentLength segment ≤ (segment :: tail).length := by
              rw [List.length_take] at hshort
              omega
            have hvalue : segmentValue? (segment :: tail) =
                some (segmentValue (segment :: tail)) := segmentValue?_eq hinside
            have hbehind := behind?_eq hinside
            rw [readPath?, readPath]
            simp only [hshort, if_false, hvalue]
            cases hset : c.setSegment segment (segmentValue (segment :: tail)) with
            | none => rfl
            | some longer =>
                simp only
                split
                · next hfault => simp [hbehind] at hfault
                · next rest hrest =>
                    have hless := length_lt_of_behind? hrest
                    rw [hbehind, Option.some.injEq] at hrest
                    rw [hrest]
                    exact ih _ hless longer rest rfl

def readResponse? (c : Cip) (data : Octets) : Option (Cip × Option DecodeError) :=
  if data.length < 4 then
    some (c, some (.truncated .cip 4 data.length))
  else do
    let status ← octet? data 2
    let words ← octet? data 3
    let read := { c with status := status }
    let stop := 4 + words.toNat * 2
    if data.length < stop then
      return (read, some (.truncated .cip stop data.length))
    else
      let rest ← behind? data stop
      return ({ read with additionalStatus := Cip.words (slice data 4 stop), data := rest }, none)

theorem readResponse?_eq (c : Cip) (data : Octets) :
    c.readResponse? data = some (c.readResponse data) := by
  by_cases hshort : data.length < 4
  · simp only [readResponse?, readResponse, hshort, if_true]
  · have hstatus : octet? data 2 = some (octetAt data 2) := octet?_eq (by omega)
    have hwords : octet? data 3 = some (octetAt data 3) := octet?_eq (by omega)
    by_cases hcut : data.length < 4 + (octetAt data 3).toNat * 2
    · simp only [readResponse?, readResponse, hshort, if_false, hstatus, hwords, hcut, if_true,
        Option.bind_eq_bind, Option.bind_some]
      rfl
    · have hrest := behind?_eq (Nat.le_of_not_lt hcut)
      simp only [readResponse?, readResponse, hshort, if_false, hstatus, hwords, hcut, hrest,
        Option.bind_eq_bind, Option.bind_some]
      rfl

def readRequest? (c : Cip) (data : Octets) : Option (Cip × Option DecodeError) :=
  if data.length < 2 then
    some (c, some (.truncated .cip 2 data.length))
  else do
    let pathSize ← octet? data 1
    let read := { c with pathSize := pathSize }
    let stop := 2 + read.pathSize.toNat * 2
    if data.length < stop then
      return (read, some (.truncated .cip stop data.length))
    else
      match ← read.readPath? (slice data 2 stop) with
      | (walked, some error) => return (walked, some error)
      | (walked, none) =>
        let rest ← behind? data stop
        return ({ walked with data := rest }, none)

theorem readRequest?_eq (c : Cip) (data : Octets) :
    c.readRequest? data = some (c.readRequest data) := by
  by_cases hshort : data.length < 2
  · simp only [readRequest?, readRequest, hshort, if_true]
  · have hsize : octet? data 1 = some (octetAt data 1) := octet?_eq (by omega)
    by_cases hcut : data.length < 2 + (octetAt data 1).toNat * 2
    · simp only [readRequest?, readRequest, hshort, if_false, hsize, hcut, if_true,
        Option.bind_eq_bind, Option.bind_some]
      rfl
    · have hrest := behind?_eq (Nat.le_of_not_lt hcut)
      simp only [readRequest?, readRequest, hshort, if_false, hsize, hcut, readPath?_eq,
        Option.bind_eq_bind, Option.bind_some]
      cases readPath { c with pathSize := octetAt data 1 }
          (slice data 2 (2 + (octetAt data 1).toNat * 2)) with
      | mk walked outcome =>
          cases outcome with
          | some error => rfl
          | none =>
              simp only [hrest]
              rfl

def decode? (old : Cip) (data : Octets) : Option (Decoding Cip) :=
  match data with
  | [] => some (.reject old (.truncated .cip 1 0))
  | first :: tail => do
    let start := readFirst old first
    let found ← (if start.response then start.readResponse? (first :: tail)
      else start.readRequest? (first :: tail) : Option (Cip × Option DecodeError))
    match found with
    | (read, some error) => return .reject read error
    | (read, none) => return .accept { read with extent := .whole (first :: tail).length }

theorem decode?_eq (old : Cip) (data : Octets) : decode? old data = some (decode old data) := by
  cases data with
  | nil => rfl
  | cons first tail =>
      cases hresponse : (readFirst old first).response with
      | true =>
          simp only [decode?, decode, hresponse, if_true, readResponse?_eq, Option.bind_eq_bind,
            Option.bind_some]
          rcases (readFirst old first).readResponse (first :: tail) with ⟨read, _ | error⟩
          · rfl
          · rfl
      | false =>
          simp only [decode?, decode, hresponse, Bool.false_eq_true, if_false, readRequest?_eq,
            Option.bind_eq_bind, Option.bind_some]
          rcases (readFirst old first).readRequest (first :: tail) with ⟨read, _ | error⟩
          · rfl
          · rfl

theorem splits_of_decode {old : Cip} (h : (decode old data).error = none) :
    (decode old data).layer.extent.Splits data.length := by
  cases data with
  | nil => simp [decode, Decoding.reject] at h
  | cons first tail =>
      simp only [decode] at h ⊢
      split
      · next read error houtcome => simp [houtcome, Decoding.reject] at h
      · exact Extent.splits_whole _

end Cip
end PacketLayers
