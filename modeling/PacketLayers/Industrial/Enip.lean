import PacketLayers.Options.Walk

/-! # EtherNet/IP encapsulation

Every message starts with a header of 24 octets in little-endian order, which announces the length of
the data of its command.  The data of the two explicit messaging commands is a short prefix and a
counted list of items; the last data item among them holds the message that becomes the payload.
These layers can only be decoded.
-/

namespace PacketLayers

/-- The command of a message. -/
inductive EnipCommand where
  | nop
  | listServices
  | listIdentity
  | listInterfaces
  | registerSession
  | unregisterSession
  | sendRRData
  | sendUnitData
  | indicateStatus
  | cancel
  | unknown (number : UInt16)
  deriving DecidableEq, Ord, Repr, Inhabited

namespace EnipCommand

def ofNumber (n : UInt16) : EnipCommand :=
  match n with
  | 0x0000 => .nop
  | 0x0004 => .listServices
  | 0x0063 => .listIdentity
  | 0x0064 => .listInterfaces
  | 0x0065 => .registerSession
  | 0x0066 => .unregisterSession
  | 0x006f => .sendRRData
  | 0x0070 => .sendUnitData
  | 0x0072 => .indicateStatus
  | 0x0073 => .cancel
  | n => .unknown n

def number : EnipCommand → UInt16
  | .nop => 0x0000
  | .listServices => 0x0004
  | .listIdentity => 0x0063
  | .listInterfaces => 0x0064
  | .registerSession => 0x0065
  | .unregisterSession => 0x0066
  | .sendRRData => 0x006f
  | .sendUnitData => 0x0070
  | .indicateStatus => 0x0072
  | .cancel => 0x0073
  | .unknown n => n

theorem number_ofNumber (n : UInt16) : (ofNumber n).number = n := by
  unfold ofNumber
  split <;> rfl

def identifier : EnipCommand → String
  | .nop => "Nop"
  | .listServices => "ListServices"
  | .listIdentity => "ListIdentity"
  | .listInterfaces => "ListInterfaces"
  | .registerSession => "RegisterSession"
  | .unregisterSession => "UnregisterSession"
  | .sendRRData => "SendRRData"
  | .sendUnitData => "SendUnitData"
  | .indicateStatus => "IndicateStatus"
  | .cancel => "Cancel"
  | .unknown n => s!"Unknown({n.toNat})"

instance : WireCode EnipCommand where
  ofNat n := ofNumber (UInt16.ofNat n)
  unnamed n := .unknown (UInt16.ofNat n)
  toNat code := code.number.toNat
  identifier := identifier

end EnipCommand

/-- The status that a message reports. -/
inductive EnipStatus where
  | success
  | invalidCommand
  | insufficientMemory
  | incorrectData
  | invalidSessionHandle
  | invalidLength
  | unsupportedProtocol
  | unknown (number : UInt32)
  deriving DecidableEq, Ord, Repr, Inhabited

namespace EnipStatus

def ofNumber (n : UInt32) : EnipStatus :=
  match n with
  | 0x0000 => .success
  | 0x0001 => .invalidCommand
  | 0x0002 => .insufficientMemory
  | 0x0003 => .incorrectData
  | 0x0064 => .invalidSessionHandle
  | 0x0065 => .invalidLength
  | 0x0069 => .unsupportedProtocol
  | n => .unknown n

def number : EnipStatus → UInt32
  | .success => 0x0000
  | .invalidCommand => 0x0001
  | .insufficientMemory => 0x0002
  | .incorrectData => 0x0003
  | .invalidSessionHandle => 0x0064
  | .invalidLength => 0x0065
  | .unsupportedProtocol => 0x0069
  | .unknown n => n

theorem number_ofNumber (n : UInt32) : (ofNumber n).number = n := by
  unfold ofNumber
  split <;> rfl

def identifier : EnipStatus → String
  | .success => "Success"
  | .invalidCommand => "InvalidCommand"
  | .insufficientMemory => "InsufficientMemory"
  | .incorrectData => "IncorrectData"
  | .invalidSessionHandle => "InvalidSessionHandle"
  | .invalidLength => "InvalidLength"
  | .unsupportedProtocol => "UnsupportedProtocol"
  | .unknown n => s!"Unknown({n.toNat})"

instance : WireCode EnipStatus where
  ofNat n := ofNumber (UInt32.ofNat n)
  unnamed n := .unknown (UInt32.ofNat n)
  toNat code := code.number.toNat
  identifier := identifier

end EnipStatus

/-- The type of an item in an item list. -/
inductive EnipItemType where
  | nullAddress
  | listIdentity
  | connectedAddress
  /-- Connected transport data behind a sequence count. -/
  | connectedData
  | unconnectedData
  | listServices
  | sockaddrOtoT
  | sockaddrTtoO
  | sequencedAddress
  | unknown (number : UInt16)
  deriving DecidableEq, Ord, Repr, Inhabited

namespace EnipItemType

def ofNumber (n : UInt16) : EnipItemType :=
  match n with
  | 0x0000 => .nullAddress
  | 0x000c => .listIdentity
  | 0x00a1 => .connectedAddress
  | 0x00b1 => .connectedData
  | 0x00b2 => .unconnectedData
  | 0x0100 => .listServices
  | 0x8000 => .sockaddrOtoT
  | 0x8001 => .sockaddrTtoO
  | 0x8002 => .sequencedAddress
  | n => .unknown n

def number : EnipItemType → UInt16
  | .nullAddress => 0x0000
  | .listIdentity => 0x000c
  | .connectedAddress => 0x00a1
  | .connectedData => 0x00b1
  | .unconnectedData => 0x00b2
  | .listServices => 0x0100
  | .sockaddrOtoT => 0x8000
  | .sockaddrTtoO => 0x8001
  | .sequencedAddress => 0x8002
  | .unknown n => n

theorem number_ofNumber (n : UInt16) : (ofNumber n).number = n := by
  unfold ofNumber
  split <;> rfl

def identifier : EnipItemType → String
  | .nullAddress => "NullAddress"
  | .listIdentity => "ListIdentity"
  | .connectedAddress => "ConnectedAddress"
  | .connectedData => "ConnectedData"
  | .unconnectedData => "UnconnectedData"
  | .listServices => "ListServices"
  | .sockaddrOtoT => "SockaddrOtoT"
  | .sockaddrTtoO => "SockaddrTtoO"
  | .sequencedAddress => "SequencedAddress"
  | .unknown n => s!"Unknown({n.toNat})"

instance : WireCode EnipItemType where
  ofNat n := ofNumber (UInt16.ofNat n)
  unnamed n := .unknown (UInt16.ofNat n)
  toNat code := code.number.toNat
  identifier := identifier

end EnipItemType

/-- An item other than the data item. -/
structure EnipItem where
  itemType : EnipItemType
  data : Octets
  deriving DecidableEq, Repr, Inhabited

/-- An encapsulation header with the data of its command. -/
structure Enip where
  extent : Extent
  command : EnipCommand
  /-- The octets of the data of the command. -/
  length : UInt16
  sessionHandle : UInt32
  status : EnipStatus
  senderContext : Vector UInt8 8
  options : UInt32
  /-- The command whose data was stored last. -/
  specificCommand : EnipCommand
  /-- The data of that command; of an explicit message, the part in front of the payload. -/
  specificData : Octets
  /-- The interface handle of an explicit message. -/
  interfaceHandle : UInt32
  /-- The timeout of an explicit message. -/
  timeout : UInt16
  /-- The items of an explicit message, without data items. -/
  items : List EnipItem
  /-- The type of the last data item of an explicit message. -/
  dataItem : Option EnipItemType
  /-- The sequence count of connected data. -/
  sequenceCount : Option UInt16
  deriving DecidableEq, Repr

namespace Enip

def headerLength : Nat := 24

/-- The octets in front of the item list of an explicit message. -/
def prefixLength : Nat := 8

def fresh : Enip :=
  { extent := .empty
    command := .nop
    length := 0
    sessionHandle := 0
    status := .success
    senderContext := Vector.replicate 8 0
    options := 0
    specificCommand := .nop
    specificData := []
    interfaceHandle := 0
    timeout := 0
    items := []
    dataItem := none
    sequenceCount := none }

instance : Inhabited Enip := ⟨fresh⟩

/-! ## Fields of the octets of a header -/

namespace Header

def command (data : Octets) : EnipCommand := .ofNumber (le16At data 0)

/-- The octets of the data of the command. -/
def length (data : Octets) : UInt16 := le16At data 2

def sessionHandle (data : Octets) : UInt32 := le32At data 4

def status (data : Octets) : EnipStatus := .ofNumber (le32At data 8)

/-- The context that a reply repeats. -/
def senderContext (data : Octets) : Vector UInt8 8 := blockAt 8 data 12

def options (data : Octets) : UInt32 := le32At data 20

end Header

/-! ## The item list of an explicit message -/

/-- What was found in an item list so far. -/
structure ItemScan where
  /-- The items that are not data items, the last one first. -/
  reversedItems : List EnipItem
  dataItem : Option EnipItemType
  sequenceCount : Option UInt16
  /-- Where the encapsulated message lies in the data of the command. -/
  payload : Option Span
  deriving DecidableEq, Repr

namespace ItemScan

/-- The scan in front of the first item. -/
def start : ItemScan := ⟨[], none, none, none⟩

/-- Add an item that starts at a position of the data of the command; a later data item replaces an
earlier one. -/
def add (scan : ItemScan) (position : Nat) (item : RawOption) : Except DecodeError ItemScan :=
  let dataStart := position + OptionFormat.commonPacketFormat.headerLength
  match EnipItemType.ofNumber item.tag with
  | .connectedData =>
    if item.data.length < 2 then
      .error (.malformed .enip "connected data without sequence count")
    else
      .ok { scan with
        sequenceCount := some (le16At item.data 0)
        dataItem := some .connectedData
        payload := some ⟨dataStart + 2, position + item.length⟩ }
  | .unconnectedData =>
    .ok { scan with
      dataItem := some .unconnectedData
      payload := some ⟨dataStart, position + item.length⟩ }
  | itemType => .ok { scan with reversedItems := ⟨itemType, item.data⟩ :: scan.reversedItems }

end ItemScan

/-- Read a number of items; the scan in front of an invalid one is kept. -/
def scanItems : Nat → OptionWalk → ItemScan → ItemScan × Option DecodeError
  | 0, _, scan => (scan, none)
  | n + 1, walk, scan =>
    match walk.next with
    | none => (scan, some (.malformed .enip "fewer items than announced"))
    | some (.error error, _) => (scan, some error)
    | some (.ok item, behind) =>
      match scan.add (prefixLength + walk.offset) item with
      | .error error => (scan, some error)
      | .ok longer => scanItems n behind longer

/-! ## The layer -/

/-- Whether a command carries an item list with an encapsulated message. -/
def isExplicit (command : EnipCommand) : Bool := command = .sendRRData ∨ command = .sendUnitData

def next (e : Enip) : LayerType := if e.dataItem.isSome then .cip else .payload

/-- The fields of a header; nothing is known of an item list yet. -/
def readFixed (old : Enip) (data : Octets) : Enip :=
  { old with
    command := Header.command data
    length := Header.length data
    sessionHandle := Header.sessionHandle data
    status := Header.status data
    senderContext := Header.senderContext data
    options := Header.options data
    interfaceHandle := 0
    timeout := 0
    items := []
    dataItem := none
    sequenceCount := none }

/-- Read the item list in the data of an explicit command; the encapsulated message is a part of it. -/
def readItems (e : Enip) (specific : Octets) : Enip × Except DecodeError (Option Span) :=
  if specific.length < prefixLength then
    (e, .error (.malformed .enip "command data shorter than item list prefix"))
  else
    let found := scanItems (le16At specific 6).toNat
      (.start .commonPacketFormat .enip (specific.drop prefixLength)) .start
    let read : Enip :=
      { e with
        interfaceHandle := le32At specific 0
        timeout := le16At specific 4
        items := found.1.reversedItems.reverse
        dataItem := found.1.dataItem
        sequenceCount := found.1.sequenceCount }
    match found.2 with
    | some error => (read, .error error)
    | none => (read, .ok found.1.payload)

/-- The layer once its payload is known, as a part of the data of the command. -/
def complete (e : Enip) (data : Octets) (payload : Option Span) : Enip :=
  let stop := headerLength + e.length.toNat
  let carried : Span :=
    match payload with
    | some span => ⟨headerLength + span.start, headerLength + span.stop⟩
    | none => ⟨stop, stop⟩
  { e with
    specificCommand := e.command
    specificData := slice data headerLength carried.start
    extent := ⟨⟨0, carried.start⟩, carried⟩ }

/-- Decode a message; the stored data of the command changes only on success. -/
def decode (old : Enip) (data : Octets) : Decoding Enip :=
  if data.length < headerLength then
    .reject old (.truncated .enip headerLength data.length)
  else
    let read := readFixed old data
    let stop := headerLength + read.length.toNat
    if data.length < stop then
      .reject read (.truncated .enip stop data.length)
    else if isExplicit read.command then
      match read.readItems (slice data headerLength stop) with
      | (scanned, .error error) => .reject scanned error
      | (scanned, .ok payload) => .accept (scanned.complete data payload)
    else
      .accept (read.complete data none)

def serialize (e : Enip) (_ : SerializeOptions) (_ : Octets) : Serialization Enip :=
  .refuse e (.unsupportedLayer .enip)

end Enip

end PacketLayers
