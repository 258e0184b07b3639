import PacketLayers.WireCode

/-! # Numbers of the domain name system

Record types, classes, kinds of query and outcomes, each with the numbers that no standard names.
-/

namespace PacketLayers.Dns

/-- The type of a record. -/
inductive RecordType where
  | a
  | ns
  | md
  | mf
  | cname
  | soa
  | mb
  | mg
  | mr
  | null
  | wks
  | ptr
  | hinfo
  | minfo
  | mx
  | txt
  | aaaa
  | srv
  /-- The pseudo record of extended messages. -/
  | opt
  | unknown (number : UInt16)
  deriving DecidableEq, Ord, Repr, Inhabited

namespace RecordType

def ofNumber (n : UInt16) : RecordType :=
  match n with
  | 1 => .a
  | 2 => .ns
  | 3 => .md
  | 4 => .mf
  | 5 => .cname
  | 6 => .soa
  | 7 => .mb
  | 8 => .mg
  | 9 => .mr
  | 10 => .null
  | 11 => .wks
  | 12 => .ptr
  | 13 => .hinfo
  | 14 => .minfo
  | 15 => .mx
  | 16 => .txt
  | 28 => .aaaa
  | 33 => .srv
  | 41 => .opt
  | n => .unknown n

def number : RecordType → UInt16
  | .a => 1
  | .ns => 2
  | .md => 3
  | .mf => 4
  | .cname => 5
  | .soa => 6
  | .mb => 7
  | .mg => 8
  | .mr => 9
  | .null => 10
  | .wks => 11
  | .ptr => 12
  | .hinfo => 13
  | .minfo => 14
  | .mx => 15
  | .txt => 16
  | .aaaa => 28
  | .srv => 33
  | .opt => 41
  | .unknown n => n

theorem number_ofNumber (n : UInt16) : (ofNumber n).number = n := by
  unfold ofNumber
  split <;> rfl

/-- The name used in messages; types without a common name show their number. -/
def text : RecordType → String
  | .a => "A"
  | .ns => "NS"
  | .cname => "CNAME"
  | .soa => "SOA"
  | .ptr => "PTR"
  | .mx => "MX"
  | .txt => "TXT"
  | .aaaa => "AAAA"
  | .srv => "SRV"
  | .opt => "OPT"
  | other => s!"TYPE{other.number.toNat}"

def identifier : RecordType → String
  | .a => "A"
  | .ns => "Ns"
  | .md => "Md"
  | .mf => "Mf"
  | .cname => "Cname"
  | .soa => "Soa"
  | .mb => "Mb"
  | .mg => "Mg"
  | .mr => "Mr"
  | .null => "Null"
  | .wks => "Wks"
  | .ptr => "Ptr"
  | .hinfo => "Hinfo"
  | .minfo => "Minfo"
  | .mx => "Mx"
  | .txt => "Txt"
  | .aaaa => "Aaaa"
  | .srv => "Srv"
  | .opt => "Opt"
  | .unknown n => s!"Unknown({n.toNat})"

instance : WireCode RecordType where
  ofNat n := ofNumber (UInt16.ofNat n)
  unnamed n := .unknown (UInt16.ofNat n)
  toNat code := code.number.toNat
  identifier := identifier

end RecordType

/-- The class of a record. -/
inductive RecordClass where
  | internet
  | cs
  | ch
  | hs
  | any
  | unknown (number : UInt16)
  deriving DecidableEq, Ord, Repr, Inhabited

namespace RecordClass

def ofNumber (n : UInt16) : RecordClass :=
  match n with
  | 1 => .internet
  | 2 => .cs
  | 3 => .ch
  | 4 => .hs
  | 255 => .any
  | n => .unknown n

def number : RecordClass → UInt16
  | .internet => 1
  | .cs => 2
  | .ch => 3
  | .hs => 4
  | .any => 255
  | .unknown n => n

theorem number_ofNumber (n : UInt16) : (ofNumber n).number = n := by
  unfold ofNumber
  split <;> rfl

def identifier : RecordClass → String
  | .internet => "In"
  | .cs => "Cs"
  | .ch => "Ch"
  | .hs => "Hs"
  | .any => "Any"
  | .unknown n => s!"Unknown({n.toNat})"

instance : WireCode RecordClass where
  ofNat n := ofNumber (UInt16.ofNat n)
  unnamed n := .unknown (UInt16.ofNat n)
  toNat code := code.number.toNat
  identifier := identifier

end RecordClass

/-- The kind of a query, a number of four bits. -/
inductive OpCode where
  | query
  | iQuery
  | status
  | notify
  | update
  | unknown (number : UInt8)
  deriving DecidableEq, Ord, Repr, Inhabited

namespace OpCode

def ofNumber (n : UInt8) : OpCode :=
  match n with
  | 0 => .query
  | 1 => .iQuery
  | 2 => .status
  | 4 => .notify
  | 5 => .update
  | n => .unknown n

def number : OpCode → UInt8
  | .query => 0
  | .iQuery => 1
  | .status => 2
  | .notify => 4
  | .update => 5
  | .unknown n => n

theorem number_ofNumber (n : UInt8) : (ofNumber n).number = n := by
  unfold ofNumber
  split <;> rfl

def identifier : OpCode → String
  | .query => "Query"
  | .iQuery => "IQuery"
  | .status => "Status"
  | .notify => "Notify"
  | .update => "Update"
  | .unknown n => s!"Unknown({n.toNat})"

instance : WireCode OpCode where
  ofNat n := ofNumber (UInt8.ofNat n)
  unnamed n := .unknown (UInt8.ofNat n)
  toNat code := code.number.toNat
  identifier := identifier

end OpCode

/-- The outcome that a response reports, a number of four bits. -/
inductive ResponseCode where
  | noError
  | formErr
  | servFail
  | nxDomain
  | notImp
  | refused
  | yxDomain
  | yxRrSet
  | nxRrSet
  | notAuth
  | notZone
  | unknown (number : UInt8)
  deriving DecidableEq, Ord, Repr, Inhabited

namespace ResponseCode

def ofNumber (n : UInt8) : ResponseCode :=
  match n with
  | 0 => .noError
  | 1 => .formErr
  | 2 => .servFail
  | 3 => .nxDomain
  | 4 => .notImp
  | 5 => .refused
  | 6 => .yxDomain
  | 7 => .yxRrSet
  | 8 => .nxRrSet
  | 9 => .notAuth
  | 10 => .notZone
  | n => .unknown n

def number : ResponseCode → UInt8
  | .noError => 0
  | .formErr => 1
  | .servFail => 2
  | .nxDomain => 3
  | .notImp => 4
  | .refused => 5
  | .yxDomain => 6
  | .yxRrSet => 7
  | .nxRrSet => 8
  | .notAuth => 9
  | .notZone => 10
  | .unknown n => n

theorem number_ofNumber (n : UInt8) : (ofNumber n).number = n := by
  unfold ofNumber
  split <;> rfl

def identifier : ResponseCode → String
  | .noError => "NoError"
  | .formErr => "FormErr"
  | .servFail => "ServFail"
  | .nxDomain => "NxDomain"
  | .notImp => "NotImp"
  | .refused => "Refused"
  | .yxDomain => "YxDomain"
  | .yxRrSet => "YxRrSet"
  | .nxRrSet => "NxRrSet"
  | .notAuth => "NotAuth"
  | .notZone => "NotZone"
  | .unknown n => s!"Unknown({n.toNat})"

instance : WireCode ResponseCode where
  ofNat n := ofNumber (UInt8.ofNat n)
  unnamed n := .unknown (UInt8.ofNat n)
  toNat code := code.number.toNat
  identifier := identifier

end ResponseCode

end PacketLayers.Dns
