import PacketLayers.Builtin
import PacketLayers.Packet
import PacketLayers.Stack
import PacketLayers.Proofs.Dns.NameChain
import PacketLayers.Proofs.Dns.NameText
import PacketLayers.Proofs.Dns.DottedName
import PacketLayers.Proofs.Dns.RecordLayout
import PacketLayers.Proofs.Dns.MessageLayout
import PacketLayers.Proofs.Dns.RoundTrip
import PacketLayers.Proofs.Dns.Cut
import PacketLayers.Proofs.Dns.CutSignal
import PacketLayers.Proofs.Dns.Extension
import PacketLayers.Proofs.Dns.Rewriting
import PacketLayers.Proofs.Packet.Run
import PacketLayers.Proofs.Packet.Placement
import PacketLayers.Proofs.Packet.Accessors
import PacketLayers.Proofs.Bounds.OptionList
import PacketLayers.Proofs.Bounds.Headers
import PacketLayers.Proofs.Bounds.Dns
import PacketLayers.Proofs.Bounds.Industrial
import PacketLayers.Proofs.Bounds.Builtin
import PacketLayers.Proofs.Options.KindLength
import PacketLayers.Proofs.Octets.Stands
import PacketLayers.Proofs.Headers.Link
import PacketLayers.Proofs.Headers.Network
import PacketLayers.Proofs.Headers.Transport
import PacketLayers.Proofs.Packet.Reads
import PacketLayers.Proofs.Stack.Wrapping
import PacketLayers.Proofs.Stack.Rewriting
import PacketLayers.Proofs.Headers.FixedLengths
import PacketLayers.Proofs.Stack.RoundTrip
import PacketLayers.Proofs.Stack.Padding
import PacketLayers.Proofs.Checksum.OnesComplement
import PacketLayers.Proofs.Checksum.Verification
import PacketLayers.Proofs.Decoding.Reuse
import PacketLayers.Proofs.Decoding.ShortCapture
import PacketLayers.Proofs.Decoding.DeclaredEnd
import PacketLayers.Proofs.Packet.Trailer
import PacketLayers.Proofs.Packet.Composition
import PacketLayers.Proofs.Decoding.ErrorSource
import PacketLayers.Proofs.Packet.ProtocolOrder
import PacketLayers.Proofs.Dns.Acceptance
import PacketLayers.Proofs.Options.Cut
import PacketLayers.Proofs.Headers.OptionLists
import PacketLayers.Proofs.Stack.Settling
import PacketLayers.Proofs.Industrial.MessageGrammar
import PacketLayers.Proofs.Industrial.ItemList
import PacketLayers.Proofs.Industrial.SequenceCount
import PacketLayers.Proofs.Hashing.Lanes
import PacketLayers.Proofs.Hashing.FastHash
import PacketLayers.Proofs.Packet.Progress
import PacketLayers.Proofs.Octets.Writes
import PacketLayers.Proofs.Dns.EncodedLength
import PacketLayers.Proofs.Stack.InPlace
import PacketLayers.Proofs.Stack.Frame
import PacketLayers.Proofs.Checksum.Chunks
import PacketLayers.Proofs.Checksum.Capacity
import PacketLayers.Proofs.Headers.ByteOrder
import PacketLayers.Proofs.Registry.Registration
import PacketLayers.Proofs.Stack.GrowingArray
import PacketLayers.Proofs.Octets.Bits
import PacketLayers.Proofs.Headers.FieldView
import PacketLayers.Proofs.Headers.HeaderFields
