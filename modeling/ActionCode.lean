import ActionCode.Text.Bytes
import ActionCode.Text.Split
import ActionCode.Text.Quoted
import ActionCode.Numeral.Integer
import ActionCode.Numeral.Decimal
import ActionCode.Binary64.Basic
import ActionCode.Binary64.Text
import ActionCode.Name
import ActionCode.Opcode
import ActionCode.Operand
import ActionCode.Instruction
import ActionCode.Options
import ActionCode.Listing.Remark
import ActionCode.Listing.Basic
import ActionCode.Listing.ReadError
import ActionCode.Listing.Unit
import ActionCode.Listing.Reader
import ActionCode.Event
import ActionCode.Sink.Basic
import ActionCode.Sink.Limited
import ActionCode.Emitter.Basic
import ActionCode.Emitter.Memory
import ActionCode.Table
import ActionCode.Path
import ActionCode.Folder
import ActionCode.Workspace
import ActionCode.Action
import ActionCode.Registry.Basic
import ActionCode.Registry.Description
import ActionCode.Host
import ActionCode.Proofs.Decimal.Text
import ActionCode.Proofs.Binary64.Rounding
import ActionCode.Proofs.Binary64.RoundTrip
import ActionCode.Proofs.Binary64.Bits
import ActionCode.Proofs.Listing.Bare
import ActionCode.Proofs.Name.Target
import ActionCode.Proofs.Operand.Inference
import ActionCode.Proofs.Operand.Rendering
import ActionCode.Proofs.Listing.Grammar
import ActionCode.Proofs.Listing.Literal
import ActionCode.Proofs.Listing.Trivia
import ActionCode.Proofs.Listing.Unit
import ActionCode.Proofs.Listing.Reading
import ActionCode.Proofs.Listing.ReadBack
import ActionCode.Proofs.Listing.Stream
import ActionCode.Proofs.Listing.Faithful
import ActionCode.Proofs.Outcome
import ActionCode.Proofs.Emitter.Keeping
import ActionCode.Proofs.Workspace.Sessions
import ActionCode.Proofs.Listing.Appended
import ActionCode.Proofs.Registry.Change
import ActionCode.Proofs.Registry.History
import ActionCode.Proofs.Registry.Notice
import ActionCode.Proofs.Registry.Log
import ActionCode.Proofs.Host.Log
import ActionCode.Proofs.Host.History
import ActionCode.Proofs.Host.Texts
import ActionCode.Proofs.Listing.Constructed
import ActionCode.Proofs.Sink.Limited
import ActionCode.Proofs.Emitter.Session
import ActionCode.Proofs.Sink.Watched
import ActionCode.Proofs.Emitter.Lifecycle
import ActionCode.Proofs.Listing.Lines
import ActionCode.Proofs.Listing.Cut
import ActionCode.Proofs.Listing.Exchange
import ActionCode.Proofs.Name.Grammar
import ActionCode.Proofs.Name.Collision
import ActionCode.Proofs.Listing.Normal
import ActionCode.Proofs.Listing.Annotated
import ActionCode.Proofs.Listing.Fault
import ActionCode.Proofs.Listing.Row
import ActionCode.Proofs.Listing.ByteReader
import ActionCode.Proofs.Listing.ByteReading
import ActionCode.Proofs.Listing.OpcodeNumber
import ActionCode.Proofs.Listing.Quoting
import ActionCode.Proofs.Dispatcher.Basic
import ActionCode.Proofs.Dispatcher.Origin
import ActionCode.Proofs.Host.Dispatch
import ActionCode.Proofs.Decimal.Grammar
