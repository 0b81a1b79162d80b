import Marshal.Envelope
import Marshal.Registry.Defaults
import Marshal.Setup
import Marshal.Table.Payload
import Marshal.Registry.Call
import Marshal.Registry.Request
import Marshal.Proofs.Effect
import Marshal.Proofs.Registry.Bind
import Marshal.Proofs.Registry.Consistent
import Marshal.Proofs.Registry.Memory
import Marshal.Proofs.Registry.Run
import Marshal.Proofs.Registry.Written
import Marshal.Proofs.Registry.RoundTrip
import Marshal.Proofs.Registry.Reading
import Marshal.Proofs.Number
import Marshal.Proofs.Registry.Containment
import Marshal.Proofs.Registry.Depth
import Marshal.Proofs.Bytes
import Marshal.Proofs.Class
import Marshal.Proofs.MessagePack.Written
import Marshal.Proofs.Number.Whole
import Marshal.Proofs.MessagePack.Pieces
import Marshal.Proofs.MessagePack.Read
import Marshal.Proofs.Envelope
import Marshal.Proofs.Describe
import Marshal.Proofs.Value
import Marshal.Proofs.Table
import Marshal.Proofs.Registry.Standard
import Marshal.Proofs.Registry.Restored
import Marshal.Proofs.Registry.Handlers
import Marshal.Proofs.Registry.BuiltIn
import Marshal.Proofs.Envelope.Acceptance
import Marshal.Proofs.Registry.Replay
import Marshal.Proofs.Registry.Pickled
import Marshal.Proofs.Profile
import Marshal.Proofs.Held
import Marshal.Proofs.Registry.Carried
import Marshal.Proofs.MessagePack.Sharing
import Marshal.Proofs.Table.Payload
import Marshal.Proofs.MessagePack.Whole
import Marshal.Proofs.Registry.Lightweight
import Marshal.Proofs.Registry.Parallel
import Marshal.Proofs.Registry.Bound
import Marshal.Proofs.Registry.Order
import Marshal.Proofs.Registry.Rebinding
import Marshal.Proofs.Keeps
import Marshal.Proofs.Table.Check
import Marshal.Proofs.MessagePack.Calm
import Marshal.Proofs.MessagePack.Rooted
import Marshal.Proofs.Registry.Cycles
import Marshal.Proofs.Registry.Tables
import Marshal.Proofs.Forall2
import Marshal.Proofs.Description
import Marshal.Proofs.Collect
import Marshal.Proofs.Content
import Marshal.Proofs.MessagePack.Anchors
import Marshal.Proofs.MessagePack.Told
import Marshal.Proofs.MessagePack.Shapes
import Marshal.Proofs.MessagePack.Contents
import Marshal.Proofs.Registry.Unregistered
import Marshal.Proofs.Registry.Refusal
import Marshal.Proofs.Envelope.Offender
import Marshal.NumberArray.View
import Marshal.Proofs.NumberArray
import Marshal.Proofs.Registry.Revived
import Marshal.Proofs.Profile.Language
import Marshal.Proofs.Registry.Overlay
import Marshal.Proofs.Registry.HandlerSets
import Marshal.Proofs.Table.Structure
import Marshal.Proofs.Table.Pairs
import Marshal.Proofs.Number.Large
import Marshal.Proofs.Settings
import Marshal.Proofs.Setup
import Marshal.Proofs.Number.Digits
import Marshal.Proofs.Table.Rows
import Marshal.Proofs.Json
import Marshal.Proofs.Json.Codec
import Marshal.Proofs.Registry.Documents
import Marshal.Registry.Live
import Marshal.Proofs.Registry.Live
import Marshal.Proofs.Journal.LineLog
import Marshal.Session
import Marshal.Proofs.Session
