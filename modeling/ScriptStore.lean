import ScriptStore.Store
import ScriptStore.Json.Document
import ScriptStore.Proofs.Keyspace.Eager
import ScriptStore.Proofs.Keyspace.Deadline
import ScriptStore.Proofs.Keyspace.Failure
import ScriptStore.Proofs.Keyspace.Instant
import ScriptStore.Proofs.Script.Table
import ScriptStore.Proofs.Custom.Issued
import ScriptStore.Proofs.Custom.Steps
import ScriptStore.Proofs.Script.Globals
import ScriptStore.Proofs.Custom.Arguments
import ScriptStore.Proofs.Custom.Conversion
import ScriptStore.Proofs.Custom.Timeout
import ScriptStore.Proofs.Custom.Direct
import ScriptStore.Proofs.Keyspace.Interference
import ScriptStore.Proofs.Text.Order
import ScriptStore.Proofs.Store.History
import ScriptStore.Proofs.Store.Definitions
import ScriptStore.Proofs.Store.Refusals
import ScriptStore.Proofs.Store.Disposal
import ScriptStore.Proofs.Store.Contents
import ScriptStore.Proofs.Custom.Ways
import ScriptStore.Proofs.Custom.Normal
import ScriptStore.Proofs.Number.Rounding
import ScriptStore.Proofs.Number.Double
import ScriptStore.Proofs.Number.Nearest
import ScriptStore.Proofs.Number.Shortest
import ScriptStore.Proofs.Json.Number
import ScriptStore.Proofs.Json.Token
import ScriptStore.Proofs.Json.Document
import ScriptStore.Proofs.Json.RoundTrip
import ScriptStore.Proofs.Custom.Reply
import ScriptStore.Proofs.Custom.Nesting
import ScriptStore.Proofs.Custom.Traversal
import ScriptStore.Proofs.Keyspace.Counter
import ScriptStore.Proofs.Keyspace.Expiry
import ScriptStore.Proofs.Keyspace.TimeLeft
import ScriptStore.Proofs.Keyspace.Counting
import ScriptStore.Proofs.Keyspace.Members
import ScriptStore.Proofs.Keyspace.Kinds
import ScriptStore.Proofs.Store.Typed
import ScriptStore.Proofs.Keyspace.Faultless
import ScriptStore.Proofs.Keyspace.ClientName
import ScriptStore.Proofs.Text.Spelling
import ScriptStore.Proofs.Text.Subparts
import ScriptStore.Proofs.Number.Integral
import ScriptStore.Proofs.Number.Places
import ScriptStore.Proofs.Number.Plain
import ScriptStore.Proofs.Value.Argument
import ScriptStore.Proofs.Custom.Strings
import ScriptStore.Proofs.Custom.Numbers
