import DnsGate.Admin.Edit
import DnsGate.Admin.Request
import DnsGate.Api.JsonText
import DnsGate.Api.MediaType
import DnsGate.Api.Routes
import DnsGate.Api.Web
import DnsGate.Binary.BigEndian
import DnsGate.Binary.Chunk
import DnsGate.Binary.Hex
import DnsGate.Binary.Utf8
import DnsGate.Binary.Width
import DnsGate.Blocklist.Hosts
import DnsGate.Blocklist.Manager
import DnsGate.Blocklist.Source
import DnsGate.Cache.Codec
import DnsGate.Cache.Key
import DnsGate.Cache.Store
import DnsGate.Data.Table
import DnsGate.Dns.Message
import DnsGate.Dns.Name
import DnsGate.Dns.Reader
import DnsGate.Dns.Record
import DnsGate.Dns.Writer
import DnsGate.Files.Disk
import DnsGate.Forward.Attempt
import DnsGate.Forward.Deadline
import DnsGate.Forward.Forwarder
import DnsGate.Forward.Framing
import DnsGate.Forward.Ranking
import DnsGate.Forward.Resolver
import DnsGate.Forward.WebClient
import DnsGate.Forward.World
import DnsGate.IpSet.Call
import DnsGate.Main
import DnsGate.Net.Address
import DnsGate.Net.Endpoint
import DnsGate.Program.App
import DnsGate.Program.CommandLine
import DnsGate.Program.Launch
import DnsGate.Proofs.AtomicSave
import DnsGate.Proofs.CacheEntry
import DnsGate.Proofs.CacheKey
import DnsGate.Proofs.CacheStore
import DnsGate.Proofs.ClockedServing
import DnsGate.Proofs.Course
import DnsGate.Proofs.DamagedEntries
import DnsGate.Proofs.Deadlines
import DnsGate.Proofs.DecimalText
import DnsGate.Proofs.DiskFiles
import DnsGate.Proofs.Editing
import DnsGate.Proofs.EntryPoints
import DnsGate.Proofs.EvenClock
import DnsGate.Proofs.Exchange
import DnsGate.Proofs.Fallback
import DnsGate.Proofs.FilledEntries
import DnsGate.Proofs.ForwarderOrder
import DnsGate.Proofs.ForwarderText
import DnsGate.Proofs.InlineComments
import DnsGate.Proofs.Interleaving
import DnsGate.Proofs.IpSetFeeding
import DnsGate.Proofs.KindSets
import DnsGate.Proofs.LabelBlocking
import DnsGate.Proofs.LabelText
import DnsGate.Proofs.LastSave
import DnsGate.Proofs.LineText
import DnsGate.Proofs.Listed
import DnsGate.Proofs.Matching
import DnsGate.Proofs.NameText
import DnsGate.Proofs.OneAttempt
import DnsGate.Proofs.Overlap
import DnsGate.Proofs.PlainDocuments
import DnsGate.Proofs.PlainText
import DnsGate.Proofs.PromisedReplies
import DnsGate.Proofs.Provenance
import DnsGate.Proofs.QuotedText
import DnsGate.Proofs.ReadableSources
import DnsGate.Proofs.ReadingAgain
import DnsGate.Proofs.RepeatedAnswer
import DnsGate.Proofs.ReplyIsolation
import DnsGate.Proofs.RequestOrder
import DnsGate.Proofs.ResponseCodes
import DnsGate.Proofs.Restart
import DnsGate.Proofs.RuleAgreement
import DnsGate.Proofs.RuleStores
import DnsGate.Proofs.RuleText
import DnsGate.Proofs.SavedLists
import DnsGate.Proofs.SavedSettings
import DnsGate.Proofs.SectionLists
import DnsGate.Proofs.Serving
import DnsGate.Proofs.Session
import DnsGate.Proofs.SheetEdits
import DnsGate.Proofs.SheetText
import DnsGate.Proofs.Sinkhole
import DnsGate.Proofs.SourceAgreement
import DnsGate.Proofs.SourceUpdates
import DnsGate.Proofs.StreamFraming
import DnsGate.Proofs.TimeBounds
import DnsGate.Proofs.TimedMap
import DnsGate.Proofs.TriviaText
import DnsGate.Proofs.Utf8Text
import DnsGate.Proofs.ValueText
import DnsGate.Proofs.WebTrips
import DnsGate.Proofs.WrittenSettings
import DnsGate.Refresh.Loop
import DnsGate.Rules.Form
import DnsGate.Rules.Request
import DnsGate.Rules.RuleSet
import DnsGate.Rules.Sections
import DnsGate.Serve.Clocked
import DnsGate.Serve.Delivery
import DnsGate.Serve.Live
import DnsGate.Serve.Question
import DnsGate.Serve.Reply
import DnsGate.Settings.Basic
import DnsGate.Settings.Check
import DnsGate.Settings.Decode
import DnsGate.Settings.Error
import DnsGate.Settings.File
import DnsGate.Settings.Render
import DnsGate.Text.Blank
import DnsGate.Text.Cut
import DnsGate.Text.Digits
import DnsGate.Text.Lines
import DnsGate.Text.Magnitude
import DnsGate.Text.Timestamp
import DnsGate.Toml.Document
import DnsGate.Toml.Edit
import DnsGate.Toml.Lines
import DnsGate.Toml.Moment
import DnsGate.Toml.Number
import DnsGate.Toml.Printer
import DnsGate.Toml.Quoted
import DnsGate.Toml.Reader
import DnsGate.Toml.Scalar
import DnsGate.Toml.Style
