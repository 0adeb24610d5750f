import ItemStore.Assoc
import ItemStore.Client.Basic
import ItemStore.Client.Settings
import ItemStore.Decimal.Shortest
import ItemStore.Decoder
import ItemStore.Error.Basic
import ItemStore.Error.Kind
import ItemStore.Gzip.Checksum
import ItemStore.Gzip.Inflate
import ItemStore.Gzip.Member
import ItemStore.Json.Basic
import ItemStore.Json.Edit
import ItemStore.Json.Parser
import ItemStore.Json.Printer
import ItemStore.Message.Date
import ItemStore.Message.Headers
import ItemStore.Message.Request
import ItemStore.Message.Response
import ItemStore.Message.StatusSet
import ItemStore.Outcome.Basic
import ItemStore.Outcome.Slot
import ItemStore.Page
import ItemStore.Patch.Apply
import ItemStore.Patch.Basic
import ItemStore.Patch.Build
import ItemStore.Patch.Codec
import ItemStore.Patch.Failure
import ItemStore.Pointer
import ItemStore.Pool.Basic
import ItemStore.Pool.Config
import ItemStore.Proofs.Assoc
import ItemStore.Proofs.Client.Requests
import ItemStore.Proofs.Gzip.Stored
import ItemStore.Proofs.Json.Focus
import ItemStore.Proofs.Json.Place
import ItemStore.Proofs.Json.Text
import ItemStore.Proofs.Message.Compression
import ItemStore.Proofs.Message.Headers
import ItemStore.Proofs.Patch.Address
import ItemStore.Proofs.Patch.Codec
import ItemStore.Proofs.Patch.Conditional
import ItemStore.Proofs.Patch.Congruence
import ItemStore.Proofs.Patch.Run
import ItemStore.Proofs.Pointer
import ItemStore.Proofs.Server.Store
import ItemStore.Proofs.Session.Preview
import ItemStore.Proofs.Session.Quiet
import ItemStore.Proofs.Text.Pieces
import ItemStore.Proofs.Verdict.Conflict
import ItemStore.Request.Credentials
import ItemStore.Request.Endpoint
import ItemStore.Request.Envelope
import ItemStore.Request.StandardHeaders
import ItemStore.Server.Handle
import ItemStore.Server.State
import ItemStore.Session.Backend
import ItemStore.Session.Basic
import ItemStore.Session.Channels
import ItemStore.Session.Job
import ItemStore.Session.Reply
import ItemStore.Session.Requests
import ItemStore.Session.Site
import ItemStore.Text.Base64
import ItemStore.Text.Blank
import ItemStore.Text.Inspect
import ItemStore.Text.Percent
import ItemStore.Text.Utf8
import ItemStore.Url.Basic
import ItemStore.Url.Host
import ItemStore.Url.Parser
import ItemStore.Url.Punycode
import ItemStore.Url.Query
import ItemStore.Verdict.Classify
import ItemStore.Verdict.ErrorDocument
import ItemStore.Verdict.Interpret
import ItemStore.Proofs.Patch.Inline
import ItemStore.Proofs.Patch.Normal
import ItemStore.Proofs.Server.Version
import ItemStore.Proofs.Server.Answers
import ItemStore.Proofs.Server.History
import ItemStore.Proofs.Text.Percent
import ItemStore.Proofs.Url.Query
import ItemStore.Proofs.Url.Normal
import ItemStore.Proofs.Url.Parsed
import ItemStore.Proofs.Url.Path
import ItemStore.Proofs.Request.Base
import ItemStore.Proofs.Request.Link
import ItemStore.Proofs.Server.Listing
import ItemStore.Proofs.Page
import ItemStore.Proofs.Client.Walk
import ItemStore.Proofs.Server.Refinement
import ItemStore.Proofs.Server.Addressing
import ItemStore.Proofs.Verdict.Interpretation
import ItemStore.Proofs.Pool.Custody
import ItemStore.Proofs.Pool.Users
import ItemStore.Proofs.Session.Look
import ItemStore.Proofs.Session.Chronicle
import ItemStore.Proofs.Session.Progress
import ItemStore.Proofs.Session.Sends
import ItemStore.Proofs.Json.Canonical
import ItemStore.Proofs.Json.Removal
import ItemStore.Proofs.Patch.Move
import ItemStore.Proofs.Decimal.Rounding
import ItemStore.Proofs.Decimal.Machine
import ItemStore.Proofs.Decimal.Sum
import ItemStore.Proofs.Json.Numbers
import ItemStore.Proofs.Patch.Increment
import ItemStore.Proofs.Json.Reading
import ItemStore.Proofs.Patch.Canonical
import ItemStore.Proofs.Server.Decodable
import ItemStore.Proofs.Json.Frame
import ItemStore.Proofs.Json.Insertion
import ItemStore.Proofs.Json.Merge
import ItemStore.Proofs.Patch.InPlace
import ItemStore.Proofs.Patch.Addition
import ItemStore.Proofs.Client.Headers
import ItemStore.Proofs.Message.Setting
import ItemStore.Proofs.Patch.Report
import ItemStore.Proofs.Verdict.Coherence
import ItemStore.Proofs.Server.Transparency
import ItemStore.Proofs.Server.Routing
import ItemStore.Proofs.Server.Staleness
import ItemStore.Proofs.Request.Parameters
import ItemStore.Proofs.Pointer.Written
import ItemStore.Proofs.Text.Base64
import ItemStore.Proofs.Server.Admission
import ItemStore.Proofs.Outcome.WriteOnce
import ItemStore.Proofs.Session.Results
import ItemStore.Proofs.Session.Pages
import ItemStore.Proofs.Decimal.Digits
import ItemStore.Proofs.Decimal.Scaling
