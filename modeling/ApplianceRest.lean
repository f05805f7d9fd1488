import ApplianceRest.ApplianceError
import ApplianceRest.Base64
import ApplianceRest.Client
import ApplianceRest.Config
import ApplianceRest.Decimal.Binary64
import ApplianceRest.Decimal.Shortest
import ApplianceRest.Dict
import ApplianceRest.Duration
import ApplianceRest.ExchangeError
import ApplianceRest.FileTree
import ApplianceRest.Host
import ApplianceRest.Http.Header
import ApplianceRest.Http.Method
import ApplianceRest.Http.Status
import ApplianceRest.Json.Atom
import ApplianceRest.Json.Basic
import ApplianceRest.Json.Document
import ApplianceRest.Json.Message
import ApplianceRest.Json.Printer
import ApplianceRest.Json.Reader
import ApplianceRest.Json.Skip
import ApplianceRest.Line
import ApplianceRest.Path.Lexical
import ApplianceRest.Path.Rule
import ApplianceRest.Percent
import ApplianceRest.Proofs.Base64.RoundTrip
import ApplianceRest.Proofs.Client.Settings
import ApplianceRest.Proofs.Duration.Reading
import ApplianceRest.Proofs.Host.Offsets
import ApplianceRest.Proofs.Json.Documents
import ApplianceRest.Proofs.Json.Framing
import ApplianceRest.Proofs.Json.Grammar
import ApplianceRest.Proofs.Json.Inversion
import ApplianceRest.Proofs.Json.Meaning
import ApplianceRest.Proofs.Json.Nesting
import ApplianceRest.Proofs.Json.Numbers
import ApplianceRest.Proofs.Json.Passing
import ApplianceRest.Proofs.Json.Reading
import ApplianceRest.Proofs.Json.Skipping
import ApplianceRest.Proofs.Json.Strings
import ApplianceRest.Proofs.Json.Written
import ApplianceRest.Proofs.Path.Cleaning
import ApplianceRest.Proofs.Path.FullPath
import ApplianceRest.Proofs.Path.Joining
import ApplianceRest.Proofs.Path.NormalForm
import ApplianceRest.Proofs.Path.Violations
import ApplianceRest.Proofs.Percent.EscapedPath
import ApplianceRest.Proofs.Percent.RoundTrip
import ApplianceRest.Proofs.Record.Denotation
import ApplianceRest.Proofs.Record.Members
import ApplianceRest.Proofs.Record.Passing
import ApplianceRest.Proofs.Record.Rearranging
import ApplianceRest.Proofs.Record.RoundTrip
import ApplianceRest.Proofs.Request.Accumulation
import ApplianceRest.Proofs.Request.Answer
import ApplianceRest.Proofs.Request.CleanPath
import ApplianceRest.Proofs.Request.Frozen
import ApplianceRest.Proofs.Request.HeaderFields
import ApplianceRest.Proofs.Request.Hierarchy
import ApplianceRest.Proofs.Request.HostAddress
import ApplianceRest.Proofs.Request.Identifier
import ApplianceRest.Proofs.Request.Query
import ApplianceRest.Proofs.Request.Reassignment
import ApplianceRest.Proofs.Request.Rejection
import ApplianceRest.Proofs.Request.Reordering
import ApplianceRest.Proofs.Request.Run
import ApplianceRest.Proofs.Request.Setting
import ApplianceRest.Proofs.Request.WriteOnce
import ApplianceRest.Proofs.Resource.Addressing
import ApplianceRest.Proofs.Resource.Appending
import ApplianceRest.Proofs.Resource.Call
import ApplianceRest.Proofs.Resource.InstanceOperation
import ApplianceRest.Proofs.Resource.Keeping
import ApplianceRest.Proofs.Resource.NotFound
import ApplianceRest.Proofs.Resource.Overwriting
import ApplianceRest.Proofs.Resource.Separation
import ApplianceRest.Proofs.Resource.Writable
import ApplianceRest.Record.Reader
import ApplianceRest.Record.Shape
import ApplianceRest.Record.Writer
import ApplianceRest.Request.Basic
import ApplianceRest.Request.Invalid
import ApplianceRest.Request.Render
import ApplianceRest.Request.Send
import ApplianceRest.Resource.Collection
import ApplianceRest.Resource.DnsSettings
import ApplianceRest.Resource.Error
import ApplianceRest.Resource.IcapProfile
import ApplianceRest.Resource.Location
import ApplianceRest.Resource.NaptrPool
import ApplianceRest.Resource.Operation
import ApplianceRest.Resource.Pool
import ApplianceRest.Resource.RouteDomain
import ApplianceRest.Resource.Stats
import ApplianceRest.Resource.TcpMonitor
import ApplianceRest.Resource.VirtualServer
import ApplianceRest.Response
import ApplianceRest.Text.Blank
import ApplianceRest.Text.Printable
import ApplianceRest.Text.Quoted
