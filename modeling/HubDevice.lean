import HubDevice.Base64
import HubDevice.Buffer
import HubDevice.Bytes
import HubDevice.Device.Config
import HubDevice.Device.Controller
import HubDevice.Device.Failure
import HubDevice.Device.Information
import HubDevice.Device.Session
import HubDevice.Device.Thermostat
import HubDevice.Error
import HubDevice.Json.Cursor
import HubDevice.Json.Datum
import HubDevice.Json.Integers
import HubDevice.Json.Numeral
import HubDevice.Json.Reader
import HubDevice.Json.Streaming
import HubDevice.Json.StringBody
import HubDevice.Json.Token
import HubDevice.Json.Writer
import HubDevice.Main
import HubDevice.Mqtt.Client
import HubDevice.Mqtt.Error
import HubDevice.Mqtt.Packet
import HubDevice.Mqtt.Transport
import HubDevice.Number.Binary
import HubDevice.Number.Shortest
import HubDevice.Number.Text
import HubDevice.Proofs.Device.Answering
import HubDevice.Proofs.Device.Commands
import HubDevice.Proofs.Device.Handling
import HubDevice.Proofs.Device.Invariants
import HubDevice.Proofs.Device.Listening
import HubDevice.Proofs.Device.Maxima
import HubDevice.Proofs.Device.Payloads
import HubDevice.Proofs.Device.Posting
import HubDevice.Proofs.Device.Reports
import HubDevice.Proofs.Device.Requests
import HubDevice.Proofs.Device.Sessions
import HubDevice.Proofs.Device.Statistics
import HubDevice.Proofs.Device.Targets
import HubDevice.Proofs.Device.Telemetry
import HubDevice.Proofs.Device.Traffic
import HubDevice.Proofs.Device.Updates
import HubDevice.Proofs.Json.Acceptance
import HubDevice.Proofs.Json.Brackets
import HubDevice.Proofs.Json.Calls
import HubDevice.Proofs.Json.Decoding
import HubDevice.Proofs.Json.Ending
import HubDevice.Proofs.Json.Grammar
import HubDevice.Proofs.Json.Integers
import HubDevice.Proofs.Json.Layouts
import HubDevice.Proofs.Json.Legality
import HubDevice.Proofs.Json.Lockstep
import HubDevice.Proofs.Json.Members
import HubDevice.Proofs.Json.Moves
import HubDevice.Proofs.Json.NumberTexts
import HubDevice.Proofs.Json.Numerals
import HubDevice.Proofs.Json.Packing
import HubDevice.Proofs.Json.Quoting
import HubDevice.Proofs.Json.Reading
import HubDevice.Proofs.Json.Room
import HubDevice.Proofs.Json.RoundTrip
import HubDevice.Proofs.Json.Runs
import HubDevice.Proofs.Json.Skipping
import HubDevice.Proofs.Json.Spelling
import HubDevice.Proofs.Json.Strings
import HubDevice.Proofs.Json.Surrogates
import HubDevice.Proofs.Json.Texts
import HubDevice.Proofs.Json.Tokens
import HubDevice.Proofs.Json.Tours
import HubDevice.Proofs.Json.Tree
import HubDevice.Proofs.Json.Truncation
import HubDevice.Proofs.Json.Writing
import HubDevice.Proofs.Json.Written
import HubDevice.Proofs.Mqtt.Acknowledging
import HubDevice.Proofs.Mqtt.Connecting
import HubDevice.Proofs.Mqtt.Delivery
import HubDevice.Proofs.Mqtt.Framing
import HubDevice.Proofs.Mqtt.Layouts
import HubDevice.Proofs.Mqtt.Lengths
import HubDevice.Proofs.Mqtt.Messages
import HubDevice.Proofs.Mqtt.Numbering
import HubDevice.Proofs.Mqtt.Operations
import HubDevice.Proofs.Mqtt.Packets
import HubDevice.Proofs.Mqtt.Polls
import HubDevice.Proofs.Mqtt.Publishing
import HubDevice.Proofs.Mqtt.Refusals
import HubDevice.Proofs.Mqtt.Sending
import HubDevice.Proofs.Mqtt.Stream
import HubDevice.Proofs.Mqtt.Subscribing
import HubDevice.Proofs.Mqtt.Writes
import HubDevice.Proofs.Number.Lengths
import HubDevice.Proofs.Number.Magnitude
import HubDevice.Proofs.Number.Order
import HubDevice.Proofs.Text.Characters
import HubDevice.Proofs.Text.Cutting
import HubDevice.Proofs.Text.Escaping
import HubDevice.Proofs.Text.Sextets
import HubDevice.Proofs.Topic.Answers
import HubDevice.Proofs.Topic.Commands
import HubDevice.Proofs.Topic.Drafts
import HubDevice.Proofs.Topic.Lists
import HubDevice.Proofs.Topic.Lookups
import HubDevice.Proofs.Topic.Queries
import HubDevice.Proofs.Topic.Signing
import HubDevice.Proofs.Topic.Tagging
import HubDevice.Proofs.Twin.Calls
import HubDevice.Proofs.Twin.Listing
import HubDevice.Proofs.Twin.Opening
import HubDevice.Proofs.Twin.Refusal
import HubDevice.Proofs.Twin.Reporting
import HubDevice.Proofs.Twin.Sections
import HubDevice.Proofs.Twin.Values
import HubDevice.Text.Decimal
import HubDevice.Text.Percent
import HubDevice.Text.Printable
import HubDevice.Text.Quoted
import HubDevice.Text.Split
import HubDevice.Topic.Identity
import HubDevice.Topic.Incoming
import HubDevice.Topic.Memory
import HubDevice.Topic.Outgoing
import HubDevice.Topic.Properties
import HubDevice.Topic.Query
import HubDevice.Topic.Status
import HubDevice.Twin.Report
import HubDevice.Twin.Walk
