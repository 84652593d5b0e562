import Frag.Basic
import Frag.Library.Accumulator
import Frag.Library.Base64
import Frag.Library.Binary64
import Frag.Library.Bounds
import Frag.Library.Chunks
import Frag.Library.Decimal
import Frag.Library.FirstWriter
import Frag.Library.HighWater
import Frag.Library.Http
import Frag.Library.Intern
import Frag.Library.Json
import Frag.Library.JsonPlaces
import Frag.Library.JsonText
import Frag.Library.OrderedMap
import Frag.Library.Prototypes
import Frag.Library.Runs
import Frag.Library.Scan
import Frag.Library.Simulation
import Frag.Library.Unicode
import Frag.Library.Url
import Frag.Library.Windows
import Frag.Backend.Base64
import Frag.Backend.Calls
import Frag.Backend.Checked
import Frag.Backend.CheckedHttp
import Frag.Backend.Config
import Frag.Backend.Connection
import Frag.Backend.Database
import Frag.Backend.Handlers
import Frag.Backend.Http
import Frag.Backend.RateLimiter
import Frag.Backend.Server
import Frag.Backend.Statements
import Frag.Backend.Text
import Frag.Client.Action
import Frag.Client.Addresses
import Frag.Client.Crypto
import Frag.Client.Import
import Frag.Client.Network
import Frag.Client.Nicknames
import Frag.Client.Page
import Frag.Client.Poll
import Frag.Client.PollSpec
import Frag.Client.Request
import Frag.Client.Send
import Frag.Client.Serialization
import Frag.Client.State
import Frag.System.Acceptance
import Frag.System.Channel
import Frag.System.Reader
import Frag.System.Scanned
import Frag.System.Tabs
import Frag.System.Wire
import Frag.System.World
import Frag.Guarantees.Access
import Frag.Guarantees.Addressing
import Frag.Guarantees.Answers
import Frag.Guarantees.Authenticity
import Frag.Guarantees.Blobs
import Frag.Guarantees.Bodies
import Frag.Guarantees.Clocks
import Frag.Guarantees.Configuration
import Frag.Guarantees.Delivery
import Frag.Guarantees.Emission
import Frag.Guarantees.ErrorCodes
import Frag.Guarantees.Escapes
import Frag.Guarantees.Exchanges
import Frag.Guarantees.Expiry
import Frag.Guarantees.Fields
import Frag.Guarantees.Framing
import Frag.Guarantees.Importing
import Frag.Guarantees.Isolation
import Frag.Guarantees.Joining
import Frag.Guarantees.Membership
import Frag.Guarantees.Metadata
import Frag.Guarantees.Naming
import Frag.Guarantees.Outage
import Frag.Guarantees.Outcomes
import Frag.Guarantees.Overlap
import Frag.Guarantees.Overwriting
import Frag.Guarantees.Posting
import Frag.Guarantees.Querying
import Frag.Guarantees.RateLimit
import Frag.Guarantees.Reading
import Frag.Guarantees.Rejection
import Frag.Guarantees.Reload
import Frag.Guarantees.Removal
import Frag.Guarantees.Replies
import Frag.Guarantees.Reporting
import Frag.Guarantees.Requests
import Frag.Guarantees.Scanning
import Frag.Guarantees.Secrecy
import Frag.Guarantees.Sextets
import Frag.Guarantees.Slots
import Frag.Guarantees.Subsets
import Frag.Guarantees.Survival
import Frag.Guarantees.Table
import Frag.Guarantees.Tokens
import Frag.Guarantees.Transfer
import Frag.Guarantees.Truncation
import Frag.Guarantees.Unread
import Frag.Guarantees.Windowing
import Frag.Guarantees.Wire
