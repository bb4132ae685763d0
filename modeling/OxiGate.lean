import OxiGate.ByteReader
import OxiGate.RustText
import OxiGate.Runs
import OxiGate.Histories
import OxiGate.Cyclic
import OxiGate.Interaction
import OxiGate.Tasks
import OxiGate.Guards
import OxiGate.Multimap
import OxiGate.BoundedQueue
import OxiGate.Net
import OxiGate.NetText
import OxiGate.ProxyProtocol
import OxiGate.ProxyPeek
import OxiGate.ProxyWire
import OxiGate.ProxyGrammar
import OxiGate.Gcra
import OxiGate.RateLimit
import OxiGate.LoadBalancer
import OxiGate.RoundRobin
import OxiGate.LoadLevel
import OxiGate.IdlePool
import OxiGate.Http
import OxiGate.Config
import OxiGate.Validator
import OxiGate.Security
import OxiGate.Router
import OxiGate.Routing
import OxiGate.Specificity
import OxiGate.BodyLimit
import OxiGate.BodyPolls
import OxiGate.Handler
import OxiGate.Cookies
import OxiGate.Targets
import OxiGate.RetryLoop
import OxiGate.Retries
import OxiGate.UpgradePath
import OxiGate.UpgradeChoice
import OxiGate.Delivery
import OxiGate.HopByHop
import OxiGate.ResponseHeaders
import OxiGate.Versions
import OxiGate.Affinity
import OxiGate.IdentityHeaders
import OxiGate.Connection
import OxiGate.AccessLists
import OxiGate.AddressBlocks
import OxiGate.Server
import OxiGate.Accounting
import OxiGate.Metrics
import OxiGate.Acceptance
import OxiGate.Requests
import OxiGate.Exposition
import OxiGate.Json
import OxiGate.Stats
import OxiGate.StatsJson
import OxiGate.Telemetry
import OxiGate.Counting
import OxiGate.FirstAttempts
import OxiGate.Health
import OxiGate.Thresholds
import OxiGate.Reload
import OxiGate.HotReload
import OxiGate.Checked
import OxiGate.Overflow
import OxiGate.Dashboard
import OxiGate.LoadShed
import OxiGate.BufferPool
import OxiGate.Admin
