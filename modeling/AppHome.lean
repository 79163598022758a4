import AppHome.Lib.Interleave
import AppHome.Lib.Component
import AppHome.Lib.Once
import AppHome.Lib.Table
import AppHome.Lib.Reader
import AppHome.Lib.Base64
import AppHome.Lib.Utf8
import AppHome.Lib.FormUrlencoded
import AppHome.Lib.FixedWindow
import AppHome.Lib.Decimal
import AppHome.Lib.Permits
import AppHome.Lib.DebugFmt
import AppHome.Shared.Values
import AppHome.Shared.Text
import AppHome.Shared.Http
import AppHome.Shared.Ip
import AppHome.Shared.Net
import AppHome.Shared.Jwt
import AppHome.Shared.Url
import AppHome.Settings.Database
import AppHome.Settings.Plaintext
import AppHome.Settings.Printing
import AppHome.Auth.Domain
import AppHome.Auth.UseCases
import AppHome.Auth.Limiter
import AppHome.Auth.Timing
import AppHome.Auth.Jwks
import AppHome.Auth.MaxAge
import AppHome.Auth.Postgres
import AppHome.Auth.World
import AppHome.Auth.Plans
import AppHome.Auth.Requests
import AppHome.Auth.Tokens
import AppHome.Auth.SingleUse
import AppHome.Auth.Ownership
import AppHome.Auth.Sequential
import AppHome.Auth.Announce
import AppHome.Auth.Failures
import AppHome.Auth.Reuse
import AppHome.Auth.Cap
import AppHome.Auth.Handlers
import AppHome.Auth.Ledger
import AppHome.Auth.Audit
import AppHome.Auth.Effects
import AppHome.Auth.Lineage
import AppHome.Auth.Jwt
import AppHome.Auth.TokenBinding
import AppHome.Auth.TokenKinds
import AppHome.Revocation.Backends
import AppHome.Revocation.Agreement
import AppHome.Revocation.Phases
import AppHome.Revocation.Logout
import AppHome.Auth.Expiry
import AppHome.Revocation.Durable
import AppHome.Revocation.DurableSafety
import AppHome.Revocation.DurableMethods
import AppHome.Revocation.Flush
import AppHome.Revocation.Backlog
import AppHome.RateLimit.Memory
import AppHome.RateLimit.Redis
import AppHome.RateLimit.Sliding
import AppHome.RateLimit.Capacity
import AppHome.RateLimit.Agreement
import AppHome.RateLimit.Outage
import AppHome.RateLimit.Tally
import AppHome.Admin.Roles
import AppHome.Admin.LastAdmin
import AppHome.Admin.Listing
import AppHome.Profiles.Profile
import AppHome.Profiles.Updates
import AppHome.Profiles.Handlers
import AppHome.Service.Deployment
import AppHome.Service.Endpoints
import AppHome.Service.Refinement
import AppHome.Service.Guesses
import AppHome.Service.Lockouts
import AppHome.Service.Access
import AppHome.Service.Authority
import AppHome.Service.OwnProfiles
import AppHome.Service.Calls
import AppHome.Service.Sessions
import AppHome.Service.Rejections
import AppHome.Service.Revocations
import AppHome.Service.LoggedOut
import AppHome.Service.Drain
