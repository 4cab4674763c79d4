import DiddiFreeID.Transact.Program
import DiddiFreeID.Transact.System
import DiddiFreeID.Transact.Since
import DiddiFreeID.Transact.Claim
import DiddiFreeID.Transact.Tally
import DiddiFreeID.Transact.Schedule
import DiddiFreeID.Transact.Alone
import DiddiFreeID.Transact.Failing
import DiddiFreeID.Transact.Clocked
import DiddiFreeID.Transact.History
import DiddiFreeID.Transact.Unique
import DiddiFreeID.Transact.Siblings
import DiddiFreeID.Transact.Balance
import DiddiFreeID.Transact.Guarded
import DiddiFreeID.Transact.Projection
import DiddiFreeID.Domain
import DiddiFreeID.Phone
import DiddiFreeID.Store
import DiddiFreeID.Codes
import DiddiFreeID.Tokens
import DiddiFreeID.Commands
import DiddiFreeID.Queries
import DiddiFreeID.ListUsers
import DiddiFreeID.Runs
import DiddiFreeID.Accounts
import DiddiFreeID.Effects
import DiddiFreeID.StatusTrail
import DiddiFreeID.RoleTrail
import DiddiFreeID.KycGate
import DiddiFreeID.KycQueue
import DiddiFreeID.Registration
import DiddiFreeID.EventStream
import DiddiFreeID.SessionLifetime
import DiddiFreeID.FinishedCodes
import DiddiFreeID.ProfileCache
import DiddiFreeID.Enumeration
import DiddiFreeID.PendingRole
import DiddiFreeID.Phases
import DiddiFreeID.Rotation
import DiddiFreeID.OtpSession
import DiddiFreeID.BruteForce
import DiddiFreeID.FirstVerification
import DiddiFreeID.Sessions
import DiddiFreeID.SessionStages
import DiddiFreeID.Revocation
import DiddiFreeID.Aftermath
import DiddiFreeID.ProfileFreshness
import DiddiFreeID.EventOrder
import DiddiFreeID.Verdicts
import DiddiFreeID.Stands
import DiddiFreeID.LostUpdate
import DiddiFreeID.AccessTokens
import DiddiFreeID.Authorization
import DiddiFreeID.Migration
import DiddiFreeID.Consumer
import DiddiFreeID.Paging
import DiddiFreeID.PagedWalk
import DiddiFreeID.Backfill
import DiddiFreeID.Base64
import DiddiFreeID.Keys
import DiddiFreeID.JwksVerifier
import DiddiFreeID.SameVerification
import DiddiFreeID.KeyRotation
import DiddiFreeID.RollingRotation
import DiddiFreeID.JwksFetches
import DiddiFreeID.AllOrNothing
import DiddiFreeID.E164
import DiddiFreeID.LocalPolicy
import DiddiFreeID.VerifyErrors
import DiddiFreeID.ChangeEvents
import DiddiFreeID.SameNumber
import DiddiFreeID.RateLimiter
import DiddiFreeID.RetryAfter
import DiddiFreeID.Cooldown
import DiddiFreeID.UuidText
import DiddiFreeID.CacheDecoding
import DiddiFreeID.Grounds
import DiddiFreeID.Growth
import DiddiFreeID.SentCodes
import DiddiFreeID.Integrity
import DiddiFreeID.RedisFaults
import DiddiFreeID.CacheExpiry
import DiddiFreeID.FailOpen
import DiddiFreeID.AuditTrail
import DiddiFreeID.RoutedRequests
import DiddiFreeID.Realms
import DiddiFreeID.LoginFlow
import DiddiFreeID.LockOrder
