import PactumCodex.Lib.Borsh
import PactumCodex.Lib.Credit
import PactumCodex.Lib.Embedding
import PactumCodex.Lib.Fallible
import PactumCodex.Lib.Hex
import PactumCodex.Lib.History
import PactumCodex.Lib.Interaction
import PactumCodex.Lib.Interleaved
import PactumCodex.Lib.Json
import PactumCodex.Lib.Lifecycle
import PactumCodex.Lib.OneTime
import PactumCodex.Lib.Ownership
import PactumCodex.Lib.Pages
import PactumCodex.Lib.Pool
import PactumCodex.Lib.Secrets
import PactumCodex.Lib.Table
import PactumCodex.Lib.Tagged
import PactumCodex.Lib.Trace
import PactumCodex.Types
import PactumCodex.SolanaTypes
import PactumCodex.Schema
import PactumCodex.Statements.Agreements
import PactumCodex.Statements.Drafts
import PactumCodex.Statements.Payments
import PactumCodex.World
import PactumCodex.Rules
import PactumCodex.Steps
import PactumCodex.Services.Notification
import PactumCodex.Services.ProgramLog
import PactumCodex.Services.Solana
import PactumCodex.Services.SolanaPay
import PactumCodex.Handlers.Agreement
import PactumCodex.Handlers.AgreementAccount
import PactumCodex.Handlers.Draft
import PactumCodex.Handlers.DraftPayload
import PactumCodex.Handlers.Invite
import PactumCodex.Handlers.Payment
import PactumCodex.Handlers.Ws
import PactumCodex.Workers.EventListener
import PactumCodex.Workers.ExpiryWorker
import PactumCodex.Workers.Keeper
import PactumCodex.Workers.RefundWorker
import PactumCodex.System
import PactumCodex.Replay
import PactumCodex.Audit
import PactumCodex.Payments.Confirmation
import PactumCodex.Payments.FreeTier
import PactumCodex.Payments.FreeTierRaces
import PactumCodex.Payments.PaidPath
import PactumCodex.Payments.PaidFlag
import PactumCodex.Payments.Reads
import PactumCodex.Payments.RefundAmount
import PactumCodex.Payments.Retries
import PactumCodex.Payments.Rows
import PactumCodex.Payments.Selection
import PactumCodex.Payments.StatusMachine
import PactumCodex.Payments.WorkerCycle
import PactumCodex.Events.FailedTransactions
import PactumCodex.Events.Provenance
import PactumCodex.Events.Segments
import PactumCodex.Drafts.Acceptance
import PactumCodex.Drafts.ConcurrentAcceptance
import PactumCodex.Drafts.Creation
import PactumCodex.Drafts.Discarded
import PactumCodex.Payments.DiscardedDrafts
import PactumCodex.Drafts.Lifecycle
import PactumCodex.Drafts.Links
import PactumCodex.Drafts.Locks
import PactumCodex.Drafts.Readiness
import PactumCodex.Drafts.Isolation
import PactumCodex.Drafts.Rows
import PactumCodex.Drafts.Submissions
import PactumCodex.Drafts.SubmittedParties
import PactumCodex.Drafts.FailedRequests
import PactumCodex.Drafts.FailedAcceptance
import PactumCodex.Drafts.SignedArguments
import PactumCodex.Drafts.InvitationLifecycle
import PactumCodex.Drafts.SlotLifecycle
import PactumCodex.Drafts.Access
import PactumCodex.Drafts.ReadyNotices
import PactumCodex.Drafts.RequestedParties
import PactumCodex.Accounts.ExpiryLayout
import PactumCodex.Accounts.Instructions
import PactumCodex.Accounts.Padding
import PactumCodex.Accounts.Signers
import PactumCodex.Agreements.PartyRows
import PactumCodex.Agreements.Listener
import PactumCodex.Agreements.Lifecycle
import PactumCodex.Agreements.Completion
import PactumCodex.Agreements.CompletionJobs
import PactumCodex.Agreements.ExpiryRuns
import PactumCodex.Agreements.ExpiryLock
import PactumCodex.Agreements.ExpiryLeaks
import PactumCodex.Agreements.LateExpiry
import PactumCodex.Agreements.Reports
import PactumCodex.Agreements.Notices
import PactumCodex.Agreements.Deadline
import PactumCodex.Auth.Schema
import PactumCodex.Auth.World
import PactumCodex.Auth.Handlers
import PactumCodex.Handlers.AgreementList
import PactumCodex.Agreements.Pages
import PactumCodex.Auth.Runs
import PactumCodex.Auth.Steps
import PactumCodex.Auth.Accounts
import PactumCodex.Auth.Replay
import PactumCodex.Auth.Nonces
import PactumCodex.Auth.RefreshTokens
import PactumCodex.Auth.Rotation
import PactumCodex.Auth.WalletClaims
import PactumCodex.Auth.Contacts
import PactumCodex.Auth.Wallets
import PactumCodex.Auth.Resolution
import PactumCodex.Auth.Bindings
import PactumCodex.Sessions.NewestSession
import PactumCodex.Sessions.Delivery
import PactumCodex.Notifications.World
import PactumCodex.Workers.NotificationWorker
import PactumCodex.Notifications.Runs
import PactumCodex.Notifications.Queue
import PactumCodex.Notifications.Replay
import PactumCodex.Notifications.Delivery
import PactumCodex.Notifications.Starvation
import PactumCodex.Notifications.Messaging
import PactumCodex.Notifications.Participants
import PactumCodex.Notifications.Reasons
import PactumCodex.Lib.Canonical
import PactumCodex.Accounts.Encoding
import PactumCodex.Accounts.FinalSignature
import PactumCodex.Lib.Checked
import PactumCodex.Payments.RefundExactness
import PactumCodex.Payments.Treasury
import PactumCodex.Lib.SlidingWindow
import PactumCodex.Handlers.InviteRateLimit
import PactumCodex.Invites.RateLimit
import PactumCodex.Lib.Url
import PactumCodex.Payments.PayUrl
import PactumCodex.Lib.Numeral
import PactumCodex.Payments.AmountNumeral
import PactumCodex.Lib.Authority
import PactumCodex.Config
import PactumCodex.Startup.DatabasePassword
import PactumCodex.Drafts.StoredJson
import PactumCodex.Handlers.Upload
import PactumCodex.Drafts.ContentHash
import PactumCodex.Lib.Escalation
import PactumCodex.Workers.Health
import PactumCodex.Workers.ProcessHealth
import PactumCodex.Workers.LogStream
import PactumCodex.Events.Subscriptions
import PactumCodex.Workers.Loops
import PactumCodex.Workers.CircuitBreaker
import PactumCodex.Workers.ServerRuns
