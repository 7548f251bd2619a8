import ModDNS.Proxy.FailClosed
import ModDNS.Proxy.Served
import ModDNS.Api.Retire
import ModDNS.Api.Resync
import ModDNS.Conc.Flow
import ModDNS.Accounts.Model
import ModDNS.Accounts.Flows
import ModDNS.Accounts.Requests
import ModDNS.Accounts.Steps
import ModDNS.Accounts.Writes
import ModDNS.Accounts.FlowWrites
import ModDNS.Accounts.JobWrites
import ModDNS.Accounts.Runs
import ModDNS.Accounts.BackupCodes
import ModDNS.Accounts.ReauthOnce
import ModDNS.Accounts.EmailProof
import ModDNS.Accounts.Limits
import ModDNS.Accounts.LostUpdates
import ModDNS.Accounts.Passkeys
import ModDNS.Go.Url
import ModDNS.Identity.ClientID
import ModDNS.Profiles.Settings
import ModDNS.Rules.Regex
import ModDNS.Rules.Value
import ModDNS.Rules.Meaning
import ModDNS.Rules.Stored
import ModDNS.Profiles.Redis
import ModDNS.Profiles.Fields
import ModDNS.Profiles.Store
import ModDNS.Profiles.Cache
import ModDNS.Profiles.Patch
import ModDNS.Profiles.PatchSteps
import ModDNS.Profiles.PatchRaces
import ModDNS.Profiles.Operations
import ModDNS.Profiles.Lifecycle
import ModDNS.Profiles.Served
import ModDNS.Profiles.Deletion
import ModDNS.Profiles.Purge
import ModDNS.Profiles.Keys
import ModDNS.Profiles.Creation
import ModDNS.Subscriptions.Status
import ModDNS.Subscriptions.Notifications
import ModDNS.Caches.Freshness
import ModDNS.Caches.Generation
import ModDNS.Collector.DeviceCap
import ModDNS.Blocklists.Normalize
import ModDNS.Collector.Conservation
import ModDNS.Blocklists.Adguard
import ModDNS.Blocklists.Publish
import ModDNS.Blocklists.Update
import ModDNS.Blocklists.Publication
import ModDNS.Blocklists.Results
import ModDNS.Blocklists.Repair
import ModDNS.Blocklists.Lookups
import ModDNS.Blocklists.Served
import ModDNS.Data.Sorting
import ModDNS.Data.Register
import ModDNS.Data.Splits
import ModDNS.Mongo.Pipeline
import ModDNS.QueryLogs.Model
import ModDNS.QueryLogs.Union
import ModDNS.QueryLogs.Paging
import ModDNS.Profiles.Import
import ModDNS.Profiles.Imports
import ModDNS.Profiles.Rows
import ModDNS.Profiles.RuleRows
import ModDNS.Profiles.ProfileSet
import ModDNS.Statistics.Timestamps
import ModDNS.Profiles.SetRuns
import ModDNS.Profiles.RuleJobs
import ModDNS.Data.Lru
import ModDNS.Proxy.Accounting
import ModDNS.Proxy.Breaker
import ModDNS.Libs.Dislock
import ModDNS.Proxy.CatalogLoader
import ModDNS.Blocklists.PurgeStale
import ModDNS.Go.Addr
import ModDNS.Go.Base64
import ModDNS.Libs.DnsStamps
import ModDNS.Identity.Artefacts
import ModDNS.Data.TokenBucket
import ModDNS.Go.Netip
import ModDNS.Proxy.RateLimit
import ModDNS.Profiles.Collisions
import ModDNS.Profiles.Groups
import ModDNS.Profiles.TurnOff
import ModDNS.Conc.Lift
import ModDNS.Profiles.Transitions
import ModDNS.Profiles.RuleRuns
import ModDNS.Profiles.RuleOrders
import ModDNS.Proxy.Subscribed
import ModDNS.Data.Folds
import ModDNS.Proxy.Uncloaking
import ModDNS.Go.Prefix
import ModDNS.Proxy.Rebinding
import ModDNS.Libs.CatalogNames
import ModDNS.Proxy.BlockedServices
import ModDNS.Proxy.CheckDomain
import ModDNS.Libs.StampStable
import ModDNS.Collector.Delivery
import ModDNS.Profiles.PatchEffect
import ModDNS.Accounts.AppliedUpdates
import ModDNS.Conc.Triple
import ModDNS.Accounts.PartialUpdates
import ModDNS.Blocklists.Accounted
import ModDNS.Blocklists.Badfilter
import ModDNS.Rules.Bulk
import ModDNS.Proxy.AddressRules
import ModDNS.Profiles.GroupBatches
import ModDNS.Profiles.ImportNames
import ModDNS.Libs.StampIndices
import ModDNS.Libs.Overhang
import ModDNS.Libs.LongFields
import ModDNS.Api.IdLimiter
import ModDNS.Collector.Emission
import ModDNS.Statistics.Read
import ModDNS.Statistics.Facets
import ModDNS.Statistics.Answer
import ModDNS.Libs.DualClient
import ModDNS.QueryLogs.Trim
import ModDNS.Statistics.Trim
import ModDNS.App.RetentionDialog
import ModDNS.Blocklists.RetryDelays
import ModDNS.Subscriptions.Migration
import ModDNS.Subscriptions.MigrationRuns
import ModDNS.Conc.Bounded
import ModDNS.Blocklists.Gates
import ModDNS.Blocklists.GentleRuns
import ModDNS.Data.Pieces
import ModDNS.App.SentryPrivacy
import ModDNS.App.ScrubSegments
import ModDNS.App.ScrubRoutes
import ModDNS.App.ScrubUrl
import ModDNS.App.Scrubbed
import ModDNS.Data.BigEndian
import ModDNS.Apple.Ber
import ModDNS.Apple.BerGrammar
import ModDNS.Apple.Der
import ModDNS.Proxy.DeliveryOrder
import ModDNS.Profiles.Mirror
import ModDNS.Profiles.MirrorCalls
import ModDNS.Profiles.MirrorEdits
import ModDNS.Profiles.MirrorRuns
import ModDNS.Profiles.Export
import ModDNS.Profiles.RoundTrip
import ModDNS.Proxy.Enforced
