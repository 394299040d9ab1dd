import SmartFoodOps.Lib.Machine
import SmartFoodOps.Lib.Transaction
import SmartFoodOps.Lib.Durable
import SmartFoodOps.Lib.Keyed
import SmartFoodOps.Lib.Program
import SmartFoodOps.Lib.Separated
import SmartFoodOps.Lib.Quota
import SmartFoodOps.Lib.Interaction
import SmartFoodOps.Lib.Task
import SmartFoodOps.Lib.Dict
import SmartFoodOps.Lib.Patch
import SmartFoodOps.Lib.Regex
import SmartFoodOps.Lib.Matching
import SmartFoodOps.Lib.Striking
import SmartFoodOps.Lib.Erasure
import SmartFoodOps.Lib.Spacing
import SmartFoodOps.Lib.Stripping
import SmartFoodOps.Lib.Base64
import SmartFoodOps.Lib.Cheapest
import SmartFoodOps.Lib.Datetime
import SmartFoodOps.Lib.JsonText
import SmartFoodOps.Lib.Ranking
import SmartFoodOps.Idempotency.Store
import SmartFoodOps.Idempotency.TakeOver
import SmartFoodOps.Idempotency.Fencing
import SmartFoodOps.Payment.Service
import SmartFoodOps.Payment.Ledger
import SmartFoodOps.Payment.Psp
import SmartFoodOps.Payment.Backed
import SmartFoodOps.Inventory.Service
import SmartFoodOps.Inventory.Reserve
import SmartFoodOps.Inventory.Interleaving
import SmartFoodOps.Inventory.Conservation
import SmartFoodOps.Dispatch.Stores
import SmartFoodOps.Dispatch.Service
import SmartFoodOps.Dispatch.Interleaving
import SmartFoodOps.Dispatch.Capacity
import SmartFoodOps.Dispatch.Taps
import SmartFoodOps.Dispatch.Agreement
import SmartFoodOps.Dispatch.Offers
import SmartFoodOps.Dispatch.Candidates
import SmartFoodOps.Dispatch.Revoke
import SmartFoodOps.Dispatch.Expiry
import SmartFoodOps.Dispatch.Assignment
import SmartFoodOps.Order.Courier
import SmartFoodOps.Order.Transitions
import SmartFoodOps.Order.Placement
import SmartFoodOps.Order.Workflow
import SmartFoodOps.Order.Saga
import SmartFoodOps.Order.Coherence
import SmartFoodOps.Order.Settlement
import SmartFoodOps.Order.Unwind
import SmartFoodOps.Order.Hold
import SmartFoodOps.Order.Delivery
import SmartFoodOps.Order.Cascade
import SmartFoodOps.Order.Sight
import SmartFoodOps.Order.Locks
import SmartFoodOps.Order.Lifecycle
import SmartFoodOps.Order.Emission
import SmartFoodOps.Order.Tracking
import SmartFoodOps.Order.Joint
import SmartFoodOps.Order.Capture
import SmartFoodOps.Order.Steady
import SmartFoodOps.Order.Honour
import SmartFoodOps.Order.Cleanup
import SmartFoodOps.Order.Strand
import SmartFoodOps.Order.History
import SmartFoodOps.Order.Kitchen
import SmartFoodOps.Catalog.Store
import SmartFoodOps.Catalog.Service
import SmartFoodOps.Catalog.Documents
import SmartFoodOps.Catalog.Interleaving
import SmartFoodOps.Catalog.Tenancy
import SmartFoodOps.Catalog.Publishing
import SmartFoodOps.Catalog.Calls
import SmartFoodOps.Catalog.Commits
import SmartFoodOps.Catalog.Frame
import SmartFoodOps.Catalog.Deletes
import SmartFoodOps.Catalog.Brands
import SmartFoodOps.Catalog.Race
import SmartFoodOps.Catalog.Branches
import SmartFoodOps.Catalog.BranchRules
import SmartFoodOps.Catalog.Backup
import SmartFoodOps.Catalog.Cache
import SmartFoodOps.Catalog.Pricing
import SmartFoodOps.Catalog.Search
import SmartFoodOps.Catalog.HybridSearch
import SmartFoodOps.Assistant.Indexing
import SmartFoodOps.Assistant.Convergence
import SmartFoodOps.Assistant.Churn
import SmartFoodOps.Assistant.Refresh
import SmartFoodOps.Assistant.Settling
import SmartFoodOps.Assistant.Policy
import SmartFoodOps.Assistant.Chat
import SmartFoodOps.Assistant.Admission
import SmartFoodOps.Assistant.Retries
import SmartFoodOps.Assistant.Drafts
import SmartFoodOps.Assistant.Attribution
import SmartFoodOps.Assistant.Conversations
import SmartFoodOps.Assistant.Fence
import SmartFoodOps.Assistant.Citations
import SmartFoodOps.Assistant.Validation
import SmartFoodOps.Assistant.Streaming
import SmartFoodOps.Assistant.Published
import SmartFoodOps.Assistant.Recommend
import SmartFoodOps.Assistant.Profiles
import SmartFoodOps.Assistant.OrderTimeline
import SmartFoodOps.Assistant.Fitting
import SmartFoodOps.Assistant.Failover
import SmartFoodOps.Assistant.Floor
import SmartFoodOps.Assistant.Scrubbing
import SmartFoodOps.Assistant.Corpus
import SmartFoodOps.Assistant.Grounded
import SmartFoodOps.Assistant.BranchCards
import SmartFoodOps.Assistant.MinimumTotal
import SmartFoodOps.Assistant.Fusion
import SmartFoodOps.Auth.Context
import SmartFoodOps.Auth.Verifier
import SmartFoodOps.Identity.Sessions
import SmartFoodOps.Identity.Rotation
import SmartFoodOps.Identity.Accounts
import SmartFoodOps.Identity.Grants
import SmartFoodOps.Identity.Convergence
import SmartFoodOps.Edge.Routing
import SmartFoodOps.Edge.OpenApi
import SmartFoodOps.Edge.Proxy
import SmartFoodOps.Edge.Paths
import SmartFoodOps.Edge.Headers
import SmartFoodOps.Edge.Guessing
import SmartFoodOps.Kafka.Consumer
import SmartFoodOps.Kafka.Delivery
import SmartFoodOps.Kafka.Replay
import SmartFoodOps.Kafka.Wire
import SmartFoodOps.Realtime.Tickets
import SmartFoodOps.Outbox.Order
import SmartFoodOps.Kafka.Pipeline
import SmartFoodOps.Analytics.Facts
import SmartFoodOps.Analytics.Batching
import SmartFoodOps.Analytics.Convergence
import SmartFoodOps.Analytics.Dashboards
import SmartFoodOps.Notification.Once
import SmartFoodOps.Notification.Receipts
import SmartFoodOps.Pricing.Engine
import SmartFoodOps.Pricing.Reference
import SmartFoodOps.Pricing.Report
import SmartFoodOps.Pricing.Menu
import SmartFoodOps.Pricing.Payable
import SmartFoodOps.Pricing.Satisfiable
import SmartFoodOps.Pricing.Hours
