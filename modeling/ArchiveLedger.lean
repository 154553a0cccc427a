import ArchiveLedger.Foundation.Table
import ArchiveLedger.Foundation.Text
import ArchiveLedger.Foundation.Base64
import ArchiveLedger.Foundation.JsonText
import ArchiveLedger.Catalog.Snapshots
import ArchiveLedger.Catalog.Schema
import ArchiveLedger.Catalog.Registry
import ArchiveLedger.Catalog.Writes
import ArchiveLedger.Foundation.Keyset
import ArchiveLedger.Catalog.Queries
import ArchiveLedger.Catalog.Removed
import ArchiveLedger.Catalog.Run
import ArchiveLedger.Catalog.WritesSpec
import ArchiveLedger.Catalog.Effects
import ArchiveLedger.Catalog.Linked
import ArchiveLedger.Evidence.Verified
import ArchiveLedger.Evidence.History
import ArchiveLedger.Evidence.Identity
import ArchiveLedger.Evidence.ScanCoverage
import ArchiveLedger.Foundation.Once
import ArchiveLedger.Retry.Ledger
import ArchiveLedger.Retry.Retries
import ArchiveLedger.Listing.Selection
import ArchiveLedger.Listing.Removal
import ArchiveLedger.Listing.Revision
import ArchiveLedger.Listing.Pagination
import ArchiveLedger.Registry.Steps
import ArchiveLedger.Registry.DeviceSites
import ArchiveLedger.Registry.Permanent
import ArchiveLedger.Registry.Applicability
import ArchiveLedger.Registry.PolicyVersions
import ArchiveLedger.Registry.Fingerprints
import ArchiveLedger.Foundation.Outcome
import ArchiveLedger.Journal.Frontier
import ArchiveLedger.Foundation.Worklist
import ArchiveLedger.Journal.Batches
import ArchiveLedger.Journal.Documents
import ArchiveLedger.Journal.Clients
import ArchiveLedger.Journal.Tree
import ArchiveLedger.Journal.Verify
import ArchiveLedger.Journal.Segments
import ArchiveLedger.Journal.Enrollment
import ArchiveLedger.Journal.Visits
import ArchiveLedger.Journal.Graph
import ArchiveLedger.Journal.History
import ArchiveLedger.Journal.Causality
import ArchiveLedger.Journal.BatchRuns
import ArchiveLedger.Journal.Readings
import ArchiveLedger.Journal.Agreement
import ArchiveLedger.Journal.Verifiers
import ArchiveLedger.Foundation.SortedMap
import ArchiveLedger.Journal.Union
import ArchiveLedger.Foundation.HashChain
import ArchiveLedger.Journal.Binding
import ArchiveLedger.Foundation.LinearExtension
import ArchiveLedger.Foundation.Tracker
import ArchiveLedger.Projection.Items
import ArchiveLedger.Projection.Schema
import ArchiveLedger.Projection.Content
import ArchiveLedger.Projection.Observations
import ArchiveLedger.Projection.Scans
import ArchiveLedger.Projection.Controls
import ArchiveLedger.Projection.RegistryItems
import ArchiveLedger.Projection.Records
import ArchiveLedger.Projection.ContentSpec
import ArchiveLedger.Foundation.Occupancy
import ArchiveLedger.Projection.Frames
import ArchiveLedger.Projection.Copies
import ArchiveLedger.Projection.Finalization
import ArchiveLedger.Projection.Steps
import ArchiveLedger.Projection.Identity
import ArchiveLedger.Projection.Occupants
import ArchiveLedger.Projection.Tracking
import ArchiveLedger.Projection.Superseding
import ArchiveLedger.Projection.Readiness
import ArchiveLedger.Projection.Delivery
import ArchiveLedger.Projection.Concurrent
import ArchiveLedger.Projection.AnnexSpec
import ArchiveLedger.Projection.Contradictions
import ArchiveLedger.Projection.Candidates
import ArchiveLedger.Projection.Views
import ArchiveLedger.Policy.Coverage
import ArchiveLedger.Foundation.Redundancy
import ArchiveLedger.Policy.Review
import ArchiveLedger.Policy.Evaluators
import ArchiveLedger.Policy.FileEvaluation
import ArchiveLedger.Policy.Tests
import ArchiveLedger.Policy.Verdict
import ArchiveLedger.Policy.Satisfaction
import ArchiveLedger.Policy.Evaluations
import ArchiveLedger.Policy.Expiry
import ArchiveLedger.Verification.Selection
import ArchiveLedger.Verification.BlindSpots
import ArchiveLedger.Foundation.Dispute
import ArchiveLedger.Foundation.FileTree
import ArchiveLedger.Discovery.Walk
import ArchiveLedger.Foundation.Volume
import ArchiveLedger.Repair.Replacing
import ArchiveLedger.Repair.Links
import ArchiveLedger.Repair.Resumption
import ArchiveLedger.Stage.Manifest
import ArchiveLedger.Stage.Pages
import ArchiveLedger.Stage.Frozen
import ArchiveLedger.Registry.TwoRegistries
import ArchiveLedger.Inventory.Scan
import ArchiveLedger.Inventory.Passes
import ArchiveLedger.Inventory.Coverage
import ArchiveLedger.Inventory.Matching
import ArchiveLedger.Projection.Defaults
import ArchiveLedger.Annex.Keys
import ArchiveLedger.Annex.Entries
import ArchiveLedger.Annex.Belief
import ArchiveLedger.Annex.Copies
import ArchiveLedger.Foundation.Packing
import ArchiveLedger.Journal.Writing
import ArchiveLedger.Journal.Packed
import ArchiveLedger.Journal.ReadBack
import ArchiveLedger.Listing.PrefixRange
import ArchiveLedger.Journal.Validation
import ArchiveLedger.Annex.LocationLog
import ArchiveLedger.V2Inventory.Files
import ArchiveLedger.V2Inventory.Standing
import ArchiveLedger.V2Inventory.Recorded
import ArchiveLedger.Compact.Risk
import ArchiveLedger.Compact.LocationGroups
import ArchiveLedger.Compact.RiskReports
import ArchiveLedger.Policy.Overflow
import ArchiveLedger.Foundation.CommitGraph
import ArchiveLedger.Journal.FrontierText
import ArchiveLedger.Sync.Convergence
import ArchiveLedger.Sync.Preservation
import ArchiveLedger.Leases.Contexts
import ArchiveLedger.Events.Following
