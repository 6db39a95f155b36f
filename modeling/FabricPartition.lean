import FabricPartition.Identity
import FabricPartition.Digest
import FabricPartition.Lib.SecureHash
import FabricPartition.Hashing
import FabricPartition.Limits
import FabricPartition.Encoding
import FabricPartition.Reader
import FabricPartition.Policy
import FabricPartition.Evidence
import FabricPartition.Lib.Act
import FabricPartition.Lib.DisjointSet
import FabricPartition.Lib.Sorted
import FabricPartition.Ledger
import FabricPartition.Reachability
import FabricPartition.Accounting
import FabricPartition.Authority
import FabricPartition.Decision
import FabricPartition.Lineage
import FabricPartition.Partition
import FabricPartition.Persistence
import FabricPartition.Store
import FabricPartition.Restart
import FabricPartition.Evolution
import FabricPartition.Survey
import FabricPartition.Operations
import FabricPartition.Run
import FabricPartition.Merging
import FabricPartition.Fencing
import FabricPartition.Lib.Frames
import FabricPartition.Recovery
import FabricPartition.Durability
import FabricPartition.Crashes
import FabricPartition.OrderIndependence
import FabricPartition.Confirmation
import FabricPartition.Components
import FabricPartition.Drift
import FabricPartition.Replay
import FabricPartition.Acceptance
import FabricPartition.Refusals
import FabricPartition.Queries
import FabricPartition.Watermark
import FabricPartition.Corruption
import FabricPartition.Bursts
import FabricPartition.Canonical
import FabricPartition.Protocol
import FabricPartition.Wire
import FabricPartition.Service
import FabricPartition.Sessions
import FabricPartition.Publishers
import FabricPartition.Answers
import FabricPartition.Codecs
import FabricPartition.WireCodecs
import FabricPartition.Shortening
import FabricPartition.Evaluation
import FabricPartition.Grading
import FabricPartition.Lib.Majority
import FabricPartition.Majority
import FabricPartition.Isolation
import FabricPartition.Revalidation
import FabricPartition.Expiry
import FabricPartition.Decomposition
import FabricPartition.Descent
import FabricPartition.Lib.Exploration
import FabricPartition.Ancestry
import FabricPartition.Appending
import FabricPartition.Stability
import FabricPartition.Restoration
import FabricPartition.Writes
import FabricPartition.Enactment
import FabricPartition.Effects
import FabricPartition.Negative
import FabricPartition.Incarnations
import FabricPartition.Attempts
import FabricPartition.Numbering
import FabricPartition.Budget
import FabricPartition.Preimages
import FabricPartition.Adoption
import FabricPartition.EpochStates
import FabricPartition.FenceNames
import FabricPartition.Lib.Flood
import FabricPartition.Outages
import FabricPartition.Safety
import FabricPartition.Reference
import FabricPartition.Client
import FabricPartition.Conversation
import FabricPartition.Linearization
import FabricPartition.Methods
import FabricPartition.Synthetic
import FabricPartition.Detection
