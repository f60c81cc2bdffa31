import RegionPool.Bytes
import RegionPool.Bytes.Content
import RegionPool.Bytes.Digest
import RegionPool.Container.GrowArray
import RegionPool.Container.PartList
import RegionPool.Container.Slot
import RegionPool.Error
import RegionPool.Event
import RegionPool.Files
import RegionPool.Layout
import RegionPool.Pool.Action
import RegionPool.Pool.Alloc
import RegionPool.Pool.Basic
import RegionPool.Pool.Block
import RegionPool.Pool.Chain
import RegionPool.Pool.Cleanup
import RegionPool.Pool.Config
import RegionPool.Pool.LargeTable
import RegionPool.Pool.Memory
import RegionPool.Pool.Region
import RegionPool.Pool.Release
import RegionPool.Proofs.Accounts
import RegionPool.Proofs.Action
import RegionPool.Proofs.Alignment
import RegionPool.Proofs.Allocation
import RegionPool.Proofs.Amounts
import RegionPool.Proofs.Attachments
import RegionPool.Proofs.Bases
import RegionPool.Proofs.Books
import RegionPool.Proofs.Bounds
import RegionPool.Proofs.Budgets
import RegionPool.Proofs.Calls
import RegionPool.Proofs.Capacities
import RegionPool.Proofs.Chain
import RegionPool.Proofs.Cleanups
import RegionPool.Proofs.Clearing
import RegionPool.Proofs.Comparison
import RegionPool.Proofs.Conservation
import RegionPool.Proofs.Containers
import RegionPool.Proofs.Copying
import RegionPool.Proofs.Courses
import RegionPool.Proofs.Custody
import RegionPool.Proofs.Dealings
import RegionPool.Proofs.Demolition
import RegionPool.Proofs.Depot
import RegionPool.Proofs.Discretion
import RegionPool.Proofs.Elements
import RegionPool.Proofs.Endurance
import RegionPool.Proofs.Freeing
import RegionPool.Proofs.Growth
import RegionPool.Proofs.Handing
import RegionPool.Proofs.InPlace
import RegionPool.Proofs.LargeTable
import RegionPool.Proofs.Leases
import RegionPool.Proofs.Lengthening
import RegionPool.Proofs.Lengths
import RegionPool.Proofs.Lifecycle
import RegionPool.Proofs.Marks
import RegionPool.Proofs.Memory
import RegionPool.Proofs.Moves
import RegionPool.Proofs.Occupancy
import RegionPool.Proofs.Operations
import RegionPool.Proofs.Origins
import RegionPool.Proofs.Partings
import RegionPool.Proofs.Parts
import RegionPool.Proofs.Placement
import RegionPool.Proofs.Refusals
import RegionPool.Proofs.Registration
import RegionPool.Proofs.Remnants
import RegionPool.Proofs.Renewal
import RegionPool.Proofs.Repetition
import RegionPool.Proofs.Resolution
import RegionPool.Proofs.Retirement
import RegionPool.Proofs.Retracing
import RegionPool.Proofs.Rounding
import RegionPool.Proofs.Search
import RegionPool.Proofs.Seats
import RegionPool.Proofs.Seclusion
import RegionPool.Proofs.Separation
import RegionPool.Proofs.Serving
import RegionPool.Proofs.Shortage
import RegionPool.Proofs.Sites
import RegionPool.Proofs.Strangers
import RegionPool.Proofs.Supply
import RegionPool.Proofs.Tenancy
import RegionPool.Proofs.Traffic
import RegionPool.Proofs.Turnover
import RegionPool.Proofs.Turns
import RegionPool.Proofs.Uniformity
import RegionPool.Proofs.Unwinding
import RegionPool.Proofs.Vectors
import RegionPool.Proofs.Worlds
import RegionPool.Random.ChaCha
import RegionPool.Raw.Allocator
import RegionPool.Raw.Buffer
import RegionPool.Raw.Ledger
import RegionPool.Raw.Memory
import RegionPool.Raw.Request
import RegionPool.Session.Basic
import RegionPool.Session.Command
import RegionPool.Session.Exec
import RegionPool.Text
import RegionPool.Text.Invisible
import RegionPool.Workload
import RegionPool.World
