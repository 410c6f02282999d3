import AppHost.Config.Document
import AppHost.Elf.Object
import AppHost.Host.Build
import AppHost.Host.Launch
import AppHost.Memory.Bump
import AppHost.Object.Declared
import AppHost.Proofs.Memory.Contract
import AppHost.Proofs.Memory.Overlap
import AppHost.Proofs.Memory.Bookkeeping
import AppHost.Proofs.Memory.Mappings
import AppHost.Proofs.Memory.Backing
import AppHost.Proofs.Memory.Heap
import AppHost.Proofs.Memory.Rollback
import AppHost.Proofs.Memory.Contents
import AppHost.Proofs.Memory.Cells
import AppHost.Proofs.Memory.Extent
import AppHost.Proofs.Memory.Refinement
import AppHost.Proofs.Memory.Hosted
import AppHost.Proofs.Memory.Stores
import AppHost.Proofs.Linkage.Placement
import AppHost.Proofs.Linkage.Layout
import AppHost.Proofs.Linkage.Image
import AppHost.Proofs.Linkage.Alignment
import AppHost.Linkage.Call
import AppHost.Proofs.Linkage.Loading
import AppHost.Proofs.Linkage.Lifecycle
import AppHost.Proofs.Linkage.Attempt
import AppHost.Proofs.Linkage.Housing
import AppHost.Proofs.Linkage.Relocating
import AppHost.Proofs.Elf.Patching
import AppHost.Proofs.Elf.Targets
import AppHost.Proofs.Linkage.Bindings
import AppHost.Proofs.Elf.Symbols
import AppHost.Proofs.Elf.RoundTrip
import AppHost.Proofs.File.Location
import AppHost.Proofs.Library.Lookup
import AppHost.Proofs.Library.History
import AppHost.Proofs.Library.Cycle
import AppHost.Proofs.Library.Searching
import AppHost.Proofs.Library.Scanning
import AppHost.Proofs.Library.BreadthFirst
import AppHost.Proofs.Library.Acyclic
import AppHost.Proofs.Text.Utf8
import AppHost.Proofs.Symbol.Order
import AppHost.Proofs.Capability.Catalog
import AppHost.Proofs.Execution.Confinement
import AppHost.Proofs.Host.Spaces
import AppHost.Proofs.Host.Working
import AppHost.Proofs.Host.Reachable
import AppHost.Proofs.Host.Linkages
import AppHost.Proofs.Host.Preparing
import AppHost.Proofs.Host.Binding
import AppHost.Proofs.Host.Records
import AppHost.Proofs.Host.Rollback
import AppHost.Proofs.Memory.Ledger
import AppHost.Proofs.Capability.Building
import AppHost.Proofs.Host.Sharing
import AppHost.Proofs.Host.Identifiers
import AppHost.Proofs.Host.Failure
import AppHost.Proofs.Linkage.Filling
import AppHost.Proofs.Memory.Requests
import AppHost.Proofs.Memory.Buffers
import AppHost.Proofs.Memory.Accounts
import AppHost.Proofs.Execution.Exiting
import AppHost.Proofs.Host.Reporting
import AppHost.Proofs.Number.Division
