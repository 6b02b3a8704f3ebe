import DemandPaging.Interrupt.Bank
import DemandPaging.Machine.Operation
import DemandPaging.Page.Description
import DemandPaging.Proofs.FrameRing
import DemandPaging.Proofs.Swap.Area
import DemandPaging.Proofs.Swap.Allocation
import DemandPaging.Proofs.Swap.Transfers
import DemandPaging.Proofs.Mmu.Reach
import DemandPaging.Proofs.Word
import DemandPaging.Proofs.Custody.Frames
import DemandPaging.Proofs.Custody.Links
import DemandPaging.Proofs.Custody.Slots
import DemandPaging.Proofs.FlatMemory
import DemandPaging.Proofs.FramePool
import DemandPaging.Proofs.Machine.Conservation
import DemandPaging.Proofs.Machine.Isolation
import DemandPaging.Proofs.Machine.Ledger
import DemandPaging.Proofs.Machine.Resolution
import DemandPaging.Proofs.Scene
import DemandPaging.Proofs.Scene.View
import DemandPaging.Proofs.Scene.Eviction
import DemandPaging.Proofs.Scene.Residency
import DemandPaging.Proofs.Scene.Registration
import DemandPaging.Proofs.Scene.Fork
import DemandPaging.Proofs.Machine.Keeping
import DemandPaging.Proofs.Machine.Quiet
import DemandPaging.Proofs.Scene.FileMapping
import DemandPaging.Proofs.Scene.UserAccess
import DemandPaging.Proofs.Scene.Fault
import DemandPaging.Proofs.Scene.Operation
import DemandPaging.Proofs.Scene.Modification
import DemandPaging.Proofs.Machine.WriteBack
import DemandPaging.Proofs.Scene.Groups
import DemandPaging.Proofs.Machine.MappingGroups
import DemandPaging.Proofs.Scene.Copies
import DemandPaging.Proofs.Machine.FailedFork
import DemandPaging.Proofs.Machine.ForkFidelity
import DemandPaging.Proofs.Scene.Window
import DemandPaging.Proofs.Scene.Mirror
import DemandPaging.Proofs.Machine.RoundTrip
import DemandPaging.Proofs.Machine.ClockHand
import DemandPaging.Proofs.Machine.Delivery
import DemandPaging.Proofs.Machine.Working
import DemandPaging.Proofs.Machine.Retry
import DemandPaging.Proofs.Machine.Aborts
import DemandPaging.Proofs.Machine.Admission
import DemandPaging.Proofs.Interrupt.Nesting
import DemandPaging.Proofs.Interrupt.Overlap
import DemandPaging.Proofs.Interrupt.Requests
import DemandPaging.Proofs.Scene.Abort
import DemandPaging.Proofs.Scene.Provenance
import DemandPaging.Proofs.Machine.WriteCauses
import DemandPaging.Proofs.Machine.Closing
import DemandPaging.Proofs.Machine.Teardown
import DemandPaging.Proofs.Residue.Agreement
import DemandPaging.Proofs.Residue.Blind
import DemandPaging.Proofs.Residue.Twin
import DemandPaging.Proofs.Residue.Content
import DemandPaging.Proofs.Residue.Eviction
import DemandPaging.Proofs.Residue.Residency
import DemandPaging.Proofs.Residue.Registration
import DemandPaging.Proofs.Residue.Fork
import DemandPaging.Proofs.Residue.Runs
import DemandPaging.Proofs.LockOrder
import DemandPaging.Proofs.Machine.LockOrder
import DemandPaging.Proofs.Machine.Interruption
import DemandPaging.Proofs.Scene.Natures
import DemandPaging.Proofs.Machine.StackRegion
import DemandPaging.Proofs.Machine.Saving
import DemandPaging.Proofs.Machine.SecondChance
import DemandPaging.Proofs.Machine.MappingOutcome
import DemandPaging.Proofs.Machine.MappedRange
import DemandPaging.Proofs.Mmu.Bytewise
import DemandPaging.Proofs.Machine.Numbering
import DemandPaging.Proofs.Machine.LoaderRuns
import DemandPaging.Proofs.Scene.Initialisation
import DemandPaging.Proofs.Machine.Ageing
import DemandPaging.Proofs.Machine.Initialisation
import DemandPaging.Proofs.Word.Rounding
import DemandPaging.Proofs.Machine.Lookup
