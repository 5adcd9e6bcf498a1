import Xv6Kernel.Foundation.Program
import Xv6Kernel.Foundation.Interleaving
import Xv6Kernel.Foundation.Alone
import Xv6Kernel.Foundation.Watching
import Xv6Kernel.Foundation.Layers
import Xv6Kernel.Foundation.Returning
import Xv6Kernel.Foundation.Chain
import Xv6Kernel.Foundation.Acyclic
import Xv6Kernel.Foundation.Radix
import Xv6Kernel.Foundation.Numeral
import Xv6Kernel.Mm.Layout
import Xv6Kernel.Mm.Allocator
import Xv6Kernel.Mm.AllocatorRuns
import Xv6Kernel.Mm.AllocPages
import Xv6Kernel.Mm.PageTable
import Xv6Kernel.Mm.Translation
import Xv6Kernel.Mm.Mapping
import Xv6Kernel.Mm.Ownership
import Xv6Kernel.Mm.PageTableRuns
import Xv6Kernel.Mm.MapCalls
import Xv6Kernel.Mm.KvmMap
import Xv6Kernel.Mm.Dump
import Xv6Kernel.Mm.Teardown
import Xv6Kernel.Mm.TeardownRuns
import Xv6Kernel.Mm.KernelSpace
import Xv6Kernel.Mm.Walker
import Xv6Kernel.Process.World
import Xv6Kernel.Process.Spinlock
import Xv6Kernel.Process.Proc
import Xv6Kernel.Process.PageTables
import Xv6Kernel.Process.Trap
import Xv6Kernel.Process.Machine
import Xv6Kernel.Process.Undisturbed
import Xv6Kernel.Process.Pages
import Xv6Kernel.Process.PageRuns
import Xv6Kernel.Process.Devices
import Xv6Kernel.Process.Creation
import Xv6Kernel.Process.Invariant
import Xv6Kernel.Process.Frame
import Xv6Kernel.Process.Contract
import Xv6Kernel.Process.Steps
import Xv6Kernel.Process.Rules
import Xv6Kernel.Process.Locking
import Xv6Kernel.Process.History
import Xv6Kernel.Process.Writes
import Xv6Kernel.Process.Calls
import Xv6Kernel.Process.Switching
import Xv6Kernel.Process.Sleeping
import Xv6Kernel.Process.Claiming
import Xv6Kernel.Process.Allocating
import Xv6Kernel.Process.Forking
import Xv6Kernel.Process.Scheduling
import Xv6Kernel.Process.Starting
import Xv6Kernel.Process.Exiting
import Xv6Kernel.Process.Waiting
import Xv6Kernel.Process.Handling
import Xv6Kernel.Process.Clients
import Xv6Kernel.Process.Runs
import Xv6Kernel.Process.Deliveries
import Xv6Kernel.Process.Trails
import Xv6Kernel.Process.Booting
import Xv6Kernel.Process.Turns
import Xv6Kernel.Process.FirstTurns
import Xv6Kernel.Process.Interruption
import Xv6Kernel.Process.Families
import Xv6Kernel.Process.Overflow
import Xv6Kernel.Process.Naps
import Xv6Kernel.Process.Lives
import Xv6Kernel.Process.Preemption
import Xv6Kernel.Process.Plain
import Xv6Kernel.Process.RoundRobin
import Xv6Kernel.Process.Fairness
import Xv6Kernel.Process.Idle
import Xv6Kernel.Process.Returns
import Xv6Kernel.Process.Statuses
import Xv6Kernel.Process.Custody
import Xv6Kernel.Process.MutualExclusion
import Xv6Kernel.Process.LockOrder
import Xv6Kernel.Process.LockInversion
import Xv6Kernel.Process.WakeProtocol
import Xv6Kernel.Process.Sleepers
import Xv6Kernel.Process.Wakeups
import Xv6Kernel.Process.Awakenings
import Xv6Kernel.Console.Numbers
import Xv6Kernel.Console.Format
import Xv6Kernel.Console.Printf
import Xv6Kernel.Process.Trampoline
import Xv6Kernel.Process.Nesting
import Xv6Kernel.Foundation.Staying
import Xv6Kernel.Process.Tame
import Xv6Kernel.Process.Reuse
import Xv6Kernel.Console.Printing
import Xv6Kernel.Console.Messages
import Xv6Kernel.Process.Registers
import Xv6Kernel.Process.Activations
import Xv6Kernel.Process.Transparency
import Xv6Kernel.Process.Uncontended
import Xv6Kernel.Foundation.Device
import Xv6Kernel.Process.Drivers
import Xv6Kernel.Process.AddressSpaces
import Xv6Kernel.Process.Paging
import Xv6Kernel.Foundation.Trapless
import Xv6Kernel.Mm.SharedAllocator
import Xv6Kernel.Mm.SelfTests
import Xv6Kernel.Process.Multiprocessor
import Xv6Kernel.Process.Start
