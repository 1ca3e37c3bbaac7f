import UcasKernel.Fs.InodeRuns
import UcasKernel.Fs.Names
import UcasKernel.Locking.Barrier
import UcasKernel.Locking.Destroy
import UcasKernel.Locking.Mailbox
import UcasKernel.Locking.Monitor
import UcasKernel.Locking.Tenure
import UcasKernel.Irq.KernelLock
import UcasKernel.Image.Agreement
import UcasKernel.Mm.Alloc
import UcasKernel.Mm.PageRuns
import UcasKernel.Mm.SwapArea
import UcasKernel.Net.TxRing
import UcasKernel.Net.RxRing
import UcasKernel.Sched.Threads
import UcasKernel.Syscall.Confined
import UcasKernel.Mm.Entries
import UcasKernel.Mm.Tables
import UcasKernel.Mm.Directories
import UcasKernel.Fs.MapBits
import UcasKernel.Fs.Exhaustion
import UcasKernel.Fs.RmdirFailure
import UcasKernel.Fs.Components
import UcasKernel.Fs.Handles
import UcasKernel.Fs.Parents
import UcasKernel.Drivers.Printk
import UcasKernel.Locking.MboxNames
import UcasKernel.Drivers.Screen
import UcasKernel.Fs.Creation
import UcasKernel.Mm.Shared
import UcasKernel.Mm.Spaces
import UcasKernel.Mm.Release
import UcasKernel.Mm.Sharing
import UcasKernel.Mm.SharedRuns
import UcasKernel.Mm.Reclaim
import UcasKernel.Fs.Seek
import UcasKernel.Fs.Cells
import UcasKernel.Fs.Statfs
import UcasKernel.Fs.Reading
import UcasKernel.Fs.Writing
import UcasKernel.Fs.Cat
import UcasKernel.Fs.Removal
import UcasKernel.Mm.Teardown
import UcasKernel.Mm.TeardownRuns
import UcasKernel.Fs.Transfers
import UcasKernel.Mm.Mapping
import UcasKernel.Mm.Dismantling
import UcasKernel.Mm.Detach
import UcasKernel.Mm.Faults
import UcasKernel.Mm.UserBytes
import UcasKernel.Exec.Loader
import UcasKernel.Exec.System
import UcasKernel.Exec.Process
import UcasKernel.Exec.Arguments
import UcasKernel.Exec.ArgWrites
import UcasKernel.Mm.Places
import UcasKernel.Mm.Moves
import UcasKernel.Mm.Private
import UcasKernel.Mm.Swapping
import UcasKernel.Sched.Wakeups
import UcasKernel.Sched.RoundRobin
import UcasKernel.Sched.Exits
import UcasKernel.Sched.Waiting
import UcasKernel.Lib.Vt100
import UcasKernel.Drivers.Terminal
import UcasKernel.Mm.Frontier
import UcasKernel.Mm.KernelTables
import UcasKernel.Mm.Ioremap
import UcasKernel.Locking.Keys
import UcasKernel.Mm.Containment
import UcasKernel.Exec.Lifetime
import UcasKernel.Mm.Owners
import UcasKernel.Mm.Backing
import UcasKernel.Mm.Coherence
import UcasKernel.Sched.Lists
import UcasKernel.User.Tokens
import UcasKernel.Lib.Riscv
import UcasKernel.Arch.Entry
import UcasKernel.Lib.Fifo
import UcasKernel.Sched.Turns
import UcasKernel.Lib.Cells
import UcasKernel.Arch.Machine
import UcasKernel.Arch.Phases
import UcasKernel.Arch.Virtual
import UcasKernel.Mm.Replacement
import UcasKernel.Lib.Sv39
import UcasKernel.Mm.UserMode
import UcasKernel.Mm.UserRuns
import UcasKernel.User.Printf
import UcasKernel.Arch.Start
import UcasKernel.Exec.FirstRun
