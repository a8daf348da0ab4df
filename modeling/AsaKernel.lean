import AsaKernel.Drive.Transfers
import AsaKernel.Foundations.Pool
import AsaKernel.Frmt.Dumps
import AsaKernel.Frmt.FormatCommands
import AsaKernel.Frmt.Part
import AsaKernel.Frmt.Programs
import AsaKernel.Kernel.Delivery
import AsaKernel.Kernel.Gdt
import AsaKernel.Kernel.Hexadecimal
import AsaKernel.Kernel.Interrupts
import AsaKernel.Kernel.Keyboard
import AsaKernel.Kernel.Margins
import AsaKernel.Kernel.NestedPutc
import AsaKernel.Kernel.RoundRobin
import AsaKernel.Kernel.Transparency
import AsaKernel.Scheduler.EntryCalls
import AsaKernel.Scheduler.Fairness
import AsaKernel.Scheduler.Preemption
import AsaKernel.Scheduler.RingRuns
import AsaKernel.Scheduler.Tokens
import AsaKernel.Scheduler.Waiting
import AsaKernel.Superbloc.Conservation
import AsaKernel.Superbloc.Images
import AsaKernel.Superbloc.Writes
import AsaKernel.Vm.Binding
import AsaKernel.Vm.Confinement
import AsaKernel.Vm.Durability
import AsaKernel.Vm.FirstLoad
import AsaKernel.Vm.Indexing
import AsaKernel.Vm.Leftovers
import AsaKernel.Vm.Listing
import AsaKernel.Vm.Lives
import AsaKernel.Vm.Persistence
import AsaKernel.Vm.Reloading
import AsaKernel.Vm.Retrieval
import AsaKernel.Vm.Saving
import AsaKernel.Volume.Deletion
import AsaKernel.Volume.FormatPorts
import AsaKernel.Volume.Formatting
import AsaKernel.Volume.Isolation
