import GuestMachine.Log.Filter
import GuestMachine.Machine.Tables
import GuestMachine.Proofs.Accounting
import GuestMachine.Proofs.Canonical
import GuestMachine.Proofs.Coalescing
import GuestMachine.Proofs.Deliveries
import GuestMachine.Proofs.Exchange
import GuestMachine.Proofs.ExitOrder
import GuestMachine.Proofs.ExitTransfer
import GuestMachine.Proofs.FailedExit
import GuestMachine.Proofs.FailedMapping
import GuestMachine.Proofs.FlatMemory
import GuestMachine.Proofs.Grouping
import GuestMachine.Proofs.Histories
import GuestMachine.Proofs.IdleEdits
import GuestMachine.Proofs.Independence
import GuestMachine.Proofs.Isolation
import GuestMachine.Proofs.Locality
import GuestMachine.Proofs.LowestFit
import GuestMachine.Proofs.MappingEffect
import GuestMachine.Proofs.MinimalGrowth
import GuestMachine.Proofs.Numbers
import GuestMachine.Proofs.OwnRequests
import GuestMachine.Proofs.PageByPage
import GuestMachine.Proofs.PageIds
import GuestMachine.Proofs.Partition
import GuestMachine.Proofs.PausedState
import GuestMachine.Proofs.ResumePaths
import GuestMachine.Proofs.Shutdown
import GuestMachine.Proofs.Solo
import GuestMachine.Register.Edit
import GuestMachine.Register.Words
import GuestMachine.Simulated.Solo
import GuestMachine.Stepped.Hypervisor
import GuestMachine.Vcpu.Script
import GuestMachine.VirtualMachine
