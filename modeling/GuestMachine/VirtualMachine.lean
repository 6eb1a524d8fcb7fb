import GuestMachine.Machine.Seats
import GuestMachine.Memory.Layout
import GuestMachine.Simulated.Machine

/-! A virtual machine: its vCPUs on a hypervisor, and the memory of its guest. -/
namespace GuestMachine

structure VirtualMachine (σ κ φ : Type) where
  /-- The hypervisor's name. -/
  backend : String
  vcpus : Machine σ κ φ
  memory : Memory.Layout
  /-- The guest's page table is the machine's own, and not the hypervisor's. -/
  ownTable : Bool := false

/-- Simulated vCPUs can run anywhere. -/
def isSupported : Bool := true

namespace VirtualMachine
variable {σ κ φ : Type}

/-- A machine without vCPUs, whose pool has its memory from `host`. -/
def build (backend : String) (shared : φ) (host : Memory.Host) (c : Memory.PoolConfig) (ownTable : Bool) :
    Except Error (VirtualMachine σ κ φ) :=
  (Memory.Layout.create host c).map fun memory => {backend, vcpus := {shared}, memory, ownTable}

/-- How many operations the hypervisor's own page table has seen. -/
def hypervisorOperations (vm : VirtualMachine σ κ φ) : Nat :=
  if vm.ownTable then 0 else vm.memory.table.operations.length

/-- What is shown of a machine. -/
def text (vm : VirtualMachine σ κ φ) : String :=
  "Vm \x7b backend: \"" ++ vm.backend ++ "\", vcpus: " ++ toString vm.vcpus.count
    ++ ", gmm: Mutex \x7b data: " ++ vm.memory.pool.text ++ " \x7d, .. \x7d"

end VirtualMachine

/-- The name of the simulated hypervisor. -/
def Simulated.name : String := "sim"

/-- The name of the hypervisor that is stepped by hand. -/
def Stepped.name : String := "manual"

end GuestMachine
