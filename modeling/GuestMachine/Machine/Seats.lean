import GuestMachine.Machine.Tables

/-! The vCPUs of one machine.

A machine is its tables, which are in step, and a list of the vCPUs that a shutdown has
still to destroy. What the hypervisor keeps for one vCPU is `κ`, and for all of them `φ`.
What the tables have for one number, put together, is its seat. -/
namespace GuestMachine

structure Machine (σ κ φ : Type) where
  tables : Tables σ κ := {}
  inStep : tables.InStep := by exact Tables.InStep.begin
  /-- The places of the vCPUs that the machine owns. -/
  owned : List Nat := []
  shared : φ

namespace Machine
variable {σ κ φ : Type}

/-! ### Tables -/

/-- How often the creation of a vCPU has been called for. -/
def calls (m : Machine σ κ φ) : Nat := m.tables.slots.length

/-- There is a number left that has not been given out. -/
def HasRoom (m : Machine σ κ φ) : Prop := m.calls < UInt32.size

instance (m : Machine σ κ φ) : Decidable m.HasRoom := inferInstanceAs (Decidable (_ < _))

def nextId (m : Machine σ κ φ) : Exit.VcpuId := m.tables.nextId

def nextPlace (m : Machine σ κ φ) : Nat := m.tables.nextPlace

/-- The place of the vCPU that exits are routed to by a number. -/
def resolve? (m : Machine σ κ φ) (id : Exit.VcpuId) : Option Nat := m.tables.resolve? id

def vcpu? (m : Machine σ κ φ) (place : Nat) : Option (Resident σ) := m.tables.vcpus[place]?

/-- The vCPU of a number, while exits are routed to it. -/
def get? (m : Machine σ κ φ) (id : Exit.VcpuId) : Option (Resident σ) := (m.resolve? id).bind m.vcpu?

/-- The context of a number. -/
def context? (m : Machine σ κ φ) (id : Exit.VcpuId) : Option κ := m.tables.context? id

def modifyVcpu (m : Machine σ κ φ) (place : Nat) (f : Vcpu → Vcpu) : Machine σ κ φ :=
  {m with tables := m.tables.modifyVcpu place f, inStep := m.inStep.modifyVcpu place f}

def setMemory (m : Machine σ κ φ) (place : Nat) (memory : σ) : Machine σ κ φ :=
  {m with tables := m.tables.setMemory place memory, inStep := m.inStep.setMemory place memory}

def modifyContext (m : Machine σ κ φ) (id : Exit.VcpuId) (f : κ → κ) : Machine σ κ φ :=
  {m with tables := m.tables.modifyContext id f, inStep := m.inStep.modifyContext id f}

def unregister (m : Machine σ κ φ) (id : Exit.VcpuId) : Machine σ κ φ :=
  {m with tables := m.tables.unregister id, inStep := m.inStep.unregister id}

def enroll (m : Machine σ κ φ) (handler : Handler σ) (memory : σ) (context : κ) : Machine σ κ φ :=
  {m with tables := m.tables.enroll handler memory context, inStep := m.inStep.enroll handler memory context}

/-- The vCPUs not yet shut down. -/
def count (m : Machine σ κ φ) : Nat := m.owned.length

/-- The vCPUs that exits are routed to. -/
def registeredCount (m : Machine σ κ φ) : Nat := m.tables.slots.countP (·.isSome)

/-- The register state of a vCPU, as a controller sees it. -/
def state (m : Machine σ κ φ) (id : Exit.VcpuId) : Except Error Register.State :=
  match m.get? id with
  | none => .error (.unknownVcpu id)
  | some v => .ok v.vcpu.state

/-- Edits the register state of a vCPU. It reaches the guest only with what the vCPU
transfers itself. -/
def editState (m : Machine σ κ φ) (id : Exit.VcpuId) (f : Register.State → Register.State) :
    Except Error Unit × Machine σ κ φ :=
  match m.resolve? id with
  | none => (.error (.unknownVcpu id), m)
  | some place => (.ok (), m.modifyVcpu place fun v => {v with state := f v.state})

end Machine

/-! ### Seats -/

/-- What the tables have for one number. -/
structure Seat (σ κ : Type) where
  vcpu : Vcpu := {}
  handler : Handler σ
  memory : σ
  /-- Exits are routed to the vCPU. -/
  registered : Bool := true
  /-- The hypervisor's part. -/
  context : κ

/-- The vCPU of a seat, with the number that it carries. -/
def Seat.resident {σ κ : Type} (id : Exit.VcpuId) (s : Seat σ κ) : Resident σ :=
  {id, handler := s.handler, memory := s.memory, vcpu := s.vcpu}

namespace Tables
variable {σ κ : Type}

/-- The seats by number. -/
def seats (t : Tables σ κ) : List (Seat σ κ) :=
  List.zipWith (fun v x =>
    { vcpu := v.vcpu, handler := v.handler, memory := v.memory
      registered := (t.resolve? v.id).isSome, context := x.2 }) t.vcpus t.contexts

end Tables

namespace Machine
variable {σ κ φ : Type}

def seats (m : Machine σ κ φ) : List (Seat σ κ) := m.tables.seats

/-- The seats with their numbers. -/
def numbered (m : Machine σ κ φ) : List (Exit.VcpuId × Seat σ κ) := (List.range m.seats.length).zip m.seats

end Machine

end GuestMachine
