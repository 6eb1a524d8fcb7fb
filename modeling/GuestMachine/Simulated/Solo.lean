import GuestMachine.Exit.Badge
import GuestMachine.Simulated.Context

/-! The simulated hypervisor without a machine on top.

Exits are delivered as those of a machine are (`Context.deliver`), but portals lead to
entries that are written down as data. A hypervisor knows the vCPUs that some portal has
been installed for, whatever their numbers. -/
namespace GuestMachine.Simulated.Solo
open Register

/-- What a portal's entry does, in the order of the fields. -/
structure Entry where
  /-- Saves the floating point image, raises this byte by one and restores it. -/
  bump : Option Nat := none
  /-- Adds to the first register of the frame. -/
  add : Option UInt64 := none
  change : Frame → Frame := id
  /-- Recalls its own vCPU. -/
  recalls : Bool := false
  failure : Option String := none
  /-- Takes the dispatch thread down with it. -/
  crashes : Bool := false

/-- One call of an entry. -/
structure Visit where
  badge : Exit.Badge
  frame : Frame
  /-- The image that was saved. -/
  image : Option FpuImage

structure Cell where
  context : Context Entry := {}
  /-- The calls of entries, oldest first. -/
  visits : List Visit := []

/-- The vCPUs by number, in ascending order. -/
abbrev State := List (Exit.VcpuId × Cell)

def find? (s : State) (id : Exit.VcpuId) : Option Cell :=
  (s.find? fun (i, _) => i == id).map (·.2)

def put (id : Exit.VcpuId) (c : Cell) : State → State
  | [] => [(id, c)]
  | (i, d) :: rest =>
    if id < i then (id, c) :: (i, d) :: rest
    else if id = i then (id, c) :: rest
    else (i, d) :: put id c rest

/-- Does something with the context of a known vCPU. -/
def withContext {α : Type} (s : State) (id : Exit.VcpuId)
    (f : Context Entry → Except Error α × Context Entry) : Except Error α × State :=
  match find? s id with
  | none => (.error (Context.unknown id), s)
  | some cell =>
    let (r, c) := f cell.context
    (r, put id {cell with context := c} s)

def install (s : State) (id : Exit.VcpuId) (slot : Exit.Slot) (p : Exit.Portal Entry) : State :=
  let cell := (find? s id).getD {}
  put id {cell with context := {cell.context with portals := cell.context.portals.install slot p}} s

/-! ### Entries at work -/

/-- The unit after the entry's turn with it, and the image it saw. -/
def Entry.touchFpu (e : Entry) (u : Fpu) : Fpu × Option FpuImage :=
  match e.bump with
  | none => (u, none)
  | some i =>
    let (image, u') := u.save
    (u'.restore (image.bump i), some image)

def Entry.answer (e : Entry) (f : Frame) : Frame :=
  let added := match e.add with
    | none => f
    | some n => {f with registers := {f.registers with ax := f.registers.ax + n}}
  e.change added

/-- How the entry ends, given the frame that it leaves. -/
def Entry.ending (e : Entry) (f : Frame) : Exit.Answer :=
  match e.failure with
  | some detail => .returned (.error (.hypervisor detail)) f
  | none => if e.crashes then .died else .returned (.ok ()) (e.answer f)

/-- Calls an entry, on the thread of the loop whose turn it is. -/
def Entry.enter (e : Entry) (badge : Exit.Badge) (f : Frame) (cell : Cell) : Exit.Answer × Cell :=
  let (u, image) := e.touchFpu cell.context.loop.fpu
  (e.ending f,
    { context := { cell.context with
        loop := {cell.context.loop with fpu := u}
        recallPending := cell.context.recallPending || e.recalls }
      visits := cell.visits ++ [⟨badge, f, image⟩] })

def Cell.modifyContext (cell : Cell) (f : Context Entry → Context Entry) : Cell :=
  {cell with context := f cell.context}

/-- The next step of a loop, given the context as at its turn, if the loop has one. -/
def move (id : Exit.VcpuId) (cell : Cell) (c : Context Entry) : Option Cell :=
  c.next?.map fun (next, c') =>
    match next with
    | none => cell.modifyContext fun _ => c'.finish (.ok ())
    | some r => c'.deliver (fun f cell => cell.modifyContext f) Entry.enter id r true cell

/-- The next step of the first loop, by turns, that has one. -/
def advance (id : Exit.VcpuId) (cell : Cell) : Option Cell :=
  cell.context.turns.findSome? (move id cell)

/-- Lets the loops of one vCPU run until they rest, for at most that many steps. -/
def run (id : Exit.VcpuId) : Nat → Cell → Cell
  | 0, cell => cell
  | steps + 1, cell =>
    match advance id cell with
    | none => cell
    | some cell' => run id steps cell'

/-- The loops of one vCPU do not touch those of another, so each vCPU runs by itself. -/
def settle (steps : Nat) (s : State) : State :=
  s.map fun (id, cell) => (id, run id steps cell)

end GuestMachine.Simulated.Solo
