import GuestMachine.Error
import GuestMachine.Exit.Reason
import GuestMachine.Register.Frame

/-! Exit portals.

A portal is where a hypervisor delivers exits: it fills a frame with the groups of
the portal's mask and calls the portal's entry. A vCPU has at most one portal for
each reason, and one that catches every reason without its own. -/
namespace GuestMachine.Exit
open Register

structure Portal (ε : Type) where
  mask : Mask
  entry : ε

def Portal.text {ε : Type} (p : Portal ε) : String :=
  "Portal \x7b mtd: " ++ p.mask.text ++ ", .. \x7d"

/-- Where a portal is installed. -/
inductive Slot where
  | exit (reason : Reason)
  | catchAll
deriving DecidableEq

structure Portals (ε : Type) where
  own : Reason → Option (Portal ε) := fun _ => none
  catchAll : Option (Portal ε) := none

namespace Portals
variable {ε : Type}

/-- A portal takes the place of the one before it. -/
def install (ps : Portals ε) (slot : Slot) (p : Portal ε) : Portals ε :=
  match slot with
  | .exit r => {ps with own := fun r' => if r' = r then some p else ps.own r'}
  | .catchAll => {ps with catchAll := some p}

/-- The portal installed at a place. -/
def at? (ps : Portals ε) : Slot → Option (Portal ε)
  | .exit r => ps.own r
  | .catchAll => ps.catchAll

/-- The portal that an exit goes through. -/
def route? (ps : Portals ε) (r : Reason) : Option (Portal ε) :=
  (ps.own r).or ps.catchAll

/-- No portal is installed. -/
def isEmpty (ps : Portals ε) : Bool :=
  ps.catchAll.isNone && Reason.all.all fun r => (ps.own r).isNone

/-- How many reasons have a portal of their own with each mask, by mask. -/
def maskCounts (ps : Portals ε) : List (Nat × Nat) :=
  let masks := (Reason.all.filterMap fun r => (ps.own r).map (·.mask.toNat)).mergeSort
  masks.foldr (fun m counts =>
    match counts with
    | (n, k) :: rest => if n = m then (n, k + 1) :: rest else (m, 1) :: counts
    | [] => [(m, 1)]) []

end Portals

/-- What the entry of a portal leaves of an exit. -/
inductive Answer where
  /-- The exit goes back to the guest with a frame. -/
  | returned (result : Except Error Unit) (frame : Frame)
  /-- It waits inside its vCPU for a signal. -/
  | waiting (frame : Frame)
  /-- The thread that has delivered it is dead. -/
  | died

/-! ### Portals for a declared interest -/

/-- What a handler wants to see of an exit. Nothing declared sends the exit to the
portal that catches all; an empty mask asks for every group. -/
abbrev Interest := Reason → Option Mask

/-- The groups transferred for exits nobody is interested in: the instruction
pointer. -/
def catchAllMask : Mask := Group.instruction.mask

/-- The mask of the portal that serves an exit with a declared interest. -/
def portalMask : Option Mask → Mask
  | none => catchAllMask
  | some m => if m.isEmpty then .full else m

/-- The portals to install, in order. The one that catches all comes last, and
only if some reason needs it. -/
def plan (interest : Interest) : List (Slot × Mask) :=
  (Reason.all.filterMap fun r => (interest r).map fun m => (.exit r, portalMask (some m)))
    ++ (if Reason.all.any fun r => (interest r).isNone then [(.catchAll, catchAllMask)] else [])

end GuestMachine.Exit
