import GuestMachine.Exit.Reason
import GuestMachine.Register.Charged
import GuestMachine.Register.Fpu
import GuestMachine.Register.Group

/-! The register state of a vCPU, as its exit handler sees it.

Every group is a charged value: only what is charged is transferred to the guest.
The reason of the last exit always is. -/
namespace GuestMachine.Register

structure State where
  reason : Exit.Reason := 0
  groups : (g : Group) → Charged g.Value := fun _ => .empty
  fpu : Charged FpuImage := .empty

namespace State

/-- Replaces the place of one group. -/
def setGroup (s : State) (g : Group) (c : Charged g.Value) : State :=
  {s with groups := fun h => if e : g = h then e ▸ c else s.groups h}

def charge (s : State) (g : Group) (v : g.Value) : State := s.setGroup g ((s.groups g).charge v)

def discharge (s : State) (g : Group) : State := s.setGroup g (s.groups g).discharge

/-- Every group discharged, the floating point group included. -/
def discharged (s : State) : State :=
  {s with groups := fun _ => .empty, fpu := .empty}

/-- The mask of what is charged. -/
def charged (s : State) : Mask :=
  let buffered := Mask.ofGroups (Group.all.filter fun g => (s.groups g).isCharged)
  if s.fpu.isCharged then buffered.union .fpu else buffered

/-- The same groups are charged with the same values. -/
def sameGroups (s t : State) : Bool :=
  (Group.all.all fun g => s.groups g == t.groups g) && s.fpu == t.fpu

theorem groups_setGroup (s : State) (g : Group) (c : Charged g.Value) :
    (s.setGroup g c).groups g = c := by
  simp [setGroup]

theorem groups_setGroup_of_ne (s : State) {g h : Group} (c : Charged g.Value) (e : g ≠ h) :
    (s.setGroup g c).groups h = s.groups h := by
  simp [setGroup, e]

end State

end GuestMachine.Register
