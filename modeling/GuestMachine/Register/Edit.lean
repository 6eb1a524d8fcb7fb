import GuestMachine.Register.State

/-! Edits of a register state.

What a handler or a controller does to a state, a list of places at a time. A
place is a group of the frame or the floating point group; an item is a place with
a value for it, or a reason. -/
namespace GuestMachine.Register

inductive Place where
  | group (g : Group)
  | fpu
deriving DecidableEq

inductive Item where
  | group (g : Group) (value : g.Value)
  | fpu (image : FpuImage)
  | reason (r : Exit.Reason)

inductive Edit where
  | charge (items : List Item)
  /-- Replaces values that are charged already. -/
  | modify (items : List Item)
  | discharge (places : List Place)
  | dischargeAll
  /-- An update that changes nothing: it charges an empty place with zero. -/
  | touch (places : List Place)
  /-- Moves a charged instruction pointer past the instruction that exited. -/
  | advance

namespace State

def chargeItem (s : State) : Item → State
  | .group g v => s.charge g v
  | .fpu image => {s with fpu := s.fpu.charge image}
  | .reason r => {s with reason := r}

/-- The reason is no place, so it is not replaced. -/
def replaceItem (s : State) : Item → State
  | .group g v => s.setGroup g ((s.groups g).modify fun _ => v)
  | .fpu image => {s with fpu := s.fpu.modify fun _ => image}
  | .reason _ => s

def dischargePlace (s : State) : Place → State
  | .group g => s.discharge g
  | .fpu => {s with fpu := s.fpu.discharge}

def touchPlace (s : State) : Place → State
  | .group g => s.setGroup g ((s.groups g).update g.zero id)
  | .fpu => {s with fpu := s.fpu.update .zero id}

/-- The value charged at a place, and the state without it. -/
def takePlace (s : State) : Place → Option Item × State
  | .group g =>
    let (v, c) := (s.groups g).take
    (v.map (.group g), s.setGroup g c)
  | .fpu =>
    let (image, c) := s.fpu.take
    (image.map .fpu, {s with fpu := c})

def advance (s : State) : State :=
  s.setGroup .instruction
    ((s.groups .instruction).modify fun (v : Instruction) => {v with ip := v.ip + v.length})

end State

def Edit.apply (s : State) : Edit → State
  | .charge items => items.foldl State.chargeItem s
  | .modify items => items.foldl State.replaceItem s
  | .discharge places => places.foldl State.dischargePlace s
  | .dischargeAll => s.discharged
  | .touch places => places.foldl State.touchPlace s
  | .advance => s.advance

end GuestMachine.Register
