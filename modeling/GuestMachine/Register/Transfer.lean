import GuestMachine.Register.Frame
import GuestMachine.Register.State

/-! The transfer of register state between a vCPU and the frame of an exit.

Loading charges exactly the groups that are valid in the frame. Storing writes
exactly the charged groups and leaves their mask in the frame. The floating point
group goes by the unit of the dispatching thread, not by the frame. -/
namespace GuestMachine.Register.State

/-- Takes over the groups of the frame's mask, after dropping all that was charged. -/
def load (s : State) (f : Frame) (u : Fpu) : State × Fpu :=
  let bare := {s.discharged with reason := Exit.Reason.ofRaw f.reason}
  let s' := Group.all.foldl
    (fun s g => if f.mask.has g.bit then s.charge g (g.read f.registers) else s) bare
  if f.mask.has fpuBit then
    let (image, u') := u.save
    ({s' with fpu := s'.fpu.charge image}, u')
  else (s', u)

/-- Writes a group into a frame and adds it to the frame's mask, if it is charged. -/
def storeGroup (s : State) (g : Group) (f : Frame) : Frame :=
  match (s.groups g).value? with
  | some v => {f with mask := f.mask.union g.mask, registers := g.write v f.registers}
  | none => f

/-- Writes what is charged, and nothing else is in the mask after that. The reason of the
frame is not touched. -/
def store (s : State) (f : Frame) (u : Fpu) : Frame × Fpu :=
  let f' := Group.all.foldl (fun f g => s.storeGroup g f) f.cleared
  match s.fpu.value? with
  | some image => ({f' with mask := f'.mask.union .fpu}, u.restore image)
  | none => (f', u)

end GuestMachine.Register.State
