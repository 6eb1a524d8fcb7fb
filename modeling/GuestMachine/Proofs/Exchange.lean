import GuestMachine.Proofs.Transfer

/-! The two sides of a transfer.

The hypervisor copies the groups of a mask from frame to frame; a vCPU loads a frame into
its state and stores the state into another. `store_load_copies` says that both come to the
same, for every mask: they move the same registers for the same bits, and the unit is used
for the bit of its own group only. What a state stores, another loads from the frame as it
was (`load_store_returns`), and nothing else of the frame gets any further: the guest goes
on with what is charged, whatever the frame held before (`reply_ignores_frame`). -/
namespace GuestMachine.Register.State

/-! ### The unit -/

/-- Loading saves the unit once if the frame's mask has its group. -/
theorem load_unit (s : State) (f : Frame) (u : Fpu) :
    (s.load f u).2 = if f.mask.has fpuBit then {u with saves := u.saves + 1} else u := by
  unfold load
  split <;> rfl

/-- Storing restores the unit once if there is an image. -/
theorem store_unit (s : State) (f : Frame) (u : Fpu) :
    (s.store f u).2 = match s.fpu.value? with
      | some image => u.restore image
      | none => u :=
  congrArg Prod.snd (store_eq s f u)

/-! ### The frame -/

theorem store_reason (s : State) (f : Frame) (u : Fpu) : (s.store f u).1.reason = f.reason := by
  rw [store_eq]

theorem LoadedFrom.stored {s : State} {r : Exit.Reason} {m : Mask} {registers : Registers} {image : FpuImage}
    (h : s.LoadedFrom r m registers image) (src f : Frame) (hsrc : src.registers = registers) (u : Fpu) :
    (s.store f u).1 = {f.copyGroups src m with mask := m.known} := by
  refine Frame.ext_read ((store_mask s f u).trans h.charged) (store_reason s f u) fun g => ?_
  rw [read_store, h.groups]
  show _ = g.read (f.copyGroups src m).registers
  rw [read_copyGroups, hsrc]
  split <;> rfl

/-- **The handler's side of a transfer agrees with the hypervisor's.** What a vCPU loads
from a frame and stores into another is what the hypervisor copies from the first to the
second, group by group, with the known bits left as the mask and the reason as it was. The
unit holds the same image as before; it is saved once and restored once if the mask has its
group, and is not touched otherwise. -/
theorem store_load_copies (s : State) (source target : Frame) (u : Fpu) :
    let loaded := s.load source u
    let stored := loaded.1.store target loaded.2
    stored.1 = {target.copyGroups source source.mask with mask := source.mask.known} ∧
      stored.2.image = u.image ∧
      stored.2.saves = u.saves + (if source.mask.has fpuBit then 1 else 0) ∧
      stored.2.restores = u.restores + (if source.mask.has fpuBit then 1 else 0) := by
  intro loaded stored
  have hloaded : loaded.1.LoadedFrom (Exit.Reason.ofRaw source.reason) source.mask source.registers u.image :=
    load_loadedFrom s source u
  have hunit : stored.2 = match loaded.1.fpu.value? with
      | some image => loaded.2.restore image
      | none => loaded.2 := store_unit ..
  rw [hloaded.fpu, show loaded.2 = _ from load_unit s source u] at hunit
  refine ⟨hloaded.stored source target rfl loaded.2, ?_⟩
  rw [hunit]
  cases source.mask.has fpuBit with
  | true => exact ⟨rfl, rfl, rfl⟩
  | false => exact ⟨rfl, rfl, rfl⟩

/-! ### There and back -/

/-- What is stored in a frame, with its mask and the unit, is what the state has. -/
theorem loadedFrom_store (s : State) (f : Frame) (u : Fpu) :
    LoadedFrom {s with reason := Exit.Reason.ofRaw f.reason} (Exit.Reason.ofRaw (s.store f u).1.reason)
      (s.store f u).1.mask (s.store f u).1.registers (s.store f u).2.image := by
  refine ⟨?_, fun g => ?_, ?_⟩
  · rw [store_reason]
  · rw [store_mask, charged_has_bit, read_store, Charged.isCharged]
    cases (s.groups g).value? <;> rfl
  · rw [store_mask, charged_has_fpu, store_image, Charged.isCharged]
    cases s.fpu.value? <;> rfl

/-- **What is stored is what is loaded.** A frame that a state has been stored in, whatever
it held, gives every other state the same groups with the same values and no others; only
the reason is the frame's own. The mask between them is what is charged, and the unit ends
with the image that is charged, or keeps its own. -/
theorem load_store_returns (s target : State) (f : Frame) (u : Fpu) :
    let stored := s.store f u
    let loaded := target.load stored.1 stored.2
    loaded.1 = {s with reason := Exit.Reason.ofRaw f.reason} ∧
      loaded.1.reason.toNat = f.reason.toNat % 256 ∧
      stored.1.mask = s.charged ∧
      loaded.2.image = s.fpu.value?.getD u.image := by
  intro stored loaded
  have hsame : loaded.1 = {s with reason := Exit.Reason.ofRaw f.reason} :=
    (load_loadedFrom target stored.1 stored.2).unique (loadedFrom_store s f u)
  refine ⟨hsame, ?_, store_mask s f u, ?_⟩
  · rw [hsame]
    exact UInt32.toNat_toUInt8 f.reason
  · exact (load_image target stored.1 stored.2).trans (store_image s f u)

/-! ### What the guest goes on with -/

/-- The registers with the groups that are charged. -/
def granted (s : State) (registers : Frame) : Frame :=
  registers.copyGroups (s.store {} {}).1 (s.store {} {}).1.mask

/-- The frame that carries a reply does not matter. -/
theorem reply_granted (s : State) (registers frame : Frame) (u : Fpu) :
    registers.copyGroups (s.store frame u).1 (s.store frame u).1.mask = s.granted registers := by
  refine Frame.ext_read ?_ ?_ fun g => ?_
  · rw [granted, copyGroups_mask, copyGroups_mask]
  · rw [granted, copyGroups_reason, copyGroups_reason]
  exact (read_reply s frame registers u g).trans (read_reply s {} registers {} g).symm

/-- **Nothing stale reaches the guest.** The guest's registers after a reply do not depend on
the frame that carried it: the groups charged have their values, everything else is as it
was. In the frame itself only the mask and the groups charged are written. -/
theorem reply_ignores_frame (s : State) (registers frame frame' : Frame) (u u' : Fpu) :
    let reply := fun (f : Frame) (u : Fpu) =>
      registers.copyGroups (s.store f u).1 (s.store f u).1.mask
    reply frame u = reply frame' u' ∧
      (reply frame u).mask = registers.mask ∧ (reply frame u).reason = registers.reason ∧
      (∀ g : Group, g.read (reply frame u).registers =
        match (s.groups g).value? with
        | some v => v
        | none => g.read registers.registers) ∧
      (s.store frame u).1.reason = frame.reason ∧
      ∀ g : Group, (s.groups g).isCharged = false →
        g.read (s.store frame u).1.registers = g.read frame.registers := by
  intro reply
  refine ⟨?_, rfl, rfl, fun g => ?_, store_reason s frame u, fun g hg => ?_⟩
  · exact (reply_granted s registers frame u).trans (reply_granted s registers frame' u').symm
  · rw [read_reply]
    cases (s.groups g).value? <;> rfl
  · rw [Charged.isCharged, Option.isSome_eq_false_iff, Option.isNone_iff_eq_none] at hg
    rw [read_store, hg, Option.getD_none]

end GuestMachine.Register.State
