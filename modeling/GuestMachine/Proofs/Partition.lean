import GuestMachine.Proofs.Transfer

/-! The groups partition the registers.

A copy takes each group over or leaves it (`read_copyGroups`), and a frame is known by its
groups, so how copies add up is a matter of their masks, bit by bit. Every register is in some
group, for a copy of all of them leaves none behind, and in no more than one: copies of
different groups do not disturb each other, whatever their order, and those of a common group
do (`groups_partition`). -/
namespace GuestMachine.Register

/-- The bits that name nothing, and the floating point group's, are no other group's. -/
theorem Mask.has_groupless (m : Mask) (g : Group) : ((m.diff .full).union .fpu).has g.bit = false := by
  have hbit := g.bit_lt
  rw [has_union, has_diff m full (by omega), full_has_bit, has_fpu (by omega),
    decide_eq_false (Ne.symm g.bit_ne_fpuBit)]
  simp

/-- A one in every group. -/
def Registers.marked : Registers :=
  { ax := 1, bp := 1, sp := 1, ip := 1, flags := 1, es := {base := 1}, fs := {base := 1}
    cs := {base := 1}, tr := {base := 1}, ldtr := {base := 1}, gdtr := {base := 1}
    idtr := {base := 1}, cr0 := 1, dr7 := 1, sysenterCs := 1, qualPrimary := 1, ctrlPrimary := 1
    injectionInfo := 1, interruptibility := 1, tscValue := 1, efer := 1
    pdpte := Vector.replicate 4 1, r8r15 := Vector.replicate 8 1, star := 1, tpr := 1 }

theorem read_marked_ne (g : Group) : g.read .marked ≠ g.read {} := by
  cases g <;> decide

namespace Frame

/-- Two copies from one frame are one. -/
theorem copyGroups_copyGroups (f src : Frame) (m n : Mask) :
    (f.copyGroups src m).copyGroups src n = f.copyGroups src (m.union n) := by
  refine ext_read rfl rfl fun g => ?_
  rw [read_copyGroups, read_copyGroups, read_copyGroups, Mask.has_union]
  cases m.has g.bit <;> cases n.has g.bit <;> rfl

/-- Copies of different groups can be made in either order. -/
theorem copyGroups_comm {m n : Mask} (h : ∀ g : Group, ¬ (m.has g.bit ∧ n.has g.bit)) (f src src' : Frame) :
    (f.copyGroups src m).copyGroups src' n = (f.copyGroups src' n).copyGroups src m := by
  refine ext_read rfl rfl fun g => ?_
  rw [read_copyGroups, read_copyGroups, read_copyGroups, read_copyGroups]
  by_cases hm : m.has g.bit
  · have hn : ¬ n.has g.bit := fun hn => h g ⟨hm, hn⟩
    rw [if_neg hn, if_pos hm, if_pos hm]
  · rw [if_neg hm, if_neg hm]

/-- Copies of a common group cannot: the later one is seen. -/
theorem not_copyGroups_comm {m n : Mask} {g : Group} (hm : m.has g.bit) (hn : n.has g.bit) :
    ∃ f src src' : Frame,
      (f.copyGroups src m).copyGroups src' n ≠ (f.copyGroups src' n).copyGroups src m := by
  refine ⟨{}, {registers := .marked}, {}, fun hsame => ?_⟩
  have hread := congrArg (fun f : Frame => g.read f.registers) hsame
  simp only [read_copyGroups, hm, hn, if_true] at hread
  exact read_marked_ne g hread.symm

theorem copyGroups_full (f src : Frame) :
    f.copyGroups src .full = {src with mask := f.mask, reason := f.reason} := by
  refine ext_read rfl rfl fun g => ?_
  rw [read_copyGroups, if_pos (Mask.full_has_bit g)]

/-- A mask that names no group copies nothing. -/
theorem copyGroups_of_groupless {m : Mask} (h : ∀ g : Group, m.has g.bit = false) (f src : Frame) :
    f.copyGroups src m = f := by
  refine ext_read rfl rfl fun g => ?_
  rw [read_copyGroups, h g]
  rfl

/-- **The groups partition the registers of a frame.** Copies from one frame add up to the copy
of all their groups; copies from different frames commute just when they have no group in common;
and the copy of every group leaves no register as it was. Bits that name no group, and that of
the floating point group, copy nothing, and mask and reason always stay. -/
theorem groups_partition (m n : Mask) :
    (∀ f src : Frame, (f.copyGroups src m).copyGroups src n = f.copyGroups src (m.union n)) ∧
    ((∀ f src src' : Frame,
        (f.copyGroups src m).copyGroups src' n = (f.copyGroups src' n).copyGroups src m) ↔
      ∀ g : Group, ¬ (m.has g.bit ∧ n.has g.bit)) ∧
    (∀ f src : Frame, f.copyGroups src .full = {src with mask := f.mask, reason := f.reason}) ∧
    (∀ f src : Frame, f.copyGroups src ((m.diff .full).union .fpu) = f) ∧
    ∀ f src : Frame, (f.copyGroups src m).mask = f.mask ∧ (f.copyGroups src m).reason = f.reason := by
  refine ⟨fun f src => copyGroups_copyGroups f src m n, ⟨fun hcomm g hboth => ?_, copyGroups_comm⟩,
    copyGroups_full, copyGroups_of_groupless m.has_groupless, fun f src => ⟨rfl, rfl⟩⟩
  obtain ⟨f, src, src', hne⟩ := not_copyGroups_comm hboth.1 hboth.2
  exact hne (hcomm f src src')

end Frame

end GuestMachine.Register
