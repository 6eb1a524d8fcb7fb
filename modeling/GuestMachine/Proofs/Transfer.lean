import GuestMachine.Register.Transfer

/-! What a transfer does to every group.

Frames and states are folds over the list of groups. Writing one group leaves the others
as they are, so a fold does to each group what its own step does (`read_writeAll`), and a
register file is known by its groups (`ext_read`). From this come the laws of the way in
(`load_loadedFrom`) and of the way back (`read_reply`). -/
namespace GuestMachine.Register

/-! ### Groups one after another -/

theorem Registers.ext_read {r s : Registers} (h : ∀ g : Group, g.read r = g.read s) : r = s := by
  have hgeneral : (⟨_, _, _, _⟩ : General) = ⟨_, _, _, _⟩ := h .general
  have hindex : (⟨_, _, _⟩ : Index) = ⟨_, _, _⟩ := h .index
  have hstack : r.sp = s.sp := h .stack
  have hinstruction : (⟨_, _⟩ : Instruction) = ⟨_, _⟩ := h .instruction
  have hflags : r.flags = s.flags := h .flags
  have hdata : (⟨_, _⟩ : SegmentPair) = ⟨_, _⟩ := h .dataSegments
  have hextra : (⟨_, _⟩ : SegmentPair) = ⟨_, _⟩ := h .extraSegments
  have hcode : (⟨_, _⟩ : SegmentPair) = ⟨_, _⟩ := h .codeSegments
  have htask : r.tr = s.tr := h .task
  have hlocal : r.ldtr = s.ldtr := h .localTable
  have hglobal : r.gdtr = s.gdtr := h .globalTable
  have hinterrupt : r.idtr = s.idtr := h .interruptTable
  have hcontrol : (⟨_, _, _, _⟩ : Control) = ⟨_, _, _, _⟩ := h .control
  have hdebug : r.dr7 = s.dr7 := h .debug
  have hsysenter : (⟨_, _, _⟩ : Sysenter) = ⟨_, _, _⟩ := h .sysenter
  have hqualification : (⟨_, _⟩ : Qualification) = ⟨_, _⟩ := h .qualification
  have hexecution : (⟨_, _⟩ : Execution) = ⟨_, _⟩ := h .execution
  have hinjection : (⟨_, _⟩ : Injection) = ⟨_, _⟩ := h .injection
  have hactivity : (⟨_, _⟩ : Activity) = ⟨_, _⟩ := h .activity
  have htimestamp : (⟨_, _⟩ : Timestamp) = ⟨_, _⟩ := h .timestamp
  have hefer : r.efer = s.efer := h .efer
  have hpages : r.pdpte = s.pdpte := h .pagePointers
  have hextended : r.r8r15 = s.r8r15 := h .extended
  have hsyscall : (⟨_, _, _, _, _⟩ : Syscall) = ⟨_, _, _, _, _⟩ := h .syscall
  have hpriority : (⟨_, _⟩ : Priority) = ⟨_, _⟩ := h .priority
  clear h
  cases r
  cases s
  simp only [General.mk.injEq, Index.mk.injEq, Instruction.mk.injEq, SegmentPair.mk.injEq,
    Control.mk.injEq, Sysenter.mk.injEq, Qualification.mk.injEq, Execution.mk.injEq,
    Injection.mk.injEq, Activity.mk.injEq, Timestamp.mk.injEq, Syscall.mk.injEq,
    Priority.mk.injEq] at *
  simp only [*]

/-- A frame is known by its mask, its reason and its groups. -/
theorem Frame.ext_read {f g : Frame} (hmask : f.mask = g.mask) (hreason : f.reason = g.reason)
    (h : ∀ group : Group, group.read f.registers = group.read g.registers) : f = g :=
  congr (congr (congrArg Frame.mk hmask) hreason) (Registers.ext_read h)

/-- Puts a value in its place, if there is one. -/
def Group.writeSome (g : Group) : Option g.Value → Registers → Registers
  | some v, r => g.write v r
  | none, r => r

theorem read_writeSome (g : Group) (v : Option g.Value) (r : Registers) :
    g.read (g.writeSome v r) = v.getD (g.read r) := by
  cases v with
  | none => rfl
  | some v => exact read_write g v r

theorem read_writeSome_of_ne {g h : Group} (v : Option h.Value) (r : Registers) (e : g ≠ h) :
    g.read (h.writeSome v r) = g.read r := by
  cases v with
  | none => rfl
  | some v => exact read_write_of_ne v r e

/-- Values put in their places one after another. A group in the list twice is written
the same value twice. -/
theorem read_writeAll (v : (g : Group) → Option g.Value) (gs : List Group) (r : Registers) (g : Group) :
    g.read (gs.foldl (fun r g => g.writeSome (v g) r) r) =
      if g ∈ gs then (v g).getD (g.read r) else g.read r := by
  induction gs generalizing r with
  | nil => rfl
  | cons h gs ih =>
    rw [List.foldl_cons, ih]
    by_cases hne : g = h
    · subst hne
      rw [read_writeSome, if_pos (List.mem_cons_self ..)]
      split
      · cases v g <;> rfl
      · rfl
    · rw [read_writeSome_of_ne _ _ hne]
      simp only [List.mem_cons, hne, false_or]

theorem copyGroups_eq (f src : Frame) (m : Mask) :
    f.copyGroups src m = {f with registers := Group.all.foldl (fun r g =>
      g.writeSome (if m.has g.bit then some (g.read src.registers) else none) r) f.registers} := by
  unfold Frame.copyGroups
  congr 2
  funext r g
  split
  · exact copy_eq_write g src.registers r
  · rfl

theorem read_copyGroups (f src : Frame) (m : Mask) (g : Group) :
    g.read (f.copyGroups src m).registers =
      if m.has g.bit then g.read src.registers else g.read f.registers := by
  rw [copyGroups_eq, read_writeAll, if_pos g.mem_all]
  split <;> rfl

@[simp] theorem copyGroups_mask (f src : Frame) (m : Mask) : (f.copyGroups src m).mask = f.mask := rfl

@[simp] theorem copyGroups_reason (f src : Frame) (m : Mask) : (f.copyGroups src m).reason = f.reason := rfl

/-- A mask without groups takes nothing over. -/
theorem copyGroups_empty (f src : Frame) : f.copyGroups src .empty = f := rfl

/-! ### Masks of groups, bit by bit -/

theorem Group.has_mask (g : Group) {bit : Nat} (hbit : bit < 32) :
    g.mask.has bit = decide (g.bit = bit) := by
  rw [Group.mask, Mask.has_single]
  simp [hbit]

theorem Group.bit_ne_fpuBit (g : Group) : g.bit ≠ fpuBit := by
  have := g.bit_lt
  simp only [fpuBit]
  omega

theorem Mask.has_unions (gs : List Group) (m : Mask) {bit : Nat} (hbit : bit < 32) :
    (gs.foldl (fun m g => m.union g.mask) m).has bit = (m.has bit || gs.any fun g => decide (g.bit = bit)) := by
  induction gs generalizing m with
  | nil => simp
  | cons g gs ih => rw [List.foldl_cons, ih, has_union, g.has_mask hbit, List.any_cons, Bool.or_assoc]

theorem Mask.has_ofGroups (gs : List Group) {bit : Nat} (hbit : bit < 32) :
    (ofGroups gs).has bit = gs.any fun g => decide (g.bit = bit) := by
  rw [ofGroups, has_unions _ _ hbit, has_empty, Bool.false_or]

/-- A mask of groups has the bit of a group if the group is in the list. -/
theorem Mask.has_ofGroups_bit (gs : List Group) (g : Group) :
    (ofGroups gs).has g.bit = decide (g ∈ gs) := by
  have hbit := g.bit_lt
  rw [has_ofGroups _ (by omega), Bool.eq_iff_iff, List.any_eq_true, decide_eq_true_iff]
  constructor
  · rintro ⟨h, hh, he⟩
    rwa [Group.bit_injective (of_decide_eq_true he).symm]
  · exact fun hg => ⟨g, hg, decide_eq_true rfl⟩

theorem Mask.has_fpu {bit : Nat} (hbit : bit < 32) : fpu.has bit = decide (fpuBit = bit) := by
  rw [fpu, has_single]
  simp [hbit]

/-- A bit of the full mask is that of a group or the floating point group's. -/
theorem Mask.bit_cases {bit : Nat} (hbit : bit < 32) :
    (∃ g : Group, g.bit = bit) ∨ bit = fpuBit ∨ (full.has bit = false ∧ ∀ g : Group, g.bit ≠ bit) := by
  rcases Decidable.em (∃ g ∈ Group.all, g.bit = bit) with ⟨g, _, hg⟩ | hgroup
  · exact .inl ⟨g, hg⟩
  by_cases hfpu : bit = fpuBit
  · exact .inr (.inl hfpu)
  have hnone : ∀ g : Group, g.bit ≠ bit := fun g hg => hgroup ⟨g, g.mem_all, hg⟩
  refine .inr (.inr ⟨?_, hnone⟩)
  rw [full, has_union, has_ofGroups _ hbit, has_fpu hbit, decide_eq_false (Ne.symm hfpu),
    Bool.or_false, List.any_eq_false]
  exact fun g _ => by simpa using hnone g

theorem Mask.full_has_bit (g : Group) : full.has g.bit = true := by
  rw [full, has_union, has_ofGroups_bit, decide_eq_true g.mem_all, Bool.true_or]

theorem Mask.full_has_fpu : full.has fpuBit = true := by decide

namespace State

theorem charged_has_bit (s : State) (g : Group) : s.charged.has g.bit = (s.groups g).isCharged := by
  have hbit := g.bit_lt
  have hbuffered : (Mask.ofGroups (Group.all.filter fun g => (s.groups g).isCharged)).has g.bit =
      (s.groups g).isCharged := by
    rw [Mask.has_ofGroups_bit]
    simp [List.mem_filter, g.mem_all]
  rw [charged]
  split
  · rw [Mask.has_union, hbuffered, Mask.has_fpu (by omega), decide_eq_false (Ne.symm g.bit_ne_fpuBit),
      Bool.or_false]
  · exact hbuffered

/-- Bits that no group has are never charged, and the floating point group's bit says
whether there is an image. -/
theorem charged_has_other (s : State) {bit : Nat} (hbit : bit < 32) (h : ∀ g : Group, g.bit ≠ bit) :
    s.charged.has bit = (s.fpu.isCharged && decide (fpuBit = bit)) := by
  have hbuffered : (Mask.ofGroups (Group.all.filter fun g => (s.groups g).isCharged)).has bit = false := by
    rw [Mask.has_ofGroups _ hbit, List.any_eq_false]
    exact fun g _ => by simpa using h g
  rw [charged]
  cases s.fpu.isCharged with
  | true => rw [if_pos rfl, Mask.has_union, hbuffered, Mask.has_fpu hbit, Bool.false_or, Bool.true_and]
  | false => rw [if_neg (by decide), hbuffered, Bool.false_and]

theorem charged_has_fpu (s : State) : s.charged.has fpuBit = s.fpu.isCharged := by
  rw [charged_has_other s (by decide) Group.bit_ne_fpuBit, decide_eq_true rfl, Bool.and_true]

/-- The groups of a mask are charged, and no others: what is charged is what the mask
names. -/
theorem charged_eq_known {s : State} {m : Mask} (hgroups : ∀ g, (s.groups g).isCharged = m.has g.bit)
    (hfpu : s.fpu.isCharged = m.has fpuBit) : s.charged = m.known := by
  refine Mask.ext_has fun bit hbit => ?_
  rw [Mask.known, Mask.has_inter]
  rcases Mask.bit_cases hbit with ⟨g, rfl⟩ | rfl | ⟨hunknown, hnone⟩
  · rw [charged_has_bit, hgroups, Mask.full_has_bit, Bool.and_true]
  · rw [charged_has_fpu, hfpu, Mask.full_has_fpu, Bool.and_true]
  · rw [charged_has_other s hbit hnone, hunknown, Bool.and_false, Bool.and_eq_false_imp]
    rintro -
    refine decide_eq_false fun hfpu' => ?_
    rw [← hfpu', Mask.full_has_fpu] at hunknown
    cases hunknown

/-! ### The way in -/

/-- The state is charged with exactly the known groups of a mask, from registers and an
image, and has a reason. -/
structure LoadedFrom (s : State) (r : Exit.Reason) (m : Mask) (registers : Registers)
    (image : FpuImage) : Prop where
  reason : s.reason = r
  groups : ∀ g, (s.groups g).value? = if m.has g.bit then some (g.read registers) else none
  fpu : s.fpu.value? = if m.has fpuBit then some image else none

theorem LoadedFrom.charged {s : State} {r : Exit.Reason} {m : Mask} {registers : Registers}
    {image : FpuImage} (h : s.LoadedFrom r m registers image) : s.charged = m.known := by
  refine charged_eq_known (fun g => ?_) ?_
  · rw [Charged.isCharged, h.groups]
    split
    next hm => rw [hm]; rfl
    next hm => rw [Bool.eq_false_iff.mpr hm]; rfl
  · rw [Charged.isCharged, h.fpu]
    split
    next hm => rw [hm]; rfl
    next hm => rw [Bool.eq_false_iff.mpr hm]; rfl

/-- What was charged before does not matter. -/
theorem LoadedFrom.unique {s t : State} {r : Exit.Reason} {m : Mask} {registers : Registers}
    {image : FpuImage} (hs : s.LoadedFrom r m registers image) (ht : t.LoadedFrom r m registers image) :
    s = t := by
  obtain ⟨reason, groups, ⟨fpu⟩⟩ := s
  obtain ⟨reason', groups', ⟨fpu'⟩⟩ := t
  obtain rfl : reason = reason' := hs.reason.trans ht.reason.symm
  obtain rfl : fpu = fpu' := hs.fpu.trans ht.fpu.symm
  obtain rfl : groups = groups' := by
    funext g
    exact congrArg Charged.mk ((hs.groups g).trans (ht.groups g).symm)
  rfl

theorem groups_charge (s : State) (g : Group) (v : g.Value) : (s.charge g v).groups g = ⟨some v⟩ :=
  groups_setGroup s g _

theorem groups_charges (m : Mask) (r : Registers) (gs : List Group) (s : State) (h : Group) :
    (gs.foldl (fun s g => if m.has g.bit then s.charge g (g.read r) else s) s).groups h =
      if h ∈ gs ∧ m.has h.bit then ⟨some (h.read r)⟩ else s.groups h := by
  induction gs generalizing s with
  | nil => simp
  | cons g gs ih =>
    rw [List.foldl_cons, ih]
    by_cases hne : h = g
    · subst hne
      cases hm : m.has h.bit with
      | true => simp [groups_charge]
      | false => simp
    · have hstep : (if m.has g.bit then s.charge g (g.read r) else s).groups h = s.groups h := by
        split
        · exact groups_setGroup_of_ne s _ (Ne.symm hne)
        · rfl
      rw [hstep]
      simp only [List.mem_cons, hne, false_or]

theorem reason_charges (m : Mask) (r : Registers) (gs : List Group) (s : State) :
    (gs.foldl (fun s g => if m.has g.bit then s.charge g (g.read r) else s) s).reason = s.reason := by
  induction gs generalizing s with
  | nil => rfl
  | cons g gs ih =>
    rw [List.foldl_cons, ih]
    split <;> rfl

theorem fpu_charges (m : Mask) (r : Registers) (gs : List Group) (s : State) :
    (gs.foldl (fun s g => if m.has g.bit then s.charge g (g.read r) else s) s).fpu = s.fpu := by
  induction gs generalizing s with
  | nil => rfl
  | cons g gs ih =>
    rw [List.foldl_cons, ih]
    split <;> rfl

/-- Loading charges the known groups of the frame's mask, whatever was charged before. -/
theorem load_loadedFrom (s : State) (f : Frame) (u : Fpu) :
    (s.load f u).1.LoadedFrom (Exit.Reason.ofRaw f.reason) f.mask f.registers u.image := by
  unfold load
  have hgroups : ∀ g : Group, ((Group.all.foldl (fun (s : State) (g : Group) => if f.mask.has g.bit then
      s.charge g (g.read f.registers) else s) {s.discharged with reason := Exit.Reason.ofRaw f.reason}).groups
        g).value? = if f.mask.has g.bit then some (g.read f.registers) else none := by
    intro g
    rw [groups_charges]
    simp only [g.mem_all, true_and]
    split <;> rfl
  split
  next hm =>
    refine ⟨?_, hgroups, ?_⟩
    · exact reason_charges ..
    · rw [if_pos hm]
      rfl
  next hm =>
    refine ⟨?_, hgroups, ?_⟩
    · exact reason_charges ..
    · rw [if_neg hm, fpu_charges]
      rfl

/-- Loading looks at the unit, and does not change what it holds. -/
theorem load_image (s : State) (f : Frame) (u : Fpu) : (s.load f u).2.image = u.image := by
  unfold load
  split <;> rfl

/-! ### The way back -/

/-- What is stored group by group is what is charged of these groups, and so is what is added
to the mask. -/
theorem foldl_storeGroup (s : State) (gs : List Group) (f : Frame) :
    gs.foldl (fun f g => s.storeGroup g f) f =
      {f with
        mask := (gs.filter fun g => (s.groups g).isCharged).foldl (fun m g => m.union g.mask) f.mask
        registers := gs.foldl (fun r g => g.writeSome (s.groups g).value? r) f.registers} := by
  induction gs generalizing f with
  | nil => rfl
  | cons g gs ih =>
    rw [List.foldl_cons, ih, storeGroup, List.filter_cons, List.foldl_cons, Charged.isCharged]
    cases (s.groups g).value? with
    | none => rfl
    | some v => rfl

/-- The mask that is left is that of what is charged. -/
theorem store_eq (s : State) (f : Frame) (u : Fpu) :
    s.store f u =
      ({f with
          mask := s.charged
          registers := Group.all.foldl (fun r g => g.writeSome (s.groups g).value? r) f.registers},
        match s.fpu.value? with
        | some image => u.restore image
        | none => u) := by
  rw [store, foldl_storeGroup, charged, Charged.isCharged]
  cases s.fpu.value? with
  | none => rfl
  | some image => rfl

theorem store_mask (s : State) (f : Frame) (u : Fpu) : (s.store f u).1.mask = s.charged := by
  rw [store_eq]

theorem read_store (s : State) (f : Frame) (u : Fpu) (g : Group) :
    g.read (s.store f u).1.registers = (s.groups g).value?.getD (g.read f.registers) := by
  rw [store_eq]
  dsimp only
  rw [read_writeAll, if_pos g.mem_all]

/-- The unit holds the charged image, if there is one. -/
theorem store_image (s : State) (f : Frame) (u : Fpu) :
    (s.store f u).2.image = s.fpu.value?.getD u.image := by
  rw [store_eq]
  cases s.fpu.value? <;> rfl

/-- What the guest goes on with: the charged groups have their values, and the others
have kept theirs, whatever the frame held. -/
theorem read_reply (s : State) (f registers : Frame) (u : Fpu) (g : Group) :
    g.read (registers.copyGroups (s.store f u).1 (s.store f u).1.mask).registers =
      (s.groups g).value?.getD (g.read registers.registers) := by
  rw [read_copyGroups, store_mask, charged_has_bit, read_store, Charged.isCharged]
  cases (s.groups g).value? <;> rfl

end State

end GuestMachine.Register
