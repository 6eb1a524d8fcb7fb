import GuestMachine.Proofs.Locality
import GuestMachine.Proofs.Numbers
import Mathlib.Data.List.Perm.Subperm

/-! The guest after a shutdown.

A shutdown destroys one vCPU after the other, each in three parts (`destruction`), and loops
go on in between: one that waits inside its portal is woken, exits that are queued may still
be delivered, and loops end (`ShutsDown`). None of that reaches the guest. A vCPU that is not
registered answers every exit with an empty frame, and so do those that have waited, for they
hold empty frames: registers and units stay, and no handler is visited (`Steps.frozen`).

It stays so for good. After the shutdown of a machine at rest nothing that happens calls the
handler of a vCPU from before, and its guest has only what others have put there by hand
(`frozen_after_shutdown`). -/
namespace GuestMachine.Simulated
open Register

variable {σ ε : Type}

/-! ### The guest of a vCPU -/

/-- The registers of a guest, and the floating point units of the threads it runs on. -/
structure Guest where
  registers : Frame
  units : List Fpu

def Context.guest (c : Context ε) : Guest := ⟨c.registers, c.line.map (·.fpu)⟩

/-- A guest stays as it is, but for threads that end. -/
structure Guest.Stays (g g' : Guest) : Prop where
  registers : g'.registers = g.registers
  units : g'.units.Subperm g.units

theorem Guest.Stays.refl (g : Guest) : g.Stays g := ⟨rfl, .refl _⟩

theorem Guest.Stays.trans {g g' g'' : Guest} (h : g.Stays g') (h' : g'.Stays g'') : g.Stays g'' :=
  ⟨h'.registers.trans h.registers, h'.units.trans h.units⟩

namespace Context
variable {c c' : Context ε}

theorem pass_stays (c : Context ε) : c.guest.Stays c.pass.guest := by
  refine ⟨c.pass_registers, ?_⟩
  unfold pass
  split
  next => exact .refl _
  next l rest hothers =>
    simp only [guest, line, hothers]
    split
    · exact ((List.sublist_cons_self c.loop (l :: rest)).map (·.fpu)).subperm
    · exact ((List.perm_append_singleton c.loop (l :: rest)).map (·.fpu)).subperm

theorem passes_stays {n : Nat} (h : c' ∈ passes n c) : c.guest.Stays c'.guest := by
  induction n generalizing c with
  | zero =>
    obtain rfl := List.mem_singleton.mp h
    exact .refl _
  | succ n ih =>
    rcases List.mem_cons.mp h with rfl | h
    · exact .refl _
    · exact (pass_stays c).trans (ih h)

theorem turn_stays (h : c' ∈ c.turns) : c.guest.Stays c'.guest := passes_stays h

theorem next?_guest {next : Option Exit.Reason} (h : c.next? = some (next, c')) : c'.guest = c.guest := by
  rcases next?_cases h with ⟨_, _, rfl⟩ | ⟨_, ⟨_, _, rfl⟩ | ⟨_, _, _, rfl⟩ | ⟨_, _, _, _, _, _, rfl⟩⟩
  · rfl
  · rfl
  · rfl
  · rfl

/-- An answer by an empty frame gives nothing to the guest. -/
theorem answer_stays {f : Frame} (hf : f.mask = .empty) (c : Context ε) : c.guest.Stays (c.answer f).guest := by
  refine ⟨?_, (pass_stays _).units⟩
  show (c.answer f).registers = c.registers
  rw [answer_registers, hf, copyGroups_empty]

theorem finish_stays (c : Context ε) (r : Except Error Unit) : c.guest.Stays (c.finish r).guest :=
  ⟨pass_registers _, (pass_stays _).units⟩

/-- The loops that have not ended are in the line. -/
theorem loops_sublist (c : Context ε) : c.loops.Sublist c.line := by
  unfold loops
  split
  · exact List.sublist_cons_self ..
  · exact .refl _

/-- A launch adds a thread, whose unit is zero. -/
theorem launch_stays (c : Context ε) : Guest.Stays {c.guest with units := c.guest.units ++ [{}]} c.launch.guest := by
  refine ⟨rfl, ?_⟩
  have hunits : c.launch.guest.units = {} :: c.loops.map (·.fpu) := by
    simp only [guest, line, launch, List.map_cons, List.map_map, Function.comp_def]
  rw [hunits]
  exact ((c.loops_sublist.map (·.fpu)).cons_cons {}).subperm.trans (List.perm_append_singleton {} c.guest.units).symm.subperm

theorem guest_mapUnits (f : Fpu → Fpu) (c : Context ε) :
    (c.mapUnits f).guest = {c.guest with units := c.guest.units.map f} := by
  simp only [guest, line, mapUnits, List.map_cons, List.map_map, Function.comp_def]

/-- The only thread keeps its unit. -/
theorem unit_stays (hsingle : c.others = []) (h : c.guest.Stays c'.guest) :
    c'.loop.fpu = c.loop.fpu ∧ c'.others = [] := by
  have hunits : (c'.loop.fpu :: c'.others.map (·.fpu)).Subperm [c.loop.fpu] := by
    have hall := h.units
    simp only [guest, line, hsingle, List.map_cons, List.map_nil] at hall
    exact hall
  have hperm := hunits.perm_of_length_le (Nat.le_add_left ..)
  obtain ⟨hloop, hothers⟩ := List.cons.inj (List.perm_singleton.mp hperm)
  exact ⟨hloop, List.map_eq_nil_iff.mp hothers⟩

end Context

/-! ### A vCPU that is gone -/

/-- Exits are not routed to the vCPU, and what its handler and its guest had they still have. -/
structure Frozen (memory : σ) (g : Guest) (s : Seat σ (Context Unit)) : Prop where
  registered : s.registered = false
  memory : s.memory = memory
  guest : g.Stays s.context.guest

section Seats
variable {memory : σ} {g : Guest} {s s' : Seat σ (Context Unit)}

theorem Frozen.next (h : Frozen memory g s) (hregistered : s'.registered = s.registered) (hmemory : s'.memory = s.memory)
    (hguest : s.context.guest.Stays s'.context.guest) : Frozen memory g s' :=
  ⟨hregistered.trans h.registered, hmemory.trans h.memory, h.guest.trans hguest⟩

/-- Calls do not reach the guest. -/
theorem stays_of_bare (h : bare s' = bare s) : s.context.guest.Stays s'.context.guest := by
  have hguest : s'.context.guest = s.context.guest := congrArg (·.context.guest) h
  rw [hguest]
  exact .refl _

theorem frozen_of_bare (h : bare s' = bare s) (hregistered : s'.registered = false) :
    Frozen s.memory s.context.guest s' := ⟨hregistered, congrArg (·.memory) h, stays_of_bare h⟩

theorem frozen_keptByCalls (memory : σ) (g : Guest) : KeptByCalls false (Frozen memory g) := by
  refine ⟨fun r s hs => hs.next rfl rfl ?_, fun hfalse => absurd hfalse Bool.false_ne_true, fun id s hs => ?_⟩
  · exact stays_of_bare rfl
  · exact hs.next hs.registered.symm rfl (stays_of_bare rfl)

/-- Whatever its loops do, a vCPU that is gone visits no handler, and its guest stays. -/
theorem Steps.frozen {m m' : State σ} {id : Exit.VcpuId} {visit : Option (Visit σ)} (hsteps : Steps m id visit m')
    (hs : m.seats[id]? = some s) (hheld : s.context.Held) (hfrozen : Frozen memory g s) :
    visit = none ∧ ∃ f, m' = m.modify id f ∧ Frozen memory g (f s) := by
  obtain ⟨s', c, hs', hturn, hvisit, hmove⟩ := hsteps
  cases hs.symm.trans hs'
  refine ⟨hvisit.symm.trans (visit?_unregistered hs hfrozen.registered), ?_⟩
  have hc := Context.turn_stays hturn
  rcases move_cases hs hmove with ⟨f, ends, v, hphase, _, rfl⟩ | ⟨c', hnext, rfl⟩ | ⟨r, c', hnext, rfl⟩
  · -- A wait that ends is answered by the frame that it holds, which is empty.
    refine ⟨_, rfl, hfrozen.next rfl rfl ?_⟩
    have hempty : f.mask = .empty := hheld c.loop (Context.mem_line_of_turn hturn (List.mem_cons_self ..)) f hphase
    cases ends with
    | true => exact hc.trans (Context.answer_stays hempty c)
    | false => exact hc
  · refine ⟨_, Machine.modifyContext_eq .., hfrozen.next rfl rfl ?_⟩
    have hc' : c'.guest = c.guest := Context.next?_guest hnext
    exact (hc' ▸ hc).trans (Context.finish_stays c' _)
  · have hc' : c'.guest = c.guest := Context.next?_guest hnext
    cases hp : c'.portals.route? r with
    | none =>
      rw [deliver_dropped hp]
      exact ⟨_, Machine.modifyContext_eq .., hfrozen.next rfl rfl (hc' ▸ hc)⟩
    | some p =>
      rw [deliver_refused hp hs hfrozen.registered]
      refine ⟨_, Machine.modifyContext_eq .., hfrozen.next rfl rfl ?_⟩
      have hrecorded : (c'.recorded r p.mask false).guest = c.guest := hc'
      exact (hrecorded ▸ hc).trans (Context.answer_stays rfl _)

end Seats

/-! ### Shutdown, while loops go on -/

/-- The parts of the destruction of a vCPU. -/
def destruction (id : Exit.VcpuId) : List (State σ → State σ) :=
  [(·.unregister id), (·.modifyVcpu id Vcpu.destroy), fun m => (hypervisor.release id m).2]

/-- One thing after the other is done to a machine, and its loops go on in between. -/
inductive Interleaved : List (State σ → State σ) → State σ → List (Visit σ) → State σ → Prop where
  | done (m : State σ) : Interleaved [] m [] m
  | next {part : State σ → State σ} {parts : List (State σ → State σ)} {m m' m'' : State σ}
    {visits visits' : List (Visit σ)} (hruns : Runs (part m) visits m') (hrest : Interleaved parts m' visits' m'') :
    Interleaved (part :: parts) m (visits ++ visits') m''

/-- A shutdown, with all that loops can do in the course of it. -/
def ShutsDown (m : State σ) : List (Visit σ) → State σ → Prop :=
  Interleaved (m.owned.flatMap destruction) {m with owned := []}

theorem interleaved_foldl (parts : List (State σ → State σ)) (m : State σ) :
    Interleaved parts m [] (parts.foldl (fun m part => part m) m) := by
  induction parts generalizing m with
  | nil => exact .done m
  | cons part parts ih => exact .next .refl (ih (part m))

theorem release_eq (id : Exit.VcpuId) (m : State σ) :
    (hypervisor.release id m).2 = m.modifyContext id fun c => (c.release id).2 := by
  simp only [hypervisor, Machine.context?_eq, Machine.modifyContext_eq]
  cases hs : m.seats[id]? with
  | none => exact (Machine.modify_of_none hs _).symm
  | some s => exact Machine.modify_congr hs rfl

theorem destroyAll_eq (ids : List Exit.VcpuId) (m : State σ) :
    (hypervisor.destroyAll ids m).2 = (ids.flatMap destruction).foldl (fun m part => part m) m := by
  have hdestroy : ∀ id (m : State σ), (hypervisor.destroy id m).2 = (destruction id).foldl (fun m part => part m) m := by
    intro id m
    show _ = (hypervisor.release id ((m.unregister id).modifyVcpu id Vcpu.destroy)).2
    rw [destroy_eq, release_eq, Machine.modifyContext_eq, Machine.modifyVcpu_eq, Machine.unregister_eq,
      Machine.modify_modify, Machine.modify_modify]
    rfl
  induction ids generalizing m with
  | nil => rfl
  | cons id rest ih =>
    rw [List.flatMap_cons, List.foldl_append, ← hdestroy]
    exact ih (hypervisor.destroy id m).2

/-- A shutdown during which no loop makes a step. -/
theorem shutsDown_shutdown (m : State σ) : ShutsDown m [] (hypervisor.shutdown m).2 := by
  rw [Hypervisor.shutdown, destroyAll_eq]
  exact interleaved_foldl ..

/-- What a machine can be in the course of its shutdown: each of its vCPUs is as it was, or
is gone. -/
structure Closing (m x : State σ) : Prop where
  owned : x.owned = []
  becomes : Becomes m x
  seats : ∀ id : Nat, x.seats[id]? = m.seats[id]? ∨
    ∃ s t, m.seats[id]? = some s ∧ x.seats[id]? = some t ∧ Frozen s.memory s.context.guest t

section Closing
variable {m x x' : State σ} {id : Exit.VcpuId} {visits : List (Visit σ)}

theorem Closing.modify (h : Closing m x) {f : Seat σ (Context Unit) → Seat σ (Context Unit)}
    (hbecomes : Becomes x (x.modify id f))
    (hf : ∀ s t, m.seats[id]? = some s → x.seats[id]? = some t → t = s ∨ Frozen s.memory s.context.guest t →
      Frozen s.memory s.context.guest (f t)) : Closing m (x.modify id f) := by
  refine ⟨h.owned, fun other => (h.becomes other).trans (hbecomes other), fun other => ?_⟩
  by_cases hne : id = other
  · subst hne
    rcases h.seats id with hsame | ⟨s, t, hs, ht, hfrozen⟩
    · rw [Machine.seat_modify, hsame]
      cases hs : m.seats[id]? with
      | none => exact .inl rfl
      | some s => exact .inr ⟨s, f s, rfl, rfl, hf s s hs (hsame.trans hs) (.inl rfl)⟩
    · exact .inr ⟨s, f t, hs, Machine.seat_modify_of_some ht f, hf s t hs ht (.inr hfrozen)⟩
  · rw [Machine.seat_modify_of_ne x f hne]
    exact h.seats other

/-- A part of a destruction, after which exits are not routed to the vCPU. -/
theorem Closing.part (h : Closing m x) {f : Seat σ (Context Unit) → Seat σ (Context Unit)}
    (hbare : ∀ t, bare (f t) = bare t) (hgone : ∀ t, x.seats[id]? = some t → (f t).registered = false) :
    Closing m (x.modify id f) := by
  refine h.modify (spares_modify x id hbare).becomes fun s t hs ht hbefore => ?_
  rcases hbefore with rfl | hfrozen
  · exact frozen_of_bare (hbare t) (hgone t ht)
  · refine ⟨hgone t ht, ?_, hfrozen.guest.trans (stays_of_bare (hbare t))⟩
    exact Eq.trans (congrArg (·.memory) (hbare t)) hfrozen.memory

/-- The loops of vCPUs that are gone make all the steps. -/
theorem Closing.steps (h : Closing m x) (hm : Reachable m) (hrest : AtRest m) {visit : Option (Visit σ)}
    (hsteps : Steps x id visit x') : visit = none ∧ Closing m x' := by
  have hmoves := hsteps.moves
  rcases h.seats id with hsame | ⟨s, t, hs, ht, hfrozen⟩
  · -- A vCPU that is as it was when the machine rested does not move.
    exact absurd hmoves (advance_eq_none_iff.mp (still_of_seat hsame (hrest id)) x')
  · obtain ⟨t', ht', hevolves⟩ := h.becomes.seat hs
    cases ht.symm.trans ht'
    obtain ⟨hvisit, f, rfl, hf⟩ := hsteps.frozen ht ((reachable_made hm hs).evolves hevolves).held hfrozen
    refine ⟨hvisit, h.modify (moves_becomes hmoves) fun s' t' hs' ht' _ => ?_⟩
    cases hs.symm.trans hs'
    cases ht.symm.trans ht'
    exact hf

theorem Closing.runs (h : Closing m x) (hm : Reachable m) (hrest : AtRest m) (hruns : Runs x visits x') :
    visits = [] ∧ Closing m x' := by
  induction hruns with
  | refl => exact ⟨rfl, h⟩
  | step _ hstep ih =>
    obtain ⟨rfl, hclosing⟩ := ih
    obtain ⟨rfl, hclosing'⟩ := hclosing.steps hm hrest hstep
    exact ⟨rfl, hclosing'⟩

theorem unregistered_keptByCalls : KeptByCalls false fun s : Seat σ (Context Unit) => s.registered = false :=
  ⟨fun _ _ hs => hs, fun _ _ hs => hs, fun _ _ _ => rfl⟩

/-- Loops that go on register nothing. -/
theorem Has.runs_gone (h : Has x id (·.registered = false)) (hruns : Runs x visits x') :
    Has x' id (·.registered = false) := by
  induction hruns with
  | refl => exact h
  | @step _ m' _ other _ _ hstep ih =>
    by_cases hne : other = id
    · subst hne
      exact ih.moves_gone hstep.moves
    · exact ih.moves_elsewhere unregistered_keptByCalls hne hstep.moves

/-- A part of a destruction, and what loops do after it. -/
theorem Closing.goes_on (h : Closing m x) (hm : Reachable m) (hrest : AtRest m)
    {f : Seat σ (Context Unit) → Seat σ (Context Unit)} (hbare : ∀ t, bare (f t) = bare t)
    (hgone : ∀ t, x.seats[id]? = some t → (f t).registered = false) (hruns : Runs (x.modify id f) visits x') :
    visits = [] ∧ Closing m x' ∧
      ∀ other, other = id ∨ Has x other (·.registered = false) → Has x' other (·.registered = false) := by
  obtain ⟨hvisits, hclosing⟩ := (h.part hbare hgone).runs hm hrest hruns
  refine ⟨hvisits, hclosing, fun other hother => Has.runs_gone ?_ hruns⟩
  by_cases hne : other = id
  · subst hne
    exact has_modify hgone
  · exact (hother.resolve_left hne).modify_elsewhere (Ne.symm hne) f

/-- A vCPU is destroyed: then it is gone, as those are that were gone before. -/
theorem Closing.destroys (h : Closing m x) (hm : Reachable m) (hrest : AtRest m) {parts : List (State σ → State σ)}
    (hparts : Interleaved (destruction id ++ parts) x visits x') :
    ∃ x₁, Interleaved parts x₁ visits x' ∧ Closing m x₁ ∧
      ∀ other, other = id ∨ Has x other (·.registered = false) → Has x₁ other (·.registered = false) := by
  obtain _ | ⟨hunregister, hparts⟩ := hparts
  obtain _ | ⟨hdestroy, hparts⟩ := hparts
  obtain _ | ⟨hrelease, hparts⟩ := hparts
  rw [show (fun m : State σ => m.unregister id) x = _ from x.unregister_eq id] at hunregister
  rw [show (fun m : State σ => m.modifyVcpu id Vcpu.destroy) _ = _ from Machine.modifyVcpu_eq ..] at hdestroy
  rw [show (fun m => (hypervisor.release id m).2) _ = _ from release_eq id _, Machine.modifyContext_eq] at hrelease
  -- The first part takes the vCPU off the register, and the other two find it so.
  obtain ⟨rfl, h₁, hgone₁⟩ := h.goes_on (f := fun s => {s with registered := false}) hm hrest (fun _ => rfl)
    (fun _ _ => rfl) hunregister
  obtain ⟨rfl, h₂, hgone₂⟩ := h₁.goes_on (f := fun s => {s with vcpu := s.vcpu.destroy}) hm hrest (fun _ => rfl)
    (hgone₁ id (.inl rfl)) hdestroy
  obtain ⟨rfl, h₃, hgone₃⟩ := h₂.goes_on (f := fun s => {s with context := (s.context.release id).2}) hm hrest
    (fun _ => rfl) (hgone₂ id (.inl rfl)) hrelease
  exact ⟨_, hparts, h₃, fun other hother => hgone₃ other (.inr (hgone₂ other (.inr (hgone₁ other hother))))⟩

theorem Closing.destroysAll (h : Closing m x) (hm : Reachable m) (hrest : AtRest m) {ids : List Exit.VcpuId}
    (hparts : Interleaved (ids.flatMap destruction) x visits x') :
    visits = [] ∧ Closing m x' ∧
      ∀ id, id ∈ ids ∨ Has x id (·.registered = false) → Has x' id (·.registered = false) := by
  induction ids generalizing x with
  | nil =>
    cases hparts
    exact ⟨rfl, h, fun id hid => hid.resolve_left List.not_mem_nil⟩
  | cons id rest ih =>
    obtain ⟨x₁, hrestparts, h₁, hgone⟩ := h.destroys hm hrest hparts
    obtain ⟨hvisits, hclosing, hall⟩ := ih h₁ hrestparts
    refine ⟨hvisits, hclosing, fun other hother => hall other ?_⟩
    rcases hother with hmem | hbefore
    · exact (List.mem_cons.mp hmem).symm.imp_right fun hid => hgone other (.inl hid)
    · exact .inr (hgone other (.inr hbefore))

/-- A vCPU that a machine does not own is not registered. -/
theorem unregistered_of_not_owned (hm : Reachable m) (hid : id ∉ m.owned) : Has m id (·.registered = false) := by
  obtain ⟨made, kept, hcounted⟩ := reachable_counted hm
  intro s hs
  have hmissed := (hcounted.routes id).trans (if_neg hid)
  rw [Machine.resolve?_eq, Option.map_eq_none_iff, Machine.find?, hs, Option.filter_eq_none_iff] at hmissed
  exact Bool.eq_false_iff.mpr (hmissed s rfl)

/-- **A shutdown of a machine at rest** visits no handler, and all vCPUs are gone after it. -/
theorem ShutsDown.closing (hshut : ShutsDown m visits x) (hm : Reachable m) (hrest : AtRest m) :
    visits = [] ∧ Closing m x ∧ ∀ id, Has x id (·.registered = false) := by
  have hbegun : Closing m {m with owned := []} := ⟨rfl, (Spares.refl m).becomes, fun _ => .inl rfl⟩
  obtain ⟨hvisits, hclosing, hgone⟩ := hbegun.destroysAll hm hrest hshut
  refine ⟨hvisits, hclosing, fun id => hgone id ?_⟩
  by_cases hid : id ∈ m.owned
  · exact .inl hid
  · have hbefore : Has m id (·.registered = false) := unregistered_of_not_owned hm hid
    exact .inr hbefore

end Closing

/-! ### After the shutdown -/

/-- What is done to a guest by hand, and not through its vCPU: others set its registers or
its units, and launch further threads. -/
def Act.byHand (id : Exit.VcpuId) : Act σ → Guest → Guest
  | .operation (.setRegisters target f), g => if target = id then {g with registers := f g.registers} else g
  | .operation (.setUnits target f), g => if target = id then {g with units := g.units.map f} else g
  | .operation (.launch target), g => if target = id then {g with units := g.units ++ [{}]} else g
  | _, g => g

def Event.byHand (id : Exit.VcpuId) : Event σ → Guest → Guest
  | .act a, g => a.byHand id g
  | .step _ _, g => g

/-- A guest with what is done to it by hand in the course of some events. -/
def Guest.edited (id : Exit.VcpuId) (events : List (Event σ)) (g : Guest) : Guest :=
  events.foldl (fun g e => e.byHand id g) g

section ByHand
variable {P : Guest → Seat σ (Context Unit) → Prop} {g : Guest} {m : State σ} {id : Exit.VcpuId} {s : Seat σ (Context Unit)}

/-- A property of a vCPU and its guest that is kept by what others do, when what they do to the
guest by hand is done to the guest of the property as well. Launches are left out. -/
structure FollowsHand (P : Guest → Seat σ (Context Unit) → Prop) : Prop where
  calls : ∀ g, KeptByCalls false (P g)
  state : ∀ g s state, P g s → P g {s with vcpu := {s.vcpu with state}}
  idle : ∀ g s queue recallPending outcome, P g s →
    P g {s with context := {s.context with queue, recallPending, outcome}}
  registers : ∀ g s (f : Frame → Frame), P g s →
    P {g with registers := f g.registers} {s with context := {s.context with registers := f s.context.registers}}
  units : ∀ g s (f : Fpu → Fpu), P g s →
    P {g with units := g.units.map f} {s with context := s.context.mapUnits f}

/-- Something is done by hand to a vCPU, this one or another. -/
theorem Has.modify_byHand (h : Has m id (P g)) {target : Exit.VcpuId}
    {f : Seat σ (Context Unit) → Seat σ (Context Unit)} {g' : Guest} (hf : target = id → ∀ t, P g t → P g' (f t)) :
    Has (m.modify target f) id (P (if target = id then g' else g)) := by
  by_cases hown : target = id
  · subst hown
    rw [if_pos rfl]
    exact has_modify fun t ht => hf rfl t (h t ht)
  · rw [if_neg hown]
    exact h.modify_elsewhere hown f

/-- What others do, and what of it they do by hand. -/
theorem Has.act (h : Has m id (P g)) (hP : FollowsHand P) (hs : m.seats[id]? = some s) (a : Act σ)
    (hlaunch : a = .operation (.launch id) →
      ∀ t, P g t → P {g with units := g.units ++ [{}]} {t with context := t.context.launch}) :
    Has (a.apply m) id (P (a.byHand id g)) := by
  have hcalls := hP.calls g
  cases a with
  | call target r =>
    refine h.demand fun _ t ht => ?_
    cases r with
    | run => exact hcalls.run (fun hfalse => hfalse) ht
    | pause => exact hcalls.pause false ht
  | edit target f =>
    rw [Act.apply, Machine.modifyVcpu_eq]
    exact h.modify fun _ t ht => hP.state g t _ ht
  | operation o =>
  cases o with
  | create handler memory' =>
    by_cases hroom : m.HasRoom
    · intro t ht
      rw [Act.apply, seats_create hroom, List.getElem?_append_left (List.getElem?_eq_some_iff.mp hs).1] at ht
      exact h t ht
    · rw [Act.apply, Operation.apply, if_neg hroom]
      exact h
  | run target => exact h.demandById fun _ t ht => hcalls.run (fun hfalse => hfalse) ht
  | pause target => exact h.demandById fun _ t ht => hcalls.pause false ht
  | edit target f =>
    show Has (m.editState target f).2 id _
    rw [Machine.editState_eq]
    split
    · exact h
    · exact h.modify fun _ t ht => hP.state g t _ ht
  | shutdown => exact h.shutdown hcalls.gone
  | inject target r =>
    rw [Act.apply, Operation.apply, Machine.modifyContext_eq]
    exact h.modify fun _ t ht => hP.idle g t _ _ _ ht
  | forceExit target =>
    rw [Act.apply, Operation.apply, Machine.modifyContext_eq]
    exact h.modify fun _ t ht => hP.idle g t _ _ _ ht
  | takeOutcome target =>
    rw [Act.apply, Operation.apply, Machine.modifyContext_eq]
    refine h.modify fun _ t ht => ?_
    dsimp only [Context.takeOutcome]
    split
    · exact hP.idle g t _ _ _ ht
    · exact ht
  | launch target =>
    rw [Act.apply, Operation.apply, Machine.modifyContext_eq]
    exact h.modify_byHand fun htarget => hlaunch (htarget ▸ rfl)
  | setRegisters target f =>
    rw [Act.apply, Operation.apply, Machine.modifyContext_eq]
    exact h.modify_byHand fun _ t ht => hP.registers g t f ht
  | setUnits target f =>
    rw [Act.apply, Operation.apply, Machine.modifyContext_eq]
    exact h.modify_byHand fun _ t ht => hP.units g t f ht

end ByHand

section Later
variable {memory : σ} {g : Guest} {m m' : State σ} {id : Exit.VcpuId} {s : Seat σ (Context Unit)}

theorem Frozen.launch (h : Frozen memory g s) :
    Frozen memory {g with units := g.units ++ [{}]} {s with context := s.context.launch} := by
  refine ⟨h.registered, h.memory, ?_⟩
  have hstays : Guest.Stays {g with units := g.units ++ [{}]} {s.context.guest with units := s.context.guest.units ++ [{}]} :=
    ⟨h.guest.registers, (List.subperm_append_right [{}]).mpr h.guest.units⟩
  exact hstays.trans s.context.launch_stays

theorem Frozen.setRegisters (h : Frozen memory g s) (f : Frame → Frame) :
    Frozen memory {g with registers := f g.registers}
      {s with context := {s.context with registers := f s.context.registers}} :=
  ⟨h.registered, h.memory, congrArg f h.guest.registers, h.guest.units⟩

theorem Frozen.setUnits (h : Frozen memory g s) (f : Fpu → Fpu) :
    Frozen memory {g with units := g.units.map f} {s with context := s.context.mapUnits f} := by
  refine ⟨h.registered, h.memory, ?_⟩
  rw [Context.guest_mapUnits]
  obtain ⟨l, hperm, hsublist⟩ := h.guest.units
  exact ⟨h.guest.registers, l.map f, hperm.map f, hsublist.map f⟩

theorem frozen_followsHand (memory : σ) : FollowsHand (Frozen memory) := by
  refine ⟨frozen_keptByCalls memory, fun g s _ h => ?_, fun g s _ _ _ h => ?_, fun g s f h => h.setRegisters f,
    fun g s f h => h.setUnits f⟩
  · exact h.next rfl rfl (.refl _)
  · exact h.next rfl rfl (.refl _)

theorem unvisited_concat {events : List (Event σ)} {e : Event σ} (h : ∀ v, Event.step id (some v) ∉ events)
    (he : ∀ v, e ≠ .step id (some v)) (v : Visit σ) : Event.step id (some v) ∉ events ++ [e] := by
  intro hv
  rcases List.mem_append.mp hv with hv | hv
  · exact h v hv
  · exact he v (List.mem_singleton.mp hv).symm

/-- Whatever happens, the handler of a vCPU that is gone is not visited, and its guest has
what is done to it by hand. -/
theorem Happens.frozen {events : List (Event σ)} (h : Happens m events m') (hs : m.seats[id]? = some s) (hmade : Made s)
    (hfrozen : Frozen memory g s) :
    (∀ v, Event.step id (some v) ∉ events) ∧ Has m' id (Frozen memory (g.edited id events)) := by
  induction h with
  | refl => exact ⟨fun _ => List.not_mem_nil, has_of_seat hs hfrozen⟩
  | @act events m' h a ih =>
    obtain ⟨hvisits, hhas⟩ := ih
    obtain ⟨t, ht, _⟩ := h.becomes.seat hs
    refine ⟨unvisited_concat hvisits nofun, ?_⟩
    rw [Guest.edited, List.foldl_append]
    exact hhas.act (frozen_followsHand memory) ht a fun _ t ht => ht.launch
  | @step events m' m'' other visit h hstep ih =>
    obtain ⟨hvisits, hhas⟩ := ih
    obtain ⟨t, ht, hevolves⟩ := h.becomes.seat hs
    have hquiet : Guest.edited id (events ++ [.step other visit]) g = Guest.edited id events g := by
      rw [Guest.edited, List.foldl_append]
      rfl
    rw [hquiet]
    by_cases hown : other = id
    · subst hown
      obtain ⟨rfl, f, rfl, hf⟩ := hstep.frozen ht (hmade.evolves hevolves).held (hhas t ht)
      refine ⟨unvisited_concat hvisits nofun, has_modify fun t' ht' => ?_⟩
      cases ht.symm.trans ht'
      exact hf
    · refine ⟨unvisited_concat hvisits ?_, hhas.moves_elsewhere (frozen_keptByCalls ..) hown hstep.moves⟩
      rintro v ⟨⟩
      exact hown rfl

end Later

/-- **After a shutdown the guest is frozen.** A machine at rest is shut down, while its loops
go on: no handler is visited, and then the machine owns no vCPU and routes exits to none.
Whatever happens later, a vCPU from before is not found by its number, its handler is not
visited, which has the memory it had, and its guest has the registers and units it had, with
what is done to these by hand. An exit with its badge changes nothing, and is answered by its
own frame with an empty mask. -/
theorem frozen_after_shutdown {m : State σ} (hm : Reachable m) (hrest : AtRest m) :
    ShutsDown m [] (hypervisor.shutdown m).2 ∧
    ∀ visits m₁, ShutsDown m visits m₁ → visits = [] ∧ m₁.count = 0 ∧ m₁.registeredCount = 0 ∧
      ∀ (id : Exit.VcpuId) s, m.seats[id]? = some s → ∀ events m₂, Happens m₁ events m₂ →
        hypervisor.Misses id m₂ ∧ (∀ v, Event.step id (some v) ∉ events) ∧
        (∀ (thread : Exit.VcpuId) (b : Exit.Badge) f, b.vcpu = id →
          hypervisor.route thread b f m₂ = (.returned (.ok ()) {f with mask := .empty}, m₂)) ∧
        ∃ t, m₂.seats[id]? = some t ∧ Frozen s.memory (s.context.guest.edited id events) t := by
  refine ⟨shutsDown_shutdown m, fun visits m₁ hshut => ?_⟩
  obtain ⟨hvisits, hclosing, hgone⟩ := hshut.closing hm hrest
  have hnone : m₁.registeredCount = 0 := by
    rw [Machine.registeredCount_eq, List.countP_eq_zero]
    intro t ht
    obtain ⟨id, hid⟩ := List.mem_iff_getElem?.mp ht
    exact Bool.eq_false_iff.mp (hgone id t hid)
  refine ⟨hvisits, congrArg List.length hclosing.owned, hnone, fun id s hs events m₂ hevents => ?_⟩
  obtain ⟨t, ht, hevolves⟩ := hclosing.becomes.seat hs
  have hfrozen : Frozen s.memory s.context.guest t := by
    rcases hclosing.seats id with hsame | ⟨s', t', hs', ht', hfrozen⟩
    · cases hs.symm.trans (hsame.symm.trans ht)
      exact frozen_of_bare rfl (hgone id s ht)
    · cases hs.symm.trans hs'
      cases ht.symm.trans ht'
      exact hfrozen
  obtain ⟨hunvisited, hhas⟩ := hevents.frozen ht ((reachable_made hm hs).evolves hevolves) hfrozen
  obtain ⟨t₂, ht₂, _⟩ := hevents.becomes.seat ht
  have hmissed : m₂.resolve? id = none := by
    rw [Machine.resolve?_eq, Machine.find?, ht₂, Option.filter_some,
      if_neg (Bool.eq_false_iff.mp (hhas t₂ ht₂).registered), Option.map_none]
  refine ⟨hypervisor.misses_of_resolve? hmissed, hunvisited, ?_, t₂, ht₂, hhas t₂ ht₂⟩
  rintro thread b f rfl
  rw [Hypervisor.route, hmissed]
  rfl

/-- A vCPU that has blocked at its startup exit, with an edited state and an exit in its
queue. -/
def laden : State Unit :=
  (Operation.inject 0 10).apply
    ((Operation.edit 0 fun v => v.charge .general ⟨1, 2, 3, 4⟩).apply (settle 3 (calling [])))

/-- The vCPU has been destroyed, and its loop has gone on: it has been woken, and its queued
exit has been delivered. -/
def awake : State Unit := settle 9 (({laden with owned := []} : State Unit).unregister 0 |>.modifyVcpu 0 Vcpu.destroy)

/-- The loop has ended. -/
def closed : State Unit := settle 9 (hypervisor.release 0 awake).2

theorem shutsDown_laden : ∃ visits, ShutsDown laden visits closed := by
  obtain ⟨visits, hawake⟩ := runs_settle 9
    (({laden with owned := []} : State Unit).unregister 0 |>.modifyVcpu 0 Vcpu.destroy)
  obtain ⟨visits', hclosed⟩ := runs_settle 9 (hypervisor.release 0 awake).2
  have howned : laden.owned = [0] := by decide +kernel
  rw [ShutsDown, howned]
  exact ⟨_, .next .refl (.next hawake (.next hclosed (.done _)))⟩

theorem frozen_after_shutdown_laden : ∃ s t, laden.seats[0]? = some s ∧ ShutsDown laden [] closed ∧ closed.count = 0 ∧
    hypervisor.Misses 0 ((Act.call 0 .run).apply closed) ∧
    ((Act.call 0 .run).apply closed).seats[0]? = some t ∧ t.registered = false ∧
    t.context.registers = s.context.registers ∧ t.context.loop.fpu = s.context.loop.fpu ∧
    t.context.log.map (·.reply) = [some .empty, some .empty] := by
  have hm : Reachable laden :=
    (reachable_calling []).leads ((leads_settle 3 _).trans (.operation (.operation .refl (.edit 0 _)) (.inject 0 10)))
  have hrest : AtRest laden := atRest_of_seats (by decide +kernel)
  obtain ⟨s, hs⟩ : ∃ s, laden.seats[0]? = some s := Option.isSome_iff_exists.mp (by decide +kernel)
  obtain ⟨visits, hshut⟩ := shutsDown_laden
  obtain ⟨rfl, hcount, _, hlater⟩ := (frozen_after_shutdown hm hrest).2 visits closed hshut
  obtain ⟨hmisses, _, _, t, ht, hfrozen⟩ := hlater 0 s hs _ _ (Happens.refl.act (.call 0 .run))
  have hlog : ((Act.call 0 .run).apply closed).seats[0]?.all
      (·.context.log.map (·.reply) = [some .empty, some .empty]) = true := by decide +kernel
  rw [ht, Option.all_some, decide_eq_true_eq] at hlog
  have hsingle : (laden.seats[0]?).all (·.context.others = []) = true := by decide +kernel
  rw [hs, Option.all_some, decide_eq_true_eq] at hsingle
  exact ⟨s, t, hs, hshut, hcount, hmisses, ht, hfrozen.registered, hfrozen.guest.registers,
    (Context.unit_stays hsingle hfrozen.guest).1, hlog⟩

end GuestMachine.Simulated
