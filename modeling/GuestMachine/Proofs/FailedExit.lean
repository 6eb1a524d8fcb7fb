import GuestMachine.Proofs.ExitOrder
import GuestMachine.Proofs.Shutdown

/-! Exits whose handler fails.

A handler works on a copy of the guest's state, and what it leaves is given to the guest only
if it succeeds. So an exit whose handler fails leaves the guest as it was, whatever the handler
has done before: the loop ends with the error, and the exit has no reply (`FailedOn`).

A vCPU that has been launched once has no other loop that could take an exit then. Requests and
exits are left for it all the same, and its state can be edited; but none of this reaches the
guest, and no handler is visited (`Happens.spent`). -/
namespace GuestMachine.Simulated
open Register

variable {σ : Type}

/-! ### The exit -/

/-- What the failure of a handler leaves of a vCPU, which has taken an exit. -/
structure FailedOn (id : Exit.VcpuId) (r : Exit.Reason) (cause : String) (s t : Seat σ (Context Unit)) : Prop where
  registers : t.context.registers = s.context.registers
  image : t.context.loop.fpu.image = s.context.loop.fpu.image
  log : t.context.log = s.context.log ++ [⟨r, Exit.portalMask (s.handler.interest r), none, true⟩]
  dispatching : t.vcpu.dispatching = false
  ended : Ended t
  stopped : t.context.stopped = true
  outcome : t.context.outcome = some (.error (.handler id r cause))

/-- A handler that fails has changed nothing of the guest. -/
theorem move_failed {m : State σ} {id : Exit.VcpuId} {s : Seat σ (Context Unit)} {c : Context Unit} {r : Exit.Reason}
    (hm : Reachable m) (hs : m.seats[id]? = some s) (hreg : s.registered = true) (hsingle : s.context.others = [])
    (hnext : s.context.next? = some (some r, c)) (hcall : ¬(r = .recalled ∧ s.vcpu.request = some .run))
    {cause : String} (hfails : (work id r c s m).1.failure = some (.error cause)) :
    ∃ m' t, move m id s.context = some m' ∧ m'.seats[id]? = some t ∧ FailedOn id r cause s t := by
  have hsteady := Context.next?_steady hnext
  obtain ⟨w, hw, hbare⟩ := exists_worked hs (s.handler.handle s.memory (atWork r c s).vcpu.state) (atWork r c s)
  have hothers : w.context.others = [] :=
    (congrArg (·.context.others) hbare).trans ((congrArg (·.others) hsteady).trans hsingle)
  refine ⟨_, concluded id r (c.filled r (Exit.portalMask (s.handler.interest r))) (work id r c s m).1 w,
    move_of_next? hnext, ?_, ?_⟩
  · rw [deliver_work (served_next (reachable_made hm hs).served hnext) hs hreg hcall]
    exact Machine.seat_modify_of_some hw _
  simp only [concluded, hfails, Context.finish_single hothers]
  refine ⟨?_, ?_, ?_, rfl, ⟨rfl, hothers, ?_⟩, rfl, rfl⟩
  · -- All that the handler reaches of the context is what requests travel by.
    have hregisters : w.context.registers = c.registers := congrArg (·.context.registers) hbare
    exact hregisters.trans (congrArg (·.registers) hsteady)
  · have hfpu : w.context.loop.fpu = (atWork r c s).context.loop.fpu := congrArg (·.context.loop.fpu) hbare
    show w.context.loop.fpu.image = _
    rw [hfpu]
    exact (entered_image ..).trans (congrArg (·.loop.fpu.image) hsteady)
  · show w.context.log = _
    rw [show w.context.log = c.log ++ [_] from congrArg (·.context.log) hbare,
      show c.log = s.context.log from congrArg (·.log) hsteady]
  · exact (congrArg (·.vcpu.started) hbare).trans (taken_started r s.vcpu)

/-! ### No loop is left -/

/-- A vCPU without a loop, which has the memory, the log and the guest that it had. -/
structure Spent (memory : σ) (log : List Delivery) (g : Guest) (s : Seat σ (Context Unit)) : Prop where
  ended : Ended s
  memory : s.memory = memory
  log : s.context.log = log
  guest : s.context.guest = g

section Later
variable {memory : σ} {log : List Delivery} {g : Guest} {m m' : State σ} {id : Exit.VcpuId}
  {s : Seat σ (Context Unit)}

theorem spent_followsHand (memory : σ) (log : List Delivery) : FollowsHand (Spent memory log) := by
  refine ⟨fun g => ⟨fun r s h => ?_, fun hfalse => absurd hfalse Bool.false_ne_true, fun id s h => ?_⟩,
    fun g s _ h => ?_, fun g s _ _ _ h => ?_, fun g s f h => ?_, fun g s f h => ?_⟩
  · exact ⟨⟨h.ended.phase, h.ended.single, h.ended.started⟩, h.memory, h.log, h.guest⟩
  · exact ⟨⟨h.ended.phase, h.ended.single, h.ended.started⟩, h.memory, h.log, h.guest⟩
  · exact ⟨⟨h.ended.phase, h.ended.single, h.ended.started⟩, h.memory, h.log, h.guest⟩
  · exact ⟨⟨h.ended.phase, h.ended.single, h.ended.started⟩, h.memory, h.log, h.guest⟩
  · refine ⟨⟨h.ended.phase, h.ended.single, h.ended.started⟩, h.memory, h.log, ?_⟩
    rw [← h.guest]
    rfl
  · refine ⟨⟨h.ended.phase, ?_, h.ended.started⟩, h.memory, h.log, ?_⟩
    · exact List.map_eq_nil_iff.mpr h.ended.single
    · rw [Context.guest_mapUnits, h.guest]

/-- Whatever happens to a vCPU without a loop, it makes no step, and its guest has what is done
to it by hand. It is not launched again. -/
theorem Happens.spent {events : List (Event σ)} (h : Happens m events m')
    (hlaunch : .act (.operation (.launch id)) ∉ events) (hs : m.seats[id]? = some s) (hspent : Spent memory log g s) :
    (∀ visit, Event.step id visit ∉ events) ∧ Has m' id (Spent memory log (g.edited id events)) := by
  induction h with
  | refl => exact ⟨fun _ => List.not_mem_nil, has_of_seat hs hspent⟩
  | @act events m' h a ih =>
    rw [List.mem_append, not_or, List.mem_singleton] at hlaunch
    obtain ⟨hsteps, hhas⟩ := ih hlaunch.1
    obtain ⟨t, ht, _⟩ := h.becomes.seat hs
    refine ⟨fun visit hvisit => ?_, ?_⟩
    · rcases List.mem_append.mp hvisit with hvisit | hvisit
      · exact hsteps visit hvisit
      · cases List.mem_singleton.mp hvisit
    · rw [Guest.edited, List.foldl_append]
      exact hhas.act (spent_followsHand memory log) ht a fun ha => absurd (congrArg Event.act ha.symm) hlaunch.2
  | @step events m' m'' other visit h hstep ih =>
    rw [List.mem_append, not_or, List.mem_singleton] at hlaunch
    obtain ⟨hsteps, hhas⟩ := ih hlaunch.1
    obtain ⟨t, ht, _⟩ := h.becomes.seat hs
    -- A vCPU without a loop makes no step itself.
    have hother : other ≠ id := by
      rintro rfl
      exact (hhas t ht).ended.still ht hstep.moves
    refine ⟨fun visit' hvisit => ?_, ?_⟩
    · rcases List.mem_append.mp hvisit with hvisit | hvisit
      · exact hsteps visit' hvisit
      · cases List.mem_singleton.mp hvisit
        exact hother rfl
    · rw [Guest.edited, List.foldl_append]
      exact hhas.moves_elsewhere ((spent_followsHand memory log).calls _) hother hstep.moves

end Later

/-- **A handler that fails leaves the guest as it was.** A vCPU with one loop hands an exit to its
handler, and the handler fails, whatever it has edited and called before. That is the next step of
the vCPU, and after it the guest has the registers and the unit's image that it had, the exit is
in the log without a reply, the vCPU is not dispatching, and its loop has ended with the error,
which names the vCPU and the exit. Whatever happens later but another launch, the vCPU makes no
step: no exit is delivered, its handler is not visited, and the guest has what others do to it by
hand. -/
theorem failed_exit {m : State σ} (hm : Reachable m) {id : Exit.VcpuId} {s : Seat σ (Context Unit)}
    (hs : m.seats[id]? = some s) (hreg : s.registered = true) (hsingle : s.context.others = [])
    {r : Exit.Reason} {c : Context Unit} (hnext : s.context.next? = some (some r, c))
    (hcall : ¬(r = .recalled ∧ s.vcpu.request = some .run))
    {cause : String} (hfails : (work id r c s m).1.failure = some (.error cause)) :
    ∃ m' t, (∀ m₁, Moves m id m₁ ↔ m₁ = m') ∧ m'.seats[id]? = some t ∧ FailedOn id r cause s t ∧
      ∀ events m'', Happens m' events m'' → .act (.operation (.launch id)) ∉ events →
        (∀ visit, Event.step id visit ∉ events) ∧ ∃ u, m''.seats[id]? = some u ∧
          Spent t.memory t.context.log (t.context.guest.edited id events) u := by
  obtain ⟨m', t, hmove, ht, hfailed⟩ := move_failed hm hs hreg hsingle hnext hcall hfails
  have honly : ∀ m₁, Moves m id m₁ ↔ m₁ = m' := by
    intro m₁
    rw [moves_iff_move hs hsingle, hmove, Option.some_inj, eq_comm]
  refine ⟨m', t, honly, ht, hfailed, fun events m'' hhappens hlaunch => ?_⟩
  have hspent : Spent t.memory t.context.log t.context.guest t := ⟨hfailed.ended, rfl, rfl, rfl⟩
  obtain ⟨hsteps, hhas⟩ := hhappens.spent hlaunch ht hspent
  obtain ⟨u, hu, _⟩ := hhappens.becomes.seat ht
  exact ⟨hsteps, u, hu, hhas u hu⟩

/-! ### A handler that fails at one exit -/

/-- A handler that runs its vCPU at the startup exit. At exit 10 it edits the state and runs and
pauses the vCPU, and then it fails. -/
def brokenHandler : Handler Unit where
  interest _ := none
  handle _ s :=
    if s.reason = .startup then .call .run fun _ => .done () s none
    else if s.reason = 10 then
      .call .run fun _ => .call .pause fun _ => .done () (s.charge .general ⟨1, 2, 3, 4⟩) (some (.error "broken"))
    else .done () s none

/-- Its vCPU runs, the guest's registers are set, and exit 10 is queued. -/
def breaking : State Unit :=
  (Operation.inject 0 10).apply ((Operation.setRegisters 0 fun f =>
    {f with registers := Group.general.write ⟨5, 6, 7, 8⟩ f.registers}).apply
      (settle 9 ((Operation.create brokenHandler ()).apply (empty false))))

theorem reachable_breaking : Reachable breaking := by
  have hcreated : Leads (empty false) ((Operation.create brokenHandler ()).apply (empty false)) :=
    .operation .refl _
  exact ⟨false, ((hcreated.trans (leads_settle 9 _)).operation _).operation _⟩

/-- The vCPU is run again, its state is edited, and another exit is queued for it. -/
def urged (m : State Unit) : State Unit :=
  (Operation.inject 0 11).apply ((Operation.edit 0 fun v => v.charge .general ⟨1, 2, 3, 4⟩).apply
    ((Operation.run 0).apply m))

theorem failed_exit_breaking :
    ∃ s c m' t u, Reachable breaking ∧ breaking.seats[0]? = some s ∧ s.registered = true ∧ s.context.others = [] ∧
      s.context.next? = some (some 10, c) ∧ (work 0 10 c s breaking).1.failure = some (.error "broken") ∧
      Moves breaking 0 m' ∧ m'.seats[0]? = some t ∧
      t.context.outcome = some (.error (.handler 0 10 "broken")) ∧ (urged m').seats[0]? = some u ∧
      u.context.log = s.context.log ++ [⟨10, Exit.catchAllMask, none, true⟩] ∧
      Group.general.read u.context.registers.registers = ⟨5, 6, 7, 8⟩ := by
  obtain ⟨s, hs⟩ : ∃ s, breaking.seats[0]? = some s := Option.isSome_iff_exists.mp (by decide +kernel)
  have hfields : (breaking.seats[0]?).all (fun s => s.registered && s.context.others == [] &&
      Exit.portalMask (s.handler.interest 10) == Exit.catchAllMask &&
      Group.general.read s.context.registers.registers == ⟨5, 6, 7, 8⟩ &&
      s.context.next?.any fun next => next.1 == some 10 &&
        (work 0 10 next.2 s breaking).1.failure == some (.error "broken")) = true := by decide +kernel
  rw [hs, Option.all_some] at hfields
  simp only [Bool.and_eq_true, beq_iff_eq, Option.any_eq_true, Prod.exists] at hfields
  obtain ⟨⟨⟨⟨hreg, hsingle⟩, hmask⟩, hgeneral⟩, r, c, hnext, rfl, hfails⟩ := hfields
  have hcall : ¬((10 : Exit.Reason) = .recalled ∧ s.vcpu.request = some .run) := fun h => absurd h.1 (by decide)
  obtain ⟨m', t, hmoves, ht, hfailed, hlater⟩ := failed_exit reachable_breaking hs hreg hsingle hnext hcall hfails
  obtain ⟨_, u, hu, hspent⟩ := hlater _ _
    (((Happens.refl.act (.operation (.run 0))).act (.operation (.edit 0 fun v => v.charge .general ⟨1, 2, 3, 4⟩))).act
      (.operation (.inject 0 11))) (by simp)
  refine ⟨s, c, m', t, u, reachable_breaking, hs, hreg, hsingle, hnext, hfails, (hmoves m').mpr rfl, ht, hfailed.outcome,
    hu, ?_, ?_⟩
  · rw [hspent.log, hfailed.log, hmask]
  · have hregisters : u.context.registers = t.context.registers := congrArg (·.registers) hspent.guest
    rw [hregisters, hfailed.registers]
    exact eq_of_beq hgeneral

end GuestMachine.Simulated
