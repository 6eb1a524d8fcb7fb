import GuestMachine.Proofs.Histories
import GuestMachine.Proofs.InUse

/-! How far a vCPU reaches.

A step of a vCPU reads and writes its own seat, and reaches other seats by the calls of its
handler alone. So a change of another seat is not seen by the step, and is still there after
it (`Steps.modified`): either since the handler does not call that vCPU, or since no call
sees or disturbs the change (`Passive`). -/
namespace GuestMachine

/-- A call of a handler that does not reach a vCPU of another. -/
def Call.Elsewhere (id : Exit.VcpuId) : Call → Prop
  | .runVcpu target | .pauseVcpu target => target ≠ id
  | .shutdown => False
  | .run | .pause | .remoteRun | .remotePause | .probe => True

/-- A call of the handler of a vCPU that reaches no other vCPU. -/
def Call.Own (id : Exit.VcpuId) : Call → Prop
  | .runVcpu target | .pauseVcpu target => target = id
  | .shutdown => False
  | .run | .pause | .remoteRun | .remotePause | .probe => True

theorem Call.Own.elsewhere {c : Call} {id other : Exit.VcpuId} (h : c.Own id) (hne : id ≠ other) : c.Elsewhere other := by
  cases c with
  | runVcpu target | pauseVcpu target => exact fun htarget => hne ((show target = id from h).symm.trans htarget)
  | shutdown => exact h
  | run | pause | remoteRun | remotePause | probe => trivial

namespace Simulated
open Register

variable {σ : Type}

/-- A change of a seat that calls of others neither see nor disturb. -/
structure Passive (g : Seat σ (Context Unit) → Seat σ (Context Unit)) : Prop where
  registered : ∀ s, (g s).registered = s.registered
  context : ∀ s, (g s).context = s.context
  run : ∀ s, demanded (Vcpu.run false) (g s) = g (demanded (Vcpu.run false) s)
  pause : ∀ s, demanded (Vcpu.pause false) (g s) = g (demanded (Vcpu.pause false) s)
  gone : ∀ id s, gone id (g s) = g (gone id s)

/-- The handler of one vCPU does not call another. -/
def Avoids (caller id : Exit.VcpuId) (h : Handler σ) : Prop :=
  ∀ memory state m, ∀ c ∈ calls caller (h.handle memory state) m, c.Elsewhere id

/-- The handler of a vCPU acts on no other. -/
def ActsOnOwn (id : Exit.VcpuId) (h : Handler σ) : Prop :=
  ∀ memory state m, ∀ c ∈ calls id (h.handle memory state) m, c.Own id

theorem ActsOnOwn.avoids {id other : Exit.VcpuId} {h : Handler σ} (hown : ActsOnOwn id h) (hne : id ≠ other) :
    Avoids id other h := fun memory state m c hc => (hown memory state m c hc).elsewhere hne

/-! ### Calls -/

section Calls
variable {m : State σ} {id target caller : Exit.VcpuId} {g : Seat σ (Context Unit) → Seat σ (Context Unit)}

theorem find?_modify (hg : ∀ s, (g s).registered = s.registered) : (m.modify id g).find? id = (m.find? id).map g := by
  rw [Machine.find?, Machine.find?, Machine.seat_modify]
  cases m.seats[id]? with
  | none => rfl
  | some s =>
    rw [Option.map_some, Option.filter_some, Option.filter_some, hg]
    split
    · rfl
    · rfl

theorem find?_modify_of_ne (hne : id ≠ target) (m : State σ) : (m.modify id g).find? target = m.find? target := by
  rw [Machine.find?, Machine.find?, Machine.seat_modify_of_ne m g hne]

theorem demand_modified (hne : target ≠ id) (step : Vcpu → Vcpu × Option Request) (m : State σ) :
    hypervisor.demand step target (m.modify id g) = (hypervisor.demand step target m).modify id g := by
  rw [demand_eq, demand_eq, Machine.modify_comm m hne.symm]

/-- A call to another vCPU. -/
theorem demandById_modified (hne : target ≠ id) (step : Nat → Vcpu → Vcpu × Option Request) (m : State σ) :
    hypervisor.demandById step target (m.modify id g) =
      ((hypervisor.demandById step target m).1, (hypervisor.demandById step target m).2.modify id g) := by
  rw [Hypervisor.demandById, Hypervisor.demandById, Machine.resolve?_eq, Machine.resolve?_eq, find?_modify_of_ne hne.symm]
  cases m.find? target with
  | none => rfl
  | some s => exact Prod.ext rfl (demand_modified hne (step target) m)

/-- A call to the vCPU that has been changed. -/
theorem demandById_passive (hg : Passive g) {step : Nat → Vcpu → Vcpu × Option Request}
    (hstep : ∀ s, demanded (step id) (g s) = g (demanded (step id) s)) (m : State σ) :
    hypervisor.demandById step id (m.modify id g) =
      ((hypervisor.demandById step id m).1, (hypervisor.demandById step id m).2.modify id g) := by
  rw [Hypervisor.demandById, Hypervisor.demandById, Machine.resolve?_eq, Machine.resolve?_eq, find?_modify hg.registered]
  cases m.find? id with
  | none => rfl
  | some s =>
    refine Prod.ext rfl ?_
    show hypervisor.demand (step id) id (m.modify id g) = (hypervisor.demand (step id) id m).modify id g
    rw [demand_eq, demand_eq, Machine.modify_modify, Machine.modify_modify]
    exact congrArg (m.modify id) (funext hstep)

theorem destroy_fst (target : Exit.VcpuId) (m : State σ) : (hypervisor.destroy target m).1 =
    match m.seats[target]? with
    | none => .ok ()
    | some s => (s.context.release target).1 := by
  rw [Hypervisor.destroy, Machine.vcpu?_eq]
  cases hs : m.seats[target]? with
  | none => rfl
  | some s =>
    dsimp only [Option.map_some, Seat.resident]
    rw [Machine.unregister_eq, Machine.modifyVcpu_eq, Machine.modify_modify]
    simp only [hypervisor, Machine.context?_eq, Machine.seat_modify_of_some hs, Option.map_some, Function.comp]

theorem destroy_passive (hg : Passive g) (target : Exit.VcpuId) (m : State σ) :
    hypervisor.destroy target (m.modify id g) =
      ((hypervisor.destroy target m).1, (hypervisor.destroy target m).2.modify id g) := by
  refine Prod.ext ?_ ?_
  · rw [destroy_fst, destroy_fst]
    by_cases hne : id = target
    · subst hne
      rw [Machine.seat_modify]
      cases m.seats[id]? with
      | none => rfl
      | some s => exact congrArg (fun c => (Context.release id c).1) (hg.context s)
    · rw [Machine.seat_modify_of_ne m g hne]
  · show (hypervisor.destroy target (m.modify id g)).2 = (hypervisor.destroy target m).2.modify id g
    rw [destroy_eq, destroy_eq]
    by_cases hne : id = target
    · subst hne
      rw [Machine.modify_modify, Machine.modify_modify]
      exact congrArg (m.modify id) (funext (hg.gone id))
    · rw [Machine.modify_comm m hne]

theorem destroyAll_passive (hg : Passive g) (ids : List Exit.VcpuId) (m : State σ) :
    hypervisor.destroyAll ids (m.modify id g) =
      ((hypervisor.destroyAll ids m).1, (hypervisor.destroyAll ids m).2.modify id g) := by
  induction ids generalizing m with
  | nil => rfl
  | cons target rest ih =>
    simp only [Hypervisor.destroyAll]
    rw [destroy_passive hg]
    dsimp only
    rw [ih]

theorem perform_modified (hne : caller ≠ id) {c : Call} (h : Passive g ∨ c.Elsewhere id) (m : State σ) :
    hypervisor.perform caller (m.modify id g) c =
      ((hypervisor.perform caller m c).1, (hypervisor.perform caller m c).2.modify id g) := by
  have hown : (id == caller) = false := beq_false_of_ne hne.symm
  have hrun : Passive g → ∀ s, demanded (Vcpu.run (id == caller)) (g s) = g (demanded (Vcpu.run (id == caller)) s) :=
    hown ▸ Passive.run
  have hpause : Passive g → ∀ s, demanded (Vcpu.pause (id == caller)) (g s) = g (demanded (Vcpu.pause (id == caller)) s) :=
    hown ▸ Passive.pause
  cases c with
  | run => exact Prod.ext rfl (demand_modified hne (Vcpu.run true) m)
  | pause => exact Prod.ext rfl (demand_modified hne (Vcpu.pause true) m)
  | remoteRun => exact Prod.ext rfl (demand_modified hne (Vcpu.run false) m)
  | remotePause => exact Prod.ext rfl (demand_modified hne (Vcpu.pause false) m)
  | probe =>
    refine Prod.ext ?_ rfl
    rw [Hypervisor.perform, Hypervisor.perform, Machine.vcpu?_eq, Machine.vcpu?_eq, Machine.seat_modify_of_ne m g hne.symm]
  | runVcpu target =>
    unfold Hypervisor.perform
    dsimp only
    by_cases htarget : target = id
    · subst htarget
      obtain hg : Passive g := h.resolve_right fun hfalse => hfalse rfl
      rw [demandById_passive hg (hrun hg)]
    · rw [demandById_modified htarget]
  | pauseVcpu target =>
    unfold Hypervisor.perform
    dsimp only
    by_cases htarget : target = id
    · subst htarget
      obtain hg : Passive g := h.resolve_right fun hfalse => hfalse rfl
      rw [demandById_passive hg (hpause hg)]
    · rw [demandById_modified htarget]
  | shutdown =>
    obtain hg : Passive g := h.resolve_right fun hfalse => hfalse
    have hshutdown : hypervisor.shutdown (m.modify id g) =
        ((hypervisor.shutdown m).1, (hypervisor.shutdown m).2.modify id g) := destroyAll_passive hg m.owned {m with owned := []}
    unfold Hypervisor.perform
    dsimp only
    rw [hshutdown]

/-- A handler works as if another vCPU had not been changed, and leaves the change. -/
theorem exec_modified (hne : caller ≠ id) {p : Program σ} {m : State σ}
    (h : Passive g ∨ ∀ c ∈ calls caller p m, c.Elsewhere id) :
    hypervisor.exec caller p (m.modify id g) =
      ((hypervisor.exec caller p m).1, (hypervisor.exec caller p m).2.modify id g) := by
  induction p generalizing m with
  | done memory state failure => rfl
  | call c next ih =>
    have hcall : Passive g ∨ c.Elsewhere id := h.imp_right fun hall => hall c (List.mem_cons_self ..)
    simp only [Hypervisor.exec]
    rw [perform_modified hne hcall]
    exact ih _ (h.imp_right fun hall c' hc' => hall c' (List.mem_cons_of_mem _ hc'))

end Calls

/-! ### Steps -/

section Steps
variable {m m' : State σ} {id other : Exit.VcpuId} {s : Seat σ (Context Unit)}
  {g : Seat σ (Context Unit) → Seat σ (Context Unit)}

theorem deliver_modified (hne : other ≠ id) (hs : m.seats[other]? = some s) (h : Passive g ∨ Avoids other id s.handler)
    (r : Exit.Reason) (c : Context Unit) : deliver other r c (m.modify id g) = (deliver other r c m).modify id g := by
  have hs' : (m.modify id g).seats[other]? = some s := (Machine.seat_modify_of_ne m g hne.symm).trans hs
  cases hp : c.portals.route? r with
  | none =>
    rw [deliver_dropped hp, deliver_dropped hp, Machine.modifyContext_eq, Machine.modifyContext_eq]
    exact Machine.modify_comm m hne.symm ..
  | some p =>
  cases hreg : s.registered with
  | false =>
    rw [deliver_refused hp hs hreg, deliver_refused hp hs' hreg, Machine.modifyContext_eq, Machine.modifyContext_eq]
    exact Machine.modify_comm m hne.symm ..
  | true =>
  by_cases hcall : r = .recalled ∧ s.vcpu.request = some .run
  · obtain ⟨rfl, hrun⟩ := hcall
    rw [deliver_resumed hp hs hreg hrun, deliver_resumed hp hs' hreg hrun]
    exact Machine.modify_comm m hne.symm ..
  · have hhandled := deliver_handled hp hs hreg hcall
    have hhandled' := deliver_handled hp hs' hreg hcall
    rw [hhandled, hhandled', Machine.modify_comm m hne.symm, exec_modified hne (h.imp_right fun havoids => havoids _ _ _)]
    exact Machine.modify_comm _ hne.symm ..

/-- A loop goes on as if another vCPU had not been changed, and leaves the change. -/
theorem move_modified (hne : other ≠ id) (hs : m.seats[other]? = some s) (h : Passive g ∨ Avoids other id s.handler)
    (c₀ : Context Unit) : move (m.modify id g) other c₀ = (move m other c₀).map (·.modify id g) := by
  have hs' : (m.modify id g).seats[other]? = some s := (Machine.seat_modify_of_ne m g hne.symm).trans hs
  cases hphase : c₀.loop.phase with
  | waiting f =>
    rw [move_waiting hs hphase, move_waiting hs' hphase, Option.map_map]
    exact congrArg (Option.map · _) (funext fun woken => Machine.modify_comm m hne.symm ..)
  | off | starting | ready =>
    rw [move, move, hphase]
    dsimp only
    rw [Option.map_map]
    refine congrArg (Option.map · _) (funext fun next => ?_)
    obtain ⟨_ | r, c⟩ := next
    · dsimp only [Function.comp]
      rw [Machine.modifyContext_eq, Machine.modifyContext_eq]
      exact Machine.modify_comm m hne.symm ..
    · exact deliver_modified hne hs h r c

/-- An exit of a vCPU leads to the same handler in a machine with the same seat for it. -/
theorem visit?_of_seat (hs : m.seats[other]? = some s) (hs' : m'.seats[other]? = some s) (c₀ : Context Unit) :
    visit? m' other c₀ = visit? m other c₀ :=
  Option.ext fun _ => (visit?_eq_some_iff hs').trans (visit?_eq_some_iff hs).symm

theorem Steps.modified {visit : Option (Visit σ)} (hsteps : Steps m other visit m') (hne : other ≠ id)
    (h : Passive g ∨ ∀ s, m.seats[other]? = some s → Avoids other id s.handler) :
    Steps (m.modify id g) other visit (m'.modify id g) := by
  obtain ⟨s, c, hs, hturn, hvisit, hmove⟩ := hsteps
  have hs' : (m.modify id g).seats[other]? = some s := (Machine.seat_modify_of_ne m g hne.symm).trans hs
  refine ⟨s, c, hs', hturn, (visit?_of_seat hs hs' c).trans hvisit, ?_⟩
  rw [move_modified hne hs (h.imp_right fun havoids => havoids s hs), hmove, Option.map_some]

/-- Whether a vCPU can move is up to its own seat. -/
theorem still_of_seat (hseat : m'.seats[id]? = m.seats[id]?) (hrest : advance m id = none) : advance m' id = none := by
  cases hs : m.seats[id]? with
  | none =>
    rw [advance, Machine.context?_eq, hseat, hs]
    rfl
  | some s =>
    have hs' : m'.seats[id]? = some s := hseat.trans hs
    have hmove : ∀ c, (move m' id c).isSome = (move m id c).isSome := by
      intro c
      cases hphase : c.loop.phase with
      | waiting f => rw [move_waiting hs hphase, move_waiting hs' hphase, Option.isSome_map, Option.isSome_map]
      | off | starting | ready =>
        rw [move, move, hphase]
        dsimp only
        rw [Option.isSome_map, Option.isSome_map]
    rw [advance_eq hs, List.findSome?_eq_none_iff] at hrest
    rw [advance_eq hs', List.findSome?_eq_none_iff]
    intro c hc
    rw [← Option.not_isSome_iff_eq_none, hmove, hrest c hc]
    exact Bool.false_ne_true

/-- A machine rests if none of its vCPUs can move. -/
theorem atRest_of_seats (h : (List.range m.seats.length).all (fun id => (advance m id).isNone) = true) : AtRest m := by
  intro id
  by_cases hid : id < m.seats.length
  · exact Option.isNone_iff_eq_none.mp (List.all_eq_true.mp h id (List.mem_range.mpr hid))
  · rw [advance, Machine.context?_eq, List.getElem?_eq_none (Nat.le_of_not_lt hid)]
    rfl

end Steps

end Simulated

end GuestMachine
