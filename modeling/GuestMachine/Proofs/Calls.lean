import GuestMachine.Proofs.Seats
import GuestMachine.Simulated.Machine

/-! What calls on a simulated machine do.

A call to run or pause changes one seat, and only the part that requests travel by
(`demand_eq`). The calls of a handler, destruction included, leave all else alone: what is
left of a seat without that part is the same before and after (`exec_spares`). In
particular a handler at work sees neither the guest's registers nor the loops. -/
namespace GuestMachine

/-! ### One vCPU -/

theorem Vcpu.run_fst (own : Bool) (v : Vcpu) : (v.run own).1 = {v with blocked := (v.run own).1.blocked} := by
  rw [Vcpu.run]
  split
  · rfl
  split
  · rfl
  split <;> rfl

theorem Vcpu.pause_fst (own : Bool) (v : Vcpu) :
    (v.pause own).1 = {v with blocked := (v.pause own).1.blocked} := by
  unfold Vcpu.pause
  split <;> rfl

namespace Simulated
open Register

variable {σ : Type}

/-- What is left of a seat without the part that requests travel by. -/
def unasked (s : Seat σ (Context Unit)) : Seat σ (Context Unit) :=
  { s with
    vcpu := {s.vcpu with signals := {}, request := none, blocked := false}
    context := {s.context with recallPending := false} }

/-- What is left of a seat without all that calls can change. -/
def bare (s : Seat σ (Context Unit)) : Seat σ (Context Unit) :=
  { unasked s with
    vcpu := {(unasked s).vcpu with destroyed := false}
    registered := false
    context := {(unasked s).context with stop := false, joinable := false} }

/-- A vCPU's part in a call, and the request that it ends in. -/
def demanded (step : Vcpu → Vcpu × Option Request) (s : Seat σ (Context Unit)) :
    Seat σ (Context Unit) :=
  match step s.vcpu with
  | (v, none) => {s with vcpu := v}
  | (v, some r) => {s with vcpu := (v.post r).signal, context := s.context.requestRecall}

theorem unasked_demanded {step : Vcpu → Vcpu × Option Request}
    (h : ∀ v, (step v).1 = {v with blocked := (step v).1.blocked}) (s : Seat σ (Context Unit)) :
    unasked (demanded step s) = unasked s := by
  have hv := h s.vcpu
  unfold demanded
  split
  next v heq =>
    rw [heq] at hv
    dsimp only at hv
    rw [hv]
    rfl
  next v r heq =>
    rw [heq] at hv
    dsimp only at hv
    rw [hv]
    rfl

theorem bare_demanded {step : Vcpu → Vcpu × Option Request}
    (h : ∀ v, (step v).1 = {v with blocked := (step v).1.blocked}) (s : Seat σ (Context Unit)) :
    bare (demanded step s) = bare s := by
  rw [bare, unasked_demanded h, ← bare]

/-! ### Calls on a machine -/

theorem request_eq (id : Exit.VcpuId) (r : Request) (m : State σ) :
    hypervisor.request id id r m =
      m.modify id fun s => {s with vcpu := (s.vcpu.post r).signal, context := s.context.requestRecall} := by
  show ((m.modifyVcpu id _).modifyContext id _).modifyVcpu id _ = _
  rw [Machine.modifyVcpu_eq, Machine.modifyContext_eq, Machine.modifyVcpu_eq, Machine.modify_modify,
    Machine.modify_modify]
  rfl

/-- A call to run or pause changes the seat of its vCPU. -/
theorem demand_eq (step : Vcpu → Vcpu × Option Request) (id : Exit.VcpuId) (m : State σ) :
    hypervisor.demand step id m = m.modify id (demanded step) := by
  rw [Hypervisor.demand, Machine.vcpu?_eq]
  cases hs : m.seats[id]? with
  | none => exact (Machine.modify_of_none hs _).symm
  | some s =>
    dsimp only [Option.map_some, Seat.resident]
    split
    next v heq =>
      rw [Machine.modifyVcpu_eq]
      refine Machine.modify_congr hs ?_
      simp only [demanded, heq]
    next v r heq =>
      rw [request_eq, Machine.modifyVcpu_eq, Machine.modify_modify]
      refine Machine.modify_congr hs ?_
      simp only [demanded, heq, Function.comp]

theorem find?_eq_some_iff {m : State σ} {id : Exit.VcpuId} {s : Seat σ (Context Unit)} :
    m.find? id = some s ↔ m.seats[id]? = some s ∧ s.registered = true := by
  rw [Machine.find?, Option.filter_eq_some_iff]

theorem demandById_eq {m : State σ} {id : Exit.VcpuId} {s : Seat σ (Context Unit)}
    (hs : m.seats[id]? = some s) (hreg : s.registered = true) (step : Nat → Vcpu → Vcpu × Option Request) :
    hypervisor.demandById step id m = (.ok (), m.modify id (demanded (step id))) := by
  rw [Hypervisor.demandById, Machine.resolve?_eq, find?_eq_some_iff.mpr ⟨hs, hreg⟩, Option.map_some, ← demand_eq]

/-- A call by number reaches the vCPU of that number, or none. -/
theorem demandById_cases (step : Nat → Vcpu → Vcpu × Option Request) (id : Exit.VcpuId) (m : State σ) :
    (m.find? id = none ∧ hypervisor.demandById step id m = (.error (.unknownVcpu id), m)) ∨
      hypervisor.demandById step id m = (.ok (), hypervisor.demand (step id) id m) := by
  rw [Hypervisor.demandById, Machine.resolve?_eq]
  cases m.find? id with
  | none => exact .inl ⟨rfl, rfl⟩
  | some s => exact .inr rfl

/-- A call to one vCPU does nothing to another. -/
theorem demandById_of_ne (m : State σ) {id other : Exit.VcpuId} (h : id ≠ other)
    (step : Nat → Vcpu → Vcpu × Option Request) :
    (hypervisor.demandById step id m).2.seats[other]? = m.seats[other]? := by
  rcases demandById_cases step id m with ⟨_, heq⟩ | heq
  · rw [heq]
  · rw [heq, demand_eq, Machine.seat_modify_of_ne m _ h]

/-- The destruction of one vCPU. -/
theorem destroy_eq (id : Exit.VcpuId) (m : State σ) :
    (hypervisor.destroy id m).2 = m.modify id fun s =>
      {s with vcpu := s.vcpu.destroy, registered := false, context := (s.context.release id).2} := by
  rw [Hypervisor.destroy, Machine.vcpu?_eq]
  cases hs : m.seats[id]? with
  | none => exact (Machine.modify_of_none hs _).symm
  | some s =>
    dsimp only [Option.map_some, Seat.resident]
    rw [Machine.unregister_eq, Machine.modifyVcpu_eq, Machine.modify_modify]
    simp only [hypervisor, Machine.context?_eq, Machine.seat_modify_of_some hs, Option.map_some]
    rw [Machine.modifyContext_eq, Machine.modify_modify]
    exact Machine.modify_congr hs rfl

/-! ### What calls leave alone -/

/-- Every seat is as before, but for what calls change. -/
def Spares (m m' : State σ) : Prop := ∀ id : Nat, (m'.seats[id]?).map bare = (m.seats[id]?).map bare

theorem Spares.refl (m : State σ) : Spares m m := fun _ => rfl

theorem Spares.trans {m m' m'' : State σ} (h : Spares m m') (h' : Spares m' m'') : Spares m m'' :=
  fun id => (h' id).trans (h id)

theorem Spares.seat {m m' : State σ} (h : Spares m m') {id : Exit.VcpuId} {s : Seat σ (Context Unit)}
    (hs : m.seats[id]? = some s) : ∃ s', m'.seats[id]? = some s' ∧ bare s' = bare s := by
  have hid := h id
  rw [hs] at hid
  exact Option.map_eq_some_iff.mp hid

theorem spares_modify (m : State σ) (id : Exit.VcpuId) {f : Seat σ (Context Unit) → Seat σ (Context Unit)}
    (h : ∀ s, bare (f s) = bare s) : Spares m (m.modify id f) := by
  intro other
  by_cases hne : id = other
  · subst hne
    rw [Machine.seat_modify, Option.map_map]
    cases m.seats[id]? with
    | none => rfl
    | some s => exact congrArg some (h s)
  · rw [Machine.seat_modify_of_ne m f hne]

theorem demand_spares {step : Vcpu → Vcpu × Option Request}
    (h : ∀ v, (step v).1 = {v with blocked := (step v).1.blocked}) (id : Exit.VcpuId) (m : State σ) :
    Spares m (hypervisor.demand step id m) := by
  rw [demand_eq]
  exact spares_modify m id (bare_demanded h)

theorem demandById_spares {step : Nat → Vcpu → Vcpu × Option Request}
    (h : ∀ p v, (step p v).1 = {v with blocked := (step p v).1.blocked}) (id : Exit.VcpuId) (m : State σ) :
    Spares m (hypervisor.demandById step id m).2 := by
  rcases demandById_cases step id m with ⟨_, heq⟩ | heq
  · rw [heq]
    exact .refl m
  · rw [heq]
    exact demand_spares (h id) id m

theorem destroyAll_spares (ids : List Exit.VcpuId) (m : State σ) :
    Spares m (hypervisor.destroyAll ids m).2 := by
  induction ids generalizing m with
  | nil => exact .refl m
  | cons id rest ih =>
    refine Spares.trans ?_ (ih (hypervisor.destroy id m).2)
    rw [destroy_eq]
    exact spares_modify m id fun s => rfl

theorem shutdown_spares (m : State σ) : Spares m (hypervisor.shutdown m).2 :=
  destroyAll_spares m.owned {m with owned := []}

theorem perform_spares (id : Exit.VcpuId) (m : State σ) (c : Call) :
    Spares m (hypervisor.perform id m c).2 := by
  cases c with
  | run => exact demand_spares (Vcpu.run_fst true) id m
  | pause => exact demand_spares (Vcpu.pause_fst true) id m
  | remoteRun => exact demand_spares (Vcpu.run_fst false) id m
  | remotePause => exact demand_spares (Vcpu.pause_fst false) id m
  | runVcpu target => exact demandById_spares (fun p => Vcpu.run_fst (p == id)) target m
  | pauseVcpu target => exact demandById_spares (fun p => Vcpu.pause_fst (p == id)) target m
  | shutdown => exact shutdown_spares m
  | probe => exact .refl m

/-- A handler at work leaves all seats alone, but for what calls change. -/
theorem exec_spares (id : Exit.VcpuId) (p : Program σ) (m : State σ) :
    Spares m (hypervisor.exec id p m).2 := by
  induction p generalizing m with
  | done memory state failure => exact .refl m
  | call c next ih => exact (perform_spares id m c).trans (ih _ _)

/-- The seat of `id` once a handler has worked on it. -/
theorem exists_worked {m : State σ} {id : Exit.VcpuId} {s : Seat σ (Context Unit)} (hs : m.seats[id]? = some s)
    (p : Program σ) (e : Seat σ (Context Unit)) :
    ∃ w, (hypervisor.exec id p (m.modify id fun _ => e)).2.seats[id]? = some w ∧ bare w = bare e := by
  have hin : (m.modify id fun _ => e).seats[id]? = some e := Machine.seat_modify_of_some hs _
  exact (exec_spares id p _).seat hin

end Simulated

end GuestMachine
