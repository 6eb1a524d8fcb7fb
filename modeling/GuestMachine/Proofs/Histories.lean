import GuestMachine.Proofs.LastRequest

/-! Histories of a machine.

What happens to a machine is a list of events: others act on it, and its vCPUs make steps.
A step that hands an exit to a handler is a visit to it, with what the handler is told
(`visit?`); a step without one calls no handler. Which handler that is, the badge of the exit
decides (`visit?_vcpu`, `move_visits`). Between two acts the machine is left to
itself, and only takes steps (`Runs`).

Others act by the operations of the machine, or on a vCPU that they have kept from an
earlier time: such a vCPU can be called and its state edited even when the machine does not
know its number any more. -/
namespace GuestMachine.Simulated
open Register

variable {σ : Type}

/-! ### Visits -/

/-- A handler is told of an exit, with the memory that it has kept and the state it starts on. -/
structure Visit (σ : Type) where
  vcpu : Exit.VcpuId
  memory : σ
  state : Register.State

/-- The visit of the next step of a loop, given the context as at its turn. An exit with a portal
goes where its badge leads to; the vCPU there hands it to its handler, unless it is a recall that
finds a request to run. -/
def visit? (m : State σ) (id : Exit.VcpuId) (c₀ : Context Unit) : Option (Visit σ) :=
  match c₀.next? with
  | some (some r, c) =>
    match c.portals.route? r with
    | some p =>
      (m.get? (Exit.Badge.make id r).vcpu).bind fun v =>
        if r = .recalled ∧ v.vcpu.request = some .run then none
        else some ⟨v.id, v.memory, ((taken r v.vcpu).enter (c.filled r p.mask) c.loop.fpu).1.state⟩
    | none => none
  | _ => none

section Visits
variable {m m' : State σ} {id : Exit.VcpuId} {s : Seat σ (Context Unit)} {c₀ : Context Unit} {v : Visit σ}

/-- The badge of an exit leads to its own vCPU. -/
theorem visit?_eq_some_iff (hs : m.seats[id]? = some s) :
    visit? m id c₀ = some v ↔ s.registered = true ∧ ∃ r c p, c₀.next? = some (some r, c) ∧
      c.portals.route? r = some p ∧ ¬(r = .recalled ∧ s.vcpu.request = some .run) ∧
        v = ⟨id, s.memory, (entered r (c.recorded r p.mask true) (c.filled r p.mask) s).vcpu.state⟩ := by
  constructor
  · intro h
    unfold visit? at h
    split at h
    next r c hnext =>
      split at h
      next p hp =>
        rw [Machine.get?_make hs] at h
        obtain ⟨w, hw, h⟩ := Option.bind_eq_some_iff.mp h
        split at hw
        next hreg =>
          cases hw
          split at h
          · cases h
          next hcall =>
            cases h
            exact ⟨hreg, r, c, p, hnext, hp, hcall, rfl⟩
        next => cases hw
      next => cases h
    next => cases h
  · rintro ⟨hreg, r, c, p, hnext, hp, hcall, rfl⟩
    rw [visit?, hnext]
    dsimp only
    rw [hp]
    dsimp only
    rw [Machine.get?_make hs, if_pos hreg, Option.bind_some]
    exact if_neg hcall

theorem visit?_vcpu (hs : m.seats[id]? = some s) (h : visit? m id c₀ = some v) : v.vcpu = id := by
  obtain ⟨_, _, _, _, _, _, _, rfl⟩ := (visit?_eq_some_iff hs).mp h
  rfl

theorem visit?_unregistered (hs : m.seats[id]? = some s) (h : s.registered = false) : visit? m id c₀ = none := by
  refine Option.eq_none_iff_forall_ne_some.mpr fun v hv => ?_
  obtain ⟨hreg, _⟩ := (visit?_eq_some_iff hs).mp hv
  rw [h] at hreg
  cases hreg

/-- In a step with a visit, the handler of the vCPU that is visited works on what it is told. -/
theorem move_visits (hs : m.seats[id]? = some s) (hmove : move m id c₀ = some m') (hvisit : visit? m id c₀ = some v) :
    ∃ w e r f, m.get? v.vcpu = some w ∧ e.vcpu.state = v.state ∧
      let worked := hypervisor.exec v.vcpu (w.handler.handle v.memory v.state) (m.modify v.vcpu fun _ => e)
      m' = worked.2.modify v.vcpu (concluded v.vcpu r f worked.1) := by
  obtain ⟨hreg, r, c, p, hnext, hp, hcall, rfl⟩ := (visit?_eq_some_iff hs).mp hvisit
  obtain rfl := Option.some.inj ((move_of_next? hnext).symm.trans hmove)
  refine ⟨s.resident id, entered r (c.recorded r p.mask true) (c.filled r p.mask) s, r, c.filled r p.mask, ?_, rfl, ?_⟩
  · rw [Machine.get?_eq, find?_eq_some_iff.mpr ⟨hs, hreg⟩, Option.map_some]
  · exact deliver_handled hp hs hreg hcall

end Visits

/-! ### Steps and acts -/

/-- A loop of a vCPU makes a step, with the visit that it is. -/
def Steps (m : State σ) (id : Exit.VcpuId) (visit : Option (Visit σ)) (m' : State σ) : Prop :=
  ∃ s c, m.seats[id]? = some s ∧ c ∈ s.context.turns ∧ visit? m id c = visit ∧ move m id c = some m'

theorem Steps.moves {m m' : State σ} {id : Exit.VcpuId} {visit : Option (Visit σ)} (h : Steps m id visit m') :
    Moves m id m' := by
  obtain ⟨s, c, hs, hturn, _, hmove⟩ := h
  exact ⟨s, c, hs, hturn, hmove⟩

theorem Moves.steps {m m' : State σ} {id : Exit.VcpuId} (h : Moves m id m') : ∃ visit, Steps m id visit m' := by
  obtain ⟨s, c, hs, hturn, hmove⟩ := h
  exact ⟨_, s, c, hs, hturn, rfl, hmove⟩

theorem Steps.vcpu {m m' : State σ} {id : Exit.VcpuId} {v : Visit σ} (h : Steps m id (some v) m') : v.vcpu = id := by
  obtain ⟨_, _, hs, _, hvisit, _⟩ := h
  exact visit?_vcpu hs hvisit

/-- What others do to a machine. -/
inductive Act (σ : Type) where
  | operation (o : Operation σ)
  /-- A call on a vCPU that has been kept. -/
  | call (id : Exit.VcpuId) (r : Request)
  /-- An edit of a state that has been kept. -/
  | edit (id : Exit.VcpuId) (f : Register.State → Register.State)

def Act.apply : Act σ → State σ → State σ
  | .operation o, m => o.apply m
  | .call id r, m => hypervisor.demand r.asked id m
  | .edit id f, m => m.modifyVcpu id fun v => {v with state := f v.state}

/-- The machine is left to itself, and visits some handlers. -/
inductive Runs (m : State σ) : List (Visit σ) → State σ → Prop where
  | refl : Runs m [] m
  | step {visits : List (Visit σ)} {m' m'' : State σ} {id : Exit.VcpuId} {visit : Option (Visit σ)}
    (h : Runs m visits m') (hstep : Steps m' id visit m'') : Runs m (visits ++ visit.toList) m''

inductive Event (σ : Type) where
  | act (a : Act σ)
  | step (id : Exit.VcpuId) (visit : Option (Visit σ))

/-- What happens to a machine, in order. -/
inductive Happens (m : State σ) : List (Event σ) → State σ → Prop where
  | refl : Happens m [] m
  | act {events : List (Event σ)} {m' : State σ} (h : Happens m events m') (a : Act σ) :
    Happens m (events ++ [.act a]) (a.apply m')
  | step {events : List (Event σ)} {m' m'' : State σ} {id : Exit.VcpuId} {visit : Option (Visit σ)}
    (h : Happens m events m') (hstep : Steps m' id visit m'') : Happens m (events ++ [.step id visit]) m''

/-! ### What stays -/

theorem Request.asked_fst (r : Request) (v : Vcpu) : (r.asked v).1 = {v with blocked := (r.asked v).1.blocked} := by
  cases r with
  | run => exact Vcpu.run_fst false v
  | pause => exact Vcpu.pause_fst false v

theorem Act.apply_becomes (a : Act σ) (m : State σ) : Becomes m (a.apply m) := by
  cases a with
  | operation o => exact Simulated.apply_becomes o m
  | call id r => exact (demand_spares (Request.asked_fst r) id m).becomes
  | edit id f =>
    rw [Act.apply, Machine.modifyVcpu_eq]
    exact becomes_modify fun s _ => ⟨rfl, .refl _⟩

/-- Whatever happens, a seat stays what it is. -/
theorem Happens.becomes {m m' : State σ} {events : List (Event σ)} (h : Happens m events m') : Becomes m m' := by
  induction h with
  | refl => exact (Spares.refl m).becomes
  | act _ a ih => exact fun id => (ih id).trans (a.apply_becomes _ id)
  | step _ hstep ih => exact fun id => (ih id).trans (moves_becomes hstep.moves id)

theorem Runs.happens {m m' : State σ} {visits : List (Visit σ)} (h : Runs m visits m') :
    ∃ events, Happens m events m' := by
  induction h with
  | refl => exact ⟨[], .refl⟩
  | step _ hstep ih =>
    obtain ⟨events, hevents⟩ := ih
    exact ⟨_, hevents.step hstep⟩

/-- The steps that a machine takes until nothing moves. -/
theorem runs_settle (steps : Nat) (m : State σ) : ∃ visits, Runs m visits (settle steps m) := by
  suffices h : ∀ m₀ visits m, Runs m₀ visits m → ∃ visits', Runs m₀ visits' (settle steps m) from h m [] m .refl
  induction steps with
  | zero => exact fun _ visits _ hruns => ⟨visits, hruns⟩
  | succ steps ih =>
    intro m₀ visits m hruns
    unfold settle
    split
    next => exact ⟨visits, hruns⟩
    next m' hstep =>
      obtain ⟨id, _, hadvance⟩ := List.exists_of_findSome?_eq_some hstep
      obtain ⟨visit, hsteps⟩ := (moves_of_advance hadvance).steps
      exact ih m₀ _ m' (hruns.step hsteps)

end GuestMachine.Simulated
