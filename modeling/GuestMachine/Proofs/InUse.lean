import GuestMachine.Proofs.LastRequest

/-! Machines in use.

A vCPU is in use as long as its handler does not fail (`InUse`), whatever is done to the
machine and whatever its handler and others do. To know what such a vCPU keeps through all
of that, it is enough to look at a few things: a request that is left, a run of the
handler's own, and destruction, which is all that calls come to (`KeptByCalls`); and the
steps of the vCPU itself, for those of others are calls to it (`Has.moves_elsewhere`). -/
namespace GuestMachine.Simulated
open Register

variable {σ : Type}

/-! ### What calls keep -/

/-- A request has just been left. -/
def posted (r : Request) (s : Seat σ (Context Unit)) : Seat σ (Context Unit) :=
  {s with vcpu := (s.vcpu.post r).signal, context := s.context.requestRecall}

/-- The handler of the vCPU has run it. -/
def unblocked (s : Seat σ (Context Unit)) : Seat σ (Context Unit) :=
  {s with vcpu := {s.vcpu with blocked := false}}

/-- The vCPU has been destroyed. -/
def gone (id : Exit.VcpuId) (s : Seat σ (Context Unit)) : Seat σ (Context Unit) :=
  {s with vcpu := s.vcpu.destroy, registered := false, context := (s.context.release id).2}

theorem demanded_run_cases (own : Bool) (s : Seat σ (Context Unit)) :
    demanded (Vcpu.run own) s = s ∨ (own = true ∧ demanded (Vcpu.run own) s = unblocked s) ∨
      demanded (Vcpu.run own) s = posted .run s := by
  cases hstarted : s.vcpu.started with
  | false =>
    refine .inl ?_
    rw [demanded, Vcpu.run, hstarted]
    rfl
  | true =>
    cases own with
    | true => exact .inr (.inl ⟨rfl, demanded_own hstarted⟩)
    | false =>
      rcases demanded_asked hstarted .run with hposted | ⟨_, _, _, hsame⟩
      · exact .inr (.inr hposted)
      · exact .inl hsame

theorem demanded_pause_cases (own : Bool) (s : Seat σ (Context Unit)) :
    demanded (Vcpu.pause own) s = s ∨ demanded (Vcpu.pause own) s = posted .pause s := by
  unfold demanded Vcpu.pause
  cases own && s.vcpu.blocked with
  | true => exact .inl rfl
  | false => exact .inr rfl

/-- A property of a seat that no call ends. Calls of the handler of the vCPU itself count if
they are its own. -/
structure KeptByCalls (own : Bool) (P : Seat σ (Context Unit) → Prop) : Prop where
  posted : ∀ r s, P s → P (posted r s)
  unblocked : own = true → ∀ s, P s → P (unblocked s)
  gone : ∀ id s, P s → P (gone id s)

section Calls
variable {own : Bool} {P : Seat σ (Context Unit) → Prop} {m : State σ} {id : Exit.VcpuId}

theorem KeptByCalls.run (h : KeptByCalls own P) {caller : Bool} (hcaller : caller = true → own = true)
    {s : Seat σ (Context Unit)} (hs : P s) : P (demanded (Vcpu.run caller) s) := by
  rcases demanded_run_cases caller s with heq | ⟨hown, heq⟩ | heq
  · rw [heq]
    exact hs
  · rw [heq]
    exact h.unblocked (hcaller hown) s hs
  · rw [heq]
    exact h.posted .run s hs

theorem KeptByCalls.pause (h : KeptByCalls own P) (caller : Bool) {s : Seat σ (Context Unit)} (hs : P s) :
    P (demanded (Vcpu.pause caller) s) := by
  rcases demanded_pause_cases caller s with heq | heq
  · rw [heq]
    exact hs
  · rw [heq]
    exact h.posted .pause s hs

/-- The seat of a vCPU has a property, if there is one. -/
def Has (m : State σ) (id : Exit.VcpuId) (P : Seat σ (Context Unit) → Prop) : Prop :=
  ∀ s, m.seats[id]? = some s → P s

theorem has_of_seat {s : Seat σ (Context Unit)} (hs : m.seats[id]? = some s) (h : P s) : Has m id P := by
  intro s' hs'
  cases hs.symm.trans hs'
  exact h

theorem has_modify {f : Seat σ (Context Unit) → Seat σ (Context Unit)} (h : ∀ s, m.seats[id]? = some s → P (f s)) :
    Has (m.modify id f) id P := by
  intro s hs
  rw [Machine.seat_modify] at hs
  obtain ⟨s', hs', rfl⟩ := Option.map_eq_some_iff.mp hs
  exact h s' hs'

theorem has_modify_const {s : Seat σ (Context Unit)} (hs : P s) : Has (m.modify id fun _ => s) id P :=
  has_modify fun _ _ => hs

theorem Has.modify (h : Has m id P) {target : Exit.VcpuId} {f : Seat σ (Context Unit) → Seat σ (Context Unit)}
    (hf : target = id → ∀ s, P s → P (f s)) : Has (m.modify target f) id P := by
  by_cases hne : target = id
  · subst hne
    exact has_modify fun s hs => hf rfl s (h s hs)
  · intro s hs
    rw [Machine.seat_modify_of_ne m f hne] at hs
    exact h s hs

theorem Has.modify_elsewhere (h : Has m id P) {target : Exit.VcpuId} (hne : target ≠ id)
    (f : Seat σ (Context Unit) → Seat σ (Context Unit)) : Has (m.modify target f) id P :=
  h.modify fun heq => absurd heq hne

theorem Has.demand (h : Has m id P) {step : Vcpu → Vcpu × Option Request} {target : Exit.VcpuId}
    (hstep : target = id → ∀ s, P s → P (demanded step s)) : Has (hypervisor.demand step target m) id P := by
  rw [demand_eq]
  exact h.modify hstep

theorem Has.demandById (h : Has m id P) {step : Nat → Vcpu → Vcpu × Option Request} {target : Exit.VcpuId}
    (hstep : target = id → ∀ s, P s → P (demanded (step target) s)) :
    Has (hypervisor.demandById step target m).2 id P := by
  rcases demandById_cases step target m with ⟨_, heq⟩ | heq
  · rw [heq]
    exact h
  · rw [heq]
    exact h.demand hstep

theorem Has.destroyAll (h : Has m id P) (hgone : ∀ target s, P s → P (Simulated.gone target s))
    (ids : List Exit.VcpuId) : Has (hypervisor.destroyAll ids m).2 id P := by
  induction ids generalizing m with
  | nil => exact h
  | cons target rest ih =>
    refine @ih (hypervisor.destroy target m).2 ?_
    rw [destroy_eq]
    exact h.modify fun _ s hs => hgone target s hs

theorem Has.shutdown (h : Has m id P) (hgone : ∀ target s, P s → P (Simulated.gone target s)) :
    Has (hypervisor.shutdown m).2 id P := by
  have hunowned : Has {m with owned := []} id P := h
  exact hunowned.destroyAll hgone m.owned

theorem Has.perform {caller : Exit.VcpuId} (h : Has m id P) (hkept : KeptByCalls (caller == id) P) (c : Call) :
    Has (hypervisor.perform caller m c).2 id P := by
  have hself : ∀ target, target = id → (target == caller) = true → (caller == id) = true := by
    rintro target rfl htarget
    rw [beq_iff_eq] at htarget ⊢
    exact htarget.symm
  cases c with
  | run => exact h.demand fun hid _ hs => hkept.run (fun _ => beq_iff_eq.mpr hid) hs
  | pause => exact h.demand fun _ _ hs => hkept.pause true hs
  | remoteRun => exact h.demand fun _ _ hs => hkept.run (fun hfalse : false = true => nomatch hfalse) hs
  | remotePause => exact h.demand fun _ _ hs => hkept.pause false hs
  | runVcpu target =>
    show Has (hypervisor.demandById (fun p => Vcpu.run (p == caller)) target m).2 id P
    exact h.demandById fun hid _ hs => hkept.run (hself target hid) hs
  | pauseVcpu target =>
    show Has (hypervisor.demandById (fun p => Vcpu.pause (p == caller)) target m).2 id P
    exact h.demandById fun _ _ hs => hkept.pause _ hs
  | shutdown => exact h.shutdown hkept.gone
  | probe => exact h

/-- A handler at work ends nothing that its calls do not end. -/
theorem Has.exec {caller : Exit.VcpuId} (h : Has m id P) (hkept : KeptByCalls (caller == id) P) (p : Program σ) :
    Has (hypervisor.exec caller p m).2 id P := by
  induction p generalizing m with
  | done memory state failure => exact h
  | call c next ih => exact ih _ (h.perform hkept c)

end Calls

/-! ### What operations keep -/

/-- What is left of a seat without what operations change besides: the charged state, the
guest's registers, the units, and the result of a loop that has ended. -/
def untouched (s : Seat σ (Context Unit)) : Seat σ (Context Unit) :=
  { s with
    vcpu := {s.vcpu with state := {}}
    context := {s.context.mapUnits fun _ => {} with registers := {}, outcome := none} }

/-- An operation keeps what calls keep. It may also make the seat, launch its loop or inject
an exit; a recall is not forced on it. -/
theorem Has.apply {P : Seat σ (Context Unit) → Prop} {m : State σ} {id : Exit.VcpuId} (h : Has m id P)
    (hcalls : KeptByCalls false P) (hsame : ∀ s s', untouched s' = untouched s → P s → P s') (o : Operation σ)
    (hcreate : m.seats[id]? = none → ∀ handler memory, P (newSeat m.shared.deferred handler memory))
    (hlaunch : o = .launch id → ∀ s, m.seats[id]? = some s → P {s with context := s.context.launch})
    (hinject : ∀ r, o = .inject id r → ∀ s, P s → P {s with context := s.context.inject r})
    (hforce : o ≠ .forceExit id) : Has (o.apply m) id P := by
  cases o with
  | create handler memory =>
    by_cases hroom : m.HasRoom
    · intro s hs
      rw [seats_create hroom, List.getElem?_append] at hs
      split at hs
      · exact h s hs
      next hnew =>
        obtain rfl := List.mem_singleton.mp (List.mem_of_getElem? hs)
        exact hcreate (List.getElem?_eq_none (Nat.le_of_not_lt hnew)) handler memory
    · rw [Operation.apply, if_neg hroom]
      exact h
  | run target => exact h.demandById fun _ s hs => hcalls.run (fun hfalse => hfalse) hs
  | pause target => exact h.demandById fun _ s hs => hcalls.pause false hs
  | edit target f =>
    show Has (m.editState target f).2 id P
    rw [Machine.editState_eq]
    split
    · exact h
    · exact h.modify fun _ s hs => hsame s _ rfl hs
  | shutdown => exact h.shutdown hcalls.gone
  | launch target =>
    rw [Operation.apply, Machine.modifyContext_eq]
    by_cases hne : target = id
    · subst hne
      exact has_modify fun s hs => hlaunch rfl s hs
    · exact h.modify_elsewhere hne _
  | inject target r =>
    rw [Operation.apply, Machine.modifyContext_eq]
    refine h.modify fun htarget s hs => ?_
    subst htarget
    exact hinject r rfl s hs
  | forceExit target =>
    rw [Operation.apply, Machine.modifyContext_eq]
    exact h.modify_elsewhere (fun htarget => hforce (htarget ▸ rfl)) _
  | setRegisters target f =>
    rw [Operation.apply, Machine.modifyContext_eq]
    exact h.modify fun _ s hs => hsame s _ rfl hs
  | setUnits target f =>
    rw [Operation.apply, Machine.modifyContext_eq]
    refine h.modify fun _ s hs => hsame s _ ?_ hs
    show untouched {s with context := s.context.mapUnits f} = untouched s
    simp only [untouched, Context.mapUnits, List.map_map, Function.comp_def]
  | takeOutcome target =>
    rw [Operation.apply, Machine.modifyContext_eq]
    refine h.modify fun _ s hs => hsame s _ ?_ hs
    dsimp only [Context.takeOutcome]
    split
    · rfl
    · rfl

/-! ### What steps keep -/

section Steps
variable {P : Seat σ (Context Unit) → Prop} {m m' : State σ} {id other : Exit.VcpuId}

/-- The step of a vCPU changes others by calls only. -/
theorem Has.moves_elsewhere (h : Has m id P) (hkept : KeptByCalls false P) (hne : other ≠ id)
    (hmoves : Moves m other m') : Has m' id P := by
  obtain ⟨s, _, ⟨f, rfl, _⟩ | ⟨_, e, r, f, _, _, rfl⟩⟩ := moves_cases hmoves
  · exact h.modify_elsewhere hne f
  · have hown : (other == id) = false := beq_false_of_ne hne
    have hentered : Has (m.modify other fun _ => e) id P := h.modify_elsewhere hne _
    exact (hentered.exec (hown.symm ▸ hkept) _).modify_elsewhere hne _

/-- Nothing that a vCPU which has been destroyed still does registers it. -/
theorem Has.moves_gone (h : Has m id (·.registered = false)) (hmoves : Moves m id m') :
    Has m' id (·.registered = false) := by
  obtain ⟨s, hs, ⟨f, rfl, _, hsame⟩ | ⟨hreg, _⟩⟩ := moves_cases hmoves
  · refine has_modify fun s' hs' => ?_
    cases hs.symm.trans hs'
    exact hsame.trans (h s hs)
  · exact absurd hreg (Bool.eq_false_iff.mp (h s hs))

/-- A vCPU that is registered after its step was so before. -/
theorem registered_of_moves (hmoves : Moves m id m') {s s' : Seat σ (Context Unit)} (hs : m.seats[id]? = some s)
    (hs' : m'.seats[id]? = some s') (hreg' : s'.registered = true) : s.registered = true := by
  cases hreg : s.registered with
  | true => rfl
  | false =>
    have hgone : Has m id (·.registered = false) := has_of_seat hs hreg
    exact absurd hreg' (Bool.eq_false_iff.mp (hgone.moves_gone hmoves s' hs'))

end Steps

/-! ### One dispatch loop -/

namespace Context
variable {ε : Type} {c : Context ε}

theorem pass_single (h : c.others = []) : c.pass = c := by
  rw [pass, h]

/-- The only loop goes on by itself. -/
theorem answer_single (h : c.others = []) (f : Frame) :
    c.answer f = { c with
      registers := c.registers.copyGroups f f.mask
      log := c.log.modify c.loop.place fun d => {d with reply := some f.mask}
      loop := {c.loop with phase := .ready} } := pass_single h

theorem answer_loop (h : c.others = []) (f : Frame) : (c.answer f).loop = {c.loop with phase := .ready} :=
  congrArg (·.loop) (answer_single h f)

theorem hold_single (h : c.others = []) (f : Frame) :
    c.hold f = {c with loop := {c.loop with phase := .waiting f}} := pass_single h

theorem finish_single (h : c.others = []) (r : Except Error Unit) :
    c.finish r = {c with stopped := true, outcome := some r, loop := {c.loop with phase := .off}} := pass_single h

theorem crash_single (h : c.others = []) :
    c.crash = {c with crashed := c.crashed || c.loop.attached, loop := {c.loop with phase := .off}} := pass_single h

theorem turns_single (h : c.others = []) : c.turns = [c] := by
  rw [turns, h]
  rfl

theorem loops_eq_nil (h : c.loops = []) : c.loop.phase = .off ∧ c.others = [] := by
  unfold loops at h
  split at h
  next hphase => exact ⟨hphase, h⟩
  next => cases h

end Context

/-- The only loop of a vCPU makes the steps of it. -/
theorem moves_iff_move {m m' : State σ} {id : Exit.VcpuId} {s : Seat σ (Context Unit)}
    (hs : m.seats[id]? = some s) (hsingle : s.context.others = []) :
    Moves m id m' ↔ move m id s.context = some m' := by
  constructor
  · rintro ⟨s', c, hs', hturn, hmove⟩
    cases hs.symm.trans hs'
    rw [Context.turns_single hsingle, List.mem_singleton] at hturn
    subst hturn
    exact hmove
  · refine fun hmove => ⟨s, s.context, hs, ?_, hmove⟩
    rw [Context.turns_single hsingle]
    exact List.mem_singleton_self _

/-! ### A machine in use -/

/-- The seat when the handler starts to work on an exit, which has come through the portal
for its interest. -/
def atWork (r : Exit.Reason) (c : Context Unit) (s : Seat σ (Context Unit)) : Seat σ (Context Unit) :=
  let mask := Exit.portalMask (s.handler.interest r)
  entered r (c.recorded r mask true) (c.filled r mask) s

/-- What the handler makes of an exit. -/
def work (id : Exit.VcpuId) (r : Exit.Reason) (c : Context Unit) (s : Seat σ (Context Unit)) (m : State σ) :
    Hypervisor.Outcome σ × State σ :=
  hypervisor.exec id (s.handler.handle s.memory (atWork r c s).vcpu.state) (m.modify id fun _ => atWork r c s)

theorem served_next {s : Seat σ (Context Unit)} {next : Option Exit.Reason} {c : Context Unit}
    (h : Served s.handler.interest s.context.portals) (hnext : s.context.next? = some (next, c)) :
    Served s.handler.interest c.portals := by
  rw [show c.portals = s.context.portals from congrArg (·.portals) (Context.next?_steady hnext)]
  exact h

/-- Any exit but a recall that finds a request to run is the handler's work. -/
theorem deliver_work {m : State σ} {id : Exit.VcpuId} {s : Seat σ (Context Unit)} {c : Context Unit} {r : Exit.Reason}
    (hserved : Served s.handler.interest c.portals) (hs : m.seats[id]? = some s) (hreg : s.registered = true)
    (hcall : ¬(r = .recalled ∧ s.vcpu.request = some .run)) :
    deliver id r c m = (work id r c s m).2.modify id
      (concluded id r (c.filled r (Exit.portalMask (s.handler.interest r))) (work id r c s m).1) := by
  rw [deliver_handled (hserved r) hs hreg hcall]
  rfl

/-- The vCPU is about to hand an exit to its handler, and the handler is about to fail. -/
def Fails (m : State σ) (id : Exit.VcpuId) : Prop :=
  ∃ s c₀ r c, m.seats[id]? = some s ∧ s.registered = true ∧ c₀ ∈ s.context.turns ∧
    c₀.next? = some (some r, c) ∧ ¬(r = .recalled ∧ s.vcpu.request = some .run) ∧
    (work id r c s m).1.failure ≠ none

/-- What is done to a machine in which a vCPU is used. Its recalls are left to its requests,
and while it has a dispatch loop it is not launched again. -/
def Operation.Regular (id : Exit.VcpuId) (m : State σ) : Operation σ → Prop
  | .forceExit target => target ≠ id
  | .launch target => target = id → ∀ s, m.seats[id]? = some s → s.context.loops = []
  | _ => True

/-- The states of a machine whose vCPU `id` is in use, with a handler that has never failed.
What other threads do while a handler works is among the calls of the handler's program. -/
inductive InUse (id : Exit.VcpuId) : State σ → Prop where
  | begin (deferred : Bool) : InUse id (empty deferred)
  | operation {m : State σ} (h : InUse id m) (o : Operation σ) (ho : o.Regular id m) : InUse id (o.apply m)
  | step {m m' : State σ} (h : InUse id m) {other : Exit.VcpuId} (hmoves : Moves m other m')
    (hworks : other = id → ¬Fails m id) : InUse id m'

theorem InUse.reachable {id : Exit.VcpuId} {m : State σ} (h : InUse id m) : Reachable m := by
  induction h with
  | begin deferred => exact ⟨deferred, .refl⟩
  | operation _ o _ ih => exact ih.leads (.operation .refl o)
  | step _ hmoves _ ih => exact ih.leads (.step .refl hmoves)

/-- The vCPU is in use, and its handler cannot fail. -/
structure Reliable (id : Exit.VcpuId) (m : State σ) : Prop where
  inUse : InUse id m
  never : ∃ s, m.seats[id]? = some s ∧
    ∀ memory state m, (hypervisor.exec id (s.handler.handle memory state) m).1.failure = none

theorem Reliable.becomes {m m' : State σ} {id : Exit.VcpuId} (h : Reliable id m) (hinUse : InUse id m')
    (hbecomes : Becomes m m') : Reliable id m' := by
  obtain ⟨s, hs, hnever⟩ := h.never
  obtain ⟨s', hs', hevolves⟩ := hbecomes.seat hs
  exact ⟨hinUse, s', hs', hevolves.handler ▸ hnever⟩

theorem Reliable.operation {m : State σ} {id : Exit.VcpuId} (h : Reliable id m) (o : Operation σ)
    (ho : o.Regular id m) : Reliable id (o.apply m) :=
  h.becomes (h.inUse.operation o ho) (apply_becomes o m)

/-- It stays so while the machine is left to itself. -/
theorem Reliable.settles {m : State σ} {id : Exit.VcpuId} (h : Reliable id m) (steps : Nat) :
    Reliable id (settle steps m) := by
  induction steps generalizing m with
  | zero => exact h
  | succ steps ih =>
    unfold settle
    split
    next => exact h
    next m' hstep =>
      obtain ⟨other, _, hadvance⟩ := List.exists_of_findSome?_eq_some hstep
      have hmoves := moves_of_advance hadvance
      refine ih (h.becomes (h.inUse.step hmoves ?_) (moves_becomes hmoves))
      rintro - ⟨s, _, _, _, hs, _, _, _, _, hfails⟩
      obtain ⟨s', hs', hnever⟩ := h.never
      cases hs.symm.trans hs'
      exact hfails (hnever ..)

end GuestMachine.Simulated
