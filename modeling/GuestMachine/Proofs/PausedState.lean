import GuestMachine.Proofs.AtRest

/-! What a paused vCPU gives to the guest.

Controllers charge the state of a vCPU that is blocked, and the next run gives it to the
guest. But a pause of a vCPU that is blocked already goes through a recall exit, which
loads the state afresh, so that all that was charged is lost (`pause_loses_edits`). What
the guest gets is what the last such exit has loaded, with the edits made since
(`charged_since_last_pause`). -/
namespace GuestMachine

/-- A call of the handler of a vCPU that leaves the vCPU as it is while that is to block. -/
def Call.Aside (id : Exit.VcpuId) : Call → Prop
  | .run | .remoteRun | .remotePause | .shutdown => False
  | .runVcpu target => target ≠ id
  | .pause | .pauseVcpu _ | .probe => True

namespace Simulated
open Register

variable {σ : Type}

/-! ### Handlers that stand aside -/

/-- A handler at work that leaves a state as it is, and its vCPU to block. -/
inductive Aside (id : Exit.VcpuId) (state : Register.State) : Program σ → Prop where
  | done (memory : σ) : Aside id state (.done memory state none)
  | call {c : Call} (hc : c.Aside id) {next : Reply → Program σ} (h : ∀ reply, Aside id state (next reply)) :
    Aside id state (.call c next)

/-- On a recall the handler neither changes the state nor resumes the vCPU. -/
def AsideOnRecall (id : Exit.VcpuId) (h : Handler σ) : Prop :=
  ∀ memory (state : Register.State), state.reason = .recalled → Aside id state (h.handle memory state)

section Handlers
variable {m : State σ} {id : Exit.VcpuId} {e : Seat σ (Context Unit)}

/-- A vCPU that is to block needs no pause. -/
theorem demanded_pause_blocked (hblocked : e.vcpu.blocked = true) : demanded (Vcpu.pause true) e = e := by
  rw [demanded, Vcpu.pause, hblocked]
  rfl

theorem perform_aside (he : m.seats[id]? = some e) (hblocked : e.vcpu.blocked = true) {c : Call}
    (hc : c.Aside id) : (hypervisor.perform id m c).2.seats[id]? = some e := by
  have hpause : (hypervisor.demand (Vcpu.pause true) id m).seats[id]? = some e := by
    rw [demand_eq, Machine.seat_modify_of_some he, demanded_pause_blocked hblocked]
  cases c with
  | run | remoteRun | remotePause | shutdown => exact hc.elim
  | pause => exact hpause
  | probe => exact he
  | runVcpu target => exact (demandById_of_ne m hc _).trans he
  | pauseVcpu target =>
    by_cases hne : target = id
    · subst hne
      show (hypervisor.demandById (fun p => Vcpu.pause (p == target)) target m).2.seats[target]? = some e
      rcases demandById_cases (fun p => Vcpu.pause (p == target)) target m with ⟨_, heq⟩ | heq
      · rw [heq]
        exact he
      · rw [heq, beq_self_eq_true]
        exact hpause
    · exact (demandById_of_ne m hne _).trans he

theorem Aside.exec {state : Register.State} {p : Program σ} (h : Aside id state p) (he : m.seats[id]? = some e)
    (hblocked : e.vcpu.blocked = true) :
    (hypervisor.exec id p m).2.seats[id]? = some e ∧ (hypervisor.exec id p m).1.state = state ∧
      (hypervisor.exec id p m).1.failure = none := by
  induction h generalizing m with
  | done memory => exact ⟨he, rfl, rfl⟩
  | call hc _ ih => exact ih _ (perform_aside he hblocked hc)

/-- An exit that the handler leaves alone waits, with the state that it has loaded. -/
theorem deliver_aside {s : Seat σ (Context Unit)} {c : Context Unit} {r : Exit.Reason} {p : Exit.Portal Unit}
    (hp : c.portals.route? r = some p) (hs : m.seats[id]? = some s) (hreg : s.registered = true)
    (hcall : ¬(r = .recalled ∧ s.vcpu.request = some .run)) (hsingle : c.others = []) :
    let e := entered r (c.recorded r p.mask true) (c.filled r p.mask) s
    Aside id e.vcpu.state (s.handler.handle s.memory e.vcpu.state) →
      ∃ memory, (deliver id r c m).seats[id]? = some { e with
        vcpu := e.vcpu.leave e.vcpu.state, memory
        context := {e.context with loop := {e.context.loop with phase := .waiting (c.filled r p.mask).cleared}} } := by
  intro e haside
  have hin : (m.modify id fun _ => e).seats[id]? = some e := Machine.seat_modify_of_some hs _
  obtain ⟨hseat, hstate, hdone⟩ := haside.exec hin rfl
  have hothers : e.context.others = [] := hsingle
  have hdeliver := deliver_handled hp hs hreg hcall
  rw [hdeliver, Machine.seat_modify_of_some hseat, concluded_blocked id r _ hdone rfl, hstate,
    Context.hold_single hothers]
  exact ⟨_, rfl⟩

end Handlers

/-! ### Paused vCPUs -/

/-- A vCPU that is blocked at rest, with no exit queued, whatever its handler does. -/
structure Halted (s : Seat σ (Context Unit)) : Prop where
  registered : s.registered = true
  tidy : Tidy s
  request : s.vcpu.request = none
  blocked : s.vcpu.blocked = true
  waits : ∃ f, s.context.loop.phase = .waiting f ∧ f.mask = .empty
  queue : s.context.queue = []
  served : Served s.handler.interest s.context.portals

/-- One whose handler stands aside on a recall. -/
structure Paused (id : Exit.VcpuId) (s : Seat σ (Context Unit)) : Prop extends Halted s where
  aside : AsideOnRecall id s.handler

/-- The seat of a paused vCPU is that of another, but for its state and what the exits in
between have left in the log and in the handler's memory. -/
structure Keeps (s : Seat σ (Context Unit)) (state : Register.State) (t : Seat σ (Context Unit)) : Prop where
  handler : t.handler = s.handler
  registers : t.context.registers = s.context.registers
  image : t.context.loop.fpu.image = s.context.loop.fpu.image
  state : t.vcpu.state = state

/-- The guest goes on with what was charged in a state. -/
structure Released (left : Register.State) (s t : Seat σ (Context Unit)) : Prop where
  blocked : t.vcpu.blocked = false
  groups : ∀ g : Group, g.read t.context.registers.registers =
    (left.groups g).value?.getD (g.read s.context.registers.registers)
  image : t.context.loop.fpu.image = left.fpu.value?.getD s.context.loop.fpu.image
  state : t.vcpu.state = left.discharged

/-- A vCPU that runs at rest. -/
structure Running (t : Seat σ (Context Unit)) : Prop where
  tidy : Tidy t
  ready : t.context.loop.phase = .ready
  request : t.vcpu.request = none
  queue : t.context.queue = []

/-- The wait of a paused vCPU has ended for a request, which its recall is to take next. -/
structure Awake (r : Request) (s w : Seat σ (Context Unit)) : Prop where
  registered : w.registered = true
  tidy : Tidy w
  request : w.vcpu.request = some r
  blocked : w.vcpu.blocked = true
  state : w.vcpu.state = s.vcpu.state
  handler : w.handler = s.handler
  portals : w.context.portals = s.context.portals
  registers : w.context.registers = s.context.registers
  fpu : w.context.loop.fpu = s.context.loop.fpu
  queue : w.context.queue = s.context.queue
  next : w.context.next? = some (some .recalled, w.context.takeRecall)

/-- The state that a recall loads. -/
def Recharged (s : Seat σ (Context Unit)) (state : Register.State) : Prop :=
  state.LoadedFrom .recalled (Exit.portalMask (s.handler.interest .recalled)) s.context.registers.registers
    s.context.loop.fpu.image

section Paused
variable {m m' : State σ} {id : Exit.VcpuId} {s t w : Seat σ (Context Unit)}

/-- The exit of the only loop has been answered with what is charged in a state. -/
theorem released_of_answer {c : Context Unit} {left : Register.State} {f : Frame}
    (hcontext : t.context = ({c with loop := {c.loop with fpu := (left.store f c.loop.fpu).2}} : Context Unit).answer
      (left.store f c.loop.fpu).1) (hsingle : c.others = []) (hregisters : c.registers = s.context.registers)
    (himage : c.loop.fpu.image = s.context.loop.fpu.image) (hblocked : t.vcpu.blocked = false)
    (hstate : t.vcpu.state = left.discharged) : Released left s t := by
  refine ⟨hblocked, fun g => ?_, ?_, hstate⟩
  · rw [hcontext, Context.answer_registers, ← hregisters]
    exact State.read_reply ..
  · rw [hcontext, ← himage]
    refine (congrArg (fun l : Loop => l.fpu.image) (Context.answer_loop ?_ _)).trans (State.store_image ..)
    exact hsingle

theorem running_of_answer {c : Context Unit} {f : Frame} (htidy : Tidy t) (hcontext : t.context = c.answer f)
    (hsingle : c.others = []) (hrequest : t.vcpu.request = none) (hqueue : c.queue = []) : Running t := by
  rw [Context.answer_single hsingle] at hcontext
  exact ⟨htidy, congrArg (·.loop.phase) hcontext, hrequest, (congrArg (·.queue) hcontext).trans hqueue⟩

theorem Halted.signals (h : Halted s) : s.vcpu.signals = ⟨0⟩ :=
  congrArg Semaphore.mk (h.tidy.linked.stale h.request)

theorem Halted.started (h : Halted s) : s.vcpu.started = true := by
  obtain ⟨f, hphase, _⟩ := h.waits
  exact h.tidy.started_of_waiting hphase

theorem Paused.edited (h : Paused id s) (g : Register.State → Register.State) :
    Paused id {s with vcpu := {s.vcpu with state := g s.vcpu.state}} :=
  ⟨⟨h.registered, h.tidy.of_same rfl rfl h.tidy.single rfl rfl, h.request, h.blocked, h.waits, h.queue, h.served⟩,
    h.aside⟩

theorem Halted.still (h : Halted s) (hs : m.seats[id]? = some s) : ¬Moves m id m' := by
  intro hmoves
  obtain ⟨f, hphase, _⟩ := h.waits
  have hmove := (moves_iff_move hs h.tidy.single).mp hmoves
  rw [move_waiting hs hphase, Vcpu.wake?, h.signals] at hmove
  cases hmove

theorem Running.still (h : Running s) (hs : m.seats[id]? = some s) : ¬Moves m id m' := by
  intro hmoves
  have hmove := (moves_iff_move hs h.tidy.single).mp hmoves
  have hstop : ¬s.context.stop = true := Bool.eq_false_iff.mp h.tidy.stop
  have hrecall : ¬s.context.recallPending = true := Bool.eq_false_iff.mp (h.tidy.unforced h.request)
  rw [move, Context.next?, h.ready] at hmove
  dsimp only at hmove
  rw [if_neg hstop, if_neg hrecall, h.queue] at hmove
  cases hmove

/-- The request of another thread is left for the vCPU. -/
theorem Halted.asked (h : Halted s) (hs : m.seats[id]? = some s) (r : Request) :
    (ask r id m).seats[id]? = some (posted r s) := by
  rw [ask_eq hs h.registered, Machine.seat_modify_of_some hs]
  rcases demanded_asked h.started r with heq | ⟨_, hready, _⟩
  · exact congrArg some heq
  · cases h.blocked.symm.trans hready

/-- The signal of a request ends the wait, and the guest gets nothing by that. -/
theorem Halted.wakes (h : Halted s) (r : Request) :
    ∃ w, Awake r s w ∧ w.memory = s.memory ∧
      (w.context.log = s.context.log.modify s.context.loop.place fun d => {d with reply := some .empty}) ∧
      ∀ m : State σ, m.seats[id]? = some (posted r s) →
        move m id (posted r s).context = some (m.modify id fun _ => w) := by
  obtain ⟨f, hphase, hempty⟩ := h.waits
  have hwake : (posted r s).vcpu.wake? = some (true, {(posted r s).vcpu with signals := ⟨0⟩}) := by
    show (Semaphore.down? s.vcpu.signals.up).map _ = _
    rw [h.signals]
    exact congrArg (fun b => some (b, _)) (Bool.or_true _)
  have htidy := (h.tidy.posted r).wake hphase hwake
  have hmove := fun (m : State σ) (hs : m.seats[id]? = some (posted r s)) =>
    @move_of_wake? σ m id _ hs (posted r s).context f _ _ hphase hwake
  have hcontext : (posted r s).context.answer f = _ := @Context.answer_single _ (posted r s).context h.tidy.single f
  have hstop : ¬s.context.stop = true := Bool.eq_false_iff.mp h.tidy.stop
  rw [hempty, copyGroups_empty] at hcontext
  rw [if_pos rfl, hcontext] at htidy
  simp only [if_pos, hcontext] at hmove
  refine ⟨_, ?_, ?_, ?_, hmove⟩
  · exact ⟨h.registered, htidy, rfl, h.blocked, rfl, rfl, rfl, rfl, rfl, rfl, if_neg hstop⟩
  · rfl
  · rfl

theorem Awake.route {r : Request} (hw : Awake r s w) (h : Halted s) :
    w.context.takeRecall.portals.route? .recalled = some ⟨Exit.portalMask (s.handler.interest .recalled), ()⟩ :=
  (congrArg (·.route? .recalled) hw.portals).trans (h.served .recalled)

/-- A blocked vCPU that is resumed gives its state to the guest. -/
theorem resumed_blocked (c : Context Unit) (f : Frame) (hblocked : s.vcpu.blocked = true) :
    let given := s.vcpu.state.store f c.loop.fpu
    resumed c f s = { s with
      vcpu := { s.vcpu with
        state := s.vcpu.state.discharged, signals := ⟨0⟩, request := none, blocked := false, started := true }
      context := ({c with loop := {c.loop with fpu := given.2}} : Context Unit).answer given.1 } := by
  intro given
  have htaken : taken .recalled s.vcpu = {s.vcpu with started := true, signals := ⟨0⟩, request := none} := by
    rw [taken, if_pos rfl, Vcpu.takeRequest, if_pos (show s.vcpu.start.blocked = true from hblocked)]
    rfl
  have hresume : (taken .recalled s.vcpu).resume f c.loop.fpu =
      ({taken .recalled s.vcpu with state := s.vcpu.state.discharged, blocked := false}, given) := by
    rw [htaken, Vcpu.resume, if_pos hblocked]
    rfl
  rw [resumed, hresume, htaken]

/-- The seat of a vCPU that has been awake, once its recall has run it. -/
def rerun (w : Seat σ (Context Unit)) : Seat σ (Context Unit) :=
  let mask := Exit.portalMask (w.handler.interest .recalled)
  resumed (w.context.takeRecall.recorded .recalled mask true) (w.context.takeRecall.filled .recalled mask) w

theorem Awake.move_run (hw : Awake .run s w) (h : Halted s) (hs : m.seats[id]? = some w) :
    move m id w.context = some (m.modify id fun _ => rerun w) := by
  rw [move_of_next? hw.next, deliver_resumed (hw.route h) hs hw.registered hw.request, rerun, hw.handler]

theorem Awake.running (hw : Awake .run s w) (h : Halted s) : Running (rerun w) := by
  have htidy := hw.tidy.resumes hw.next (Exit.portalMask (w.handler.interest .recalled))
  rw [rerun, resumed_blocked _ _ hw.blocked] at *
  exact running_of_answer htidy rfl hw.tidy.single rfl (hw.queue.trans h.queue)

theorem Awake.released (hw : Awake .run s w) : Released s.vcpu.state s (rerun w) := by
  rw [rerun, resumed_blocked _ _ hw.blocked, hw.state]
  exact released_of_answer rfl hw.tidy.single hw.registers (congrArg (·.image) hw.fpu) rfl rfl

/-- A request to pause has the recall load the state. -/
theorem Paused.recharged (h : Paused id s) (hw : Awake .pause s w) (hs : m.seats[id]? = some w)
    (hmove : move m id w.context = some m') :
    ∃ t state, m'.seats[id]? = some t ∧ Paused id t ∧ Recharged s state ∧ Keeps s state t := by
  have hloaded := entered_loadedFrom w w.context.takeRecall .recalled (Exit.portalMask (s.handler.interest .recalled))
  have hbusy := hw.tidy.enters hw.next (Exit.portalMask (s.handler.interest .recalled))
  have hother : ¬(Exit.Reason.recalled = .recalled ∧ w.vcpu.request = some .run) := by
    rw [hw.request]
    rintro ⟨_, ⟨⟩⟩
  obtain ⟨memory, ht⟩ := deliver_aside (hw.route h.toHalted) hs hw.registered hother hw.tidy.single (by
    rw [hw.handler]
    exact h.aside _ _ hloaded.reason)
  cases (move_of_next? hw.next).symm.trans hmove
  rw [show w.context.takeRecall.registers = s.context.registers from hw.registers,
    show w.context.takeRecall.loop.fpu = s.context.loop.fpu from hw.fpu] at hloaded
  refine ⟨_, _, ht, ?_, hloaded, hw.handler, hw.registers, ?_, rfl⟩
  · refine ⟨⟨hw.registered, hbusy.waits hw.tidy.single (taken_started ..) rfl .., rfl, rfl, ⟨_, rfl, rfl⟩,
      hw.queue.trans h.queue, ?_⟩, ?_⟩
    · show Served w.handler.interest w.context.portals
      rw [hw.handler, hw.portals]
      exact h.served
    · show AsideOnRecall id w.handler
      rw [hw.handler]
      exact h.aside
  · rw [← hw.fpu]
    exact entered_image w w.context.takeRecall .recalled _

/-! ### One request -/

/-- What a request comes to. -/
def Arrived (id : Exit.VcpuId) : Request → Seat σ (Context Unit) → Seat σ (Context Unit) → Prop
  | .pause, s, t => ∃ state, Paused id t ∧ Recharged s state ∧ Keeps s state t
  | .run, s, t => Running t ∧ Released s.vcpu.state s t

/-- Where a paused vCPU can be on the way there. -/
inductive Underway (id : Exit.VcpuId) (r : Request) (s : Seat σ (Context Unit)) : Seat σ (Context Unit) → Prop where
  | posted : Underway id r s (posted r s)
  | awake {w : Seat σ (Context Unit)} (hw : Awake r s w) : Underway id r s w
  | arrived {t : Seat σ (Context Unit)} (ht : Arrived id r s t) : Underway id r s t

theorem Arrived.still {r : Request} (h : Arrived id r s t) (ht : m.seats[id]? = some t) : ¬Moves m id m' := by
  cases r with
  | pause =>
    obtain ⟨_, hpaused, _⟩ := h
    exact hpaused.still ht
  | run => exact h.1.still ht

theorem Paused.arrives (h : Paused id s) {r : Request} (hw : Awake r s w) (hs : m.seats[id]? = some w)
    (hmove : move m id w.context = some m') : ∃ t, m'.seats[id]? = some t ∧ Arrived id r s t := by
  cases r with
  | pause =>
    obtain ⟨t, state, ht, harrived⟩ := h.recharged hw hs hmove
    exact ⟨t, ht, state, harrived⟩
  | run =>
    cases (hw.move_run h.toHalted hs).symm.trans hmove
    exact ⟨_, Machine.seat_modify_of_some hs _, hw.running h.toHalted, hw.released⟩

theorem Underway.moves {r : Request} (hw : Underway id r s w) (h : Paused id s) (hs : m.seats[id]? = some w)
    (hmoves : Moves m id m') : ∃ t, m'.seats[id]? = some t ∧ Underway id r s t := by
  cases hw with
  | posted =>
    obtain ⟨w, hw, _, _, hmove⟩ := h.wakes r
    cases (hmove m hs).symm.trans ((moves_iff_move hs h.tidy.single).mp hmoves)
    exact ⟨w, Machine.seat_modify_of_some hs _, .awake hw⟩
  | awake hw =>
    obtain ⟨t, ht, harrived⟩ := h.arrives hw hs ((moves_iff_move hs hw.tidy.single).mp hmoves)
    exact ⟨t, ht, .arrived harrived⟩
  | arrived harrived => exact absurd hmoves (harrived.still hs)

theorem Underway.run {r : Request} (hw : Underway id r s w) (h : Paused id s) (hs : m.seats[id]? = some w)
    (hrun : Undisturbed id m m') : ∃ t, m'.seats[id]? = some t ∧ Underway id r s t := by
  induction hrun with
  | refl => exact ⟨w, hs, hw⟩
  | moves _ hmoves ih =>
    obtain ⟨t, ht, hunderway⟩ := ih
    exact hunderway.moves h ht hmoves
  | elsewhere _ hsame ih =>
    obtain ⟨t, ht, hunderway⟩ := ih
    exact ⟨t, hsame.trans ht, hunderway⟩

theorem Underway.rest {r : Request} (hw : Underway id r s w) (h : Paused id s) (hs : m.seats[id]? = some w)
    (hrest : advance m id = none) : Arrived id r s w := by
  have hstill := advance_eq_none_iff.mp hrest
  cases hw with
  | posted =>
    obtain ⟨w, _, _, _, hmove⟩ := h.wakes r
    exact absurd ((moves_iff_move hs h.tidy.single).mpr (hmove m hs)) (hstill _)
  | awake hw => exact absurd ((moves_iff_move hs hw.tidy.single).mpr (move_of_next? hw.next)) (hstill _)
  | arrived harrived => exact harrived

/-- The request of another thread can be followed until nothing moves, and then it has
come to what it comes to. -/
theorem Paused.asked (h : Paused id s) (hs : m.seats[id]? = some s) (r : Request) :
    (∃ m', Undisturbed id (ask r id m) m' ∧ advance m' id = none) ∧
      ∀ m', Undisturbed id (ask r id m) m' → advance m' id = none →
        ∃ t, m'.seats[id]? = some t ∧ Arrived id r s t := by
  have hposted := h.toHalted.asked hs r
  constructor
  · obtain ⟨w, hw, _, _, hmove⟩ := h.wakes r
    have hwakes := (moves_iff_move hposted h.tidy.single).mpr (hmove _ hposted)
    have hawake := Machine.seat_modify_of_some hposted fun _ => w
    have hdelivers : move ((ask r id m).modify id fun _ => w) id w.context = _ := move_of_next? hw.next
    obtain ⟨t, ht, harrived⟩ := h.arrives hw hawake hdelivers
    refine ⟨_, .moves (.moves .refl hwakes) ((moves_iff_move hawake hw.tidy.single).mpr hdelivers), ?_⟩
    exact advance_eq_none_iff.mpr fun _ => harrived.still ht
  · intro m' hrun hrest
    obtain ⟨t, ht, hunderway⟩ := Underway.posted.run h hposted hrun
    exact ⟨t, ht, hunderway.rest h ht hrest⟩

end Paused

/-! ### Edits and pauses -/

/-- What another thread does to a vCPU that is paused. -/
inductive Touch where
  | edit (f : Register.State → Register.State)
  | pause

def Touch.apply (id : Exit.VcpuId) : Touch → State σ → State σ
  | .edit f => (Operation.edit id f).apply
  | .pause => ask .pause id

/-- What is charged afterwards: a pause brings back what a recall loads. -/
def Touch.leaves (loaded : Register.State) : Register.State → Touch → Register.State
  | state, .edit f => f state
  | _, .pause => loaded

/-- What is to be charged afterwards, as a controller sees it. -/
def Touch.intends : Register.State → Touch → Register.State
  | state, .edit f => f state
  | state, .pause => state

/-- What other threads do to a paused vCPU, each time followed until nothing moves. -/
inductive Touched (id : Exit.VcpuId) : List Touch → State σ → State σ → Prop where
  | nil (m : State σ) : Touched id [] m m
  | cons {m m' m'' : State σ} {touch : Touch} {rest : List Touch} (hrun : Undisturbed id (touch.apply id m) m')
    (hrest : advance m' id = none) (h : Touched id rest m' m'') : Touched id (touch :: rest) m m''

section Touches
variable {m m' : State σ} {id : Exit.VcpuId} {s t : Seat σ (Context Unit)} {loaded state : Register.State}

theorem Keeps.recharged (h : Keeps s state t) (hloaded : Recharged s loaded) : Recharged t loaded := by
  rw [Recharged, h.handler, h.registers, h.image]
  exact hloaded

theorem Keeps.trans {t' : Seat σ (Context Unit)} {state' : Register.State} (h : Keeps s state t)
    (h' : Keeps t state' t') : Keeps s state' t' :=
  ⟨h'.handler.trans h.handler, h'.registers.trans h.registers, h'.image.trans h.image, h'.state⟩

theorem Released.of_keeps {left : Register.State} {t' : Seat σ (Context Unit)} (h : Keeps s left t)
    (h' : Released t.vcpu.state t t') : Released left s t' := by
  obtain ⟨hblocked, hgroups, himage, hstate⟩ := h'
  rw [h.state] at hgroups himage hstate
  rw [h.registers] at hgroups
  rw [h.image] at himage
  exact ⟨hblocked, hgroups, himage, hstate⟩

theorem Paused.undisturbed (h : Paused id s) (hs : m.seats[id]? = some s) (hrun : Undisturbed id m m') :
    m'.seats[id]? = some s := by
  induction hrun with
  | refl => exact hs
  | moves _ hmoves ih => exact absurd hmoves (h.still ih)
  | elsewhere _ hsame ih => exact hsame.trans ih

/-- A vCPU stays paused, and what is charged is known. -/
theorem Paused.touched (h : Paused id s) (hs : m.seats[id]? = some s) (hloaded : Recharged s loaded)
    (touch : Touch) :
    (∃ m', Undisturbed id (touch.apply id m) m' ∧ advance m' id = none) ∧
      ∀ m', Undisturbed id (touch.apply id m) m' → advance m' id = none →
        ∃ t, m'.seats[id]? = some t ∧ Paused id t ∧ Keeps s (touch.leaves loaded s.vcpu.state) t := by
  cases touch with
  | edit f =>
    have hedited : ((Operation.edit id f).apply m).seats[id]? =
        some {s with vcpu := {s.vcpu with state := f s.vcpu.state}} := by
      rw [Operation.apply, Machine.editState_eq, find?_eq_some_iff.mpr ⟨hs, h.registered⟩]
      exact Machine.seat_modify_of_some hs _
    have hpaused := h.edited f
    refine ⟨⟨_, .refl, advance_eq_none_iff.mpr fun _ => hpaused.still hedited⟩, fun m' hrun _ => ?_⟩
    exact ⟨_, hpaused.undisturbed hedited hrun, hpaused, rfl, rfl, rfl, rfl⟩
  | pause =>
    refine (h.asked hs .pause).imp_right fun hlast m' hrun hrest => ?_
    obtain ⟨t, ht, state, hpaused, hrecharged, hkeeps⟩ := hlast m' hrun hrest
    obtain rfl := hrecharged.unique hloaded
    exact ⟨t, ht, hpaused, hkeeps⟩

theorem Touched.paused {touches : List Touch} (h : Touched id touches m m') (hpaused : Paused id s)
    (hs : m.seats[id]? = some s) (hloaded : Recharged s loaded) :
    ∃ t, m'.seats[id]? = some t ∧ Paused id t ∧ Keeps s (touches.foldl (Touch.leaves loaded) s.vcpu.state) t := by
  induction h generalizing s with
  | nil m => exact ⟨s, hs, hpaused, rfl, rfl, rfl, rfl⟩
  | @cons _ _ _ touch rest hrun hrest _ ih =>
    obtain ⟨s', hs', hpaused', hkeeps⟩ := (hpaused.touched hs hloaded touch).2 _ hrun hrest
    obtain ⟨t, ht, hpaused'', hkeeps'⟩ := ih hpaused' hs' (hkeeps.recharged hloaded)
    rw [hkeeps.state] at hkeeps'
    exact ⟨t, ht, hpaused'', hkeeps.trans hkeeps'⟩

theorem Paused.exists_touched (h : Paused id s) (hs : m.seats[id]? = some s) (hloaded : Recharged s loaded)
    (touches : List Touch) : ∃ m', Touched id touches m m' := by
  induction touches generalizing m s with
  | nil => exact ⟨m, .nil m⟩
  | cons touch rest ih =>
    obtain ⟨⟨m', hrun, hrest⟩, hlast⟩ := h.touched hs hloaded touch
    obtain ⟨s', hs', hpaused, hkeeps⟩ := hlast m' hrun hrest
    obtain ⟨m'', htouched⟩ := ih hpaused hs' (hkeeps.recharged hloaded)
    exact ⟨m'', .cons hrun hrest htouched⟩

theorem exists_recharged (s : Seat σ (Context Unit)) : ∃ loaded, Recharged s loaded :=
  ⟨_, entered_loadedFrom s s.context .recalled (Exit.portalMask (s.handler.interest .recalled))⟩

theorem paused_of_rest (hm : InUse id m) (hrest : advance m id = none) (hs : m.seats[id]? = some s)
    (hregistered : s.registered = true) (hblocked : s.vcpu.blocked = true) (hqueue : s.context.queue = [])
    (haside : AsideOnRecall id s.handler) : Paused id s := by
  have htidy := hm.tidy s hs hregistered
  have hmade := reachable_made hm.reachable hs
  rcases htidy.rests hs hrest with ⟨_, hready⟩ | ⟨hrequest, _, f, hphase⟩ | ⟨_, hready, _⟩
  · cases hblocked.symm.trans hready
  · have hempty : f.mask = .empty := hmade.held s.context.loop (List.mem_cons_self ..) f hphase
    exact ⟨⟨hregistered, htidy, hrequest, hblocked, ⟨f, hphase, hempty⟩, hqueue, hmade.served⟩, haside⟩
  · cases hblocked.symm.trans hready

/-- **What reaches the guest is what has been charged since the last pause.** A vCPU is
blocked at rest, with no exit queued, and its handler stands aside on a recall. Other
threads edit its state and pause it again, in any order, and then one runs it. Each pause
has the state loaded afresh from the guest's registers; the guest goes on with that and the
edits after it, or with the state as it was and all edits if there was no pause. -/
theorem charged_since_last_pause (hm : InUse id m) (hrest : advance m id = none) (hs : m.seats[id]? = some s)
    (hregistered : s.registered = true) (hblocked : s.vcpu.blocked = true) (hqueue : s.context.queue = [])
    (haside : AsideOnRecall id s.handler) (touches : List Touch) :
    ∃ loaded, Recharged s loaded ∧ (∃ m₁, Touched id touches m m₁) ∧
      ∀ m₁, Touched id touches m m₁ → (∃ m₂, Undisturbed id (ask .run id m₁) m₂ ∧ advance m₂ id = none) ∧
        ∀ m₂, Undisturbed id (ask .run id m₁) m₂ → advance m₂ id = none →
          ∃ t, m₂.seats[id]? = some t ∧ Released (touches.foldl (Touch.leaves loaded) s.vcpu.state) s t := by
  have hpaused := paused_of_rest hm hrest hs hregistered hblocked hqueue haside
  obtain ⟨loaded, hloaded⟩ := exists_recharged s
  refine ⟨loaded, hloaded, hpaused.exists_touched hs hloaded touches, fun m₁ htouched => ?_⟩
  obtain ⟨t₁, ht₁, hpaused₁, hkeeps⟩ := htouched.paused hpaused hs hloaded
  refine (hpaused₁.asked ht₁ .run).imp_right fun hlast m₂ hrun hrest₂ => ?_
  obtain ⟨t, ht, _, hreleased⟩ := hlast m₂ hrun hrest₂
  exact ⟨t, ht, .of_keeps hkeeps hreleased⟩

end Touches

/-! ### A pause among edits -/

theorem callingHandler_asideOnRecall (cs : List Call) (id : Exit.VcpuId) : AsideOnRecall id (callingHandler cs) := by
  intro memory state hreason
  show Aside id state (List.foldr _ _ (if state.reason = .recalled then [] else cs))
  rw [if_pos hreason]
  exact .done ()

/-- The machine of a vCPU that has blocked at its startup exit. -/
def resting : State Unit := settle 3 (calling [])

theorem inUse_resting : InUse 0 resting := ((reliable_calling []).settles 3).inUse

theorem rest_resting : advance resting 0 = none := Option.isNone_iff_eq_none.mp (by decide +kernel)

theorem seat_resting : ∃ s, resting.seats[0]? = some s ∧ s.handler = callingHandler [] ∧ s.registered = true ∧
    s.vcpu.blocked = true ∧ s.context.queue = [] ∧ s.context.registers.registers.ax = 0 := by
  obtain ⟨s, hs, hevolves⟩ := (leads_becomes (leads_settle 3 (calling []))).seat (seat_calling [])
  have hfields : (resting.seats[0]?).all (fun s => s.registered && s.vcpu.blocked && s.context.queue.isEmpty &&
      s.context.registers.registers.ax == 0) = true := by decide +kernel
  rw [show resting.seats[0]? = some s from hs, Option.all_some] at hfields
  simp only [Bool.and_eq_true, List.isEmpty_iff, beq_iff_eq] at hfields
  obtain ⟨⟨⟨hregistered, hblocked⟩, hqueue⟩, hax⟩ := hfields
  exact ⟨s, hs, hevolves.handler, hregistered, hblocked, hqueue, hax⟩

/-- The recall of such a vCPU does not load the general registers. -/
theorem recharged_general {s : Seat Unit (Context Unit)} (hhandler : s.handler = callingHandler [])
    {loaded : Register.State} (h : Recharged s loaded) : (loaded.groups .general).value? = none := by
  rw [Recharged, hhandler] at h
  exact (h.groups .general).trans (if_neg (by decide))

def setGeneral (s : Register.State) : Register.State := s.charge .general (⟨1, 2, 3, 4⟩ : General)

def setFlags (s : Register.State) : Register.State := s.charge .flags (2 : UInt64)

theorem value_setGeneral (s : Register.State) :
    ((setGeneral s).groups .general).value? = some (⟨1, 2, 3, 4⟩ : General) :=
  congrArg Charged.value? (State.groups_charge ..)

theorem value_setFlags (s : Register.State) : ((setFlags s).groups .flags).value? = some (2 : UInt64) :=
  congrArg Charged.value? (State.groups_charge ..)

theorem setFlags_general (s : Register.State) : (setFlags s).groups .general = s.groups .general :=
  State.groups_setGroup_of_ne s _ (by decide)

theorem charged_since_last_pause_flags : ∃ m₁ m₂ t,
    Touched 0 [.edit setGeneral, .pause, .edit setFlags] resting m₁ ∧ Undisturbed 0 (ask .run 0 m₁) m₂ ∧
      advance m₂ 0 = none ∧ m₂.seats[0]? = some t ∧ t.context.registers.registers.ax = 0 ∧
        t.context.registers.registers.flags = 2 := by
  obtain ⟨s, hs, hhandler, hregistered, hblocked, hqueue, hax⟩ := seat_resting
  obtain ⟨loaded, hloaded, ⟨m₁, htouched⟩, hlast⟩ := charged_since_last_pause inUse_resting rest_resting hs hregistered
    hblocked hqueue (hhandler ▸ callingHandler_asideOnRecall [] 0) [.edit setGeneral, .pause, .edit setFlags]
  obtain ⟨⟨m₂, hrun, hrest⟩, hreleased⟩ := hlast m₁ htouched
  obtain ⟨t, ht, hreleased⟩ := hreleased m₂ hrun hrest
  have hgroups : ∀ g : Group, g.read t.context.registers.registers =
    ((setFlags loaded).groups g).value?.getD (g.read s.context.registers.registers) := hreleased.groups
  refine ⟨m₁, m₂, t, htouched, hrun, hrest, ht, ?_, ?_⟩
  · have hgeneral := hgroups .general
    rw [setFlags_general, recharged_general hhandler hloaded] at hgeneral
    exact (congrArg General.ax hgeneral).trans hax
  · have hflags := hgroups .flags
    rw [value_setFlags] at hflags
    exact hflags

/-- An edit that a controller has made before a pause does not reach the guest. -/
theorem pause_loses_edits : ¬∀ (m m₁ m₂ : State Unit) (s t : Seat Unit (Context Unit)) (touches : List Touch),
    InUse 0 m → advance m 0 = none → m.seats[0]? = some s → s.registered = true → s.vcpu.blocked = true →
      s.context.queue = [] → AsideOnRecall 0 s.handler → Touched 0 touches m m₁ →
        Undisturbed 0 (ask .run 0 m₁) m₂ → advance m₂ 0 = none → m₂.seats[0]? = some t →
          Released (touches.foldl Touch.intends s.vcpu.state) s t := by
  intro hclaim
  obtain ⟨s, hs, hhandler, hregistered, hblocked, hqueue, hax⟩ := seat_resting
  have haside : AsideOnRecall 0 s.handler := hhandler ▸ callingHandler_asideOnRecall [] 0
  have hpaused := paused_of_rest inUse_resting rest_resting hs hregistered hblocked hqueue haside
  obtain ⟨loaded, hloaded⟩ := exists_recharged s
  obtain ⟨m₁, htouched⟩ := hpaused.exists_touched hs hloaded [.edit setGeneral, .pause]
  obtain ⟨t₁, ht₁, hpaused₁, hkeeps⟩ := htouched.paused hpaused hs hloaded
  obtain ⟨⟨m₂, hrun, hrest⟩, hlast⟩ := hpaused₁.asked ht₁ .run
  obtain ⟨t, ht, _, hreleased⟩ := hlast m₂ hrun hrest
  have hgets : _ = (loaded.groups .general).value?.getD _ := (hreleased.of_keeps hkeeps).groups .general
  have hintended : _ = ((setGeneral s.vcpu.state).groups .general).value?.getD _ := (hclaim resting m₁ m₂ s t _
    inUse_resting rest_resting hs hregistered hblocked hqueue haside htouched hrun hrest ht).groups .general
  rw [recharged_general hhandler hloaded] at hgets
  rw [value_setGeneral] at hintended
  have hone : (0 : UInt64) = 1 := hax.symm.trans (congrArg General.ax (hgets.symm.trans hintended))
  exact absurd hone (by decide)

end Simulated

end GuestMachine
