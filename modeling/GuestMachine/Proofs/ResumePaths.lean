import GuestMachine.Proofs.Exchange
import GuestMachine.Proofs.PausedState

/-! The ways to resume a vCPU after an exit.

A handler can run its own vCPU, and what it has left goes to the guest with the answer to the
exit. Or another thread runs the vCPU, while the handler works or once the exit waits: then
the exit is answered by an empty frame, and what the handler has left goes to the guest with
the recall that follows. The guest cannot tell which way it was, and the handler is told of
the exit alone (`resume_paths_agree`).

This is so if there is nothing else for the vCPU to do, which is always the case but at its
startup exit. A pause that comes before that exit is taken by the recall, or replaced by the
run of another thread, and so the ways part (`early_pause_parts_ways`). -/
namespace GuestMachine.Simulated
open Register

variable {σ : Type}

/-! ### Steps without a choice -/

section ComesTo
variable {m m' : State σ} {id : Exit.VcpuId} {s s' t : Seat σ (Context Unit)}

/-- From one seat a vCPU makes a step, and by any step gets to the other. -/
def Onward (id : Exit.VcpuId) (s s' : Seat σ (Context Unit)) : Prop :=
  ∀ m : State σ, m.seats[id]? = some s → (∃ m', Moves m id m') ∧ ∀ m', Moves m id m' → m'.seats[id]? = some s'

/-- The steps of a vCPU lead from one seat to the other, where it makes none. -/
inductive ComesTo (id : Exit.VcpuId) : Seat σ (Context Unit) → Seat σ (Context Unit) → Prop where
  | still {s : Seat σ (Context Unit)} (h : ∀ m m', m.seats[id]? = some s → ¬Moves m id m') : ComesTo id s s
  | step {s s' t : Seat σ (Context Unit)} (h : Onward id s s') (rest : ComesTo id s' t) : ComesTo id s t

theorem onward_of_move (hsingle : s.context.others = [])
    (h : ∀ m : State σ, m.seats[id]? = some s → ∃ m', move m id s.context = some m' ∧ m'.seats[id]? = some s') : Onward id s s' := by
  intro m hs
  obtain ⟨m', hmove, hs'⟩ := h m hs
  refine ⟨⟨m', (moves_iff_move hs hsingle).mpr hmove⟩, fun m'' hmoves => ?_⟩
  cases hmove.symm.trans ((moves_iff_move hs hsingle).mp hmoves)
  exact hs'

/-- What happens elsewhere does not lead it off. -/
theorem ComesTo.undisturbed (h : ComesTo id s t) (hs : m.seats[id]? = some s) (hrun : Undisturbed id m m') :
    ∃ s', m'.seats[id]? = some s' ∧ ComesTo id s' t := by
  induction hrun with
  | refl => exact ⟨s, hs, h⟩
  | moves _ hmoves ih =>
    obtain ⟨s', hs', hcomes⟩ := ih
    cases hcomes with
    | still hstill => exact absurd hmoves (hstill _ _ hs')
    | step honward hrest => exact ⟨_, (honward _ hs').2 _ hmoves, hrest⟩
  | elsewhere _ hsame ih =>
    obtain ⟨s', hs', hcomes⟩ := ih
    exact ⟨s', hsame.trans hs', hcomes⟩

theorem ComesTo.exists_rest (h : ComesTo id s t) (hs : m.seats[id]? = some s) :
    ∃ m', Undisturbed id m m' ∧ advance m' id = none := by
  induction h generalizing m with
  | still hstill => exact ⟨m, .refl, advance_eq_none_iff.mpr fun m' => hstill m m' hs⟩
  | step honward _ ih =>
    obtain ⟨⟨m', hmoves⟩, hgets⟩ := honward m hs
    obtain ⟨m'', hrun, hrest⟩ := ih (hgets m' hmoves)
    exact ⟨m'', hrun.after (.moves .refl hmoves), hrest⟩

/-- The vCPU comes to rest, and there only. -/
theorem ComesTo.rests (h : ComesTo id s t) (hs : m.seats[id]? = some s) :
    (∃ m', Undisturbed id m m' ∧ advance m' id = none) ∧
      ∀ m', Undisturbed id m m' → advance m' id = none → m'.seats[id]? = some t := by
  refine ⟨h.exists_rest hs, fun m' hrun hrest => ?_⟩
  obtain ⟨s', hs', hcomes⟩ := h.undisturbed hs hrun
  cases hcomes with
  | still => exact hs'
  | step honward =>
    obtain ⟨m'', hmoves⟩ := (honward m' hs').1
    exact absurd hmoves (advance_eq_none_iff.mp hrest m'')

/-- A halted vCPU that is asked to run wakes, and its recall runs it. -/
theorem Halted.reruns (h : Halted s) (id : Exit.VcpuId) :
    ∃ w, Awake .run s w ∧ w.memory = s.memory ∧
      (w.context.log = s.context.log.modify s.context.loop.place fun d => {d with reply := some .empty}) ∧
      ComesTo id (posted .run s) (rerun w) := by
  obtain ⟨w, hw, hmemory, hlog, hmove⟩ := h.wakes .run
  have hwakes : Onward id (posted .run s) w := by
    refine onward_of_move h.tidy.single fun m hs => ⟨_, hmove m hs, ?_⟩
    exact Machine.seat_modify_of_some hs _
  have hreruns : Onward id w (rerun w) := by
    refine onward_of_move hw.tidy.single fun m hs => ⟨_, hw.move_run h hs, ?_⟩
    exact Machine.seat_modify_of_some hs _
  exact ⟨w, hw, hmemory, hlog, .step hwakes (.step hreruns (.still fun m m' hs => (hw.running h).still hs))⟩

end ComesTo

/-! ### Ways to resume -/

/-- Who runs a vCPU after an exit. -/
inductive Way where
  /-- Its handler. -/
  | own
  /-- Another thread, once the exit waits. -/
  | afterwards
  /-- Another thread, while the handler works. -/
  | meanwhile

namespace Way

/-- What the handler makes of the exit: it leaves a memory and a state. -/
def program (memory : σ) (left : Register.State) : Way → Program σ
  | own => .call .run fun _ => .done memory left none
  | afterwards => .done memory left none
  | meanwhile => .call .remoteRun fun _ => .done memory left none

/-- Nothing moves any more, and no one has called the vCPU but for that. -/
def Comes (id : Exit.VcpuId) (m m' : State σ) : Way → Prop
  | own | meanwhile => Undisturbed id m m' ∧ advance m' id = none
  | afterwards => ∃ m₁, Undisturbed id m m₁ ∧ advance m₁ id = none ∧
      Undisturbed id (ask .run id m₁) m' ∧ advance m' id = none

/-- The exits that are logged: the state that the handler has left goes with the last. -/
def exits (interest : Exit.Interest) (r : Exit.Reason) (left : Register.State) : Way → List Delivery
  | own => [⟨r, Exit.portalMask (interest r), some left.charged, true⟩]
  | afterwards | meanwhile =>
    [⟨r, Exit.portalMask (interest r), some .empty, true⟩,
      ⟨.recalled, Exit.portalMask (interest .recalled), some left.charged, true⟩]

/-- The seat once the handler has made its call. -/
def called (e : Seat σ (Context Unit)) : Way → Seat σ (Context Unit)
  | own => unblocked e
  | afterwards => e
  | meanwhile => posted .run e

theorem exec_program {id : Exit.VcpuId} {e : Seat σ (Context Unit)} (hstarted : e.vcpu.started = true)
    (hblocked : e.vcpu.blocked = true) (way : Way) (memory : σ) (left : Register.State) (m : State σ) :
    hypervisor.exec id (way.program memory left) (m.modify id fun _ => e) =
      (⟨memory, left, none⟩, m.modify id fun _ => way.called e) := by
  cases way with
  | own =>
    show (_, hypervisor.demand (Vcpu.run true) id _) = _
    rw [demand_eq, Machine.modify_modify, show called e own = _ from (demanded_own hstarted).symm]
    rfl
  | afterwards => rfl
  | meanwhile =>
    have hposted : demanded (Vcpu.run false) e = posted .run e := by
      rcases demanded_asked hstarted .run with heq | ⟨_, hready, _⟩
      · exact heq
      · cases hblocked.symm.trans hready
    show (_, hypervisor.demand (Vcpu.run false) id _) = _
    rw [demand_eq, Machine.modify_modify, show called e meanwhile = _ from hposted.symm]
    rfl

end Way

/-- The guest goes on with what the handler has left, and the handler is told of nothing but
the exit. -/
structure GoesOn (way : Way) (r : Exit.Reason) (s : Seat σ (Context Unit)) (left : Register.State) (memory : σ)
    (t : Seat σ (Context Unit)) : Prop where
  released : Released left s t
  registers : t.context.registers = left.granted s.context.registers
  request : t.vcpu.request = none
  memory : t.memory = memory
  log : t.context.log = s.context.log ++ way.exits s.handler.interest r left

/-! ### The exit -/

/-- An exit that a vCPU is about to hand to its handler, with nothing else for the vCPU to do:
no exit is queued, and no recall, request or signal waits but what a recall exit takes along. -/
structure HandsOver (r : Exit.Reason) (s : Seat σ (Context Unit)) (c : Context Unit) : Prop where
  registered : s.registered = true
  destroyed : s.vcpu.destroyed = false
  stop : s.context.stop = false
  single : s.context.others = []
  next : s.context.next? = some (some r, c)
  handed : ¬(r = .recalled ∧ s.vcpu.request = some .run)
  queue : c.queue = []
  unforced : c.recallPending = false
  request : r ≠ .recalled → s.vcpu.request = none
  signals : r ≠ .recalled → s.vcpu.signals.pending = 0

/-- The handler of the vCPU works on the exit. -/
structure Begun (r : Exit.Reason) (s e : Seat σ (Context Unit)) : Prop where
  registered : e.registered = true
  busy : Busy e
  started : e.vcpu.started = true
  blocked : e.vcpu.blocked = true
  request : e.vcpu.request = none
  single : e.context.others = []
  queue : e.context.queue = []
  handler : e.handler = s.handler
  served : Served s.handler.interest e.context.portals
  registers : e.context.registers = s.context.registers
  image : e.context.loop.fpu.image = s.context.loop.fpu.image
  log : e.context.log = s.context.log ++ [⟨r, Exit.portalMask (s.handler.interest r), none, true⟩]
  place : e.context.loop.place = s.context.log.length

section Exit
variable {m m' : State σ} {id : Exit.VcpuId} {s e t : Seat σ (Context Unit)} {c : Context Unit} {r : Exit.Reason}
  {memory : σ} {left : Register.State} {f : Frame}

theorem HandsOver.taken (h : HandsOver r s c) :
    (taken r s.vcpu).request = none ∧ (taken r s.vcpu).signals.pending = 0 := by
  by_cases hr : r = .recalled
  · subst hr
    exact ⟨rfl, rfl⟩
  · rw [taken_other hr]
    exact ⟨h.request hr, h.signals hr⟩

theorem HandsOver.begun (h : HandsOver r s c) (hserved : Served s.handler.interest s.context.portals) :
    Begun r s (atWork r c s) := by
  have hsteady := Context.next?_steady h.next
  obtain ⟨hrequest, hsignals⟩ := h.taken
  have hbusy : Busy (atWork r c s) := by
    refine ⟨?_, (congrArg (·.stop) hsteady).trans h.stop, ⟨?_, fun _ => hsignals⟩, fun hsome => ?_⟩
    · show (Simulated.taken r s.vcpu).destroyed = false
      unfold Simulated.taken
      split
      · exact h.destroyed
      · exact h.destroyed
    · exact h.unforced.trans (congrArg Option.isSome hrequest).symm
    · exact absurd hrequest hsome
  have hportals : c.portals = s.context.portals := congrArg (·.portals) hsteady
  have hlog : c.log = s.context.log := congrArg (·.log) hsteady
  refine ⟨h.registered, hbusy, taken_started .., rfl, hrequest, (congrArg (·.others) hsteady).trans h.single, h.queue,
    rfl, hportals ▸ hserved, congrArg (·.registers) hsteady, ?_, ?_, congrArg List.length hlog⟩
  · exact (entered_image ..).trans (congrArg (·.loop.fpu.image) hsteady)
  · show c.log ++ _ = _
    rw [hlog]

/-- The handler makes its call, and what it leaves goes to the guest or waits. -/
theorem HandsOver.onward (h : HandsOver r s c) (hserved : Served s.handler.interest s.context.portals) {way : Way}
    (hprogram : s.handler.handle s.memory (atWork r c s).vcpu.state = way.program memory left) :
    Onward id s (concluded id r (c.filled r (Exit.portalMask (s.handler.interest r))) ⟨memory, left, none⟩
      (way.called (atWork r c s))) := by
  have hbegun := h.begun hserved
  refine onward_of_move h.single fun m hs => ⟨_, move_of_next? h.next, ?_⟩
  have hwork : work id r c s m = (⟨memory, left, none⟩, m.modify id fun _ => way.called (atWork r c s)) := by
    rw [work, hprogram]
    exact way.exec_program hbegun.started hbegun.blocked memory left m
  rw [deliver_work (served_next hserved h.next) hs h.registered h.handed, hwork]
  exact Machine.seat_modify_of_some (Machine.seat_modify_of_some hs _) _

/-- The reply of an exit is what is charged in the state that answers it. -/
theorem answered_log {L : List Delivery} {mask : Mask} (hlog : c.log = L ++ [⟨r, mask, none, true⟩])
    (hplace : c.loop.place = L.length) (left : Register.State) (f : Frame) (u : Fpu) :
    (c.answer (left.store f u).1).log = L ++ [⟨r, mask, some left.charged, true⟩] := by
  rw [Context.answer_log, hlog, hplace, modify_append_length, State.store_mask]

theorem answered_registers (c : Context Unit) (left : Register.State) (f : Frame) (u : Fpu) :
    (c.answer (left.store f u).1).registers = left.granted c.registers := by
  rw [Context.answer_registers, State.reply_granted]

/-- The handler has run its vCPU. -/
theorem Begun.answered (h : Begun r s e) (id : Exit.VcpuId) (f : Frame) (memory : σ) (left : Register.State) :
    Running (concluded id r f ⟨memory, left, none⟩ (unblocked e)) ∧
      GoesOn .own r s left memory (concluded id r f ⟨memory, left, none⟩ (unblocked e)) := by
  have htidy := h.busy.unblocked.concludes h.single h.started id r f (o := ⟨memory, left, none⟩) rfl
  rw [concluded_answered id r f rfl rfl] at *
  refine ⟨running_of_answer htidy rfl h.single h.request h.queue, ?_, ?_, h.request, rfl, ?_⟩
  · exact released_of_answer rfl h.single h.registers h.image rfl rfl
  · exact (answered_registers ..).trans (congrArg left.granted h.registers)
  · refine answered_log ?_ ?_ left _ _
    · exact h.log
    · exact h.place

/-- The seat when the handler has left the exit to wait. -/
theorem Begun.held (h : Begun r s e) (id : Exit.VcpuId) (f : Frame) (memory : σ) (left : Register.State) :
    concluded id r f ⟨memory, left, none⟩ e = { e with
      vcpu := e.vcpu.leave left, memory
      context := {e.context with loop := {e.context.loop with phase := .waiting f.cleared}} } := by
  rw [concluded_blocked id r f rfl h.blocked, Context.hold_single h.single]

theorem Begun.halted (h : Begun r s e) (id : Exit.VcpuId) (f : Frame) (memory : σ) (left : Register.State) :
    Halted (concluded id r f ⟨memory, left, none⟩ e) := by
  have htidy := h.busy.concludes h.single h.started id r f (o := ⟨memory, left, none⟩) rfl
  rw [h.held] at *
  exact ⟨h.registered, htidy, h.request, h.blocked, ⟨_, rfl, rfl⟩, h.queue, h.handler ▸ h.served⟩

/-- A request that has been left meanwhile waits with it. -/
theorem Begun.posted (h : Begun r s e) (id : Exit.VcpuId) (f : Frame) (memory : σ) (left : Register.State) :
    concluded id r f ⟨memory, left, none⟩ (posted .run e) = posted .run (concluded id r f ⟨memory, left, none⟩ e) := by
  have hsingle : (Simulated.posted .run e).context.others = [] := h.single
  have hblocked : (Simulated.posted .run e).vcpu.blocked = true := h.blocked
  rw [concluded_blocked id r f rfl hblocked, Context.hold_single hsingle, h.held]
  rfl

theorem Awake.rerun_registers {w : Seat σ (Context Unit)} (hw : Awake .run s w) :
    (rerun w).context.registers = s.vcpu.state.granted s.context.registers := by
  rw [rerun, resumed_blocked _ _ hw.blocked, hw.state]
  exact (answered_registers ..).trans (congrArg s.vcpu.state.granted hw.registers)

theorem Awake.rerun_log {w : Seat σ (Context Unit)} (hw : Awake .run s w) :
    (rerun w).context.log = w.context.log ++
      [⟨.recalled, Exit.portalMask (s.handler.interest .recalled), some s.vcpu.state.charged, true⟩] := by
  rw [rerun, resumed_blocked _ _ hw.blocked, hw.state, hw.handler]
  refine answered_log ?_ ?_ s.vcpu.state _ _
  · rfl
  · rfl

/-- Another thread has run the vCPU. -/
theorem Begun.reruns (h : Begun r s e) (id : Exit.VcpuId) (f : Frame) (memory : σ) (left : Register.State) :
    ∃ t, ComesTo id (Simulated.posted .run (concluded id r f ⟨memory, left, none⟩ e)) t ∧
      ∀ way, way ≠ .own → GoesOn way r s left memory t := by
  obtain ⟨w, hw, hmemory, hlog, hcomes⟩ := (h.halted id f memory left).reruns id
  refine ⟨rerun w, hcomes, fun way hway => ?_⟩
  rw [h.held] at hw hmemory hlog
  have hexits : way.exits s.handler.interest r left = [⟨r, Exit.portalMask (s.handler.interest r), some .empty, true⟩,
      ⟨.recalled, Exit.portalMask (s.handler.interest .recalled), some left.charged, true⟩] := by
    cases way with
    | own => exact absurd rfl hway
    | afterwards | meanwhile => rfl
  obtain ⟨hblocked, hgroups, himage, hstate⟩ := hw.released
  refine ⟨⟨hblocked, ?_, ?_, hstate⟩, ?_, ?_, hmemory, ?_⟩
  · rw [← h.registers]
    exact hgroups
  · rw [← h.image]
    exact himage
  · rw [← h.registers]
    exact hw.rerun_registers
  · rw [rerun, resumed_blocked _ _ hw.blocked]
  · refine hw.rerun_log.trans ?_
    rw [hlog, h.log, h.place, modify_append_length, hexits, h.handler, List.append_assoc]
    rfl

/-- Whichever way it is, the vCPU comes to rest, and has gone on. -/
theorem HandsOver.comes (h : HandsOver r s c) (hserved : Served s.handler.interest s.context.portals)
    (hs : m.seats[id]? = some s) {way : Way}
    (hprogram : s.handler.handle s.memory (atWork r c s).vcpu.state = way.program memory left) :
    (∃ m', way.Comes id m m') ∧ ∀ m', way.Comes id m m' → ∃ t, m'.seats[id]? = some t ∧ GoesOn way r s left memory t := by
  have hbegun := h.begun hserved
  have honward : Onward id s _ := h.onward hserved hprogram
  generalize c.filled r (Exit.portalMask (s.handler.interest r)) = f at honward
  obtain ⟨t, hcomes, hgoesOn⟩ := hbegun.reruns id f memory left
  cases way with
  | own =>
    obtain ⟨hrunning, hgoes⟩ := hbegun.answered id f memory left
    obtain ⟨hexists, hlast⟩ := (ComesTo.step honward (.still fun m m' hs => hrunning.still hs)).rests hs
    exact ⟨hexists, fun m' ⟨hrun, hrest⟩ => ⟨_, hlast m' hrun hrest, hgoes⟩⟩
  | afterwards =>
    have hhalted := hbegun.halted id f memory left
    obtain ⟨⟨m₁, hrun₁, hrest₁⟩, hlast₁⟩ := (ComesTo.step honward (.still fun m m' hs => hhalted.still hs)).rests hs
    have hasked := fun m₁ hrun₁ hrest₁ => hcomes.rests (hhalted.asked (hlast₁ m₁ hrun₁ hrest₁) .run)
    constructor
    · obtain ⟨m', hcomes'⟩ := (hasked m₁ hrun₁ hrest₁).1
      exact ⟨m', m₁, hrun₁, hrest₁, hcomes'⟩
    · rintro m' ⟨m₁, hrun₁, hrest₁, hrun, hrest⟩
      exact ⟨t, (hasked m₁ hrun₁ hrest₁).2 m' hrun hrest, hgoesOn .afterwards nofun⟩
  | meanwhile =>
    rw [show Way.called (atWork r c s) .meanwhile = posted .run (atWork r c s) from rfl, hbegun.posted] at honward
    obtain ⟨hexists, hlast⟩ := (ComesTo.step honward hcomes).rests hs
    exact ⟨hexists, fun m' ⟨hrun, hrest⟩ => ⟨t, hlast m' hrun hrest, hgoesOn .meanwhile nofun⟩⟩

/-- While a vCPU is in use, there is nothing else for it to do at any exit but the first. -/
theorem Tidy.handsOver (h : Tidy s) (hregistered : s.registered = true) (hnext : s.context.next? = some (some r, c))
    (hhanded : ¬(r = .recalled ∧ s.vcpu.request = some .run)) (hqueue : c.queue = [])
    (hearly : s.context.loop.phase = .starting → s.vcpu.request = none) : HandsOver r s c := by
  have hrequest : r ≠ .recalled → s.vcpu.request = none := by
    intro hother
    rcases Context.next?_cases hnext with ⟨hphase, _⟩ | ⟨_, ⟨_, hfalse, _⟩ | ⟨_, _, hr, _⟩ | ⟨_, hrecall, _⟩⟩
    · exact hearly hphase
    · cases hfalse
    · exact absurd (Option.some.inj hr) hother
    · rwa [h.linked.forced, Option.isSome_eq_false_iff, Option.isNone_iff_eq_none] at hrecall
  obtain ⟨hrecalled, hsame⟩ := h.next hnext
  have hrecall : c.recallPending = false := by
    by_cases hr : r = .recalled
    · exact hrecalled hr
    · exact (hsame hr).1.trans (h.unforced (hrequest hr))
  exact ⟨hregistered, h.destroyed, h.stop, h.single, hnext, hhanded, hqueue, hrecall, hrequest,
    fun hother => h.linked.stale (hrequest hother)⟩

end Exit

/-! ### Resuming -/

/-- The vCPU gets another handler. -/
def give (id : Exit.VcpuId) (h : Handler σ) (m : State σ) : State σ := m.modify id fun s => {s with handler := h}

section Resuming
variable {m : State σ} {id : Exit.VcpuId} {s : Seat σ (Context Unit)} {c : Context Unit} {r : Exit.Reason}

theorem HandsOver.given (h : HandsOver r s c) (g : Handler σ) : HandsOver r {s with handler := g} c :=
  ⟨h.registered, h.destroyed, h.stop, h.single, h.next, h.handed, h.queue, h.unforced, h.request, h.signals⟩

/-- A handler with the same interest starts with the same state. -/
theorem atWork_given {g : Handler σ} (hinterest : g.interest = s.handler.interest) :
    (atWork r c {s with handler := g}).vcpu.state = (atWork r c s).vcpu.state := by
  simp only [atWork, hinterest]
  rfl

/-- **The guest cannot tell how it was resumed.** A vCPU is about to hand an exit to its
handler, and there is nothing else for it to do; while it is in use, that is so at every exit
with no other exit queued, but for a request at its startup exit. The handler makes some change
to the state. Then the vCPU is run by the handler itself, by another thread once the exit waits,
or by another thread while the handler works. It comes to rest each time, and wherever it does,
the guest's registers, the unit's image, the state, the flag and the request are the same. If
another thread has run it, the exit gets an empty reply, and the reply follows with a recall,
of which the handler, whatever it does on recalls, is not told. -/
theorem resume_paths_agree (hm : Reachable m) (hs : m.seats[id]? = some s) :
    (InUse id m → s.registered = true → s.context.next? = some (some r, c) →
      ¬(r = .recalled ∧ s.vcpu.request = some .run) → c.queue = [] →
      (s.context.loop.phase = .starting → s.vcpu.request = none) → HandsOver r s c) ∧
    (HandsOver r s c → ∀ (f : Register.State → Register.State) (way : Way) (memory : σ) (h : Handler σ),
      let loaded := (atWork r c s).vcpu.state
      h.interest = s.handler.interest → h.handle s.memory loaded = way.program memory (f loaded) →
      (∃ m', way.Comes id (give id h m) m') ∧
        ∀ m', way.Comes id (give id h m) m' → ∃ t, m'.seats[id]? = some t ∧ GoesOn way r s (f loaded) memory t) := by
  constructor
  · intro hinUse hregistered hnext hhanded hqueue hearly
    exact (hinUse.tidy s hs hregistered).handsOver hregistered hnext hhanded hqueue hearly
  · intro hhands f way memory h loaded hinterest hhandle
    have hserved : Served h.interest s.context.portals := by
      rw [hinterest]
      exact (reachable_made hm hs).served
    have hseat : (give id h m).seats[id]? = some {s with handler := h} := Machine.seat_modify_of_some hs _
    have hprogram : h.handle s.memory (atWork r c {s with handler := h}).vcpu.state = way.program memory (f loaded) := by
      rw [atWork_given hinterest]
      exact hhandle
    obtain ⟨hexists, hlast⟩ := (hhands.given h).comes hserved hseat hprogram
    refine ⟨hexists, fun m' hcomes => ?_⟩
    obtain ⟨t, ht, ⟨hblocked, hgroups, himage, hstate⟩, hregisters, hrequest, hmemory, hlog⟩ := hlast m' hcomes
    rw [hinterest] at hlog
    exact ⟨t, ht, ⟨hblocked, hgroups, himage, hstate⟩, hregisters, hrequest, hmemory, hlog⟩

end Resuming

/-- A handler that changes the general registers at every exit. -/
def editingHandler (way : Way) : Handler Unit := ⟨fun _ => none, fun _ state => way.program () (setGeneral state)⟩

/-- At the startup exit the handler runs the vCPU, or another thread does afterwards. -/
theorem resume_paths_agree_startup : ∃ m₁ m₂ t₁ t₂,
    Way.own.Comes 0 (give 0 (editingHandler .own) (calling [])) m₁ ∧
      Way.afterwards.Comes 0 (give 0 (editingHandler .afterwards) (calling [])) m₂ ∧
      m₁.seats[0]? = some t₁ ∧ m₂.seats[0]? = some t₂ ∧ t₁.context.registers = t₂.context.registers ∧
      t₁.context.registers.registers.ax = 1 ∧ t₁.context.log.length = 1 ∧ t₂.context.log.length = 2 := by
  have hinUse : InUse 0 (calling []) := (reliable_calling []).inUse
  obtain ⟨hhands, hresumes⟩ := resume_paths_agree (reachable_calling []) (seat_calling []) (r := .startup)
    (c := (newSeat false (callingHandler []) ()).context.enter .ready)
  have hhands := hhands hinUse rfl rfl (by decide) rfl fun _ => rfl
  obtain ⟨⟨m₁, hcomes₁⟩, hlast₁⟩ := hresumes hhands setGeneral .own () (editingHandler .own) rfl rfl
  obtain ⟨⟨m₂, hcomes₂⟩, hlast₂⟩ := hresumes hhands setGeneral .afterwards () (editingHandler .afterwards) rfl rfl
  obtain ⟨t₁, ht₁, hgoes₁⟩ := hlast₁ m₁ hcomes₁
  obtain ⟨t₂, ht₂, hgoes₂⟩ := hlast₂ m₂ hcomes₂
  have hgeneral := hgoes₁.released.groups .general
  rw [value_setGeneral] at hgeneral
  refine ⟨m₁, m₂, t₁, t₂, hcomes₁, hcomes₂, ht₁, ht₂, hgoes₁.registers.trans hgoes₂.registers.symm,
    congrArg General.ax hgeneral, ?_, ?_⟩
  · rw [hgoes₁.log]
    rfl
  · rw [hgoes₂.log]
    rfl

/-! ### A pause that comes early -/

/-- The steps that a vCPU makes by itself, that many at most. -/
def follow (id : Exit.VcpuId) : Nat → State σ → State σ
  | 0, m => m
  | steps + 1, m =>
    match advance m id with
    | none => m
    | some m' => follow id steps m'

theorem undisturbed_follow (id : Exit.VcpuId) (steps : Nat) (m : State σ) : Undisturbed id m (follow id steps m) := by
  induction steps generalizing m with
  | zero => exact .refl
  | succ steps ih =>
    unfold follow
    split
    next => exact .refl
    next m' hadvance => exact (ih m').after (.moves .refl (moves_of_advance hadvance))

/-- A machine whose vCPU has been paused before its launch. -/
def early : State Unit :=
  (Operation.launch 0).apply ((Operation.pause 0).apply ((Operation.create (callingHandler []) ()).apply (empty true)))

theorem inUse_early : InUse 0 early := by
  have hcreated : InUse 0 ((Operation.create (callingHandler []) ()).apply (empty true)) :=
    .operation (.begin true) _ trivial
  refine (hcreated.operation (.pause 0) trivial).operation (.launch 0) ?_
  rintro - s hs
  cases hs
  rfl

/-- At a startup exit with a pause before it, the handler's own run leaves the pause to the
recall, which blocks the vCPU; the run of another thread takes its place. -/
theorem early_pause_parts_ways : ¬∀ (m m₁ m₂ : State Unit) (s t₁ t₂ : Seat Unit (Context Unit)) (c : Context Unit)
    (r : Exit.Reason) (f : Register.State → Register.State) (h₁ h₂ : Handler Unit),
    InUse 0 m → m.seats[0]? = some s → s.registered = true → s.context.next? = some (some r, c) →
      ¬(r = .recalled ∧ s.vcpu.request = some .run) → c.queue = [] →
      h₁.interest = s.handler.interest → h₂.interest = s.handler.interest →
      h₁.handle s.memory (atWork r c s).vcpu.state = Way.own.program () (f (atWork r c s).vcpu.state) →
      h₂.handle s.memory (atWork r c s).vcpu.state = Way.meanwhile.program () (f (atWork r c s).vcpu.state) →
      Way.own.Comes 0 (give 0 h₁ m) m₁ → Way.meanwhile.Comes 0 (give 0 h₂ m) m₂ →
      m₁.seats[0]? = some t₁ → m₂.seats[0]? = some t₂ → t₁.vcpu.blocked = t₂.vcpu.blocked := by
  intro hclaim
  have hblocked₁ : ((follow 0 9 (give 0 (callingHandler [.run]) early)).seats[0]?).any (·.vcpu.blocked) = true := by
    decide +kernel
  have hblocked₂ : ((follow 0 9 (give 0 (callingHandler [.remoteRun]) early)).seats[0]?).any (!·.vcpu.blocked) = true := by
    decide +kernel
  have hrest₁ : advance (follow 0 9 (give 0 (callingHandler [.run]) early)) 0 = none :=
    Option.isNone_iff_eq_none.mp (by decide +kernel)
  have hrest₂ : advance (follow 0 9 (give 0 (callingHandler [.remoteRun]) early)) 0 = none :=
    Option.isNone_iff_eq_none.mp (by decide +kernel)
  obtain ⟨t₁, ht₁, hblocked₁⟩ := (Option.any_eq_true _ _).mp hblocked₁
  obtain ⟨t₂, ht₂, hblocked₂⟩ := (Option.any_eq_true _ _).mp hblocked₂
  have hsame := hclaim early _ _ _ t₁ t₂ _ .startup id (callingHandler [.run]) (callingHandler [.remoteRun]) inUse_early
    rfl rfl rfl (by decide) rfl rfl rfl rfl rfl ⟨undisturbed_follow .., hrest₁⟩ ⟨undisturbed_follow .., hrest₂⟩ ht₁ ht₂
  rw [hblocked₁] at hsame
  rw [← hsame] at hblocked₂
  cases hblocked₂

end GuestMachine.Simulated
