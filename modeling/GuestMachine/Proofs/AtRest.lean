import GuestMachine.Proofs.InUse
import Mathlib.Logic.Basic

/-! What is left at rest.

A call to run or pause leaves three things at once: a request, a recall and a signal. The
recall exit takes the request and all signals, and the hypervisor takes the recall when it
delivers that exit; a blocked exit takes one signal more to get there. So in between, a
request never stands without its recall, nor a signal without a request (`Linked`), and a
vCPU that has a request to wait for can move. At rest none of the three is left
(`nothing_left_behind`).

This is shown of a vCPU with one dispatch loop and a handler that does not fail, in whatever
a machine is used for (`InUse`); the handler may do anything else, and so may all others. -/
namespace GuestMachine.Simulated
open Register

variable {σ : Type}

/-! ### Requests on their way -/

/-- A request stands with its recall, and a signal with a request. -/
structure Linked (s : Seat σ (Context Unit)) : Prop where
  forced : s.context.recallPending = s.vcpu.request.isSome
  stale : s.vcpu.request = none → s.vcpu.signals.pending = 0

/-- A request has its signal still. -/
def Signalled (s : Seat σ (Context Unit)) : Prop := s.vcpu.request ≠ none → 0 < s.vcpu.signals.pending

/-- What goes with the phase that the dispatch loop is in. Only a wake takes the signal of a
request, and only that leaves a loop ready with its vCPU blocked. -/
def Placed (s : Seat σ (Context Unit)) : Prop :=
  match s.context.loop.phase with
  | .off => s.vcpu.started = false ∧ s.vcpu.blocked = false ∧ Signalled s
  | .starting => Signalled s
  | .ready => s.vcpu.started = true ∧ (s.vcpu.blocked = true → s.vcpu.request ≠ none)
  | .waiting _ => s.vcpu.started = true ∧ s.vcpu.blocked = true ∧ Signalled s

/-- The seat of a vCPU that takes part in what happens. -/
structure Tidy (s : Seat σ (Context Unit)) : Prop where
  destroyed : s.vcpu.destroyed = false
  stop : s.context.stop = false
  single : s.context.others = []
  dispatching : s.vcpu.dispatching = false
  linked : Linked s
  placed : Placed s

/-- The seat of a vCPU whose handler works. -/
structure Busy (s : Seat σ (Context Unit)) : Prop where
  destroyed : s.vcpu.destroyed = false
  stop : s.context.stop = false
  linked : Linked s
  signalled : Signalled s

theorem linked_posted (r : Request) (s : Seat σ (Context Unit)) : Linked (posted r s) := by
  refine ⟨rfl, fun hnone => ?_⟩
  cases hnone

theorem signalled_posted (r : Request) (s : Seat σ (Context Unit)) : Signalled (posted r s) :=
  fun _ => Nat.succ_pos _

theorem Tidy.posted {s : Seat σ (Context Unit)} (h : Tidy s) (r : Request) : Tidy (posted r s) := by
  refine ⟨h.destroyed, h.stop, h.single, h.dispatching, linked_posted r s, ?_⟩
  have hplaced := h.placed
  cases hphase : s.context.loop.phase with
  | off =>
    rw [Placed, hphase] at hplaced
    rw [Placed, show (Simulated.posted r s).context.loop.phase = .off from hphase]
    exact ⟨hplaced.1, hplaced.2.1, signalled_posted r s⟩
  | starting =>
    rw [Placed, show (Simulated.posted r s).context.loop.phase = .starting from hphase]
    exact signalled_posted r s
  | ready =>
    rw [Placed, hphase] at hplaced
    rw [Placed, show (Simulated.posted r s).context.loop.phase = .ready from hphase]
    exact ⟨hplaced.1, fun _ => Option.some_ne_none r⟩
  | waiting f =>
    rw [Placed, hphase] at hplaced
    rw [Placed, show (Simulated.posted r s).context.loop.phase = .waiting f from hphase]
    exact ⟨hplaced.1, hplaced.2.1, signalled_posted r s⟩

theorem Tidy.started_of_ready {s : Seat σ (Context Unit)} (h : Tidy s) (hphase : s.context.loop.phase = .ready) :
    s.vcpu.started = true := by
  have hplaced := h.placed
  rw [Placed, hphase] at hplaced
  exact hplaced.1

theorem Tidy.started_of_waiting {s : Seat σ (Context Unit)} (h : Tidy s) {f : Frame}
    (hphase : s.context.loop.phase = .waiting f) : s.vcpu.started = true := by
  have hplaced := h.placed
  rw [Placed, hphase] at hplaced
  exact hplaced.1

theorem Busy.posted {s : Seat σ (Context Unit)} (h : Busy s) (r : Request) : Busy (posted r s) :=
  ⟨h.destroyed, h.stop, linked_posted r s, signalled_posted r s⟩

theorem Busy.unblocked {s : Seat σ (Context Unit)} (h : Busy s) : Busy (unblocked s) := by
  obtain ⟨hdestroyed, hstop, ⟨hforced, hstale⟩, hsignalled⟩ := h
  exact ⟨hdestroyed, hstop, ⟨hforced, hstale⟩, hsignalled⟩

/-- A property of a seat until its vCPU is destroyed. -/
def WhileRegistered (P : Seat σ (Context Unit) → Prop) (s : Seat σ (Context Unit)) : Prop :=
  s.registered = true → P s

theorem gone_whileRegistered {P : Seat σ (Context Unit) → Prop} (id : Exit.VcpuId) (s : Seat σ (Context Unit)) :
    WhileRegistered P (gone id s) := fun hfalse => by cases hfalse

theorem tidy_keptByCalls : KeptByCalls false (WhileRegistered (@Tidy σ)) := by
  refine ⟨fun r _ h hreg => (h hreg).posted r, ?_, fun id s _ => gone_whileRegistered id s⟩
  exact fun hfalse => absurd hfalse Bool.false_ne_true

/-- The handler may also run its own vCPU. -/
theorem busy_keptByCalls (own : Bool) : KeptByCalls own (WhileRegistered (@Busy σ)) := by
  exact ⟨fun r _ h hreg => (h hreg).posted r, fun _ s h hreg => (h hreg).unblocked, fun id s _ => gone_whileRegistered id s⟩

/-! ### Steps of the vCPU -/

section Steps
variable {m m' : State σ} {id : Exit.VcpuId} {s : Seat σ (Context Unit)} {c : Context Unit} {r : Exit.Reason}

/-- The only loop has gone on. -/
theorem Tidy.of_answer {f : Frame} (hcontext : s.context = c.answer f) (hsingle : c.others = [])
    (hstop : c.stop = false) (hdestroyed : s.vcpu.destroyed = false) (hdispatching : s.vcpu.dispatching = false)
    (hforced : c.recallPending = s.vcpu.request.isSome)
    (hstale : s.vcpu.request = none → s.vcpu.signals.pending = 0) (hstarted : s.vcpu.started = true)
    (hblocked : s.vcpu.blocked = true → s.vcpu.request ≠ none) : Tidy s := by
  rw [Context.answer_single hsingle] at hcontext
  refine ⟨hdestroyed, ?_, ?_, hdispatching, ⟨?_, hstale⟩, ?_⟩
  · rw [hcontext]
    exact hstop
  · rw [hcontext]
    exact hsingle
  · rw [hcontext]
    exact hforced
  · rw [Placed, hcontext]
    exact ⟨hstarted, hblocked⟩

/-- A blocked exit takes a signal only for a request, and so its wait is over. -/
theorem Tidy.wake (h : Tidy s) {f : Frame} (hphase : s.context.loop.phase = .waiting f) {ends : Bool} {v : Vcpu}
    (hwake : s.vcpu.wake? = some (ends, v)) :
    Tidy {s with vcpu := v, context := if ends then s.context.answer f else s.context} := by
  obtain ⟨rest, hdown, hv⟩ := Option.map_eq_some_iff.mp hwake
  obtain ⟨rfl, rfl⟩ := Prod.mk.inj hv
  have hplaced := h.placed
  rw [Placed, hphase] at hplaced
  have hsome : s.vcpu.request ≠ none := by
    intro hnone
    rw [Semaphore.down?, h.linked.stale hnone] at hdown
    cases hdown
  have hends : (s.vcpu.destroyed || s.vcpu.request.isSome) = true := by
    rw [Option.isSome_iff_ne_none.mpr hsome, Bool.or_true]
  refine .of_answer (if_pos hends) h.single h.stop h.destroyed h.dispatching h.linked.forced ?_ hplaced.1 ?_
  · exact fun hnone => absurd hnone hsome
  · exact fun _ => hsome

/-- The exit that comes next takes a recall with it. Any other exit finds requests as they
have been left. -/
theorem Tidy.next (h : Tidy s) (hnext : s.context.next? = some (some r, c)) :
    (r = .recalled → c.recallPending = false) ∧
      (r ≠ .recalled → c.recallPending = s.context.recallPending ∧ Signalled s) := by
  have hplaced := h.placed
  rcases Context.next?_cases hnext with ⟨hphase, hr, rfl⟩ | ⟨_, ⟨_, hr, _⟩ | ⟨_, _, hr, rfl⟩ | ⟨_, hrecall, _, _, _, _, rfl⟩⟩
  · obtain rfl := Option.some.inj hr
    rw [Placed, hphase] at hplaced
    exact ⟨fun hrecalled => absurd hrecalled (by decide), fun _ => ⟨rfl, hplaced⟩⟩
  · cases hr
  · exact ⟨fun _ => rfl, fun hother => absurd (Option.some.inj hr) hother⟩
  · refine ⟨fun _ => hrecall, fun _ => ⟨rfl, fun hsome => ?_⟩⟩
    rw [h.linked.forced, Option.isSome_eq_false_iff, Option.isNone_iff_eq_none] at hrecall
    exact absurd hrecall hsome

theorem Tidy.enters (h : Tidy s) (hnext : s.context.next? = some (some r, c)) (mask : Mask) :
    Busy (entered r (c.recorded r mask true) (c.filled r mask) s) := by
  have hstop : c.stop = false := (congrArg (·.stop) (Context.next?_steady hnext)).trans h.stop
  obtain ⟨hrecalled, hother⟩ := h.next hnext
  by_cases hr : r = .recalled
  · -- The recall exit has taken the request and all signals.
    subst hr
    refine ⟨h.destroyed, hstop, ⟨hrecalled rfl, fun _ => rfl⟩, fun hsome => ?_⟩
    exact absurd rfl hsome
  · obtain ⟨hrecall, hsignalled⟩ := hother hr
    have htaken := taken_other hr s.vcpu
    refine ⟨?_, hstop, ⟨?_, ?_⟩, ?_⟩
    · show (taken r s.vcpu).destroyed = false
      rw [htaken]
      exact h.destroyed
    · show c.recallPending = (taken r s.vcpu).request.isSome
      rw [htaken, hrecall]
      exact h.linked.forced
    · show (taken r s.vcpu).request = none → (taken r s.vcpu).signals.pending = 0
      rw [htaken]
      exact h.linked.stale
    · show (taken r s.vcpu).request ≠ none → 0 < (taken r s.vcpu).signals.pending
      rw [htaken]
      exact hsignalled

/-- A recall that finds a request to run leaves none of it. -/
theorem Tidy.resumes (h : Tidy s) (hnext : s.context.next? = some (some .recalled, c)) (mask : Mask) :
    Tidy (resumed (c.recorded .recalled mask true) (c.filled .recalled mask) s) := by
  have hsteady := Context.next?_steady hnext
  have hsingle : c.others = [] := (congrArg (·.others) hsteady).trans h.single
  have hstop : c.stop = false := (congrArg (·.stop) hsteady).trans h.stop
  obtain ⟨state, hv⟩ := Vcpu.resume_fst (taken .recalled s.vcpu) (c.filled .recalled mask) c.loop.fpu
  have hvcpu : (resumed (c.recorded .recalled mask true) (c.filled .recalled mask) s).vcpu =
      {taken .recalled s.vcpu with state, blocked := false} := hv
  refine .of_answer rfl hsingle hstop ?_ ?_ ?_ ?_ ?_ ?_
  · exact (congrArg (·.destroyed) hvcpu).trans h.destroyed
  · exact (congrArg (·.dispatching) hvcpu).trans h.dispatching
  · rw [hvcpu]
    exact (h.next hnext).1 rfl
  · exact fun _ => congrArg (·.signals.pending) hvcpu
  · exact congrArg (·.started) hvcpu
  · rw [hvcpu]
    exact fun hblocked => absurd hblocked Bool.false_ne_true

/-- The handler has finished with an exit that waits. -/
theorem Busy.waits {w : Seat σ (Context Unit)} (h : Busy w) (hsingle : w.context.others = [])
    (hstarted : w.vcpu.started = true) (hblocked : w.vcpu.blocked = true) (memory : σ) (state : Register.State)
    (f : Frame) :
    Tidy { w with
      vcpu := w.vcpu.leave state, memory
      context := {w.context with loop := {w.context.loop with phase := .waiting f}} } :=
  ⟨h.destroyed, h.stop, hsingle, rfl, ⟨h.linked.forced, h.linked.stale⟩, hstarted, hblocked, h.signalled⟩

/-- It has finished with an exit, which waits or goes to the guest. -/
theorem Busy.concludes {w : Seat σ (Context Unit)} (h : Busy w) (hsingle : w.context.others = [])
    (hstarted : w.vcpu.started = true) (id : Exit.VcpuId) (r : Exit.Reason) (f : Frame)
    {o : Hypervisor.Outcome σ} (ho : o.failure = none) : Tidy (concluded id r f o w) := by
  cases hblocked : w.vcpu.blocked with
  | true =>
    rw [concluded_blocked id r f ho hblocked, Context.hold_single hsingle]
    exact h.waits hsingle hstarted hblocked ..
  | false =>
    rw [concluded_answered id r f ho hblocked]
    refine .of_answer rfl hsingle h.stop h.destroyed rfl h.linked.forced h.linked.stale hstarted ?_
    exact fun htrue => absurd htrue (Bool.eq_false_iff.mp hblocked)

/-- A handler that does not fail finishes with the exit that its vCPU has taken. -/
theorem Tidy.handled (h : Tidy s) (hs : m.seats[id]? = some s) (hnext : s.context.next? = some (some r, c))
    (hdone : (work id r c s m).1.failure = none) (f : Frame) :
    Has ((work id r c s m).2.modify id (concluded id r f (work id r c s m).1)) id (WhileRegistered Tidy) := by
  obtain ⟨w, hw, hbare⟩ := exists_worked hs (s.handler.handle s.memory (atWork r c s).vcpu.state) (atWork r c s)
  refine has_modify fun w' hw' hreg => ?_
  cases hw.symm.trans hw'
  rw [concluded_registered] at hreg
  have hbegun : Has (m.modify id fun _ => atWork r c s) id (WhileRegistered Busy) :=
    has_modify_const fun _ => h.enters hnext _
  have hbusy : Busy w := hbegun.exec (busy_keptByCalls _) _ w hw hreg
  refine hbusy.concludes ?_ ?_ id r f hdone
  · exact (congrArg (·.context.others) hbare).trans ((congrArg (·.others) (Context.next?_steady hnext)).trans h.single)
  · exact (congrArg (·.vcpu.started) hbare).trans (taken_started r s.vcpu)

/-- The loop does not end by itself, as nothing has told it to stop. -/
theorem Tidy.unfinished (h : Tidy s) : s.context.next? ≠ some (none, c) := by
  intro hnext
  rcases Context.next?_cases hnext with ⟨_, hfalse, _⟩ | ⟨_, ⟨hstop, _⟩ | ⟨_, _, hfalse, _⟩ | ⟨_, _, _, _, _, hfalse, _⟩⟩
  · cases hfalse
  · cases hstop.symm.trans h.stop
  · cases hfalse
  · cases hfalse

/-- The vCPU makes a step, and its handler does not fail. -/
theorem Tidy.moves (h : Tidy s) (hm : Reachable m) (hs : m.seats[id]? = some s) (hreg : s.registered = true)
    (hmoves : Moves m id m') (hworks : ¬Fails m id) : Has m' id (WhileRegistered Tidy) := by
  rcases move_cases hs ((moves_iff_move hs h.single).mp hmoves) with
    ⟨f, ends, v, hphase, hwake, rfl⟩ | ⟨c, hnext, rfl⟩ | ⟨r, c, hnext, rfl⟩
  · exact has_modify_const fun _ => h.wake hphase hwake
  · exact absurd hnext h.unfinished
  · have hserved := served_next (reachable_made hm hs).served hnext
    by_cases hcall : r = .recalled ∧ s.vcpu.request = some .run
    · obtain ⟨rfl, hrun⟩ := hcall
      rw [deliver_resumed (hserved _) hs hreg hrun]
      exact has_modify_const fun _ => h.resumes hnext _
    · have hturn : s.context ∈ s.context.turns := by
        rw [Context.turns_single h.single]
        exact List.mem_singleton_self _
      have hdone : (work id r c s m).1.failure = none := Classical.byContradiction fun hfails =>
        hworks ⟨s, s.context, r, c, hs, hreg, hturn, hnext, hcall, hfails⟩
      rw [deliver_work hserved hs hreg hcall]
      exact h.handled hs hnext hdone _

theorem Has.moves_own (h : Has m id (WhileRegistered Tidy)) (hm : Reachable m) (hmoves : Moves m id m')
    (hworks : ¬Fails m id) : Has m' id (WhileRegistered Tidy) := by
  obtain ⟨s, hs⟩ : ∃ s, m.seats[id]? = some s := hmoves.imp fun _ ⟨_, hs, _⟩ => hs
  intro s' hs' hreg'
  have hreg := registered_of_moves hmoves hs hs' hreg'
  exact (h s hs hreg).moves hm hs hreg hmoves hworks s' hs' hreg'

end Steps

/-! ### Runs -/

theorem Tidy.of_same {s s' : Seat σ (Context Unit)} (h : Tidy s) (hvcpu : s'.vcpu = {s.vcpu with state := s'.vcpu.state})
    (hphase : s'.context.loop.phase = s.context.loop.phase) (hothers : s'.context.others = [])
    (hstop : s'.context.stop = s.context.stop) (hrecall : s'.context.recallPending = s.context.recallPending) :
    Tidy s' := by
  refine ⟨?_, hstop.trans h.stop, hothers, ?_, ⟨?_, ?_⟩, ?_⟩
  · rw [hvcpu]
    exact h.destroyed
  · rw [hvcpu]
    exact h.dispatching
  · rw [hvcpu, hrecall]
    exact h.linked.forced
  · rw [hvcpu]
    exact h.linked.stale
  · rw [Placed, Signalled, hvcpu, hphase]
    exact h.placed

theorem tidy_newSeat (deferred : Bool) (handler : Handler σ) (memory : σ) :
    Tidy (newSeat deferred handler memory) := by
  cases deferred with
  | true => exact ⟨rfl, rfl, rfl, rfl, ⟨rfl, fun _ => rfl⟩, rfl, rfl, fun hsome => absurd rfl hsome⟩
  | false => exact ⟨rfl, rfl, rfl, rfl, ⟨rfl, fun _ => rfl⟩, fun hsome => absurd rfl hsome⟩

/-- A vCPU is launched. -/
theorem Tidy.launched {s : Seat σ (Context Unit)} (h : Tidy s) (hloops : s.context.loops = []) :
    Tidy {s with context := s.context.launch} := by
  have hplaced := h.placed
  rw [Placed, (Context.loops_eq_nil hloops).1] at hplaced
  refine ⟨h.destroyed, h.stop, ?_, h.dispatching, ⟨h.linked.forced, h.linked.stale⟩, hplaced.2.2⟩
  show s.context.loops.map _ = []
  rw [hloops, List.map_nil]

theorem Tidy.of_untouched {s s' : Seat σ (Context Unit)} (h : Tidy s) (hsame : untouched s' = untouched s) : Tidy s' := by
  have hothers : s'.context.others.map _ = s.context.others.map _ := congrArg (·.context.others) hsame
  rw [h.single, List.map_nil, List.map_eq_nil_iff] at hothers
  have hvcpu : {s'.vcpu with state := {}} = {s.vcpu with state := {}} := congrArg (·.vcpu) hsame
  refine h.of_same ?_ (congrArg (·.context.loop.phase) hsame) hothers (congrArg (·.context.stop) hsame)
    (congrArg (·.context.recallPending) hsame)
  exact congrArg (fun v => {v with state := s'.vcpu.state}) hvcpu

theorem Has.operation {m : State σ} {id : Exit.VcpuId} (h : Has m id (WhileRegistered Tidy)) (o : Operation σ)
    (ho : o.Regular id m) : Has (o.apply m) id (WhileRegistered Tidy) := by
  refine h.apply tidy_keptByCalls (fun s s' hsame hs hreg => ?_) o (fun _ _ _ _ => tidy_newSeat ..) ?_ ?_ ?_
  · exact (hs ((congrArg (·.registered) hsame).symm.trans hreg)).of_untouched hsame
  · rintro rfl s hs hreg
    exact (h s hs hreg).launched (ho rfl s hs)
  · rintro r rfl s hs hreg
    exact (hs hreg).of_same rfl rfl (hs hreg).single rfl rfl
  · rintro rfl
    exact ho rfl

theorem InUse.tidy {m : State σ} {id : Exit.VcpuId} (h : InUse id m) :
    Has m id (WhileRegistered Tidy) := by
  induction h with
  | begin deferred =>
    rintro s ⟨⟩
  | operation _ o ho ih => exact ih.operation o ho
  | @step m m' hm other hmoves hworks ih =>
    by_cases hne : other = id
    · subst hne
      exact ih.moves_own hm.reachable hmoves (hworks rfl)
    · exact ih.moves_elsewhere tidy_keptByCalls hne hmoves

/-! ### Rest -/

section Rest
variable {m : State σ} {id : Exit.VcpuId} {s : Seat σ (Context Unit)}

/-- At rest no request waits. A vCPU that has started is blocked inside an exit, or it
runs and no exit is queued. -/
theorem Tidy.rests (h : Tidy s) (hs : m.seats[id]? = some s) (hrest : advance m id = none) :
    (s.vcpu.started = false ∧ s.vcpu.blocked = false) ∨
    (s.vcpu.request = none ∧ s.vcpu.blocked = true ∧ ∃ f, s.context.loop.phase = .waiting f) ∨
    (s.vcpu.request = none ∧ s.vcpu.blocked = false ∧ s.context.loop.phase = .ready ∧ s.context.queue = []) := by
  have hstill : ¬∃ m', Moves m id m' := fun ⟨m', hmoves⟩ => advance_eq_none_iff.mp hrest m' hmoves
  have hline : s.context.loop ∈ s.context.line := List.mem_cons_self ..
  have hplaced := h.placed
  rw [Placed] at hplaced
  cases hphase : s.context.loop.phase with
  | off =>
    rw [hphase] at hplaced
    exact .inl ⟨hplaced.1, hplaced.2.1⟩
  | starting => exact absurd (moves_of_starting hs hline hphase) hstill
  | ready =>
    rw [hphase] at hplaced
    have hrecall : s.context.recallPending = false := Bool.eq_false_iff.mpr fun hrecall =>
      hstill (moves_of_recall hs h.stop hrecall hline hphase)
    have hrequest : s.vcpu.request = none := by
      rwa [h.linked.forced, Option.isSome_eq_false_iff, Option.isNone_iff_eq_none] at hrecall
    have hqueue : s.context.queue = [] := Classical.byContradiction fun hqueue =>
      hstill (moves_of_queue hs h.stop hqueue hline hphase)
    have hblocked : s.vcpu.blocked = false := Bool.eq_false_iff.mpr fun hblocked => hplaced.2 hblocked hrequest
    exact .inr (.inr ⟨hrequest, hblocked, rfl, hqueue⟩)
  | waiting f =>
    rw [hphase] at hplaced
    obtain ⟨_, hblocked, hsignalled⟩ := hplaced
    have hrequest : s.vcpu.request = none := Classical.byContradiction fun hrequest =>
      hstill (moves_of_signal hs (hsignalled hrequest) hline hphase)
    exact .inr (.inl ⟨hrequest, hblocked, f, rfl⟩)

theorem Tidy.unforced (h : Tidy s) (hrequest : s.vcpu.request = none) : s.context.recallPending = false := by
  rw [h.linked.forced, hrequest]
  rfl

/-- **Nothing is left behind.** Whatever a machine has been used for: when a vCPU with a
handler that has never failed does not move, and it has started and not been destroyed, no
request waits for it, no signal, no recall and no handler at work. Its only loop waits
inside the vCPU, which is blocked, or it waits for an exit, and none is queued. -/
theorem nothing_left_behind (hm : InUse id m) (hrest : advance m id = none) (hs : m.seats[id]? = some s)
    (hregistered : s.registered = true) (hstarted : s.vcpu.started = true) :
    s.vcpu.request = none ∧ s.vcpu.signals.pending = 0 ∧ s.context.recallPending = false ∧
      s.vcpu.dispatching = false ∧ s.context.others = [] ∧
      Xor (s.vcpu.blocked = true ∧ ∃ f, s.context.loop.phase = .waiting f)
        (s.vcpu.blocked = false ∧ s.context.loop.phase = .ready ∧ s.context.queue = []) := by
  have htidy := hm.tidy s hs hregistered
  rcases htidy.rests hs hrest with ⟨hunstarted, _⟩ | ⟨hrequest, hblocked, hwaits⟩ | ⟨hrequest, hblocked, hready⟩
  · cases hunstarted.symm.trans hstarted
  · refine ⟨hrequest, htidy.linked.stale hrequest, htidy.unforced hrequest, htidy.dispatching, htidy.single, ?_⟩
    exact .inl ⟨⟨hblocked, hwaits⟩, fun hother => absurd hblocked (Bool.eq_false_iff.mp hother.1)⟩
  · refine ⟨hrequest, htidy.linked.stale hrequest, htidy.unforced hrequest, htidy.dispatching, htidy.single, ?_⟩
    exact .inr ⟨⟨hblocked, hready⟩, fun hother => absurd hother.1 (Bool.eq_false_iff.mp hblocked)⟩

end Rest

/-- The handler of this machine mixes runs of its own with requests at its startup exit and
at another one, and then others leave two requests. -/
def used : State Unit :=
  settle 9 ((Operation.pause 0).apply (settle 9 ((Operation.run 0).apply (settle 9
    ((Operation.inject 0 10).apply (settle 9 (calling mixedCalls)))))))

theorem reliable_calling (cs : List Call) : Reliable 0 (calling cs) := by
  refine ⟨.operation (.begin false) _ trivial, _, seat_calling cs, fun memory state m => ?_⟩
  by_cases hreason : state.reason = .recalled
  · obtain ⟨memory', left, hhandle⟩ := callingHandler_ignoresRecall cs memory state hreason
    exact congrArg (fun p => (hypervisor.exec 0 p m).1.failure) hhandle
  · exact (callingHandler_works cs 0 m hreason).2

theorem nothing_left_behind_used : ∃ s, InUse 0 used ∧ advance used 0 = none ∧ used.seats[0]? = some s ∧
    s.vcpu.request = none ∧ s.vcpu.signals.pending = 0 ∧ s.context.recallPending = false := by
  have hinUse : InUse 0 used := by
    have hbegun := (reliable_calling mixedCalls).settles 9
    have hinjected := (hbegun.operation (.inject 0 10) trivial).settles 9
    have hrun := (hinjected.operation (.run 0) trivial).settles 9
    exact ((hrun.operation (.pause 0) trivial).settles 9).inUse
  obtain ⟨s, hs⟩ : ∃ s, used.seats[0]? = some s := Option.isSome_iff_exists.mp (by decide +kernel)
  have hfields : (used.seats[0]?).all (fun s => s.registered && s.vcpu.started) = true := by decide +kernel
  have hrest : advance used 0 = none := Option.isNone_iff_eq_none.mp (by decide +kernel)
  rw [hs, Option.all_some, Bool.and_eq_true] at hfields
  obtain ⟨hrequest, hsignals, hrecall, _⟩ := nothing_left_behind hinUse hrest hs hfields.1 hfields.2
  exact ⟨s, hinUse, hrest, hs, hrequest, hsignals, hrecall⟩

end GuestMachine.Simulated
