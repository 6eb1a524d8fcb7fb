import GuestMachine.Proofs.AtRest

/-! The order of exits.

A dispatch loop delivers its startup exit, then recalls as they are forced and injected exits
as they were queued. Each step of a vCPU either ends a wait for a request or delivers just one
exit, and the exit has left the queue by then (`Tidy.steps`). So what has been delivered and
what is still queued make up what was injected (`Sequenced`), whatever is done to the machine;
and as a request stands with its recall, no other exit can come before it is taken
(`exits_in_order`).

Unlike in `InUse` the handler may fail. That ends the only loop, which is not launched again
(`Ended`), and with it all deliveries. -/
namespace GuestMachine.Simulated
open Register

variable {σ : Type}

/-! ### A vCPU launched once -/

/-- What is done to a machine whose vCPU is launched once. Its recalls are left to its
requests. -/
def Operation.Once (id : Exit.VcpuId) (m : State σ) : Operation σ → Prop
  | .forceExit target => target ≠ id
  | .launch target => target = id → ∀ s, m.seats[id]? = some s → s.context.loops = [] ∧ s.vcpu.started = false
  | _ => True

/-- The exits that an operation adds to the queue of a vCPU, once there is one. -/
def Operation.injects (id : Exit.VcpuId) (m : State σ) : Operation σ → List Exit.Reason
  | .inject target r => if target = id ∧ m.seats[id]?.isSome then [r] else []
  | _ => []

/-- A machine goes on, and some exits are injected into a vCPU of it on the way. What other
threads do while a handler works is among the calls of the handler's program. -/
inductive Goes (id : Exit.VcpuId) (m : State σ) : List Exit.Reason → State σ → Prop where
  | refl : Goes id m [] m
  | operation {injected : List Exit.Reason} {m' : State σ} (h : Goes id m injected m') (o : Operation σ)
    (ho : o.Once id m') : Goes id m (injected ++ o.injects id m') (o.apply m')
  | step {injected : List Exit.Reason} {m' m'' : State σ} (h : Goes id m injected m') {other : Exit.VcpuId}
    (hmoves : Moves m' other m'') : Goes id m injected m''

theorem Goes.leads {id : Exit.VcpuId} {m m' : State σ} {injected : List Exit.Reason} (h : Goes id m injected m') :
    Leads m m' := by
  induction h with
  | refl => exact .refl
  | operation _ o _ ih => exact .operation ih o
  | step _ hmoves ih => exact .step ih hmoves

theorem Goes.trans {id : Exit.VcpuId} {m m' m'' : State σ} {injected more : List Exit.Reason}
    (h : Goes id m injected m') (h' : Goes id m' more m'') : Goes id m (injected ++ more) m'' := by
  induction h' with
  | refl => rwa [List.append_nil]
  | operation _ o ho ih =>
    rw [← List.append_assoc]
    exact .operation ih o ho
  | step _ hmoves ih => exact .step ih hmoves

theorem Goes.settles {id : Exit.VcpuId} {m m' : State σ} {injected : List Exit.Reason}
    (h : Goes id m injected m') (steps : Nat) : Goes id m injected (settle steps m') := by
  induction steps generalizing m' with
  | zero => exact h
  | succ steps ih =>
    unfold settle
    split
    next => exact h
    next m'' hstep =>
      obtain ⟨other, _, hadvance⟩ := List.exists_of_findSome?_eq_some hstep
      exact ih (.step h (moves_of_advance hadvance))

/-! ### One step -/

/-- The loop has ended, and there is no other. -/
structure Ended (s : Seat σ (Context Unit)) : Prop where
  phase : s.context.loop.phase = .off
  single : s.context.others = []
  started : s.vcpu.started = true

/-- A wait has ended for a request, which is left as it was. -/
structure Woken (s s' : Seat σ (Context Unit)) : Prop where
  waits : ∃ f, s.context.loop.phase = .waiting f
  ready : s'.context.loop.phase = .ready
  request : s'.vcpu.request = s.vcpu.request
  started : s'.vcpu.started = s.vcpu.started
  reasons : s'.context.reasons = s.context.reasons
  queue : s'.context.queue = s.context.queue

/-- An exit has been delivered, with `c` what its delivery left of the context. -/
structure Delivered (r : Exit.Reason) (c : Context Unit) (s s' : Seat σ (Context Unit)) : Prop where
  next : s.context.next? = some (some r, c)
  started : s'.vcpu.started = true
  launched : s'.context.loop.phase ≠ .starting
  reasons : s'.context.reasons = s.context.reasons ++ [r]
  queue : s'.context.queue = c.queue

section Steps
variable {m m' : State σ} {id : Exit.VcpuId} {s : Seat σ (Context Unit)} {c : Context Unit} {r : Exit.Reason}

theorem Ended.still (h : Ended s) (hs : m.seats[id]? = some s) : ¬Moves m id m' := by
  intro hmoves
  have hmove := (moves_iff_move hs h.single).mp hmoves
  rw [move, Context.next?, h.phase] at hmove
  cases hmove

theorem Tidy.woken (h : Tidy s) {f : Frame} (hphase : s.context.loop.phase = .waiting f) {ends : Bool} {v : Vcpu}
    (hwake : s.vcpu.wake? = some (ends, v)) :
    Woken s {s with vcpu := v, context := if ends then s.context.answer f else s.context} := by
  obtain ⟨rest, hdown, hv⟩ := Option.map_eq_some_iff.mp hwake
  obtain ⟨rfl, rfl⟩ := Prod.mk.inj hv
  have hsome : s.vcpu.request.isSome = true := by
    rw [Option.isSome_iff_ne_none]
    intro hnone
    rw [Semaphore.down?, h.linked.stale hnone] at hdown
    cases hdown
  rw [hsome, Bool.or_true, if_pos rfl]
  have hqueue : (s.context.answer f).queue = s.context.queue := congrArg (·.queue) (Context.answer_single h.single f)
  exact ⟨⟨f, hphase⟩, congrArg Loop.phase (Context.answer_loop h.single f), rfl, rfl, Context.reasons_answer .., hqueue⟩

/-- An exit has been delivered, whatever becomes of its loop with the answer. -/
theorem delivered_of_log {s' : Seat σ (Context Unit)} (hnext : s.context.next? = some (some r, c))
    {c' : Context Unit} {mask : Mask} (hlog : c'.log = (c.recorded r mask true).log) (hothers : c'.others = [])
    (hqueue : c'.queue = c.queue) (hstarted : s'.vcpu.started = true) {a : Exit.Answer}
    (h : s'.context = c'.conclude a) : Delivered r c s s' := by
  have hbefore : c.reasons = s.context.reasons := Context.reasons_of_log (congrArg (·.log) (Context.next?_steady hnext))
  have hreasons : c'.reasons = s.context.reasons ++ [r] := by
    rw [Context.reasons_of_log hlog, Context.reasons_recorded, hbefore]
  cases a with
  | waiting f =>
    rw [Context.conclude, Context.hold_single hothers] at h
    exact ⟨hnext, hstarted, h ▸ Phase.noConfusion, h ▸ hreasons, h ▸ hqueue⟩
  | returned result f =>
    cases result with
    | ok _ =>
      have hanswer := Context.reasons_answer c' f
      rw [← show s'.context = c'.answer f from h] at hanswer
      rw [Context.conclude, Context.answer_single hothers] at h
      exact ⟨hnext, hstarted, h ▸ Phase.noConfusion, hanswer.trans hreasons, h ▸ hqueue⟩
    | error e =>
      rw [Context.conclude, Context.finish_single hothers] at h
      exact ⟨hnext, hstarted, h ▸ Phase.noConfusion, h ▸ hreasons, h ▸ hqueue⟩
  | died =>
    rw [Context.conclude, Context.crash_single hothers] at h
    exact ⟨hnext, hstarted, h ▸ Phase.noConfusion, h ▸ hreasons, h ▸ hqueue⟩

theorem Tidy.delivers_resumed (h : Tidy s) (hnext : s.context.next? = some (some .recalled, c)) (mask : Mask) :
    Delivered .recalled c s (resumed (c.recorded .recalled mask true) (c.filled .recalled mask) s) := by
  have hothers : c.others = [] := (congrArg (·.others) (Context.next?_steady hnext)).trans h.single
  obtain ⟨state, hv⟩ := Vcpu.resume_fst (taken .recalled s.vcpu) (c.filled .recalled mask) c.loop.fpu
  have hstarted : (resumed (c.recorded .recalled mask true) (c.filled .recalled mask) s).vcpu.started = true :=
    (congrArg (·.started) hv).trans (taken_started ..)
  let u := ((taken .recalled s.vcpu).resume (c.filled .recalled mask) c.loop.fpu).2.2
  exact @delivered_of_log _ s c .recalled _ hnext {c.recorded .recalled mask true with
    loop := {(c.recorded .recalled mask true).loop with fpu := u}} mask rfl hothers rfl hstarted (.returned (.ok ()) _) rfl

theorem Tidy.delivers_concluded (h : Tidy s) (hnext : s.context.next? = some (some r, c)) {mask : Mask}
    {w : Seat σ (Context Unit)} (hbare : bare w = bare (entered r (c.recorded r mask true) (c.filled r mask) s))
    (f : Frame) (o : Hypervisor.Outcome σ) : Delivered r c s (concluded id r f o w) := by
  have hothers : w.context.others = [] :=
    (congrArg (·.context.others) hbare).trans ((congrArg (·.others) (Context.next?_steady hnext)).trans h.single)
  have hlog : w.context.log = (c.recorded r mask true).log := congrArg (·.context.log) hbare
  have hqueue : w.context.queue = c.queue := congrArg (·.context.queue) hbare
  have hstarted : w.vcpu.started = true := (congrArg (·.vcpu.started) hbare).trans (taken_started r s.vcpu)
  unfold concluded
  dsimp only
  split
  next cause _ =>
    exact @delivered_of_log _ s c r _ hnext _ mask hlog hothers hqueue hstarted (.returned (.error (.handler id r cause)) f) rfl
  next => exact @delivered_of_log _ s c r _ hnext _ mask hlog hothers hqueue hstarted .died rfl
  next =>
  split
  next => exact @delivered_of_log _ s c r _ hnext _ mask hlog hothers hqueue hstarted (.waiting f.cleared) rfl
  next =>
    let u := ((w.vcpu.leave o.state).transfer f w.context.loop.fpu).2.2
    exact @delivered_of_log _ s c r _ hnext {w.context with loop := {w.context.loop with fpu := u}} mask hlog hothers
      hqueue hstarted (.returned (.ok ()) _) rfl

/-- A vCPU makes one of two kinds of steps, whatever its handler does. -/
theorem Tidy.steps (h : Tidy s) (hm : Reachable m) (hs : m.seats[id]? = some s) (hreg : s.registered = true)
    (hmoves : Moves m id m') :
    ∃ s', m'.seats[id]? = some s' ∧ (Woken s s' ∨ ∃ r c, Delivered r c s s') := by
  rcases move_cases hs ((moves_iff_move hs h.single).mp hmoves) with
    ⟨f, ends, v, hphase, hwake, rfl⟩ | ⟨c, hnext, rfl⟩ | ⟨r, c, hnext, rfl⟩
  · exact ⟨_, Machine.seat_modify_of_some hs _, .inl (h.woken hphase hwake)⟩
  · exact absurd hnext h.unfinished
  · have hserved := served_next (reachable_made hm hs).served hnext
    by_cases hcall : r = .recalled ∧ s.vcpu.request = some .run
    · obtain ⟨rfl, hrun⟩ := hcall
      rw [deliver_resumed (hserved _) hs hreg hrun, Machine.seat_modify_of_some hs]
      exact ⟨_, rfl, .inr ⟨_, _, h.delivers_resumed hnext _⟩⟩
    · rw [deliver_work hserved hs hreg hcall]
      obtain ⟨w, hw, hbare⟩ := exists_worked hs (s.handler.handle s.memory (atWork r c s).vcpu.state) (atWork r c s)
      exact ⟨_, Machine.seat_modify_of_some hw _, .inr ⟨_, _, h.delivers_concluded hnext hbare _ _⟩⟩

/-- A handler that fails ends the loop. -/
theorem Tidy.fails (h : Tidy s) (hm : Reachable m) (hs : m.seats[id]? = some s) (hfails : Fails m id)
    (hmoves : Moves m id m') : ∃ s', m'.seats[id]? = some s' ∧ Ended s' := by
  obtain ⟨s₁, c₀, r, c, hs₁, hreg, hturn, hnext, hcall, hfailure⟩ := hfails
  cases hs.symm.trans hs₁
  rw [Context.turns_single h.single, List.mem_singleton] at hturn
  subst hturn
  have hsteady := Context.next?_steady hnext
  cases (move_of_next? hnext).symm.trans ((moves_iff_move hs h.single).mp hmoves)
  rw [deliver_work (served_next (reachable_made hm hs).served hnext) hs hreg hcall]
  obtain ⟨w, hw, hbare⟩ := exists_worked hs (s.handler.handle s.memory (atWork r c s).vcpu.state) (atWork r c s)
  have hothers : w.context.others = [] :=
    (congrArg (·.context.others) hbare).trans ((congrArg (·.others) hsteady).trans h.single)
  have hstarted : w.vcpu.started = true := (congrArg (·.vcpu.started) hbare).trans (taken_started r s.vcpu)
  refine ⟨_, Machine.seat_modify_of_some hw _, ?_⟩
  obtain ⟨failure, hcause⟩ := Option.ne_none_iff_exists'.mp hfailure
  cases failure with
  | error cause =>
    simp only [concluded, hcause, Context.finish_single hothers]
    exact ⟨rfl, hothers, hstarted⟩
  | panic =>
    simp only [concluded, hcause, Context.crash_single hothers]
    exact ⟨rfl, hothers, hstarted⟩

end Steps

/-! ### What was injected -/

def withoutRecalls (l : List Exit.Reason) : List Exit.Reason := l.filter (· != .recalled)

@[simp] theorem withoutRecalls_append (l l' : List Exit.Reason) :
    withoutRecalls (l ++ l') = withoutRecalls l ++ withoutRecalls l' := List.filter_append ..

/-- How far a vCPU has come with what was injected. -/
structure Sequenced (injected : List Exit.Reason) (s : Seat σ (Context Unit)) : Prop where
  starting : s.context.loop.phase = .starting → s.vcpu.started = false
  before : s.vcpu.started = false → s.context.reasons = [] ∧ s.context.queue = injected ∧ s.vcpu.blocked = false
  after : s.vcpu.started = true → ∃ delivered, s.context.reasons = .startup :: delivered ∧
    withoutRecalls delivered ++ withoutRecalls s.context.queue = withoutRecalls injected

section Order
variable {m m' : State σ} {id : Exit.VcpuId} {s s' : Seat σ (Context Unit)} {c : Context Unit} {r : Exit.Reason}
  {injected : List Exit.Reason}

theorem sequenced_newSeat (deferred : Bool) (handler : Handler σ) (memory : σ) :
    Sequenced [] (newSeat deferred handler memory) := by
  cases deferred with
  | true => exact ⟨fun _ => rfl, fun _ => ⟨rfl, rfl, rfl⟩, fun hfalse => nomatch hfalse⟩
  | false => exact ⟨fun _ => rfl, fun _ => ⟨rfl, rfl, rfl⟩, fun hfalse => nomatch hfalse⟩

theorem Sequenced.of_same (h : Sequenced injected s) (hphase : s'.context.loop.phase = s.context.loop.phase)
    (hstarted : s'.vcpu.started = s.vcpu.started) (hblocked : s'.vcpu.blocked = s.vcpu.blocked)
    (hlog : s'.context.log = s.context.log) (hqueue : s'.context.queue = s.context.queue) : Sequenced injected s' := by
  have hreasons := Context.reasons_of_log hlog
  refine ⟨?_, ?_, ?_⟩
  · rw [hphase, hstarted]
    exact h.starting
  · rw [hstarted, hreasons, hqueue, hblocked]
    exact h.before
  · rw [hstarted, hreasons, hqueue]
    exact h.after

theorem Sequenced.injects (h : Sequenced injected s) (r : Exit.Reason) :
    Sequenced (injected ++ [r]) {s with context := s.context.inject r} := by
  refine ⟨h.starting, fun hbefore => ?_, fun hafter => ?_⟩
  · obtain ⟨hreasons, hqueue, hblocked⟩ := h.before hbefore
    exact ⟨hreasons, congrArg (· ++ [r]) hqueue, hblocked⟩
  · obtain ⟨delivered, hreasons, hinjected⟩ := h.after hafter
    refine ⟨delivered, hreasons, ?_⟩
    show withoutRecalls delivered ++ withoutRecalls (s.context.queue ++ [r]) = _
    rw [withoutRecalls_append, withoutRecalls_append, ← List.append_assoc, hinjected]

theorem Sequenced.woken (h : Sequenced injected s) (htidy : Tidy s) (hw : Woken s s') : Sequenced injected s' := by
  obtain ⟨f, hphase⟩ := hw.waits
  have hstarted := htidy.started_of_waiting hphase
  refine ⟨fun hfalse => ?_, fun hbefore => ?_, fun _ => ?_⟩
  · cases hw.ready.symm.trans hfalse
  · cases hbefore.symm.trans (hw.started.trans hstarted)
  · rw [hw.reasons, hw.queue]
    exact h.after hstarted

/-- Each exit that is delivered has been the first of the queue, but for the startup exit and
forced recalls. -/
theorem Sequenced.delivered (h : Sequenced injected s) (htidy : Tidy s) (hd : Delivered r c s s') :
    Sequenced injected s' := by
  refine ⟨fun hfalse => absurd hfalse hd.launched, fun hbefore => ?_, fun _ => ?_⟩
  · cases hbefore.symm.trans hd.started
  rw [hd.reasons, hd.queue]
  rcases Context.next?_cases hd.next with
    ⟨hphase, hr, rfl⟩ | ⟨hphase, ⟨_, hr, _⟩ | ⟨_, _, hr, rfl⟩ | ⟨_, _, r', rest, hqueue, hr, rfl⟩⟩
  · obtain rfl := Option.some.inj hr
    obtain ⟨hreasons, hqueue, _⟩ := h.before (h.starting hphase)
    exact ⟨[], by rw [hreasons]; rfl, congrArg withoutRecalls hqueue⟩
  · cases hr
  · obtain rfl := Option.some.inj hr
    obtain ⟨delivered, hreasons, hinjected⟩ := h.after (htidy.started_of_ready hphase)
    refine ⟨delivered ++ [.recalled], by rw [hreasons]; rfl, ?_⟩
    rw [withoutRecalls_append, ← hinjected]
    exact congrArg (· ++ _) (List.append_nil _)
  · obtain rfl := Option.some.inj hr
    obtain ⟨delivered, hreasons, hinjected⟩ := h.after (htidy.started_of_ready hphase)
    refine ⟨delivered ++ [r], by rw [hreasons]; rfl, ?_⟩
    rw [hqueue, ← List.singleton_append, withoutRecalls_append, ← List.append_assoc] at hinjected
    rw [withoutRecalls_append]
    exact hinjected

/-! ### Recalls first -/

/-- While a request waits, the next exit is the recall that takes it. -/
theorem Tidy.recall_first (h : Tidy s) (hlaunched : s.context.loop.phase ≠ .starting) (hrequest : s.vcpu.request ≠ none)
    (hd : Delivered r c s s') : r = .recalled ∧ s'.context.queue = s.context.queue := by
  have hforced : s.context.recallPending = true := by
    rw [h.linked.forced, Option.isSome_iff_ne_none]
    exact hrequest
  rw [hd.queue]
  rcases Context.next?_cases hd.next with
    ⟨hphase, _⟩ | ⟨_, ⟨_, hr, _⟩ | ⟨_, _, hr, rfl⟩ | ⟨_, hunforced, _⟩⟩
  · exact absurd hphase hlaunched
  · cases hr
  · exact ⟨Option.some.inj hr, rfl⟩
  · cases hunforced.symm.trans hforced

/-- Only a request lets a blocked vCPU take an exit. -/
theorem Tidy.request_of_blocked (h : Tidy s) (hlaunched : s.context.loop.phase ≠ .starting)
    (hblocked : s.vcpu.blocked = true) (hd : Delivered r c s s') : s.vcpu.request ≠ none := by
  have hplaced := h.placed
  rcases Context.next?_cases hd.next with ⟨hphase, _⟩ | ⟨hphase, _⟩
  · exact absurd hphase hlaunched
  · rw [Placed, hphase] at hplaced
    exact hplaced.2 hblocked

/-- A vCPU that a request waits for can move. -/
theorem Tidy.can_move (h : Tidy s) (hs : m.seats[id]? = some s) (hrequest : s.vcpu.request ≠ none)
    (hoff : s.context.loop.phase ≠ .off) : ∃ m', Moves m id m' := by
  have hline : s.context.loop ∈ s.context.line := List.mem_cons_self ..
  have hplaced := h.placed
  rw [Placed] at hplaced
  cases hphase : s.context.loop.phase with
  | off => exact absurd hphase hoff
  | starting => exact moves_of_starting hs hline hphase
  | ready =>
    refine moves_of_recall hs h.stop ?_ hline hphase
    rw [h.linked.forced, Option.isSome_iff_ne_none]
    exact hrequest
  | waiting f =>
    rw [hphase] at hplaced
    exact moves_of_signal hs (hplaced.2.2 hrequest) hline hphase

/-! ### Runs -/

/-- A vCPU that takes exits in order, or has ended with them. -/
def OnCourse (injected : List Exit.Reason) : Seat σ (Context Unit) → Prop :=
  WhileRegistered fun s => Sequenced injected s ∧ (Ended s ∨ Tidy s)

theorem onCourse_keptByCalls (injected : List Exit.Reason) : KeptByCalls false (@OnCourse σ injected) := by
  refine ⟨fun r s h hreg => ?_, (fun hfalse => nomatch hfalse), fun id s _ => gone_whileRegistered id s⟩
  obtain ⟨hsequenced, hended | htidy⟩ := h hreg
  · exact ⟨hsequenced.of_same rfl rfl rfl rfl rfl, .inl ⟨hended.phase, hended.single, hended.started⟩⟩
  · exact ⟨hsequenced.of_same rfl rfl rfl rfl rfl, .inr (htidy.posted r)⟩

theorem Ended.of_untouched (h : Ended s) (hsame : untouched s' = untouched s) : Ended s' := by
  have hothers : s'.context.others.map _ = s.context.others.map _ := congrArg (·.context.others) hsame
  rw [h.single, List.map_nil, List.map_eq_nil_iff] at hothers
  exact ⟨(congrArg (·.context.loop.phase) hsame).trans h.phase, hothers,
    (congrArg (·.vcpu.started) hsame).trans h.started⟩

theorem OnCourse.of_untouched (h : OnCourse injected s) (hsame : untouched s' = untouched s) : OnCourse injected s' := by
  intro hreg
  obtain ⟨hsequenced, hstands⟩ := h ((congrArg (·.registered) hsame).symm.trans hreg)
  refine ⟨?_, hstands.imp (·.of_untouched hsame) (·.of_untouched hsame)⟩
  exact hsequenced.of_same (congrArg (·.context.loop.phase) hsame) (congrArg (·.vcpu.started) hsame)
    (congrArg (·.vcpu.blocked) hsame) (congrArg (·.context.log) hsame) (congrArg (·.context.queue) hsame)

/-- A vCPU is launched the first time. -/
theorem OnCourse.launched (h : OnCourse injected s) (hloops : s.context.loops = []) (hunstarted : s.vcpu.started = false) :
    OnCourse injected {s with context := s.context.launch} := by
  intro hreg
  obtain ⟨hsequenced, hended | htidy⟩ := h hreg
  · cases hunstarted.symm.trans hended.started
  · have hplaced := htidy.placed
    rw [Placed, (Context.loops_eq_nil hloops).1] at hplaced
    exact ⟨⟨fun _ => hplaced.1, hsequenced.before, hsequenced.after⟩, .inr (htidy.launched hloops)⟩

theorem OnCourse.injects (h : OnCourse injected s) (r : Exit.Reason) :
    OnCourse (injected ++ [r]) {s with context := s.context.inject r} := by
  intro hreg
  obtain ⟨hsequenced, hended | htidy⟩ := h hreg
  · exact ⟨hsequenced.injects r, .inl ⟨hended.phase, hended.single, hended.started⟩⟩
  · exact ⟨hsequenced.injects r, .inr (htidy.of_same rfl rfl htidy.single rfl rfl)⟩

theorem Has.onCourse_operation (h : Has m id (OnCourse injected)) (hunseated : m.seats[id]? = none → injected = [])
    (o : Operation σ) (ho : o.Once id m) : Has (o.apply m) id (OnCourse (injected ++ o.injects id m)) := by
  by_cases hinject : ∃ r, o = .inject id r
  · obtain ⟨r, rfl⟩ := hinject
    rw [Operation.apply, Machine.modifyContext_eq]
    refine has_modify fun s hs => ?_
    have hone : (Operation.inject id r : Operation σ).injects id m = [r] := if_pos ⟨rfl, by rw [hs]; rfl⟩
    rw [hone]
    exact (h s hs).injects r
  · have hnone : o.injects id m = [] := by
      cases o with
      | inject target r => exact if_neg fun (htarget : target = id ∧ _) => hinject ⟨r, htarget.1 ▸ rfl⟩
      | _ => rfl
    rw [hnone, List.append_nil]
    refine h.apply (onCourse_keptByCalls injected) (fun _ _ hsame hs => hs.of_untouched hsame) o ?_ ?_ ?_ ?_
    · rintro hseat handler memory -
      rw [hunseated hseat]
      exact ⟨sequenced_newSeat .., .inr (tidy_newSeat ..)⟩
    · rintro rfl s hs
      obtain ⟨hloops, hunstarted⟩ := ho rfl s hs
      exact (h s hs).launched hloops hunstarted
    · exact fun r heq => absurd ⟨r, heq⟩ hinject
    · rintro rfl
      exact ho rfl

/-- The step of a vCPU that is still registered after it. -/
theorem OnCourse.steps (h : OnCourse injected s) (hm : Reachable m) (hs : m.seats[id]? = some s)
    (hmoves : Moves m id m') (hs' : m'.seats[id]? = some s') (hreg' : s'.registered = true) :
    s.registered = true ∧ Sequenced injected s ∧ Tidy s ∧ (Woken s s' ∨ ∃ r c, Delivered r c s s') := by
  have hreg := registered_of_moves hmoves hs hs' hreg'
  obtain ⟨hsequenced, hended | htidy⟩ := h hreg
  · exact absurd hmoves (hended.still hs)
  · obtain ⟨t, ht, hstep⟩ := htidy.steps hm hs hreg hmoves
    cases hs'.symm.trans ht
    exact ⟨hreg, hsequenced, htidy, hstep⟩

theorem Has.onCourse_moves (h : Has m id (OnCourse injected)) (hm : Reachable m) (hmoves : Moves m id m') :
    Has m' id (OnCourse injected) := by
  obtain ⟨s, hs⟩ : ∃ s, m.seats[id]? = some s := hmoves.imp fun _ ⟨_, hs, _⟩ => hs
  intro t ht hreg'
  obtain ⟨hreg, hsequenced, htidy, hstep⟩ := (h s hs).steps hm hs hmoves ht hreg'
  refine ⟨?_, ?_⟩
  · rcases hstep with hwoken | ⟨r, c, hdelivered⟩
    · exact hsequenced.woken htidy hwoken
    · exact hsequenced.delivered htidy hdelivered
  · by_cases hfails : Fails m id
    · obtain ⟨t', ht', hended⟩ := htidy.fails hm hs hfails hmoves
      cases ht.symm.trans ht'
      exact .inl hended
    · exact .inr (htidy.moves hm hs hreg hmoves hfails t ht hreg')

/-- Seats stay where they are. -/
theorem Becomes.unseated (h : Becomes m m') (hnone : m'.seats[id]? = none) : m.seats[id]? = none := by
  cases hs : m.seats[id]? with
  | none => rfl
  | some s =>
    obtain ⟨s', hs', _⟩ := h.seat hs
    cases hnone.symm.trans hs'

theorem Goes.onCourse {deferred : Bool} (h : Goes id (empty deferred) injected m) :
    (m.seats[id]? = none → injected = []) ∧ Has m id (OnCourse injected) := by
  induction h with
  | refl => exact ⟨fun _ => rfl, by rintro s ⟨⟩⟩
  | @operation injected m' hgoes o ho ih =>
    obtain ⟨hunseated, hcourse⟩ := ih
    refine ⟨fun hnone => ?_, hcourse.onCourse_operation hunseated o ho⟩
    have hbefore := (apply_becomes o m').unseated hnone
    rw [hunseated hbefore]
    cases o with
    | inject target r => exact if_neg fun hseat => by simp [hbefore] at hseat
    | _ => rfl
  | @step injected m' m'' hgoes other hmoves ih =>
    obtain ⟨hunseated, hcourse⟩ := ih
    refine ⟨fun hnone => hunseated ((moves_becomes hmoves).unseated hnone), ?_⟩
    by_cases hne : other = id
    · subst hne
      exact hcourse.onCourse_moves ⟨_, hgoes.leads⟩ hmoves
    · exact hcourse.moves_elsewhere (onCourse_keptByCalls injected) hne hmoves

/-! ### What follows a request, and what a failure -/

/-- No exit has been delivered since a request was left, or the first that was is a recall. -/
def Announces (before : List Exit.Reason) (s : Seat σ (Context Unit)) : Prop :=
  (s.context.reasons = before ∧ s.vcpu.request ≠ none ∧ s.vcpu.started = true) ∨
    ∃ rest, s.context.reasons = before ++ .recalled :: rest

variable {before : List Exit.Reason}

theorem announces_keptByCalls (before : List Exit.Reason) :
    KeptByCalls false (WhileRegistered (@Announces σ before)) := by
  refine ⟨fun r s h hreg => ?_, (fun hfalse => nomatch hfalse), fun id s _ => gone_whileRegistered id s⟩
  exact (h hreg).imp_left fun ⟨hreasons, _, hstarted⟩ => ⟨hreasons, Option.some_ne_none r, hstarted⟩

theorem Announces.of_untouched (h : Announces before s) (hsame : untouched s' = untouched s) : Announces before s' := by
  have hlog : s'.context.reasons = s.context.reasons := Context.reasons_of_log (congrArg (·.context.log) hsame)
  rw [Announces, hlog, show s'.vcpu.request = s.vcpu.request from congrArg (·.vcpu.request) hsame,
    show s'.vcpu.started = s.vcpu.started from congrArg (·.vcpu.started) hsame]
  exact h

theorem Announces.woken (h : Announces before s) (hw : Woken s s') : Announces before s' := by
  rw [Announces, hw.reasons, hw.request, hw.started]
  exact h

theorem Announces.delivered (h : Announces before s) (hsequenced : Sequenced injected s) (htidy : Tidy s)
    (hd : Delivered r c s s') : Announces before s' := by
  right
  rw [hd.reasons]
  rcases h with ⟨hreasons, hrequest, hstarted⟩ | ⟨rest, hreasons⟩
  · have hlaunched : s.context.loop.phase ≠ .starting := fun hphase =>
      absurd ((hsequenced.starting hphase).symm.trans hstarted) Bool.false_ne_true
    obtain ⟨rfl, _⟩ := htidy.recall_first hlaunched hrequest hd
    exact ⟨[], by rw [hreasons]⟩
  · exact ⟨rest ++ [r], by rw [hreasons, List.append_assoc, List.cons_append]⟩

/-- A machine goes on from a state in which a request was left. -/
theorem Goes.announces {deferred : Bool} {more : List Exit.Reason} (h₀ : Goes id (empty deferred) injected m)
    (h : Goes id m more m') (hs : m.seats[id]? = some s) (hbegins : Announces before s) :
    Has m' id (WhileRegistered (Announces before)) := by
  induction h with
  | refl => exact has_of_seat hs fun _ => hbegins
  | @operation more m' hgoes o ho ih =>
    refine ih.apply (announces_keptByCalls before) (fun _ _ hsame hs hreg => ?_) o ?_ ?_ ?_ ?_
    · exact (hs ((congrArg (·.registered) hsame).symm.trans hreg)).of_untouched hsame
    · intro hnone
      obtain ⟨s', hs', _⟩ := (leads_becomes hgoes.leads).seat hs
      cases hnone.symm.trans hs'
    · exact fun _ s hs hreg => ih s hs hreg
    · exact fun _ _ s hs hreg => hs hreg
    · rintro rfl
      exact ho rfl
  | @step more m' m'' hgoes other hmoves ih =>
    by_cases hne : other = id
    · subst hne
      have hgone := h₀.trans hgoes
      intro t ht hreg'
      obtain ⟨s', hs'⟩ : ∃ s, m'.seats[other]? = some s := hmoves.imp fun _ ⟨_, hs, _⟩ => hs
      obtain ⟨hreg, hsequenced, htidy, hstep⟩ :=
        (hgone.onCourse.2 s' hs').steps ⟨_, hgone.leads⟩ hs' hmoves ht hreg'
      rcases hstep with hwoken | ⟨r, c, hdelivered⟩
      · exact (ih s' hs' hreg).woken hwoken
      · exact (ih s' hs' hreg).delivered hsequenced htidy hdelivered
    · exact ih.moves_elsewhere (announces_keptByCalls before) hne hmoves

/-- A loop that has ended delivers nothing any more. -/
theorem Goes.ended {more : List Exit.Reason} (h : Goes id m more m') (hs : m.seats[id]? = some s) (hended : Ended s) :
    ∃ t, m'.seats[id]? = some t ∧ t.context.reasons = s.context.reasons := by
  have hcalls : KeptByCalls false fun t : Seat σ (Context Unit) => Ended t ∧ t.context.reasons = s.context.reasons :=
    ⟨fun r t ht => ⟨⟨ht.1.phase, ht.1.single, ht.1.started⟩, ht.2⟩, (fun hfalse => nomatch hfalse),
      fun id t ht => ⟨⟨ht.1.phase, ht.1.single, ht.1.started⟩, ht.2⟩⟩
  have hkept : Has m' id fun t => Ended t ∧ t.context.reasons = s.context.reasons := by
    induction h with
    | refl => exact has_of_seat hs ⟨hended, rfl⟩
    | @operation more m' hgoes o ho ih =>
      refine ih.apply hcalls (fun _ _ hsame ht => ?_) o ?_ ?_ ?_ ?_
      · exact ⟨ht.1.of_untouched hsame, (Context.reasons_of_log (congrArg (·.context.log) hsame)).trans ht.2⟩
      · intro hnone
        obtain ⟨s', hs', _⟩ := (leads_becomes hgoes.leads).seat hs
        cases hnone.symm.trans hs'
      · rintro rfl t ht
        cases (ho rfl t ht).2.symm.trans (ih t ht).1.started
      · exact fun _ _ t ht => ⟨⟨ht.1.phase, ht.1.single, ht.1.started⟩, ht.2⟩
      · rintro rfl
        exact ho rfl
    | @step more m' m'' hgoes other hmoves ih =>
      by_cases hne : other = id
      · subst hne
        obtain ⟨t, ht⟩ : ∃ t, m'.seats[other]? = some t := hmoves.imp fun _ ⟨_, hs, _⟩ => hs
        exact absurd hmoves ((ih t ht).1.still ht)
      · exact ih.moves_elsewhere hcalls hne hmoves
  obtain ⟨t, ht, _⟩ := (leads_becomes h.leads).seat hs
  exact ⟨t, ht, (hkept t ht).2⟩

/-- A step has delivered a recall or nothing, and has left the queue alone. -/
structure HoldsBack (s s' : Seat σ (Context Unit)) : Prop where
  queue : s'.context.queue = s.context.queue
  reasons : s'.context.reasons = s.context.reasons ∨ s'.context.reasons = s.context.reasons ++ [.recalled]

/-- **Exits are delivered in order, each once, and recalls go first.** A vCPU is launched once
and not destroyed, and its handler may do anything, or fail. Once it has started, its log
without the recalls is the startup exit and a prefix of what was injected, without recalls; and
it is all of that when the vCPU does not move, its loop has not ended, and it is not blocked.
While it is blocked no injected exit is delivered. A request that is left for it is taken by
the next exit that is delivered, a recall, and it does move. After its handler has failed
nothing is delivered any more. -/
theorem exits_in_order {deferred : Bool} (h : Goes id (empty deferred) injected m) (hs : m.seats[id]? = some s)
    (hregistered : s.registered = true) :
    (s.vcpu.started = true → ∃ delivered, withoutRecalls s.context.reasons = .startup :: delivered ∧
      delivered <+: withoutRecalls injected ∧
      (advance m id = none → s.context.loop.phase ≠ .off → s.vcpu.blocked = false →
        delivered = withoutRecalls injected)) ∧
    (s.vcpu.blocked = true → ∀ m', Moves m id m' → ∃ s', m'.seats[id]? = some s' ∧ HoldsBack s s') ∧
    (s.vcpu.started = true → s.vcpu.request ≠ none → s.context.loop.phase ≠ .off →
      (∃ m', Moves m id m') ∧
      (∀ m', Moves m id m' → ∃ s', m'.seats[id]? = some s' ∧ HoldsBack s s' ∧
        (Woken s s' ∨ s'.context.reasons = s.context.reasons ++ [.recalled])) ∧
      ∀ more m' s', Goes id m more m' → m'.seats[id]? = some s' → s'.registered = true →
        s'.context.reasons = s.context.reasons ∨
          ∃ rest, s'.context.reasons = s.context.reasons ++ .recalled :: rest) ∧
    (Fails m id → ∀ m₁, Moves m id m₁ → ∃ s₁, m₁.seats[id]? = some s₁ ∧
      ∀ more m', Goes id m₁ more m' → ∃ s', m'.seats[id]? = some s' ∧ s'.context.reasons = s₁.context.reasons) := by
  have hm : Reachable m := ⟨_, h.leads⟩
  obtain ⟨hsequenced, hstands⟩ := h.onCourse.2 s hs hregistered
  refine ⟨fun hstarted => ?_, fun hblocked m' hmoves => ?_, fun hstarted hrequest hoff => ?_, fun hfails m₁ hmoves => ?_⟩
  · obtain ⟨delivered, hreasons, hinjected⟩ := hsequenced.after hstarted
    refine ⟨withoutRecalls delivered, by rw [hreasons]; rfl, ⟨_, hinjected⟩, fun hrest hoff hunblocked => ?_⟩
    rcases hstands with hended | htidy
    · exact absurd hended.phase hoff
    rcases htidy.rests hs hrest with ⟨hunstarted, _⟩ | ⟨_, hblocked, _⟩ | ⟨_, _, _, hqueue⟩
    · cases hunstarted.symm.trans hstarted
    · cases hblocked.symm.trans hunblocked
    · rw [hqueue] at hinjected
      exact (List.append_nil _).symm.trans hinjected
  · rcases hstands with hended | htidy
    · exact absurd hmoves (hended.still hs)
    have hlaunched : s.context.loop.phase ≠ .starting := fun hphase =>
      absurd ((hsequenced.before (hsequenced.starting hphase)).2.2.symm.trans hblocked) Bool.false_ne_true
    obtain ⟨s', hs', hwoken | ⟨r, c, hdelivered⟩⟩ := htidy.steps hm hs hregistered hmoves
    · exact ⟨s', hs', hwoken.queue, .inl hwoken.reasons⟩
    · have hrequest := htidy.request_of_blocked hlaunched hblocked hdelivered
      obtain ⟨rfl, hqueue⟩ := htidy.recall_first hlaunched hrequest hdelivered
      exact ⟨s', hs', hqueue, .inr hdelivered.reasons⟩
  · have hlaunched : s.context.loop.phase ≠ .starting := fun hphase =>
      absurd ((hsequenced.starting hphase).symm.trans hstarted) Bool.false_ne_true
    rcases hstands with hended | htidy
    · exact absurd hended.phase hoff
    refine ⟨htidy.can_move hs hrequest hoff, fun m' hmoves => ?_, fun more m' s' hgoes hs' hreg' => ?_⟩
    · obtain ⟨s', hs', hwoken | ⟨r, c, hdelivered⟩⟩ := htidy.steps hm hs hregistered hmoves
      · exact ⟨s', hs', ⟨hwoken.queue, .inl hwoken.reasons⟩, .inl hwoken⟩
      · obtain ⟨rfl, hqueue⟩ := htidy.recall_first hlaunched hrequest hdelivered
        exact ⟨s', hs', ⟨hqueue, .inr hdelivered.reasons⟩, .inr hdelivered.reasons⟩
    · have hbegins : Announces s.context.reasons s := .inl ⟨rfl, hrequest, hstarted⟩
      exact (h.announces hgoes hs hbegins s' hs' hreg').imp_left (·.1)
  · rcases hstands with hended | htidy
    · exact absurd hmoves (hended.still hs)
    · obtain ⟨s₁, hs₁, hended⟩ := htidy.fails hm hs hfails hmoves
      exact ⟨s₁, hs₁, fun more m' hgoes => hgoes.ended hs₁ hended⟩

end Order

/-! ### A pause among injected exits -/

/-- A vCPU that its handler runs at every exit but a recall. It is paused before its startup
exit, and run again when it has blocked; an exit is injected before each of the two calls. -/
def interrupted : State Unit :=
  (Operation.run 0).apply ((Operation.inject 0 11).apply (settle 9
    ((Operation.pause 0).apply ((Operation.inject 0 10).apply (calling [.run])))))

theorem goes_interrupted : Goes 0 (empty false) [10, 11] interrupted := by
  have hcreated : Goes 0 (empty false) [] (calling [.run]) := .operation .refl (.create _ ()) trivial
  have hpaused := ((hcreated.operation (.inject 0 10) trivial).operation (.pause 0) trivial).settles 9
  exact (hpaused.operation (.inject 0 11) trivial).operation (.run 0) trivial

/-- A handler that fails at every exit. -/
def refusingHandler : Handler Unit := ⟨fun _ => none, fun _ state => .done () state (some (.error "refused"))⟩

/-- A vCPU of it, with one exit queued. -/
def refusing : State Unit :=
  (Operation.inject 0 10).apply ((Operation.create refusingHandler ()).apply (empty false))

theorem goes_refusing : Goes 0 (empty false) [10] refusing := by
  have hcreated : Goes 0 (empty false) [] ((Operation.create refusingHandler ()).apply (empty false)) :=
    .operation .refl (.create _ ()) trivial
  exact hcreated.operation (.inject 0 10) trivial

/-- In the first run the request comes before the exits that are queued; in the second the
handler fails at the startup exit. -/
theorem exits_in_order_interrupted :
    (∃ s t, Goes 0 (empty false) [10, 11] interrupted ∧ interrupted.seats[0]? = some s ∧ s.registered = true ∧
      s.vcpu.request = some .run ∧ s.context.queue = [10, 11] ∧ (∃ m', Moves interrupted 0 m') ∧
      Goes 0 (empty false) [10, 11] (settle 9 interrupted) ∧ (settle 9 interrupted).seats[0]? = some t ∧
      (∃ rest, t.context.reasons = s.context.reasons ++ .recalled :: rest) ∧
      withoutRecalls t.context.reasons = .startup :: [10, 11]) ∧
    ∃ m s, Fails refusing 0 ∧ Moves refusing 0 m ∧ m.seats[0]? = some s ∧ ∃ t, (settle 9 m).seats[0]? = some t ∧
      t.context.reasons = s.context.reasons := by
  constructor
  · have hfields : (interrupted.seats[0]?).all (fun s => s.registered && s.vcpu.started &&
        s.vcpu.request == some .run && s.context.queue == [10, 11] && s.context.loop.phase != .off &&
          s.context.reasons == [.startup, .recalled]) = true := by decide +kernel
    have hfields' : ((settle 9 interrupted).seats[0]?).all (fun t => t.registered && t.vcpu.started && !t.vcpu.blocked &&
        t.context.loop.phase != .off && t.context.reasons != [.startup, .recalled]) = true := by decide +kernel
    have hrest : advance (settle 9 interrupted) 0 = none := Option.isNone_iff_eq_none.mp (by decide +kernel)
    obtain ⟨s, hs⟩ : ∃ s, interrupted.seats[0]? = some s := Option.isSome_iff_exists.mp (by decide +kernel)
    obtain ⟨t, ht⟩ : ∃ t, (settle 9 interrupted).seats[0]? = some t := Option.isSome_iff_exists.mp (by decide +kernel)
    rw [hs, Option.all_some] at hfields
    rw [ht, Option.all_some] at hfields'
    simp only [Bool.and_eq_true, bne_iff_ne, beq_iff_eq, Bool.not_eq_true'] at hfields hfields'
    obtain ⟨⟨⟨⟨⟨hreg, hstarted⟩, hrequest⟩, hqueue⟩, hoff⟩, hreasons⟩ := hfields
    obtain ⟨⟨⟨⟨hreg', hstarted'⟩, hblocked'⟩, hoff'⟩, hreasons'⟩ := hfields'
    have hsettles : Goes 0 interrupted [] (settle 9 interrupted) := Goes.refl.settles 9
    obtain ⟨_, _, hrequested, _⟩ := exits_in_order goes_interrupted hs hreg
    obtain ⟨hmoves, _, hfirst⟩ := hrequested hstarted (hrequest ▸ Option.some_ne_none _) hoff
    obtain ⟨hdelivered, _⟩ := exits_in_order (goes_interrupted.settles 9) ht hreg'
    obtain ⟨delivered, hlog, _, hall⟩ := hdelivered hstarted'
    refine ⟨s, t, goes_interrupted, hs, hreg, hrequest, hqueue, hmoves, goes_interrupted.settles 9, ht, ?_, ?_⟩
    · exact (hfirst _ _ t hsettles ht hreg').resolve_left (hreasons ▸ hreasons')
    · rw [hlog, hall hrest hoff' hblocked']
      rfl
  · have hs : refusing.seats[0]? = some _ := rfl
    have hfails : Fails refusing 0 :=
      ⟨_, _, .startup, _, hs, rfl, List.mem_cons_self .., rfl, by decide, Option.some_ne_none _⟩
    obtain ⟨m, hmoves⟩ := moves_of_starting hs (List.mem_cons_self ..) rfl
    obtain ⟨_, _, _, hends⟩ := exits_in_order goes_refusing hs rfl
    obtain ⟨s, hs', hlast⟩ := hends hfails m hmoves
    exact ⟨m, s, hfails, hmoves, hs', hlast [] _ (Goes.refl.settles 9)⟩

end GuestMachine.Simulated
