import GuestMachine.Proofs.Reachable

/-! Requests on their way to a vCPU.

A request that has been left is taken by the next recall, and nothing is left to do then
but to take signals that are stale. So a vCPU that only requests can move is in one of two
states: a request waits for it (`Pending`), or none does any more (`Settled`). Each step
keeps or ends the first and keeps the second (`Pending.moves`, `Settled.moves`), uses up a
signal or the recall, and so the vCPU comes to rest (`exists_rest`), which is never with
a request waiting (`Pending.can_move`). -/
namespace GuestMachine

/-- Whether a request leaves the vCPU blocked. -/
def Request.blocks : Request → Bool
  | .pause => true
  | .run => false

theorem Vcpu.resume_fst (v : Vcpu) (f : Register.Frame) (u : Register.Fpu) :
    ∃ state, (v.resume f u).1 = {v with state, blocked := false} := by
  unfold Vcpu.resume
  cases hblocked : v.blocked with
  | true => exact ⟨_, rfl⟩
  | false =>
    refine ⟨v.state, ?_⟩
    rw [if_neg Bool.false_ne_true, ← hblocked]

namespace Simulated
open Register

variable {σ ε : Type}

/-! ### Loops that stay -/

theorem Phase.ready_launched : Phase.ready ≠ .starting ∧ Phase.ready ≠ .off := by
  decide

theorem Phase.waiting_launched (f : Frame) : Phase.waiting f ≠ .starting ∧ Phase.waiting f ≠ .off := by
  simp

namespace Context

theorem mem_pass_line {c : Context ε} (h : c.loop.phase ≠ .off) : c.loop ∈ c.pass.line := by
  rw [← pass_latest h]
  exact List.getLast_mem _

theorem phases_pass {c : Context ε} {P : Phase → Prop} (hloop : P c.loop.phase)
    (hothers : ∀ l ∈ c.others, P l.phase) : ∀ l ∈ c.pass.line, P l.phase := by
  intro l hl
  rcases List.mem_cons.mp (mem_line_pass hl) with rfl | hl'
  · exact hloop
  · exact hothers l hl'

/-- The context once its recall is being delivered. -/
def takeRecall (c : Context ε) : Context ε := {c with recallPending := false}

/-- The reasons of the exits delivered so far. -/
def reasons (c : Context ε) : List Exit.Reason := c.log.map (·.reason)

theorem reasons_of_log {c c' : Context ε} (h : c'.log = c.log) : c'.reasons = c.reasons := by
  rw [reasons, reasons, h]

/-- A reply does not change them. -/
theorem reasons_answer (c : Context ε) (f : Frame) : (c.answer f).reasons = c.reasons := by
  rw [reasons, answer_log]
  refine List.ext_getElem? fun i => ?_
  rw [List.getElem?_map, List.getElem?_modify, reasons, List.getElem?_map]
  cases c.log[i]? with
  | none => rfl
  | some d =>
    show some _ = some d.reason
    split <;> rfl

theorem reasons_recorded (c : Context ε) (r : Exit.Reason) (m : Mask) (routed : Bool) :
    (c.recorded r m routed).reasons = c.reasons ++ [r] := List.map_append

end Context

/-! ### Vcpus that only requests can move -/

/-- A handler that does nothing on a recall: it makes no calls and does not fail. -/
def IgnoresRecall (h : Handler σ) : Prop := ∀ memory (s : Register.State), s.reason = .recalled →
  ∃ memory' s', h.handle memory s = .done memory' s' none

/-- A vCPU that takes calls and exits, and whose handler does nothing on a recall. -/
structure Live (s : Seat σ (Context Unit)) : Prop where
  registered : s.registered = true
  destroyed : s.vcpu.destroyed = false
  stop : s.context.stop = false
  alive : ∃ l ∈ s.context.line, l.phase ≠ .off
  ignores : IgnoresRecall s.handler

/-- There is no exit for the vCPU but recalls. -/
structure Quiet (s : Seat σ (Context Unit)) : Prop where
  live : Live s
  started : s.vcpu.started = true
  served : ∃ p, s.context.portals.route? .recalled = some p
  queue : s.context.queue = []
  launched : ∀ l ∈ s.context.line, l.phase ≠ .starting

/-- A request waits for the recall that takes it. -/
structure Pending (r : Request) (s : Seat σ (Context Unit)) : Prop where
  quiet : Quiet s
  request : s.vcpu.request = some r
  forced : s.context.recallPending = true
  wakes : (∃ l ∈ s.context.line, l.phase = .ready) ∨ 0 < s.vcpu.signals.pending

/-- No recall is about to be taken. -/
structure Resting (s : Seat σ (Context Unit)) : Prop where
  quiet : Quiet s
  untaken : s.context.recallPending = true → ∀ l ∈ s.context.line, l.phase ≠ .ready

/-- No request waits any more. -/
structure Settled (blocked : Bool) (s : Seat σ (Context Unit)) : Prop extends Resting s where
  request : s.vcpu.request = none
  blocked : s.vcpu.blocked = blocked

/-- How many recalls have been delivered. -/
def recalls (s : Seat σ (Context Unit)) : Nat := s.context.reasons.count .recalled

/-- What there is to use up. -/
def backlog (s : Seat σ (Context Unit)) : Nat :=
  s.vcpu.signals.pending + if s.context.recallPending then 1 else 0

theorem Quiet.of_same {s s' : Seat σ (Context Unit)} (h : Quiet s) (hhandler : s'.handler = s.handler)
    (hregistered : s'.registered = s.registered) (hdestroyed : s'.vcpu.destroyed = s.vcpu.destroyed)
    (hstarted : s'.vcpu.started = true) (hportals : s'.context.portals = s.context.portals)
    (hstop : s'.context.stop = s.context.stop) (hqueue : s'.context.queue = s.context.queue)
    (hlaunched : ∀ l ∈ s'.context.line, l.phase ≠ .starting)
    (halive : ∃ l ∈ s'.context.line, l.phase ≠ .off) : Quiet s' := by
  refine ⟨⟨?_, ?_, ?_, halive, ?_⟩, hstarted, ?_, ?_, hlaunched⟩
  · rw [hregistered, h.live.registered]
  · rw [hdestroyed, h.live.destroyed]
  · rw [hstop, h.live.stop]
  · rw [hhandler]
    exact h.live.ignores
  · rw [hportals]
    exact h.served
  · rw [hqueue, h.queue]

/-! ### Steps of the vCPU -/

section Steps
variable {m m' : State σ} {id : Exit.VcpuId} {s : Seat σ (Context Unit)} {c : Context Unit}

/-- There is no exit for the vCPU but recalls, once its loop whose turn it is has gone on. -/
structure Clear (s : Seat σ (Context Unit)) : Prop where
  registered : s.registered = true
  destroyed : s.vcpu.destroyed = false
  stop : s.context.stop = false
  ignores : IgnoresRecall s.handler
  served : ∃ p, s.context.portals.route? .recalled = some p
  queue : s.context.queue = []
  launched : ∀ l ∈ s.context.others, l.phase ≠ .starting

theorem Quiet.clear (h : Quiet s) (hturn : c ∈ s.context.turns) : Clear {s with context := c} := by
  have hsame := Context.turn_unlooped hturn
  refine ⟨h.live.registered, h.live.destroyed, ?_, h.live.ignores, ?_, ?_, ?_⟩
  · exact (congrArg (·.stop) hsame).trans h.live.stop
  · rw [show c.portals = s.context.portals from congrArg (·.portals) hsame]
    exact h.served
  · exact (congrArg (·.queue) hsame).trans h.queue
  · exact fun l hl => h.launched l (Context.mem_line_of_turn hturn (List.mem_cons_of_mem _ hl))

/-- The loop has gone on. -/
theorem Clear.quiet {s' : Seat σ (Context Unit)} {c' : Context Unit} (h : Clear s)
    (hcontext : s'.context = c'.pass) (hphase : c'.loop.phase ≠ .starting ∧ c'.loop.phase ≠ .off)
    (hportals : c'.portals = s.context.portals) (hstop : c'.stop = s.context.stop)
    (hqueue : c'.queue = s.context.queue) (hothers : c'.others = s.context.others)
    (hhandler : s'.handler = s.handler) (hregistered : s'.registered = s.registered)
    (hdestroyed : s'.vcpu.destroyed = s.vcpu.destroyed) (hstarted : s'.vcpu.started = true) : Quiet s' := by
  have hpass := Context.pass_unlooped c'
  refine ⟨⟨hregistered.trans h.registered, hdestroyed.trans h.destroyed, ?_, ?_, ?_⟩, hstarted, ?_, ?_, ?_⟩
  · rw [hcontext]
    exact (congrArg (·.stop) hpass).trans (hstop.trans h.stop)
  · rw [hcontext]
    exact ⟨c'.loop, Context.mem_pass_line hphase.2, hphase.2⟩
  · rw [hhandler]
    exact h.ignores
  · rw [hcontext, show c'.pass.portals = s.context.portals from (congrArg (·.portals) hpass).trans hportals]
    exact h.served
  · rw [hcontext]
    exact (congrArg (·.queue) hpass).trans (hqueue.trans h.queue)
  · rw [hcontext]
    refine @Context.phases_pass _ c' (· ≠ .starting) hphase.1 ?_
    rw [hothers]
    exact h.launched

/-- What a loop of a quiet vCPU can do at its turn: take a signal, or deliver the recall. -/
theorem Quiet.move_cases (h : Quiet s) (hs : m.seats[id]? = some s) (hturn : c ∈ s.context.turns)
    (hmove : move m id c = some m') :
    (∃ f n, c.loop.phase = .waiting f ∧ s.vcpu.signals.pending = n + 1 ∧
        m' = m.modify id fun _ =>
          { s with
            vcpu := {s.vcpu with signals := ⟨n⟩}
            context := if s.vcpu.request.isSome then c.answer f else c }) ∨
      (c.loop.phase = .ready ∧ s.context.recallPending = true ∧
        m' = deliver id .recalled c.takeRecall m) := by
  have hsame := Context.turn_unlooped hturn
  have hstop : c.stop = false := (congrArg (·.stop) hsame).trans h.live.stop
  have hqueue : c.queue = [] := (congrArg (·.queue) hsame).trans h.queue
  have hrecall : c.recallPending = s.context.recallPending := congrArg (·.recallPending) hsame
  have hlaunched : c.loop.phase ≠ .starting :=
    h.launched c.loop (Context.mem_line_of_turn hturn (List.mem_cons_self ..))
  have hnext : ∀ next c', c.next? = some (next, c') → c.loop.phase = .ready ∧
      s.context.recallPending = true ∧ next = some .recalled ∧ c' = c.takeRecall := by
    intro next c' hnext
    rcases Context.next?_cases hnext with ⟨hphase, _⟩ | ⟨hphase, ⟨hstop', _⟩ | hnow | ⟨_, _, r, rest, hqueue', _⟩⟩
    · exact absurd hphase hlaunched
    · rw [hstop] at hstop'
      cases hstop'
    · exact ⟨hphase, hrecall ▸ hnow.2.1, hnow.2.2⟩
    · rw [hqueue] at hqueue'
      cases hqueue'
  rcases Simulated.move_cases hs hmove with ⟨f, ends, v, hphase, hwake, rfl⟩ | ⟨c', hc', _⟩ | ⟨r, c', hc', rfl⟩
  · obtain ⟨rest, hdown, hv⟩ := Option.map_eq_some_iff.mp hwake
    obtain ⟨rfl, rfl⟩ := Prod.mk.inj hv
    unfold Semaphore.down? at hdown
    split at hdown
    · cases hdown
    next n hn =>
      cases hdown
      refine .inl ⟨f, n, hphase, hn, ?_⟩
      dsimp only
      rw [h.live.destroyed, Bool.false_or]
  · obtain ⟨_, _, hnone, _⟩ := hnext _ _ hc'
    cases hnone
  · obtain ⟨hphase, hpending, hr, rfl⟩ := hnext _ _ hc'
    cases hr
    exact .inr ⟨hphase, hpending, rfl⟩

/-- The recall has been delivered, and the request and all signals taken. -/
structure Recalled (r : Request) (s s' : Seat σ (Context Unit)) : Prop where
  settled : Settled r.blocks s'
  recalls : recalls s' = recalls s + 1
  backlog : backlog s' = 0

theorem recalled_of_log {s' : Seat σ (Context Unit)} (hturn : c ∈ s.context.turns) (r : Request)
    (hsettled : Settled r.blocks s') (hreasons : s'.context.reasons = c.reasons ++ [.recalled])
    (hrecall : s'.context.recallPending = false) (hsignals : s'.vcpu.signals.pending = 0) :
    Recalled r s s' := by
  refine ⟨hsettled, ?_, ?_⟩
  · have hbefore : c.reasons = s.context.reasons :=
      Context.reasons_of_log (congrArg (·.log) (Context.turn_unlooped hturn))
    rw [recalls, hreasons, hbefore, List.count_append]
    rfl
  · rw [backlog, hrecall, hsignals]
    rfl

/-- A recall that finds a request to run is answered. -/
theorem Quiet.recalled_run {p : Exit.Portal Unit} (h : Quiet s) (hturn : c ∈ s.context.turns) :
    Recalled .run s (resumed (c.takeRecall.recorded .recalled p.mask true)
      (c.takeRecall.filled .recalled p.mask) s) := by
  generalize hseat : resumed (c.takeRecall.recorded .recalled p.mask true)
    (c.takeRecall.filled .recalled p.mask) s = s'
  obtain ⟨state, hv⟩ := Vcpu.resume_fst (taken .recalled s.vcpu)
    (c.takeRecall.filled .recalled p.mask) c.loop.fpu
  have hvcpu : s'.vcpu = {taken .recalled s.vcpu with state, blocked := false} := by
    rw [← hseat, ← hv]
    rfl
  have hquiet : Quiet s' := by
    rw [← hseat] at hvcpu ⊢
    refine (h.clear hturn).quiet rfl Phase.ready_launched rfl rfl rfl rfl rfl rfl ?_ ?_
    · exact congrArg (·.destroyed) hvcpu
    · exact congrArg (·.started) hvcpu
  have hrecall : s'.context.recallPending = false := by
    rw [← hseat]
    exact Context.pass_recallPending _
  refine recalled_of_log hturn .run ⟨⟨hquiet, ?_⟩, ?_, ?_⟩ ?_ hrecall ?_
  · rw [hrecall]
    intro hfalse
    cases hfalse
  · exact congrArg (·.request) hvcpu
  · exact congrArg (·.blocked) hvcpu
  · rw [← hseat]
    exact (Context.reasons_answer _ _).trans (Context.reasons_recorded ..)
  · exact congrArg (·.signals.pending) hvcpu

/-- Any other recall is ignored by the handler, and waits. -/
theorem Quiet.recalled_pause {p : Exit.Portal Unit} (h : Quiet s) (hturn : c ∈ s.context.turns)
    (memory : σ) (left : Register.State) :
    Recalled .pause s (concluded id .recalled (c.takeRecall.filled .recalled p.mask) ⟨memory, left, none⟩
      (entered .recalled (c.takeRecall.recorded .recalled p.mask true)
        (c.takeRecall.filled .recalled p.mask) s)) := by
  rw [concluded_blocked id .recalled _ rfl rfl]
  have hrecall := Context.pass_recallPending ((entered .recalled
    (c.takeRecall.recorded .recalled p.mask true) (c.takeRecall.filled .recalled p.mask) s).context.enter
      (.waiting (c.takeRecall.filled .recalled p.mask).cleared))
  refine recalled_of_log hturn .pause ⟨⟨?_, ?_⟩, rfl, rfl⟩ ?_ hrecall rfl
  · exact (h.clear hturn).quiet rfl (Phase.waiting_launched _) rfl rfl rfl rfl rfl rfl rfl rfl
  · show (Context.pass _).recallPending = true → _
    rw [hrecall]
    intro hfalse
    cases hfalse
  · exact (Context.reasons_of_log (Context.pass_log _)).trans (Context.reasons_recorded ..)

/-- A recall takes the request and all signals. -/
theorem Quiet.recalled (h : Quiet s) (hs : m.seats[id]? = some s) (hturn : c ∈ s.context.turns)
    {r : Request} (hrequest : s.vcpu.request = some r) :
    ∃ s', (deliver id .recalled c.takeRecall m).seats[id]? = some s' ∧ Recalled r s s' := by
  obtain ⟨p, hp⟩ := h.served
  have hroute : c.takeRecall.portals.route? .recalled = some p :=
    (congrArg (·.portals.route? .recalled) (Context.turn_unlooped hturn)).trans hp
  cases r with
  | run =>
    rw [deliver_resumed hroute hs h.live.registered hrequest, Machine.seat_modify_of_some hs]
    exact ⟨_, rfl, h.recalled_run hturn⟩
  | pause =>
    have hother : ¬(Exit.Reason.recalled = .recalled ∧ s.vcpu.request = some .run) := by
      rw [hrequest]
      rintro ⟨_, ⟨⟩⟩
    have hreason := (entered_loadedFrom s c.takeRecall .recalled p.mask).reason
    obtain ⟨memory, left, hhandle⟩ := h.live.ignores s.memory _ hreason
    have hdeliver := deliver_handled hroute hs h.live.registered hother
    dsimp only at hdeliver
    rw [hhandle, Hypervisor.exec, Machine.modify_modify] at hdeliver
    rw [hdeliver, Machine.seat_modify_of_some hs]
    exact ⟨_, rfl, h.recalled_pause hturn memory left⟩

/-- While a request waits, a wait ends, or the recall takes the request. -/
theorem Pending.moves {r : Request} (h : Pending r s) (hs : m.seats[id]? = some s) (hmoves : Moves m id m') :
    ∃ s', m'.seats[id]? = some s' ∧ backlog s' < backlog s ∧
      ((Pending r s' ∧ recalls s' = recalls s) ∨ (Settled r.blocks s' ∧ recalls s' = recalls s + 1)) := by
  obtain ⟨s₀, c, hs₀, hturn, hmove⟩ := hmoves
  cases hs.symm.trans hs₀
  have hsame := Context.turn_unlooped hturn
  rcases h.quiet.move_cases hs hturn hmove with ⟨f, n, hphase, hn, rfl⟩ | ⟨_, hpending, rfl⟩
  · rw [Machine.seat_modify_of_some hs, h.request]
    have hrecall : (c.answer f).recallPending = true :=
      (Context.pass_recallPending _).trans ((congrArg (·.recallPending) hsame).trans h.forced)
    refine ⟨_, rfl, ?_, .inl ⟨⟨?_, h.request, hrecall, .inl ?_⟩, ?_⟩⟩
    · show n + (if (c.answer f).recallPending = true then 1 else 0) < backlog s
      rw [hrecall, backlog, h.forced, hn]
      exact Nat.lt_succ_self _
    · exact (h.quiet.clear hturn).quiet rfl Phase.ready_launched rfl rfl rfl rfl rfl rfl rfl
        h.quiet.started
    · exact ⟨_, Context.mem_pass_line Phase.ready_launched.2, rfl⟩
    · exact congrArg (List.count _)
        ((Context.reasons_answer c f).trans (Context.reasons_of_log (congrArg (·.log) hsame)))
  · obtain ⟨s', hs', hrecalled⟩ := h.quiet.recalled hs hturn h.request
    refine ⟨s', hs', ?_, .inr ⟨hrecalled.settled, hrecalled.recalls⟩⟩
    rw [hrecalled.backlog, backlog, hpending]
    exact Nat.succ_pos _

/-- Once no request waits, only stale signals are taken. -/
theorem Settled.moves {b : Bool} (h : Settled b s) (hs : m.seats[id]? = some s) (hmoves : Moves m id m') :
    ∃ s', m'.seats[id]? = some s' ∧ backlog s' < backlog s ∧ Settled b s' ∧ recalls s' = recalls s := by
  obtain ⟨s₀, c, hs₀, hturn, hmove⟩ := hmoves
  cases hs.symm.trans hs₀
  have hsame := Context.turn_unlooped hturn
  rcases h.quiet.move_cases hs hturn hmove with ⟨f, n, hphase, hn, rfl⟩ | ⟨hphase, hpending, _⟩
  · rw [Machine.seat_modify_of_some hs, h.request]
    have hrecall : c.recallPending = s.context.recallPending := congrArg (·.recallPending) hsame
    have hwaits : c.loop.phase ≠ .off := by
      rw [hphase]
      intro hfalse
      cases hfalse
    refine ⟨_, rfl, ?_, ⟨⟨?_, ?_⟩, h.request, h.blocked⟩, ?_⟩
    · show n + (if c.recallPending = true then 1 else 0) < backlog s
      rw [hrecall, backlog, hn]
      omega
    · refine h.quiet.of_same rfl rfl rfl h.quiet.started (congrArg (·.portals) hsame)
        (congrArg (·.stop) hsame) (congrArg (·.queue) hsame) ?_ ⟨c.loop, List.mem_cons_self .., hwaits⟩
      exact fun l hl => h.quiet.launched l (Context.mem_line_of_turn hturn hl)
    · exact fun htrue l hl => h.untaken (hrecall.symm.trans htrue) l (Context.mem_line_of_turn hturn hl)
    · exact congrArg (List.count _) (Context.reasons_of_log (congrArg (·.log) hsame))
  · exact absurd hphase (h.untaken hpending c.loop (Context.mem_line_of_turn hturn (List.mem_cons_self ..)))

/-- A loop with a recall to take can move. -/
theorem moves_of_recall (hs : m.seats[id]? = some s) (hstop : s.context.stop = false)
    (hrecall : s.context.recallPending = true) {l : Loop} (hl : l ∈ s.context.line) (hphase : l.phase = .ready) :
    ∃ m', Moves m id m' := by
  obtain ⟨c, hturn, rfl⟩ := Context.exists_turn hl
  have hsame := Context.turn_unlooped hturn
  have hstop' : c.stop = false := (congrArg (·.stop) hsame).trans hstop
  have hrecall' : c.recallPending = true := (congrArg (·.recallPending) hsame).trans hrecall
  have hnext : c.next? = some (some .recalled, c.takeRecall) := by
    rw [Context.next?, hphase]
    dsimp only
    rw [if_neg (Bool.eq_false_iff.mp hstop'), if_pos hrecall']
    rfl
  exact ⟨_, s, c, hs, hturn, move_of_next? hnext⟩

/-- A loop with an exit to deliver can move. -/
theorem moves_of_queue (hs : m.seats[id]? = some s) (hstop : s.context.stop = false)
    (hqueue : s.context.queue ≠ []) {l : Loop} (hl : l ∈ s.context.line) (hphase : l.phase = .ready) :
    ∃ m', Moves m id m' := by
  cases hrecall : s.context.recallPending with
  | true => exact moves_of_recall hs hstop hrecall hl hphase
  | false =>
    obtain ⟨c, hturn, rfl⟩ := Context.exists_turn hl
    have hsame := Context.turn_unlooped hturn
    have hstop' : c.stop = false := (congrArg (·.stop) hsame).trans hstop
    have hrecall' : c.recallPending = false := (congrArg (·.recallPending) hsame).trans hrecall
    have hqueue' : c.queue = s.context.queue := congrArg (·.queue) hsame
    obtain ⟨r, rest, hfirst⟩ := List.exists_cons_of_ne_nil hqueue
    have hnext : c.next? = some (some r, {c with queue := rest}) := by
      rw [Context.next?, hphase]
      dsimp only
      rw [if_neg (Bool.eq_false_iff.mp hstop'), if_neg (Bool.eq_false_iff.mp hrecall'), hqueue', hfirst]
    exact ⟨_, s, c, hs, hturn, move_of_next? hnext⟩

/-- A loop that is to start can move. -/
theorem moves_of_starting (hs : m.seats[id]? = some s) {l : Loop} (hl : l ∈ s.context.line)
    (hphase : l.phase = .starting) : ∃ m', Moves m id m' := by
  obtain ⟨c, hturn, rfl⟩ := Context.exists_turn hl
  have hnext : c.next? = some (some .startup, c.enter .ready) := by rw [Context.next?, hphase]
  exact ⟨_, s, c, hs, hturn, move_of_next? hnext⟩

/-- A loop that waits can move when there is a signal. -/
theorem moves_of_signal (hs : m.seats[id]? = some s) (hsignals : 0 < s.vcpu.signals.pending) {l : Loop}
    (hl : l ∈ s.context.line) {f : Frame} (hphase : l.phase = .waiting f) : ∃ m', Moves m id m' := by
  obtain ⟨c, hturn, rfl⟩ := Context.exists_turn hl
  obtain ⟨n, hn⟩ : ∃ n, s.vcpu.signals.pending = n + 1 := ⟨_, (Nat.succ_pred_eq_of_pos hsignals).symm⟩
  have hwake : s.vcpu.wake? = some (s.vcpu.destroyed || s.vcpu.request.isSome,
      {s.vcpu with signals := ⟨n⟩}) := by
    rw [Vcpu.wake?, Semaphore.down?, hn]
    rfl
  exact ⟨_, s, c, hs, hturn, move_of_wake? hs hphase hwake⟩

/-- A vCPU that a request waits for can move. -/
theorem Pending.can_move {r : Request} (h : Pending r s) (hs : m.seats[id]? = some s) :
    ∃ m', Moves m id m' := by
  have hready : ∀ l ∈ s.context.line, l.phase = .ready → ∃ m', Moves m id m' :=
    fun l hl => moves_of_recall hs h.quiet.live.stop h.forced hl
  rcases h.wakes with ⟨l, hl, hphase⟩ | hsignals
  · exact hready l hl hphase
  · obtain ⟨l, hl, halive⟩ := h.quiet.live.alive
    cases hphase : l.phase with
    | off => exact absurd hphase halive
    | starting => exact absurd hphase (h.quiet.launched l hl)
    | ready => exact hready l hl hphase
    | waiting f => exact moves_of_signal hs hsignals hl hphase

end Steps

/-! ### Runs -/

/-- What happens while no more requests come: the vCPU moves, and elsewhere anything may
happen that leaves it alone. -/
inductive Undisturbed (id : Exit.VcpuId) (m : State σ) : State σ → Prop where
  | refl : Undisturbed id m m
  | moves {m' m'' : State σ} (h : Undisturbed id m m') (hmoves : Moves m' id m'') : Undisturbed id m m''
  | elsewhere {m' m'' : State σ} (h : Undisturbed id m m') (hsame : m''.seats[id]? = m'.seats[id]?) :
    Undisturbed id m m''

theorem Undisturbed.after {id : Exit.VcpuId} {m m' m'' : State σ} (h' : Undisturbed id m' m'')
    (h : Undisturbed id m m') : Undisturbed id m m'' := by
  induction h' with
  | refl => exact h
  | moves _ hmoves ih => exact .moves ih hmoves
  | elsewhere _ hsame ih => exact .elsewhere ih hsame

/-- A request waits, or one recall has taken it. -/
def Heard (r : Request) (n : Nat) (s : Seat σ (Context Unit)) : Prop :=
  (Pending r s ∧ recalls s ≤ n) ∨ (Settled r.blocks s ∧ recalls s ≤ n + 1)

theorem Heard.moves {m m' : State σ} {id : Exit.VcpuId} {s : Seat σ (Context Unit)} {r : Request} {n : Nat}
    (h : Heard r n s) (hs : m.seats[id]? = some s) (hmoves : Moves m id m') :
    ∃ s', m'.seats[id]? = some s' ∧ backlog s' < backlog s ∧ Heard r n s' := by
  rcases h with ⟨hpending, hn⟩ | ⟨hsettled, hn⟩
  · obtain ⟨s', hs', hlt, ⟨hpending', hcount⟩ | ⟨hsettled', hcount⟩⟩ := hpending.moves hs hmoves
    · exact ⟨s', hs', hlt, .inl ⟨hpending', by omega⟩⟩
    · exact ⟨s', hs', hlt, .inr ⟨hsettled', by omega⟩⟩
  · obtain ⟨s', hs', hlt, hsettled', hcount⟩ := hsettled.moves hs hmoves
    exact ⟨s', hs', hlt, .inr ⟨hsettled', by omega⟩⟩

theorem Heard.run {m m' : State σ} {id : Exit.VcpuId} {s : Seat σ (Context Unit)} {r : Request} {n : Nat}
    (h : Heard r n s) (hs : m.seats[id]? = some s) (hrun : Undisturbed id m m') :
    ∃ s', m'.seats[id]? = some s' ∧ Heard r n s' := by
  induction hrun with
  | refl => exact ⟨s, hs, h⟩
  | moves _ hmoves ih =>
    obtain ⟨s', hs', h'⟩ := ih
    obtain ⟨s'', hs'', _, h''⟩ := h'.moves hs' hmoves
    exact ⟨s'', hs'', h''⟩
  | elsewhere _ hsame ih =>
    obtain ⟨s', hs', h'⟩ := ih
    exact ⟨s', hsame.trans hs', h'⟩

/-- At rest the request has been taken. -/
theorem Heard.rest {m : State σ} {id : Exit.VcpuId} {s : Seat σ (Context Unit)} {r : Request} {n : Nat}
    (h : Heard r n s) (hs : m.seats[id]? = some s) (hrest : advance m id = none) :
    Settled r.blocks s ∧ recalls s ≤ n + 1 := by
  rcases h with ⟨hpending, _⟩ | hsettled
  · obtain ⟨m', hmoves⟩ := hpending.can_move hs
    exact absurd hmoves (advance_eq_none_iff.mp hrest m')
  · exact hsettled

/-- The vCPU comes to rest: each of its steps uses up a signal or the recall. -/
theorem exists_rest {m : State σ} {id : Exit.VcpuId} {s : Seat σ (Context Unit)} {r : Request} {n : Nat}
    (h : Heard r n s) (hs : m.seats[id]? = some s) :
    ∃ m', Undisturbed id m m' ∧ advance m' id = none := by
  generalize hb : backlog s = b
  induction b using Nat.strongRecOn generalizing m s with
  | ind b ih =>
    cases hstep : advance m id with
    | none => exact ⟨m, .refl, hstep⟩
    | some m' =>
      have hmoves := moves_of_advance hstep
      obtain ⟨s', hs', hlt, h'⟩ := h.moves hs hmoves
      obtain ⟨m'', hrun, hrest⟩ := ih _ (hb ▸ hlt) h' hs' rfl
      exact ⟨m'', hrun.after (.moves .refl hmoves), hrest⟩

end Simulated

end GuestMachine
