import GuestMachine.Proofs.Requests

/-! The last request wins.

Other threads run and pause a vCPU by requests, and a request takes the place of the one
before it. At rest each of them is left and taken at once (`Resting.asked`); while a
handler works only the last is kept, whatever the handler runs in between
(`exec_noted`). In both cases one recall takes what is left, and the vCPU is blocked after
it just if that was a request to pause (`last_request_wins`).

That needs a recall to have a request behind it. One that is forced on a vCPU before its
startup exit does not, and it blocks a vCPU that was last asked to run
(`forced_recall_blocks`). -/
namespace GuestMachine

/-- The vCPU's part in the call of another thread. -/
def Request.asked : Request → Vcpu → Vcpu × Option Request
  | .run => Vcpu.run false
  | .pause => Vcpu.pause false

/-- What another thread asks for by a call. -/
def Call.request? : Call → Option Request
  | .remoteRun => some .run
  | .remotePause => some .pause
  | _ => none

/-- Whether a call of the handler of a vCPU leaves it running: the handler neither pauses
its own vCPU nor shuts down. -/
def Call.Mild (id : Exit.VcpuId) : Call → Prop
  | .pause | .shutdown => False
  | .pauseVcpu target => target ≠ id
  | _ => True

instance (id : Exit.VcpuId) : DecidablePred (Call.Mild id)
  | .pause | .shutdown => isFalse fun h => h
  | .pauseVcpu target => inferInstanceAs (Decidable (target ≠ id))
  | .run | .remoteRun | .remotePause | .runVcpu _ | .probe => isTrue trivial

namespace Simulated
open Register

variable {σ : Type}

/-! ### One call -/

/-- A call of another thread leaves a request, unless it is to run a vCPU that runs with
no request waiting. -/
theorem demanded_asked {s : Seat σ (Context Unit)} (hstarted : s.vcpu.started = true) (r : Request) :
    demanded r.asked s = {s with vcpu := (s.vcpu.post r).signal, context := s.context.requestRecall} ∨
      (r = .run ∧ s.vcpu.blocked = false ∧ s.vcpu.request = none ∧ demanded r.asked s = s) := by
  cases r with
  | pause => exact .inl rfl
  | run =>
    cases hidle : !s.vcpu.blocked && s.vcpu.request.isNone with
    | true =>
      obtain ⟨hblocked, hrequest⟩ := Bool.and_eq_true_iff.mp hidle
      refine .inr ⟨rfl, by simpa using hblocked, Option.isNone_iff_eq_none.mp hrequest, ?_⟩
      simp [demanded, Request.asked, Vcpu.run, hstarted, hidle]
    | false =>
      left
      simp [demanded, Request.asked, Vcpu.run, hstarted, hidle]

/-- A handler that runs its vCPU does no more than that. -/
theorem demanded_own {s : Seat σ (Context Unit)} (hstarted : s.vcpu.started = true) :
    demanded (Vcpu.run true) s = {s with vcpu := {s.vcpu with blocked := false}} := by
  simp [demanded, Vcpu.run, hstarted]

/-! ### Calls at rest -/

/-- The call of another thread. -/
def ask (r : Request) (id : Exit.VcpuId) (m : State σ) : State σ :=
  match r with
  | .run => (hypervisor.run id m).2
  | .pause => (hypervisor.pause id m).2

theorem ask_eq {m : State σ} {id : Exit.VcpuId} {s : Seat σ (Context Unit)} (hs : m.seats[id]? = some s)
    (hregistered : s.registered = true) (r : Request) : ask r id m = m.modify id (demanded r.asked) := by
  cases r with
  | run => exact congrArg Prod.snd (demandById_eq hs hregistered fun _ => Vcpu.run false)
  | pause => exact congrArg Prod.snd (demandById_eq hs hregistered fun _ => Vcpu.pause false)

/-- Calls of other threads, each of them followed until nothing moves any more. -/
inductive Asked (id : Exit.VcpuId) : List Request → State σ → State σ → Prop where
  | nil (m : State σ) : Asked id [] m m
  | cons {m m' m'' : State σ} {r : Request} {rs : List Request} (hrun : Undisturbed id (ask r id m) m')
    (hrest : advance m' id = none) (h : Asked id rs m' m'') : Asked id (r :: rs) m m''

section Rest
variable {m : State σ} {id : Exit.VcpuId} {s : Seat σ (Context Unit)}

/-- A vCPU that does not move, with no exit to come, rests. -/
theorem resting_of_rest (hm : Reachable m) (hs : m.seats[id]? = some s) (hlive : Live s)
    (hstarted : s.vcpu.started = true) (hqueue : s.context.queue = []) (hrest : advance m id = none) :
    Resting s := by
  have hstill := advance_eq_none_iff.mp hrest
  refine ⟨⟨hlive, hstarted, ⟨_, (reachable_made hm hs).served _⟩, hqueue, fun l hl hphase => ?_⟩,
    fun hrecall l hl hphase => ?_⟩
  · obtain ⟨m', hmoves⟩ := moves_of_starting hs hl hphase
    exact hstill m' hmoves
  · obtain ⟨m', hmoves⟩ := moves_of_recall hs hlive.stop hrecall hl hphase
    exact hstill m' hmoves

theorem Resting.asked (h : Resting s) (r : Request) : Heard r (recalls s) (demanded r.asked s) := by
  rcases demanded_asked h.quiet.started r with heq | ⟨rfl, hblocked, hrequest, heq⟩
  · rw [heq]
    refine .inl ⟨⟨?_, rfl, rfl, .inr (Nat.succ_pos _)⟩, Nat.le_refl _⟩
    exact h.quiet.of_same rfl rfl rfl h.quiet.started rfl rfl rfl h.quiet.launched h.quiet.live.alive
  · rw [heq]
    exact .inr ⟨⟨h, hrequest, hblocked⟩, Nat.le_succ _⟩

/-- What is heard after a call. -/
theorem Resting.heard (h : Resting s) (hs : m.seats[id]? = some s) (r : Request) :
    ∃ s', (ask r id m).seats[id]? = some s' ∧ Heard r (recalls s) s' := by
  rw [ask_eq hs h.quiet.live.registered, Machine.seat_modify, hs]
  exact ⟨_, rfl, h.asked r⟩

/-- After some calls the last has been taken, with a recall for each at most. -/
theorem Asked.settled {m' : State σ} {rs : List Request} (hasked : Asked id rs m m') (h : Resting s)
    (hs : m.seats[id]? = some s) {r : Request} (hr : rs.getLast? = some r) :
    ∃ t, m'.seats[id]? = some t ∧ Settled r.blocks t ∧ recalls t ≤ recalls s + rs.length := by
  induction hasked generalizing s with
  | nil m => cases hr
  | @cons m m₁ m' first rest hrun hrest hasked ih =>
    obtain ⟨s', hs', hheard⟩ := h.heard hs first
    obtain ⟨t, ht, hheard'⟩ := hheard.run hs' hrun
    obtain ⟨hsettled, hcount⟩ := hheard'.rest ht hrest
    cases hasked with
    | nil =>
      obtain rfl := Option.some.inj hr
      exact ⟨t, ht, hsettled, hcount⟩
    | cons hrun' hrest' hasked' =>
      obtain ⟨t', ht', hsettled', hcount'⟩ := ih hsettled.toResting ht (List.getLast?_cons_cons ▸ hr)
      refine ⟨t', ht', hsettled', ?_⟩
      simp only [List.length_cons] at hcount' ⊢
      omega

/-- Calls can always be followed until nothing moves. -/
theorem Resting.exists_asked (h : Resting s) (hs : m.seats[id]? = some s) (rs : List Request) :
    ∃ m', Asked id rs m m' := by
  induction rs generalizing m s with
  | nil => exact ⟨m, .nil m⟩
  | cons r rest ih =>
    obtain ⟨s', hs', hheard⟩ := h.heard hs r
    obtain ⟨m', hrun, hrest⟩ := exists_rest hheard hs'
    obtain ⟨t, ht, hheard'⟩ := hheard.run hs' hrun
    obtain ⟨m'', hasked⟩ := ih (hheard'.rest ht hrest).1.toResting ht
    exact ⟨m'', .cons hrun hrest hasked⟩

end Rest

/-! ### Calls while a handler works -/

/-- The calls that the handler of `id` makes until it is done. -/
def calls (id : Exit.VcpuId) : Program σ → State σ → List Call
  | .done .., _ => []
  | .call c next, m =>
    let (reply, m') := hypervisor.perform id m c
    c :: calls id (next reply) m'

/-- How the last request stands: it waits, with the recall and a signal that it has left,
unless it was to run a vCPU that ran. Before the first, a recall has a request behind it. -/
def Noted : Option Request → Seat σ (Context Unit) → Prop
  | none, s => s.context.recallPending = true → s.vcpu.request ≠ none
  | some r, s =>
    (s.vcpu.request = some r ∧ s.context.recallPending = true ∧ 0 < s.vcpu.signals.pending) ∨
      (r = .run ∧ s.vcpu.request = none ∧ s.context.recallPending = false ∧ s.vcpu.blocked = false)

section Work
variable {m : State σ} {id : Exit.VcpuId} {s : Seat σ (Context Unit)} {last : Option Request}

theorem Noted.unforced (h : Noted last s) (hrequest : s.vcpu.request = none) :
    s.context.recallPending = false := by
  cases last with
  | none => exact Bool.eq_false_iff.mpr fun hrecall => h hrecall hrequest
  | some r =>
    rcases h with ⟨hsome, _⟩ | ⟨_, _, hrecall, _⟩
    · rw [hsome] at hrequest
      cases hrequest
    · exact hrecall

theorem Noted.of_same {s' : Seat σ (Context Unit)} (h : Noted last s)
    (hrequest : s'.vcpu.request = s.vcpu.request) (hsignals : s'.vcpu.signals = s.vcpu.signals)
    (hblocked : s'.vcpu.blocked = s.vcpu.blocked)
    (hrecall : s'.context.recallPending = s.context.recallPending) : Noted last s' := by
  cases last with
  | none =>
    rw [Noted, hrequest, hrecall]
    exact h
  | some r =>
    rw [Noted, hrequest, hsignals, hblocked, hrecall]
    exact h

theorem Noted.heard {r : Request} {n : Nat} (h : Noted (some r) s) (hquiet : Quiet s) (hn : recalls s ≤ n) :
    Heard r n s := by
  rcases h with ⟨hrequest, hrecall, hsignals⟩ | ⟨rfl, hrequest, hrecall, hblocked⟩
  · exact .inl ⟨⟨hquiet, hrequest, hrecall, .inr hsignals⟩, hn⟩
  · refine .inr ⟨⟨⟨hquiet, ?_⟩, hrequest, hblocked⟩, Nat.le_succ_of_le hn⟩
    rw [hrecall]
    intro hfalse
    cases hfalse

/-- Another thread's call makes its request the last. -/
theorem Noted.asked (h : Noted last s) (hstarted : s.vcpu.started = true) (r : Request) :
    Noted (some r) (demanded r.asked s) := by
  rcases demanded_asked hstarted r with heq | ⟨rfl, hblocked, hrequest, heq⟩
  · rw [heq]
    exact .inl ⟨rfl, rfl, Nat.succ_pos _⟩
  · rw [heq]
    exact .inr ⟨rfl, hrequest, h.unforced hrequest, hblocked⟩

/-- The handler's own runs leave it the last. -/
theorem Noted.own (h : Noted last s) (hstarted : s.vcpu.started = true) :
    Noted last (demanded (Vcpu.run true) s) := by
  rw [demanded_own hstarted]
  cases last with
  | none => exact h
  | some r => exact h.imp id fun ⟨hr, hrequest, hrecall, _⟩ => ⟨hr, hrequest, hrecall, rfl⟩

theorem Noted.perform (h : Noted last s) (hs : m.seats[id]? = some s) (hregistered : s.registered = true)
    (hstarted : s.vcpu.started = true) {c : Call} (hmild : c.Mild id) :
    ∃ s', (hypervisor.perform id m c).2.seats[id]? = some s' ∧ unasked s' = unasked s ∧
      Noted (c.request?.or last) s' := by
  have hdemand : ∀ step, (hypervisor.demand step id m).seats[id]? = some (demanded step s) := by
    intro step
    rw [demand_eq, Machine.seat_modify_of_some hs]
  have hown := h.own hstarted
  cases c with
  | run => exact ⟨_, hdemand _, unasked_demanded (Vcpu.run_fst true) s, hown⟩
  | remoteRun => exact ⟨_, hdemand _, unasked_demanded (Vcpu.run_fst false) s, h.asked hstarted .run⟩
  | remotePause => exact ⟨_, hdemand _, unasked_demanded (Vcpu.pause_fst false) s, h.asked hstarted .pause⟩
  | pause => exact hmild.elim
  | shutdown => exact hmild.elim
  | probe => exact ⟨s, hs, rfl, h⟩
  | pauseVcpu target => exact ⟨s, (demandById_of_ne m hmild _).trans hs, rfl, h⟩
  | runVcpu target =>
    by_cases hne : target = id
    · subst hne
      refine ⟨_, ?_, unasked_demanded (Vcpu.run_fst true) s, hown⟩
      show (hypervisor.demandById (fun p => Vcpu.run (p == target)) target m).2.seats[target]? = _
      rw [demandById_eq hs hregistered, beq_self_eq_true, Machine.seat_modify_of_some hs]
    · exact ⟨s, (demandById_of_ne m hne _).trans hs, rfl, h⟩

theorem last_cons (c : Call) (cs : List Call) (last : Option Request) :
    ((c :: cs).filterMap Call.request?).getLast?.or last =
      (cs.filterMap Call.request?).getLast?.or (c.request?.or last) := by
  cases hc : c.request? with
  | none => rw [List.filterMap_cons_none hc, Option.none_or]
  | some r =>
    rw [List.filterMap_cons_some hc, List.getLast?_cons]
    cases (cs.filterMap Call.request?).getLast? <;> rfl

/-- The handler's work leaves the last request of all. -/
theorem exec_noted {p : Program σ} (h : Noted last s) (hs : m.seats[id]? = some s)
    (hregistered : s.registered = true) (hstarted : s.vcpu.started = true)
    (hmild : ∀ c ∈ calls id p m, c.Mild id) :
    ∃ w, (hypervisor.exec id p m).2.seats[id]? = some w ∧ unasked w = unasked s ∧
      Noted (((calls id p m).filterMap Call.request?).getLast?.or last) w := by
  induction p generalizing m s last with
  | done memory state failure => exact ⟨s, hs, rfl, h⟩
  | call c next ih =>
    have hfirst : c.Mild id := hmild c (List.mem_cons_self ..)
    obtain ⟨s', hs', hsame, hnoted⟩ := h.perform hs hregistered hstarted hfirst
    have hregistered' : s'.registered = true := (congrArg (·.registered) hsame).trans hregistered
    have hstarted' : s'.vcpu.started = true := (congrArg (·.vcpu.started) hsame).trans hstarted
    obtain ⟨w, hw, hsame', hnoted'⟩ := ih _ hnoted hs' hregistered' hstarted'
      fun c hc => hmild c (List.mem_cons_of_mem _ hc)
    refine ⟨w, hw, hsame'.trans hsame, ?_⟩
    show Noted (((c :: calls id (next (hypervisor.perform id m c).1)
      (hypervisor.perform id m c).2).filterMap Call.request?).getLast?.or last) w
    rw [last_cons]
    exact hnoted'

end Work

/-! ### The end of the work -/

/-- A loop takes an exit, not a recall, with no other on its way: none is queued, and no
other loop is to start. -/
structure Takes (s : Seat σ (Context Unit)) (c₀ : Context Unit) (r : Exit.Reason) (c : Context Unit) : Prop where
  turn : c₀ ∈ s.context.turns
  next : c₀.next? = some (some r, c)
  other : r ≠ .recalled
  queue : c.queue = []
  launched : ∀ l ∈ c₀.others, l.phase ≠ .starting

section Conclusion
variable {s w : Seat σ (Context Unit)} {c₀ c : Context Unit} {r : Exit.Reason} {mask : Mask}

/-- What the handler starts with, as far as requests go. -/
theorem Takes.noted (h : Takes s c₀ r c)
    (hrecall : c₀.loop.phase = .starting → c.recallPending = true → s.vcpu.request ≠ none) :
    Noted none (entered r (c.recorded r mask true) (c.filled r mask) s) := by
  intro hpending
  have hkept : (taken r s.vcpu).request = s.vcpu.request := congrArg (·.request) (taken_other h.other s.vcpu)
  show (taken r s.vcpu).request ≠ none
  rw [hkept]
  rcases Context.next?_cases h.next with ⟨hphase, _⟩ | ⟨_, ⟨_, hnone, _⟩ | ⟨_, _, hsome, _⟩ | ⟨_, hfalse, _, _, _, _, rfl⟩⟩
  · exact hrecall hphase hpending
  · cases hnone
  · exact absurd (Option.some.inj hsome) h.other
  · cases hfalse.symm.trans hpending

theorem Takes.clear (h : Takes s c₀ r c) (hlive : Live s)
    (hserved : ∃ p, s.context.portals.route? .recalled = some p) : Clear {s with context := c} := by
  have hsame := Context.next?_steady h.next
  have hturn := Context.turn_unlooped h.turn
  refine ⟨hlive.registered, hlive.destroyed, ?_, hlive.ignores, ?_, h.queue, ?_⟩
  · exact (congrArg (·.stop) hsame).trans ((congrArg (·.stop) hturn).trans hlive.stop)
  · rw [show c.portals = s.context.portals from
      (congrArg (·.portals) hsame).trans (congrArg (·.portals) hturn)]
    exact hserved
  · rw [show c.others = c₀.others from congrArg (·.others) hsame]
    exact h.launched

/-- The handler's work takes nothing of that away. -/
theorem Takes.clear_work (h : Takes s c₀ r c) (hclear : Clear {s with context := c})
    (hsame : unasked w = unasked (entered r (c.recorded r mask true) (c.filled r mask) s)) : Clear w := by
  have hdestroyed : (taken r s.vcpu).destroyed = s.vcpu.destroyed :=
    congrArg (·.destroyed) (taken_other h.other s.vcpu)
  refine ⟨?_, ?_, ?_, ?_, ?_, ?_, ?_⟩
  · exact (congrArg (·.registered) hsame).trans hclear.registered
  · exact (congrArg (·.vcpu.destroyed) hsame).trans (hdestroyed.trans hclear.destroyed)
  · exact (congrArg (·.context.stop) hsame).trans hclear.stop
  · rw [show w.handler = s.handler from congrArg (·.handler) hsame]
    exact hclear.ignores
  · rw [show w.context.portals = c.portals from congrArg (·.context.portals) hsame]
    exact hclear.served
  · exact (congrArg (·.context.queue) hsame).trans hclear.queue
  · rw [show w.context.others = c.others from congrArg (·.context.others) hsame]
    exact hclear.launched

theorem Takes.recalls_work (h : Takes s c₀ r c)
    (hsame : unasked w = unasked (entered r (c.recorded r mask true) (c.filled r mask) s)) :
    recalls w = recalls s := by
  have hlog : w.context.log = (c.recorded r mask true).log := congrArg (·.context.log) hsame
  have hbefore : c.reasons = s.context.reasons := Context.reasons_of_log
    ((congrArg (·.log) (Context.next?_steady h.next)).trans (congrArg (·.log) (Context.turn_unlooped h.turn)))
  have hone : List.count .recalled [r] = 0 := List.count_eq_zero.mpr fun hr => h.other (List.mem_singleton.mp hr).symm
  rw [recalls, Context.reasons_of_log hlog, Context.reasons_recorded, List.count_append, hone, hbefore]
  rfl

/-- Once the exit has been answered or waits, there is no exit for the vCPU but recalls, and
requests are as the handler has left them. -/
theorem Takes.concludes (h : Takes s c₀ r c) (hclear : Clear {s with context := c})
    (hsame : unasked w = unasked (entered r (c.recorded r mask true) (c.filled r mask) s))
    (id : Exit.VcpuId) {o : Hypervisor.Outcome σ} (ho : o.failure = none) :
    let t := concluded id r (c.filled r mask) o w
    Quiet t ∧ recalls t = recalls s ∧ t.vcpu.request = w.vcpu.request ∧ t.vcpu.signals = w.vcpu.signals ∧
      t.vcpu.blocked = w.vcpu.blocked ∧ t.context.recallPending = w.context.recallPending := by
  have hwork := h.clear_work hclear hsame
  have hstarted : w.vcpu.started = true := (congrArg (·.vcpu.started) hsame).trans (taken_started r s.vcpu)
  have hrecalls := h.recalls_work hsame
  intro t
  cases hblocked : w.vcpu.blocked with
  | true =>
    rw [show t = _ from concluded_blocked id r _ ho hblocked]
    refine ⟨?_, ?_, rfl, rfl, hblocked, Context.pass_recallPending _⟩
    · exact hwork.quiet rfl (Phase.waiting_launched _) rfl rfl rfl rfl rfl rfl rfl hstarted
    · rw [← hrecalls]
      exact congrArg (List.count _) (Context.reasons_of_log (Context.pass_log _))
  | false =>
    rw [show t = _ from concluded_answered id r _ ho hblocked]
    refine ⟨?_, ?_, rfl, rfl, hblocked, Context.pass_recallPending _⟩
    · exact hwork.quiet rfl Phase.ready_launched rfl rfl rfl rfl rfl rfl rfl hstarted
    · rw [← hrecalls]
      exact congrArg (List.count _) (Context.reasons_answer _ _)

/-- The last request is heard then. -/
theorem Takes.heard (h : Takes s c₀ r c) (hclear : Clear {s with context := c})
    (hsame : unasked w = unasked (entered r (c.recorded r mask true) (c.filled r mask) s))
    {q : Request} (hnoted : Noted (some q) w) (id : Exit.VcpuId) {o : Hypervisor.Outcome σ}
    (ho : o.failure = none) : Heard q (recalls s) (concluded id r (c.filled r mask) o w) := by
  obtain ⟨hquiet, hrecalls, hrequest, hsignals, hblocked, hrecall⟩ := h.concludes hclear hsame id ho
  exact (hnoted.of_same hrequest hsignals hblocked hrecall).heard hquiet (Nat.le_of_eq hrecalls)

/-- The handler works on the exit, and the exit ends as the handler has left it. -/
theorem Takes.delivers (h : Takes s c₀ r c) {m : State σ} (hm : Reachable m) {id : Exit.VcpuId}
    (hs : m.seats[id]? = some s) (hregistered : s.registered = true) :
    let mask := Exit.portalMask (s.handler.interest r)
    let e := entered r (c.recorded r mask true) (c.filled r mask) s
    let worked := hypervisor.exec id (s.handler.handle s.memory e.vcpu.state) (m.modify id fun _ => e)
    worked.2.seats[id]? = some w →
      ∃ m₁, move m id c₀ = some m₁ ∧
        m₁.seats[id]? = some (concluded id r (c.filled r mask) worked.1 w) := by
  intro mask e worked hw
  have hroute : c.portals.route? r = some ⟨mask, ()⟩ := by
    rw [show c.portals = s.context.portals from (congrArg (·.portals) (Context.next?_steady h.next)).trans
      (congrArg (·.portals) (Context.turn_unlooped h.turn))]
    exact (reachable_made hm hs).served r
  refine ⟨_, move_of_next? h.next, ?_⟩
  rw [deliver_handled hroute hs hregistered fun hcall => h.other hcall.1, Machine.seat_modify]
  exact congrArg (Option.map _) hw

end Conclusion

/-! ### The last request -/

/-- The vCPU does what the last request asks, and none waits. -/
structure Obeys (r : Request) (s : Seat σ (Context Unit)) : Prop where
  blocked : s.vcpu.blocked = true ↔ r = .pause
  request : s.vcpu.request = none

theorem Settled.obeys {r : Request} {s : Seat σ (Context Unit)} (h : Settled r.blocks s) : Obeys r s := by
  refine ⟨?_, h.request⟩
  rw [h.blocked]
  cases r with
  | run => decide
  | pause => decide

/-- **The last request wins.** Other threads run and pause a vCPU whose handler does
nothing on a recall, with no exit queued. They may do so at rest, each call followed until
nothing moves; or during the handler's work on an exit, mixed with runs of the handler's
own. Once nothing moves, the vCPU is blocked just if the last call was to pause, and no
request is left; all calls during one exit cause one recall at most. A recall that waits
for the vCPU at its startup exit has a request behind it. -/
theorem last_request_wins {m : State σ} (hm : Reachable m) {id : Exit.VcpuId} {s : Seat σ (Context Unit)}
    (hs : m.seats[id]? = some s) (hlive : Live s) :
    (s.vcpu.started = true → s.context.queue = [] → advance m id = none →
      ∀ rs r, rs.getLast? = some r → (∃ m', Asked id rs m m') ∧
        ∀ m', Asked id rs m m' → ∃ t, m'.seats[id]? = some t ∧ Obeys r t ∧
          recalls t ≤ recalls s + rs.length) ∧
    ∀ c₀ r c, Takes s c₀ r c →
      (c₀.loop.phase = .starting → c.recallPending = true → s.vcpu.request ≠ none) →
      let mask := Exit.portalMask (s.handler.interest r)
      let e := entered r (c.recorded r mask true) (c.filled r mask) s
      let program := s.handler.handle s.memory e.vcpu.state
      let begun := m.modify id fun _ => e
      (∀ call ∈ calls id program begun, call.Mild id) →
      (hypervisor.exec id program begun).1.failure = none →
      ∀ q, ((calls id program begun).filterMap Call.request?).getLast? = some q →
        ∃ m₁, move m id c₀ = some m₁ ∧
          (∃ m', Undisturbed id m₁ m' ∧ advance m' id = none) ∧
          ∀ m', Undisturbed id m₁ m' → advance m' id = none →
            ∃ t, m'.seats[id]? = some t ∧ Obeys q t ∧ recalls t ≤ recalls s + 1 := by
  have hmade := reachable_made hm hs
  constructor
  · intro hstarted hqueue hrest rs r hr
    have hresting := resting_of_rest hm hs hlive hstarted hqueue hrest
    refine ⟨hresting.exists_asked hs rs, fun m' hasked => ?_⟩
    obtain ⟨t, ht, hsettled, hcount⟩ := hasked.settled hresting hs hr
    exact ⟨t, ht, hsettled.obeys, hcount⟩
  · intro c₀ r c htakes hrecall mask e program begun hmild hfailure q hq
    have hclear := htakes.clear hlive ⟨_, hmade.served _⟩
    -- What the handler leaves of the requests is what the exit ends with.
    have hin : begun.seats[id]? = some e := Machine.seat_modify_of_some hs _
    have hstarted : e.vcpu.started = true := taken_started r s.vcpu
    obtain ⟨w, hw, hsame, hnoted⟩ := exec_noted (htakes.noted hrecall) hin hlive.registered hstarted hmild
    rw [hq, Option.some_or] at hnoted
    have hheard := htakes.heard hclear hsame hnoted id hfailure
    obtain ⟨m₁, hmove, ht⟩ := htakes.delivers hm hs hlive.registered hw
    refine ⟨m₁, hmove, exists_rest hheard ht, fun m' hrun hrest => ?_⟩
    obtain ⟨t, ht', hheard'⟩ := hheard.run ht hrun
    obtain ⟨hsettled, hcount⟩ := hheard'.rest ht' hrest
    exact ⟨t, ht', hsettled.obeys, hcount⟩

/-- A handler that makes some calls on every exit but a recall. -/
def callingHandler (cs : List Call) : Handler Unit where
  interest _ := none
  handle _ s :=
    (if s.reason = .recalled then [] else cs).foldr (fun c p => .call c fun _ => p) (.done () s none)

theorem callingHandler_ignoresRecall (cs : List Call) : IgnoresRecall (callingHandler cs) := by
  intro _ s hreason
  refine ⟨(), s, ?_⟩
  unfold callingHandler
  dsimp only
  rw [if_pos hreason]
  rfl

theorem callingHandler_works (cs : List Call) (id : Exit.VcpuId) (m : State Unit) {s : Register.State}
    (hreason : s.reason ≠ .recalled) :
    calls id ((callingHandler cs).handle () s) m = cs ∧
      (hypervisor.exec id ((callingHandler cs).handle () s) m).1.failure = none := by
  unfold callingHandler
  dsimp only
  rw [if_neg hreason]
  induction cs generalizing m with
  | nil => exact ⟨rfl, rfl⟩
  | cons c cs ih =>
    obtain ⟨hcalls, hfailure⟩ := ih (hypervisor.perform id m c).2
    exact ⟨congrArg (c :: ·) hcalls, hfailure⟩

/-- A machine with one vCPU, on its way to its startup exit. -/
def calling (cs : List Call) : State Unit :=
  (Operation.create (callingHandler cs) ()).apply (empty false)

theorem reachable_calling (cs : List Call) : Reachable (calling cs) := ⟨false, .operation .refl _⟩

theorem seat_calling (cs : List Call) :
    (calling cs).seats[0]? = some (newSeat false (callingHandler cs) ()) := by
  rw [calling, apply_create (show Machine.HasRoom _ by decide)]
  rfl

theorem live_calling (cs : List Call) : Live (newSeat false (callingHandler cs) ()) :=
  ⟨rfl, rfl, rfl, ⟨_, List.mem_cons_self .., nofun⟩, callingHandler_ignoresRecall cs⟩

/-- Its startup exit is the first. -/
theorem takes_calling (cs : List Call) :
    let s := newSeat false (callingHandler cs) ()
    Takes s s.context .startup (s.context.enter .ready) :=
  ⟨List.mem_cons_self .., rfl, by decide, rfl, by rintro l ⟨⟩⟩

/-- There the handler makes its calls. -/
theorem calling_works (cs : List Call) :
    let s := newSeat false (callingHandler cs) ()
    let c := s.context.enter .ready
    let mask := Exit.portalMask (s.handler.interest .startup)
    let e := entered .startup (c.recorded .startup mask true) (c.filled .startup mask) s
    let program := s.handler.handle s.memory e.vcpu.state
    let begun := (calling cs).modify 0 fun _ => e
    calls 0 program begun = cs ∧ (hypervisor.exec 0 program begun).1.failure = none := by
  intro s c mask e program begun
  have hreason := (entered_loadedFrom s c .startup mask).reason
  exact callingHandler_works cs 0 begun fun h => absurd (hreason.symm.trans h) (by decide)

/-- Its handler stays. -/
theorem live_of_leads {cs : List Call} {m : State Unit} (h : Leads (calling cs) m) {s : Seat Unit (Context Unit)}
    (hs : m.seats[0]? = some s) (hregistered : s.registered = true) (hdestroyed : s.vcpu.destroyed = false)
    (hstop : s.context.stop = false) (hphase : s.context.loop.phase ≠ .off) : Live s := by
  obtain ⟨s', hs', hevolves⟩ := (leads_becomes h).seat (seat_calling cs)
  cases hs.symm.trans hs'
  refine ⟨hregistered, hdestroyed, hstop, ⟨_, List.mem_cons_self .., hphase⟩, ?_⟩
  rw [hevolves.handler]
  exact callingHandler_ignoresRecall cs

/-- Runs of the handler's own among requests of other threads. -/
def mixedCalls : List Call := [.run, .remotePause, .runVcpu 0, .remoteRun, .remotePause]

theorem last_request_wins_startup :
    (∃ m₁ m' t, move (calling mixedCalls) 0 (newSeat false (callingHandler mixedCalls) ()).context = some m₁ ∧
      Undisturbed 0 m₁ m' ∧ advance m' 0 = none ∧ m'.seats[0]? = some t ∧ t.vcpu.blocked = true ∧
        recalls t ≤ 1) ∧
    ∃ m' t, Asked 0 [.pause, .run, .pause, .run] (settle 3 (calling mixedCalls)) m' ∧ m'.seats[0]? = some t ∧
      t.vcpu.blocked = false := by
  constructor
  · obtain ⟨hcalls, hfailure⟩ := calling_works mixedCalls
    have hmild : ∀ c ∈ mixedCalls, c.Mild 0 := by decide
    obtain ⟨m₁, hmove, ⟨m', hrun, hrest⟩, hlast⟩ :=
      (last_request_wins (reachable_calling mixedCalls) (seat_calling mixedCalls) (live_calling mixedCalls)).2 _ _ _
        (takes_calling mixedCalls) (by rintro _ ⟨⟩) (fun c hc => hmild c ((congrArg (c ∈ ·) hcalls).mp hc)) hfailure
        .pause (congrArg (fun l => (l.filterMap Call.request?).getLast?) hcalls)
    obtain ⟨t, ht, hobeys, hcount⟩ := hlast m' hrun hrest
    exact ⟨m₁, m', t, hmove, hrun, hrest, ht, hobeys.blocked.mpr rfl, hcount⟩
  · obtain ⟨s, hs⟩ : ∃ s, (settle 3 (calling mixedCalls)).seats[0]? = some s :=
      Option.isSome_iff_exists.mp (by decide +kernel)
    have hfields : ((settle 3 (calling mixedCalls)).seats[0]?).all (fun s => s.registered &&
        !s.vcpu.destroyed && !s.context.stop && s.vcpu.started && s.context.queue.isEmpty &&
          s.context.loop.phase != .off) = true := by decide +kernel
    have hrest : advance (settle 3 (calling mixedCalls)) 0 = none :=
      Option.isNone_iff_eq_none.mp (by decide +kernel)
    rw [hs, Option.all_some] at hfields
    simp only [Bool.and_eq_true, Bool.not_eq_true', List.isEmpty_iff, bne_iff_ne] at hfields
    obtain ⟨⟨⟨⟨⟨hregistered, hdestroyed⟩, hstop⟩, hstarted⟩, hqueue⟩, hphase⟩ := hfields
    have hlive : Live s := live_of_leads (leads_settle 3 _) hs hregistered hdestroyed hstop hphase
    obtain ⟨⟨m', hasked⟩, hlast⟩ :=
      (last_request_wins ((reachable_calling mixedCalls).leads (leads_settle 3 _)) hs hlive).1 hstarted hqueue hrest
        [.pause, .run, .pause, .run] .run rfl
    obtain ⟨t, ht, hobeys, _⟩ := hlast m' hasked
    refine ⟨m', t, hasked, ht, ?_⟩
    exact Bool.eq_false_iff.mpr fun hblocked => by cases hobeys.blocked.mp hblocked

/-- A request to run a vCPU that its handler has run already. -/
def idleCalls : List Call := [.run, .remoteRun]

/-- A machine whose vCPU has been forced to a recall before its launch. -/
def forced : State Unit :=
  let m := (Operation.create (callingHandler idleCalls) ()).apply (empty true)
  (Operation.launch 0).apply ((Operation.forceExit 0).apply m)

def forcedSeat : Seat Unit (Context Unit) :=
  let s := newSeat true (callingHandler idleCalls) ()
  {s with context := s.context.requestRecall.launch}

/-- The machine after the startup exit, and after the recall. -/
def forcedStarted : State Unit := (move forced 0 forcedSeat.context).getD forced

def forcedEnd : State Unit := (advance forcedStarted 0).getD forcedStarted

/-- A recall with no request behind it blocks a vCPU that was last asked to run: at its
startup exit the handler runs it, and the request to run finds nothing to do. -/
theorem forced_recall_blocks :
    let s := forcedSeat
    let c := s.context.enter .ready
    let mask := Exit.portalMask (s.handler.interest .startup)
    let e := entered .startup (c.recorded .startup mask true) (c.filled .startup mask) s
    let program := s.handler.handle s.memory e.vcpu.state
    let begun := forced.modify 0 fun _ => e
    Reachable forced ∧ forced.seats[0]? = some s ∧ Live s ∧
      Takes s s.context .startup c ∧ e.vcpu.started = true ∧
      calls 0 program begun = [.run, .remoteRun] ∧ (hypervisor.exec 0 program begun).1.failure = none ∧
      move forced 0 s.context = some forcedStarted ∧ Undisturbed 0 forcedStarted forcedEnd ∧
      advance forcedEnd 0 = none ∧ ∃ t, forcedEnd.seats[0]? = some t ∧ t.vcpu.blocked = true := by
  intro s c mask e program begun
  have hreachable : Reachable forced :=
    ⟨true, .operation (.operation (.operation .refl (.create _ ())) (.forceExit 0)) (.launch 0)⟩
  have hseat : forced.seats[0]? = some s := by
    rw [forced, apply_create (show Machine.HasRoom _ by decide)]
    rfl
  have hlive : Live s := ⟨rfl, rfl, rfl, ⟨_, List.mem_cons_self .., nofun⟩, callingHandler_ignoresRecall _⟩
  have htakes : Takes s s.context .startup c := ⟨List.mem_cons_self .., rfl, by decide, rfl, by rintro l ⟨⟩⟩
  have hreason := (entered_loadedFrom s c .startup mask).reason
  obtain ⟨hcalls, hfailure⟩ := callingHandler_works idleCalls 0 begun
    fun h => absurd (hreason.symm.trans h) (by decide)
  have hmove : move forced 0 forcedSeat.context = some forcedStarted :=
    (Option.getD_of_ne_none (Option.ne_none_iff_isSome.mpr (by decide +kernel)) _).symm
  have hadvance : advance forcedStarted 0 = some forcedEnd :=
    (Option.getD_of_ne_none (Option.ne_none_iff_isSome.mpr (by decide +kernel)) _).symm
  have hrest : advance forcedEnd 0 = none := Option.isNone_iff_eq_none.mp (by decide +kernel)
  have hblocked : (forcedEnd.seats[0]?).any (·.vcpu.blocked) = true := by decide +kernel
  obtain ⟨t, ht, hblocked⟩ := (Option.any_eq_true _ _).mp hblocked
  exact ⟨hreachable, hseat, hlive, htakes, rfl, hcalls, hfailure, hmove,
    .moves .refl (moves_of_advance hadvance), hrest, t, ht, hblocked⟩

end Simulated

end GuestMachine
