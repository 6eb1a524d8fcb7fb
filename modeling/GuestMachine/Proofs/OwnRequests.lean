import GuestMachine.Proofs.ResumePaths

/-! The requests of a handler to its own vCPU.

A handler runs its own vCPU by taking back the wait that the exit would end in. Before that, a
pause of its own changes nothing; after it, the pause is a request, which the next recall takes.
A further run takes back no request, and so the pause stays. In the end the vCPU is blocked just
if the last of the calls was to pause, or a pause stands between two runs
(`own_requests_stand`).

No request but these is waiting then: none is left without a recall, and a recall comes before
all other exits (`reachable_forced`). -/
namespace GuestMachine

/-- What the handler of a vCPU asks of it by a call. -/
def Call.own? (id : Exit.VcpuId) : Call → Option Request
  | .run => some .run
  | .pause => some .pause
  | .runVcpu target => if target = id then some .run else none
  | .pauseVcpu target => if target = id then some .pause else none
  | .remoteRun | .remotePause | .shutdown | .probe => none

/-- Whether a call leaves requests to the handler: it is no call of another thread, and does not
shut down. -/
def Call.Alone : Call → Prop
  | .remoteRun | .remotePause | .shutdown => False
  | _ => True

instance : DecidablePred Call.Alone
  | .remoteRun | .remotePause | .shutdown => isFalse fun h => h
  | .run | .pause | .runVcpu _ | .pauseVcpu _ | .probe => isTrue trivial

/-- The vCPU's part in the call of its handler. -/
def Request.own : Request → Vcpu → Vcpu × Option Request
  | .run => Vcpu.run true
  | .pause => Vcpu.pause true

/-! ### A list of own calls -/

/-- What the calls of a handler to its own vCPU have come to. -/
inductive Standing where
  /-- The exit will wait. -/
  | held
  /-- The exit will be answered. -/
  | free
  /-- It will be answered, and a pause will follow. -/
  | deferred
  deriving DecidableEq, Repr

namespace Standing

def after : Standing → Request → Standing
  | .held, .run => .free
  | .free, .pause => .deferred
  | st, _ => st

/-- What the vCPU does in the end. -/
def verdict : Standing → Request
  | .free => .run
  | .held | .deferred => .pause

theorem foldl_deferred (rs : List Request) : rs.foldl after .deferred = .deferred := by
  induction rs with
  | nil => rfl
  | cons r rs ih => exact ih

theorem foldl_free (rs : List Request) : (rs.foldl after .free).verdict = .pause ↔ .pause ∈ rs := by
  induction rs with
  | nil => exact iff_of_false Request.noConfusion List.not_mem_nil
  | cons r rs ih =>
    cases r with
    | run => exact ih.trans (by rw [List.mem_cons, or_iff_right Request.noConfusion])
    | pause =>
      rw [List.foldl_cons, show after .free .pause = .deferred from rfl, foldl_deferred]
      exact iff_of_true rfl (List.mem_cons_self ..)

/-- After a run there is a pause just if the last request is one, or if one comes before another run. -/
theorem pause_mem_iff {rs : List Request} {q : Request} (hq : (Request.run :: rs).getLast? = some q) :
    .pause ∈ rs ↔ q = .pause ∨ [Request.pause, .run].Sublist rs := by
  rcases List.eq_nil_or_concat rs with rfl | ⟨init, last, rfl⟩
  · obtain rfl := Option.some.inj hq
    simp
  · obtain rfl : last = q := by
      rw [List.concat_eq_append, ← List.cons_append, List.getLast?_concat] at hq
      exact Option.some.inj hq
    cases last with
    | pause => simp
    | run =>
      have hpair : ([Request.pause] ++ [Request.run]).Sublist (init ++ [Request.run]) ↔ [Request.pause].Sublist init :=
        List.append_sublist_append_right _
      simpa using hpair.symm

/-- The last call decides, unless it runs a vCPU that has been run and then paused. -/
theorem foldl_held {rs : List Request} {q : Request} (hq : rs.getLast? = some q) :
    (rs.foldl after .held).verdict = .pause ↔ q = .pause ∨ [Request.run, .pause, .run].Sublist rs := by
  induction rs with
  | nil => cases hq
  | cons r rs ih =>
    cases r with
    | run =>
      -- From the first run on, any pause stays.
      rw [List.foldl_cons, show after .held .run = .free from rfl, foldl_free, pause_mem_iff hq,
        List.cons_sublist_cons]
    | pause =>
      -- A pause before it is as if it had not been.
      have hskip : [Request.run, .pause, .run].Sublist (.pause :: rs) ↔ [Request.run, .pause, .run].Sublist rs := by
        rw [List.sublist_cons_iff, or_iff_left]
        rintro ⟨_, hfalse, _⟩
        cases hfalse
      rw [List.foldl_cons, show after .held .pause = .held from rfl, hskip]
      cases rs with
      | nil =>
        obtain rfl := Option.some.inj hq
        exact iff_of_true rfl (.inl rfl)
      | cons r' rs => exact ih (List.getLast?_cons_cons ▸ hq)

example : ([.run, .pause, .run].foldl after .held).verdict = .pause := rfl

end Standing

namespace Simulated
open Register

variable {σ : Type}

/-! ### Requests and recalls -/

/-- A request has a recall that takes it. -/
def Forced (s : Seat σ (Context Unit)) : Prop := s.vcpu.request ≠ none → s.context.recallPending = true

theorem forced_keptByCalls (own : Bool) : KeptByCalls own (WhileRegistered (@Forced σ)) := by
  exact ⟨fun _ _ _ _ _ => rfl, fun _ _ h => h, fun id s _ => gone_whileRegistered id s⟩

section Forced
variable {m m' : State σ} {id : Exit.VcpuId} {s : Seat σ (Context Unit)} {c₀ c : Context Unit} {r : Exit.Reason}

theorem Forced.of_same {s' : Seat σ (Context Unit)} (h : Forced s) (hrequest : s'.vcpu.request = s.vcpu.request)
    (hrecall : s'.context.recallPending = s.context.recallPending) : Forced s' := by
  rw [Forced, hrequest, hrecall]
  exact h

/-- However an exit ends, it takes no request. -/
theorem Forced.concluded (h : Forced s) (id : Exit.VcpuId) (r : Exit.Reason) (f : Frame)
    (o : Hypervisor.Outcome σ) : Forced (concluded id r f o s) := by
  unfold Simulated.concluded
  dsimp only
  split
  · exact h.of_same rfl (Context.pass_recallPending _)
  · exact h.of_same rfl (Context.pass_recallPending _)
  · split
    · exact h.of_same rfl (Context.pass_recallPending _)
    · exact h.of_same rfl (Context.pass_recallPending _)

/-- A recall takes the request, and any other exit leaves the recall with it. -/
theorem Forced.enters (h : Forced s) (hturn : c₀ ∈ s.context.turns) (hnext : c₀.next? = some (some r, c))
    (mask : Mask) : Forced (entered r (c.recorded r mask true) (c.filled r mask) s) := by
  by_cases hr : r = .recalled
  · subst hr
    exact fun hsome => absurd rfl hsome
  · have hrequest : (taken r s.vcpu).request = s.vcpu.request := congrArg (·.request) (taken_other hr s.vcpu)
    have hturned : c₀.recallPending = s.context.recallPending :=
      congrArg (·.recallPending) (Context.turn_unlooped hturn)
    rcases Context.next?_cases hnext with ⟨_, _, rfl⟩ | ⟨_, ⟨_, hfalse, _⟩ | ⟨_, _, hrecalled, _⟩ | ⟨_, _, _, _, _, _, rfl⟩⟩
    · exact h.of_same hrequest hturned
    · cases hfalse
    · exact absurd (Option.some.inj hrecalled) hr
    · exact h.of_same hrequest hturned

/-- The vCPU makes a step. -/
theorem Forced.moves (h : Forced s) (hm : Reachable m) (hs : m.seats[id]? = some s) (hreg : s.registered = true)
    (hmoves : Moves m id m') : Has m' id (WhileRegistered Forced) := by
  obtain ⟨s₀, c₀, hs₀, hturn, hmove⟩ := hmoves
  cases hs.symm.trans hs₀
  have hturned := Context.turn_unlooped hturn
  have hrecall : c₀.recallPending = s.context.recallPending := congrArg (·.recallPending) hturned
  rcases move_cases hs hmove with ⟨f, ends, v, _, hwake, rfl⟩ | ⟨c, hnext, rfl⟩ | ⟨r, c, hnext, rfl⟩
  · obtain ⟨rest, _, hv⟩ := Option.map_eq_some_iff.mp hwake
    obtain ⟨rfl, rfl⟩ := Prod.mk.inj hv
    refine has_modify_const fun _ => h.of_same rfl ?_
    show (ite _ (c₀.answer f) c₀).recallPending = _
    split
    · exact (Context.pass_recallPending _).trans hrecall
    · exact hrecall
  · have hends : c = c₀ := by
      rcases Context.next?_cases hnext with ⟨_, hfalse, _⟩ | ⟨_, ⟨_, _, heq⟩ | ⟨_, _, hfalse, _⟩ | ⟨_, _, _, _, _, hfalse, _⟩⟩
      · cases hfalse
      · exact heq
      · cases hfalse
      · cases hfalse
    rw [Machine.modifyContext_eq]
    refine has_modify fun s' hs' _ => ?_
    cases hs.symm.trans hs'
    exact h.of_same rfl ((Context.pass_recallPending _).trans (hends ▸ hrecall))
  · have hserved : Served s.handler.interest c.portals := by
      rw [show c.portals = s.context.portals from
        (congrArg (·.portals) (Context.next?_steady hnext)).trans (congrArg (·.portals) hturned)]
      exact (reachable_made hm hs).served
    by_cases hcall : r = .recalled ∧ s.vcpu.request = some .run
    · obtain ⟨rfl, hrun⟩ := hcall
      rw [deliver_resumed (hserved _) hs hreg hrun]
      obtain ⟨state, hv⟩ := Vcpu.resume_fst (taken .recalled s.vcpu)
        (c.filled .recalled (Exit.portalMask (s.handler.interest .recalled))) c.loop.fpu
      exact has_modify_const fun _ hsome => absurd (congrArg (·.request) hv) hsome
    · rw [deliver_work hserved hs hreg hcall]
      have hbegun : Has (m.modify id fun _ => atWork r c s) id (WhileRegistered Forced) :=
        has_modify_const fun _ => h.enters hturn hnext _
      refine has_modify fun w hw hreg' => ?_
      rw [concluded_registered] at hreg'
      exact (hbegun.exec (forced_keptByCalls _) _ w hw hreg').concluded id r _ _

theorem Has.forced_moves (h : Has m id (WhileRegistered Forced)) (hm : Reachable m) {other : Exit.VcpuId}
    (hmoves : Moves m other m') : Has m' id (WhileRegistered Forced) := by
  by_cases hne : other = id
  · subst hne
    obtain ⟨s, hs⟩ : ∃ s, m.seats[other]? = some s := hmoves.imp fun _ ⟨_, hs, _⟩ => hs
    intro s' hs' hreg'
    have hreg := registered_of_moves hmoves hs hs' hreg'
    exact (h s hs hreg).moves hm hs hreg hmoves s' hs' hreg'
  · exact h.moves_elsewhere (forced_keptByCalls false) hne hmoves

theorem Has.forced_apply (h : Has m id (WhileRegistered Forced)) (o : Operation σ) :
    Has (o.apply m) id (WhileRegistered Forced) := by
  by_cases hforce : o = .forceExit id
  · subst hforce
    rw [Operation.apply, Machine.modifyContext_eq]
    exact h.modify fun _ _ _ _ _ => rfl
  · refine h.apply (forced_keptByCalls false) ?_ o (fun _ _ _ _ hsome => absurd rfl hsome) ?_ ?_ hforce
    · intro s s' hsame hs hreg
      have hreg' : s.registered = true := (congrArg (·.registered) hsame).symm.trans hreg
      exact (hs hreg').of_same (congrArg (·.vcpu.request) hsame) (congrArg (·.context.recallPending) hsame)
    · exact fun _ s hs hreg => (h s hs hreg).of_same rfl rfl
    · exact fun _ _ s hs hreg => (hs hreg).of_same rfl rfl

/-- No request of a vCPU is left without a recall, whatever is done to the machine. -/
theorem reachable_forced (hm : Reachable m) : Has m id (WhileRegistered Forced) := by
  obtain ⟨deferred, hleads⟩ := hm
  induction hleads with
  | refl =>
    rintro s ⟨⟩
  | operation _ o ih => exact ih.forced_apply o
  | step hleads hmoves ih => exact ih.forced_moves ⟨deferred, hleads⟩ hmoves

end Forced

/-! ### Own calls -/

/-- How the calls of the handler stand with its vCPU. -/
def Stands : Standing → Seat σ (Context Unit) → Prop
  | .held, s => s.vcpu.request = none ∧ s.context.recallPending = false ∧ s.vcpu.blocked = true
  | .free, s => s.vcpu.request = none ∧ s.context.recallPending = false ∧ s.vcpu.blocked = false
  | .deferred, s => s.vcpu.request = some .pause ∧ s.context.recallPending = true ∧ 0 < s.vcpu.signals.pending

section Own
variable {m : State σ} {id : Exit.VcpuId} {s : Seat σ (Context Unit)} {st : Standing}

theorem unasked_own (r : Request) (s : Seat σ (Context Unit)) : unasked (demanded r.own s) = unasked s := by
  cases r with
  | run => exact unasked_demanded (Vcpu.run_fst true) s
  | pause => exact unasked_demanded (Vcpu.pause_fst true) s

theorem Stands.after (h : Stands st s) (hstarted : s.vcpu.started = true) (r : Request) :
    Stands (st.after r) (demanded r.own s) := by
  cases r with
  | run =>
    rw [show demanded Request.run.own s = _ from demanded_own hstarted]
    cases st with
    | held => exact ⟨h.1, h.2.1, rfl⟩
    | free => exact ⟨h.1, h.2.1, rfl⟩
    | deferred => exact h
  | pause =>
    show Stands _ (demanded (Vcpu.pause true) s)
    cases st with
    | held =>
      rw [demanded_pause_blocked h.2.2]
      exact h
    | free =>
      rw [demanded, Vcpu.pause, h.2.2]
      exact ⟨rfl, rfl, Nat.succ_pos _⟩
    | deferred =>
      rcases demanded_pause_cases true s with heq | heq
      · rw [heq]
        exact h
      · rw [heq]
        exact ⟨rfl, rfl, Nat.succ_pos _⟩

/-- A call of the handler is to its own vCPU, or leaves that alone. -/
theorem perform_own (hs : m.seats[id]? = some s) (hregistered : s.registered = true) {c : Call} (halone : c.Alone) :
    (hypervisor.perform id m c).2.seats[id]? = some ((c.own? id).elim s fun r => demanded r.own s) := by
  have hdemand : ∀ step, (hypervisor.demand step id m).seats[id]? = some (demanded step s) := by
    intro step
    rw [demand_eq, Machine.seat_modify_of_some hs]
  -- A call by id is the handler's own if the id is.
  have hdemandById : ∀ (step : Bool → Vcpu → Vcpu × Option Request) target (r : Request), step true = r.own →
      (hypervisor.demandById (fun p => step (p == id)) target m).2.seats[id]? =
        some ((if target = id then some r else none).elim s fun r => demanded r.own s) := by
    intro step target r hstep
    by_cases htarget : target = id
    · rw [htarget, demandById_eq hs hregistered, Machine.seat_modify_of_some hs, beq_self_eq_true, hstep, if_pos rfl]
      rfl
    · rw [demandById_of_ne m htarget, hs, if_neg htarget]
      rfl
  cases c with
  | run => exact hdemand _
  | pause => exact hdemand _
  | remoteRun => exact halone.elim
  | remotePause => exact halone.elim
  | shutdown => exact halone.elim
  | probe => exact hs
  | runVcpu target => exact hdemandById Vcpu.run target .run rfl
  | pauseVcpu target => exact hdemandById Vcpu.pause target .pause rfl

/-- The handler's work comes to what its calls come to, one after the other. -/
theorem exec_stands {p : Program σ} (h : Stands st s) (hs : m.seats[id]? = some s)
    (hregistered : s.registered = true) (hstarted : s.vcpu.started = true)
    (halone : ∀ c ∈ calls id p m, c.Alone) :
    ∃ w, (hypervisor.exec id p m).2.seats[id]? = some w ∧ unasked w = unasked s ∧
      Stands (((calls id p m).filterMap (Call.own? id)).foldl Standing.after st) w := by
  induction p generalizing m s st with
  | done memory state failure => exact ⟨s, hs, rfl, h⟩
  | call c next ih =>
    have hseat := perform_own hs hregistered (halone c (List.mem_cons_self ..))
    have hrest := fun c' hc' => halone c' (List.mem_cons_of_mem _ hc')
    show ∃ w, _ ∧ _ ∧ Stands (((c :: calls id (next (hypervisor.perform id m c).1)
      (hypervisor.perform id m c).2).filterMap (Call.own? id)).foldl Standing.after st) w
    cases hown : c.own? id with
    | none =>
      rw [hown] at hseat
      rw [List.filterMap_cons_none hown]
      exact ih _ h hseat hregistered hstarted hrest
    | some r =>
      rw [hown] at hseat
      have hsame := unasked_own r s
      rw [List.filterMap_cons_some hown, List.foldl_cons]
      obtain ⟨w, hw, hsame', hstands⟩ := ih _ (h.after hstarted r) hseat
        ((congrArg (·.registered) hsame).trans hregistered) ((congrArg (·.vcpu.started) hsame).trans hstarted) hrest
      exact ⟨w, hw, hsame'.trans hsame, hstands⟩

/-- What the vCPU does in the end is heard once there is nothing for it but recalls. -/
theorem Stands.heard (h : Stands st s) (hquiet : Quiet s) : Heard st.verdict (recalls s) s := by
  have hsettled : ∀ b, s.vcpu.request = none ∧ s.context.recallPending = false ∧ s.vcpu.blocked = b → Settled b s := by
    rintro b ⟨hrequest, hrecall, hblocked⟩
    exact ⟨⟨hquiet, fun htrue => absurd htrue (Bool.eq_false_iff.mp hrecall)⟩, hrequest, hblocked⟩
  cases st with
  | held => exact .inr ⟨hsettled _ h, Nat.le_succ _⟩
  | free => exact .inr ⟨hsettled _ h, Nat.le_succ _⟩
  | deferred => exact .inl ⟨⟨hquiet, h.1, h.2.1, .inr h.2.2⟩, Nat.le_refl _⟩

theorem Stands.of_same {s' : Seat σ (Context Unit)} (h : Stands st s) (hrequest : s'.vcpu.request = s.vcpu.request)
    (hsignals : s'.vcpu.signals = s.vcpu.signals) (hblocked : s'.vcpu.blocked = s.vcpu.blocked)
    (hrecall : s'.context.recallPending = s.context.recallPending) : Stands st s' := by
  cases st <;> rw [Stands, hrequest, hrecall]
  · rw [hblocked]
    exact h
  · rw [hblocked]
    exact h
  · rw [hsignals]
    exact h

end Own

/-! ### The exit -/

section Exit
variable {m : State σ} {id : Exit.VcpuId} {s : Seat σ (Context Unit)} {c₀ c : Context Unit} {r : Exit.Reason}

/-- When the handler starts to work, the exit will wait, and there are no requests. -/
theorem Takes.stands (h : Takes s c₀ r c) (hforced : Forced s)
    (hearly : c₀.loop.phase = .starting → c₀.recallPending = false) : Stands .held (atWork r c s) := by
  have hpending : c₀.recallPending = false ∧ c.recallPending = false := by
    rcases Context.next?_cases h.next with ⟨hphase, _, rfl⟩ | ⟨_, ⟨_, hnone, _⟩ | ⟨_, _, hsome, _⟩ | ⟨_, hfalse, _, _, _, _, rfl⟩⟩
    · exact ⟨hearly hphase, hearly hphase⟩
    · cases hnone
    · exact absurd (Option.some.inj hsome) h.other
    · exact ⟨hfalse, hfalse⟩
  have hrequest : s.vcpu.request = none := by
    refine Classical.byContradiction fun hsome => ?_
    have hrecall : c₀.recallPending = true :=
      (congrArg (·.recallPending) (Context.turn_unlooped h.turn)).trans (hforced hsome)
    cases hrecall.symm.trans hpending.1
  exact ⟨(congrArg (·.request) (taken_other h.other s.vcpu)).trans hrequest, hpending.2, rfl⟩

/-- A vCPU that runs takes the only exit there is. -/
theorem takes_only (hothers : s.context.others = []) (hphase : s.context.loop.phase = .ready)
    (hstop : s.context.stop = false) (hrecall : s.context.recallPending = false) (hqueue : s.context.queue = [r])
    (hr : r ≠ .recalled) : Takes s s.context r {s.context with queue := []} := by
  refine ⟨?_, ?_, hr, rfl, ?_⟩
  · rw [Context.turns_single hothers]
    exact List.mem_singleton_self _
  · simp only [Context.next?, hphase, hstop, hrecall, hqueue, Bool.false_eq_true, if_false]
  · rw [hothers]
    rintro l ⟨⟩

/-- **Own requests stand.** The handler of a vCPU works on an exit, with no other exit on its way,
and it calls on its own vCPU only, in any order; no other thread does, and it does nothing on a
recall. Once nothing moves any more, the vCPU is blocked just if the last of the calls was to
pause, or there was one to pause between two to run; and no request is left. That no request has
been left before is known of every exit but the startup exit. -/
theorem own_requests_stand (hm : Reachable m) (hs : m.seats[id]? = some s) (hlive : Live s)
    (htakes : Takes s c₀ r c) (hearly : c₀.loop.phase = .starting → c₀.recallPending = false) :
    let program := s.handler.handle s.memory (atWork r c s).vcpu.state
    let begun := m.modify id fun _ => atWork r c s
    let rs := (calls id program begun).filterMap (Call.own? id)
    (∀ call ∈ calls id program begun, call.Alone) → (work id r c s m).1.failure = none →
      ∀ q, rs.getLast? = some q →
        ∃ m₁, move m id c₀ = some m₁ ∧
          (∃ m', Undisturbed id m₁ m' ∧ advance m' id = none) ∧
          ∀ m', Undisturbed id m₁ m' → advance m' id = none →
            ∃ t, m'.seats[id]? = some t ∧ t.vcpu.request = none ∧
              (t.vcpu.blocked = true ↔ q = .pause ∨ [.run, .pause, .run].Sublist rs) := by
  intro program begun rs halone hfailure q hq
  have hbegun : begun.seats[id]? = some (atWork r c s) := Machine.seat_modify_of_some hs _
  have hstands := htakes.stands (reachable_forced hm s hs hlive.registered) hearly
  obtain ⟨w, hw, hsame, hstands⟩ := exec_stands hstands hbegun hlive.registered (taken_started r s.vcpu) halone
  -- What the calls have come to is what the exit ends with.
  obtain ⟨m₁, hmove, ht⟩ := htakes.delivers hm hs hlive.registered hw
  have hclear := htakes.clear hlive ⟨_, (reachable_made hm hs).served _⟩
  obtain ⟨hquiet, _, hrequest, hsignals, hblocked, hrecall⟩ := htakes.concludes hclear hsame id hfailure
  have hheard := (hstands.of_same hrequest hsignals hblocked hrecall).heard hquiet
  refine ⟨m₁, hmove, exists_rest hheard ht, fun m' hrun hrest => ?_⟩
  obtain ⟨t, ht', hheard'⟩ := hheard.run ht hrun
  have hobeys := (hheard'.rest ht' hrest).1.obeys
  exact ⟨t, ht', hobeys.request, hobeys.blocked.trans (Standing.foldl_held hq)⟩

end Exit

/-- Calls to its own vCPU, the last of them to run it. -/
def wavering : List Call := [.pause, .pauseVcpu 0, .run, .probe, .runVcpu 0]

theorem own_requests_stand_wavering :
    ∃ m₁ m' t, move (calling wavering) 0 (newSeat false (callingHandler wavering) ()).context = some m₁ ∧
      Undisturbed 0 m₁ m' ∧ advance m' 0 = none ∧ m'.seats[0]? = some t ∧ t.vcpu.blocked = false := by
  obtain ⟨hcalls, hfailure⟩ := calling_works wavering
  have halone : ∀ c ∈ wavering, c.Alone := by decide
  have hown := congrArg (fun cs => cs.filterMap (Call.own? 0)) hcalls
  obtain ⟨m₁, hmove, ⟨m', hrun, hrest⟩, hend⟩ :=
    own_requests_stand (reachable_calling wavering) (seat_calling wavering) (live_calling wavering)
      (takes_calling wavering) (fun _ => rfl) (fun c hc => halone c ((congrArg (c ∈ ·) hcalls).mp hc)) hfailure .run
      (congrArg List.getLast? hown)
  obtain ⟨t, ht, _, hblocked⟩ := hend m' hrun hrest
  refine ⟨m₁, m', t, hmove, hrun, hrest, ht, Bool.eq_false_iff.mpr fun htrue => ?_⟩
  have hnever : ¬(Request.run = .pause ∨ [Request.run, .pause, .run].Sublist (wavering.filterMap (Call.own? 0))) := by
    decide
  exact hnever ((congrArg (Request.run = .pause ∨ [Request.run, .pause, .run].Sublist ·) hown).mp (hblocked.mp htrue))

/-- The calls of a handler that runs its vCPU, pauses it and runs it again. -/
def runPauseRun : List Call := [.run, .pause, .run]

/-- Its vCPU has been run after the startup exit, and the hypervisor has another exit for it. -/
def runningAgain : State Unit :=
  (Operation.inject 0 10).apply (settle 9 ((Operation.run 0).apply (settle 9 (calling runPauseRun))))

/-- The vCPU has taken that exit. -/
def pausedAgain : State Unit := (advance runningAgain 0).getD runningAgain

/-- It is paused after that, though its handler has run it last. -/
theorem run_again_stays_paused : ¬∀ (m m₁ m' : State Unit) (s t : Seat Unit (Context Unit)) (c₀ c : Context Unit)
    (r : Exit.Reason) (q : Request), Reachable m → m.seats[0]? = some s → Live s → s.vcpu.started = true →
      Takes s c₀ r c → (c₀.loop.phase = .starting → c₀.recallPending = false) →
      let program := s.handler.handle s.memory (atWork r c s).vcpu.state
      let begun := m.modify 0 fun _ => atWork r c s
      (∀ call ∈ calls 0 program begun, call.Alone) → (work 0 r c s m).1.failure = none →
      ((calls 0 program begun).filterMap (Call.own? 0)).getLast? = some q →
      move m 0 c₀ = some m₁ → Undisturbed 0 m₁ m' → advance m' 0 = none →
      m'.seats[0]? = some t → (t.vcpu.blocked = true ↔ q = .pause) := by
  intro hclaim
  have hleads : Leads (calling runPauseRun) runningAgain := by
    have hrun := Leads.operation (leads_settle 9 (calling runPauseRun)) (.run 0)
    exact .operation (hrun.trans (leads_settle 9 _)) (.inject 0 10)
  have hadvance : advance runningAgain 0 = some pausedAgain :=
    (Option.getD_of_ne_none (Option.ne_none_iff_isSome.mpr (by decide +kernel)) _).symm
  obtain ⟨s, c₀, hs, hturn, hmove⟩ := moves_of_advance hadvance
  have hfields : (runningAgain.seats[0]?).all (fun s => s.registered && !s.vcpu.destroyed && !s.context.stop &&
      s.vcpu.started && s.context.loop.phase == .ready && s.context.others.isEmpty && !s.context.recallPending &&
      s.context.queue == [10]) = true := by decide +kernel
  rw [hs, Option.all_some] at hfields
  simp only [Bool.and_eq_true, Bool.not_eq_true', List.isEmpty_iff, beq_iff_eq] at hfields
  obtain ⟨⟨⟨⟨⟨⟨⟨hregistered, hdestroyed⟩, hstop⟩, hstarted⟩, hphase⟩, hothers⟩, hrecall⟩, hqueue⟩ := hfields
  rw [Context.turns_single hothers, List.mem_singleton] at hturn
  subst hturn
  have hlive : Live s := live_of_leads hleads hs hregistered hdestroyed hstop (hphase ▸ Phase.ready_launched.2)
  have htakes := takes_only hothers hphase hstop hrecall hqueue (by decide)
  have hhandler : s.handler = callingHandler runPauseRun := by
    obtain ⟨s', hs', hevolves⟩ := (leads_becomes hleads).seat (seat_calling runPauseRun)
    cases hs.symm.trans hs'
    exact hevolves.handler
  have hreason := (entered_loadedFrom s {s.context with queue := []} 10 (Exit.portalMask (s.handler.interest 10))).reason
  have hworks := callingHandler_works runPauseRun 0
    (runningAgain.modify 0 fun _ => atWork 10 {s.context with queue := []} s)
    fun h => absurd (hreason.symm.trans h) (by decide)
  rw [← hhandler] at hworks
  obtain ⟨hcalls, hfailure⟩ := hworks
  have hrest : advance (follow 0 9 pausedAgain) 0 = none := Option.isNone_iff_eq_none.mp (by decide +kernel)
  have hblocked : ((follow 0 9 pausedAgain).seats[0]?).any (·.vcpu.blocked) = true := by decide +kernel
  obtain ⟨t, ht, hblocked⟩ := (Option.any_eq_true _ _).mp hblocked
  have halone : ∀ c ∈ runPauseRun, c.Alone := by decide
  have hlast := hclaim runningAgain pausedAgain _ s t s.context _ 10 .run ((reachable_calling _).leads hleads) hs hlive
    hstarted htakes (fun _ => hrecall) (fun c hc => halone c ((congrArg (c ∈ ·) hcalls).mp hc)) hfailure
    (congrArg (fun cs => (cs.filterMap (Call.own? 0)).getLast?) hcalls) hmove (undisturbed_follow 0 9 _) hrest ht
  cases hlast.mp hblocked

end Simulated
end GuestMachine
