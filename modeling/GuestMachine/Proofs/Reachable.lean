import GuestMachine.Proofs.Steps

/-! The states that a simulated machine can be in.

Operations from outside and steps of vCPUs lead from one state to the next (`Leads`), in
any order. Whatever happens, a seat stays what its creation has made of it (`Made`): every
exit has a portal with the mask of the declared interest, and an exit that waits will be
answered by an empty frame. What is in the log stays there, and only a reply can be added
to it (`leads_becomes`). -/
namespace GuestMachine.Simulated
open Register

variable {σ ε : Type}

/-! ### What can happen -/

/-- What is done to a machine from outside. The units of the threads are not the machine's
own, so anything may happen to them too. -/
inductive Operation (σ : Type) where
  | create (handler : Handler σ) (memory : σ)
  | run (id : Exit.VcpuId)
  | pause (id : Exit.VcpuId)
  | edit (id : Exit.VcpuId) (f : Register.State → Register.State)
  | shutdown
  | launch (id : Exit.VcpuId)
  | inject (id : Exit.VcpuId) (r : Exit.Reason)
  | forceExit (id : Exit.VcpuId)
  | setRegisters (id : Exit.VcpuId) (f : Frame → Frame)
  | setUnits (id : Exit.VcpuId) (f : Fpu → Fpu)
  | takeOutcome (id : Exit.VcpuId)

/-- Does something to the units of all loops. -/
def Context.mapUnits (f : Fpu → Fpu) (c : Context ε) : Context ε :=
  { c with
    loop := {c.loop with fpu := f c.loop.fpu}
    others := c.others.map fun l => {l with fpu := f l.fpu} }

/-- What becomes of a machine. As long as it has numbers to give out, it creates vCPUs; what a
creation does once the numbers come round is left out. -/
def Operation.apply : Operation σ → State σ → State σ
  | .create handler memory, m => if m.HasRoom then (hypervisor.create handler memory {} m).2 else m
  | .run id, m => (hypervisor.run id m).2
  | .pause id, m => (hypervisor.pause id m).2
  | .edit id f, m => (m.editState id f).2
  | .shutdown, m => (hypervisor.shutdown m).2
  | .launch id, m => m.modifyContext id Context.launch
  | .inject id r, m => m.modifyContext id (·.inject r)
  | .forceExit id, m => m.modifyContext id Context.requestRecall
  | .setRegisters id f, m => m.modifyContext id fun c => {c with registers := f c.registers}
  | .setUnits id f, m => m.modifyContext id (Context.mapUnits f)
  | .takeOutcome id, m => m.modifyContext id fun c => c.takeOutcome.2

/-- One state leads to another by operations and steps, in any order. -/
inductive Leads (m : State σ) : State σ → Prop where
  | refl : Leads m m
  | operation {m' : State σ} (h : Leads m m') (o : Operation σ) : Leads m (o.apply m')
  | step {m' m'' : State σ} (h : Leads m m') {id : Exit.VcpuId} (hstep : Moves m' id m'') : Leads m m''

/-- A machine begins without vCPUs. -/
def Reachable (m : State σ) : Prop := ∃ deferred, Leads (empty deferred) m

theorem Leads.trans {m m' m'' : State σ} (h : Leads m m') (h' : Leads m' m'') : Leads m m'' := by
  induction h' with
  | refl => exact h
  | operation _ o ih => exact .operation ih o
  | step _ hstep ih => exact .step ih hstep

theorem Reachable.leads {m m' : State σ} (h : Reachable m) (h' : Leads m m') : Reachable m' :=
  h.imp fun _ hm => hm.trans h'

/-- What steps a machine takes until nothing moves, they are steps. -/
theorem leads_settle (steps : Nat) (m : State σ) : Leads m (settle steps m) := by
  induction steps generalizing m with
  | zero => exact .refl
  | succ steps ih =>
    unfold settle
    split
    next => exact .refl
    next m' hstep =>
      obtain ⟨id, _, hadvance⟩ := List.exists_of_findSome?_eq_some hstep
      exact Leads.trans (.step .refl (moves_of_advance hadvance)) (ih m')

/-! ### One context -/

/-- The entry of a delivered exit may get the reply that transfers nothing. -/
def Delivery.Settles (d d' : Delivery) : Prop := d' = d ∨ d' = {d with reply := some .empty}

theorem Delivery.Settles.trans {d d' d'' : Delivery} (h : d.Settles d') (h' : d'.Settles d'') :
    d.Settles d'' := by
  rcases h with rfl | rfl
  · exact h'
  · rcases h' with rfl | rfl
    · exact .inr rfl
    · exact .inr rfl

namespace Context

/-- Exits that wait hold empty frames. -/
def Held (c : Context ε) : Prop := ∀ l ∈ c.line, ∀ f, l.phase = .waiting f → f.mask = .empty

/-- What can become of a context. -/
structure Evolves (c c' : Context ε) : Prop where
  portals : c'.portals = c.portals
  held : c.Held → c'.Held
  log : c.Held → ∀ (p : Nat) d, c.log[p]? = some d → ∃ d', c'.log[p]? = some d' ∧ d.Settles d'

theorem Evolves.trans {c c' c'' : Context ε} (h : c.Evolves c') (h' : c'.Evolves c'') : c.Evolves c'' := by
  refine ⟨h'.portals.trans h.portals, fun hheld => h'.held (h.held hheld), fun hheld p d hd => ?_⟩
  obtain ⟨d', hd', hsettles⟩ := h.log hheld p d hd
  obtain ⟨d'', hd'', hsettles'⟩ := h'.log (h.held hheld) p d' hd'
  exact ⟨d'', hd'', hsettles.trans hsettles'⟩

/-- Portals and log stay, and loops that wait have waited before. -/
theorem Evolves.of_line {c c' : Context ε} (hportals : c'.portals = c.portals) (hlog : c'.log = c.log)
    (hline : ∀ l ∈ c'.line, ∀ f, l.phase = .waiting f → ∃ l' ∈ c.line, l'.phase = .waiting f) :
    c.Evolves c' := by
  refine ⟨hportals, fun hheld l hl f hf => ?_, fun _ p d hd => ⟨d, hlog ▸ hd, .inl rfl⟩⟩
  obtain ⟨l', hl', hf'⟩ := hline l hl f hf
  exact hheld l' hl' f hf'

theorem Evolves.refl (c : Context ε) : c.Evolves c := .of_line rfl rfl fun l hl _ hf => ⟨l, hl, hf⟩

/-- The loop whose turn it is has moved on, and the next in line has its turn. -/
theorem Evolves.of_pass {c c' : Context ε} (hportals : c'.portals = c.portals)
    (hothers : c'.others = c.others)
    (hphase : c.Held → ∀ f, c'.loop.phase = .waiting f → f.mask = .empty)
    (hlog : c.Held → ∀ (p : Nat) d, c.log[p]? = some d → ∃ d', c'.log[p]? = some d' ∧ d.Settles d') :
    c.Evolves c'.pass := by
  refine ⟨(congrArg (·.portals) (pass_unlooped c')).trans hportals, fun hheld l hl f hf => ?_, fun hheld p d hd => ?_⟩
  · rcases List.mem_cons.mp (mem_line_pass hl) with rfl | hl'
    · exact hphase hheld f hf
    · rw [hothers] at hl'
      exact hheld l (List.mem_cons_of_mem _ hl') f hf
  · rw [pass_log]
    exact hlog hheld p d hd

theorem evolves_turn {c c' : Context ε} (h : c' ∈ c.turns) : c.Evolves c' := by
  have hsame := turn_unlooped h
  exact .of_line (congrArg (·.portals) hsame) (congrArg (·.log) hsame)
    fun l hl f hf => ⟨l, mem_line_of_turn h hl, hf⟩

theorem evolves_next? {c c' : Context ε} {next : Option Exit.Reason} (h : c.next? = some (next, c')) :
    c.Evolves c' := by
  have hsame := next?_steady h
  refine .of_line (congrArg (·.portals) hsame) (congrArg (·.log) hsame) fun l hl f hf => ?_
  rcases List.mem_cons.mp hl with rfl | hl'
  · rw [next?_ready h] at hf
    cases hf
  · have hothers : c'.others = c.others := congrArg (·.others) hsame
    exact ⟨l, List.mem_cons_of_mem _ (hothers ▸ hl'), hf⟩

theorem evolves_launch (c : Context ε) : c.Evolves c.launch := by
  refine .of_line rfl rfl fun l hl f hf => ?_
  rcases List.mem_cons.mp hl with rfl | hl'
  · cases hf
  · obtain ⟨l', hl'', rfl⟩ := List.mem_map.mp hl'
    refine ⟨l', ?_, hf⟩
    unfold loops at hl''
    split at hl''
    · exact List.mem_cons_of_mem _ hl''
    · exact hl''

theorem evolves_mapUnits (g : Fpu → Fpu) (c : Context ε) : c.Evolves (c.mapUnits g) := by
  refine .of_line rfl rfl fun l hl f hf => ?_
  rcases List.mem_cons.mp hl with rfl | hl'
  · exact ⟨c.loop, List.mem_cons_self .., hf⟩
  · obtain ⟨l', hl'', rfl⟩ := List.mem_map.mp hl'
    exact ⟨l', List.mem_cons_of_mem _ hl'', hf⟩

/-- An exit that waits is answered by its empty frame. -/
theorem evolves_answer {c : Context ε} {f : Frame} (hf : c.loop.phase = .waiting f) :
    c.Evolves (c.answer f) := by
  refine .of_pass rfl rfl (fun _ f' hf' => by cases hf') fun hheld p d hd => ?_
  have hempty : f.mask = .empty := hheld c.loop (List.mem_cons_self ..) f hf
  show ∃ d', (c.log.modify c.loop.place _)[p]? = some d' ∧ d.Settles d'
  rw [List.getElem?_modify, hd, hempty]
  split
  · exact ⟨_, rfl, .inr rfl⟩
  · exact ⟨_, rfl, .inl rfl⟩

/-- A context after the delivery of an exit, whose loop then waits with an empty frame,
is answered, or ends, with its thread or without. -/
theorem evolves_delivered {c c' c'' : Context ε} {r : Exit.Reason} {m : Mask} {routed : Bool}
    (hportals : c'.portals = c.portals) (hlog : c'.log = c.log ++ [⟨r, m, none, routed⟩])
    (hplace : c'.loop.place = c.log.length) (hothers : c'.others = c.others)
    (h : (∃ f : Frame, c'' = c'.hold f.cleared) ∨ (∃ f, c'' = c'.answer f) ∨ (∃ e, c'' = c'.finish e) ∨
      c'' = c'.crash) :
    c.Evolves c'' := by
  have hkept : ∀ (p : Nat) d, c.log[p]? = some d → ∃ d', c'.log[p]? = some d' ∧ d.Settles d' := by
    intro p d hd
    refine ⟨d, ?_, .inl rfl⟩
    rw [hlog, List.getElem?_append_left (List.getElem?_eq_some_iff.mp hd).1, hd]
  rcases h with ⟨f, rfl⟩ | ⟨f, rfl⟩ | ⟨e, rfl⟩ | rfl
  · refine .of_pass hportals hothers (fun _ f' hf' => ?_) fun _ => hkept
    cases hf'
    rfl
  · refine .of_pass hportals hothers (fun _ f' hf' => by cases hf') fun _ p d hd => ?_
    have hp := (List.getElem?_eq_some_iff.mp hd).1
    show ∃ d', (c'.log.modify c'.loop.place _)[p]? = some d' ∧ d.Settles d'
    rw [List.getElem?_modify_ne _ _ (by omega)]
    exact hkept p d hd
  · exact .of_pass hportals hothers (fun _ f' hf' => by cases hf') fun _ => hkept
  · exact .of_pass hportals hothers (fun _ f' hf' => by cases hf') fun _ => hkept

end Context

/-! ### One seat -/

/-- Every exit of a handler's vCPU has a portal with the mask of the declared interest. -/
def Served (interest : Exit.Interest) (ps : Exit.Portals Unit) : Prop :=
  ∀ r, ps.route? r = some ⟨Exit.portalMask (interest r), ()⟩

/-- What creation makes of a seat, and what it stays. -/
structure Made (s : Seat σ (Context Unit)) : Prop where
  served : Served s.handler.interest s.context.portals
  held : s.context.Held

/-- What can become of a seat. -/
structure Evolves (s s' : Seat σ (Context Unit)) : Prop where
  handler : s'.handler = s.handler
  context : s.context.Evolves s'.context

theorem Evolves.refl (s : Seat σ (Context Unit)) : Evolves s s := ⟨rfl, .refl _⟩

theorem Evolves.trans {s s' s'' : Seat σ (Context Unit)} (h : Evolves s s') (h' : Evolves s' s'') :
    Evolves s s'' := ⟨h'.handler.trans h.handler, h.context.trans h'.context⟩

theorem Made.evolves {s s' : Seat σ (Context Unit)} (hs : Made s) (h : Evolves s s') : Made s' := by
  refine ⟨?_, h.context.held hs.held⟩
  rw [h.handler, h.context.portals]
  exact hs.served

theorem evolves_of_bare {s s' : Seat σ (Context Unit)} (h : bare s' = bare s) : Evolves s s' := by
  have hcontext : (bare s').context = (bare s).context := congrArg (·.context) h
  have hloop : s'.context.loop = s.context.loop := congrArg (·.loop) hcontext
  have hothers : s'.context.others = s.context.others := congrArg (·.others) hcontext
  refine ⟨congrArg (·.handler) h, .of_line (congrArg (·.portals) hcontext) (congrArg (·.log) hcontext)
    fun l hl f hf => ⟨l, ?_, hf⟩⟩
  rwa [Context.line, hloop, hothers] at hl

/-! ### All seats -/

/-- What can become of a seat that is there, or can come where none is. -/
inductive Carries : Option (Seat σ (Context Unit)) → Option (Seat σ (Context Unit)) → Prop where
  | free : Carries none none
  | made {s : Seat σ (Context Unit)} (h : Made s) : Carries none (some s)
  | kept {s s' : Seat σ (Context Unit)} (h : Evolves s s') : Carries (some s) (some s')

theorem Carries.refl (s : Option (Seat σ (Context Unit))) : Carries s s := by
  cases s with
  | none => exact .free
  | some s => exact .kept (.refl s)

theorem Carries.trans {s s' s'' : Option (Seat σ (Context Unit))} (h : Carries s s')
    (h' : Carries s' s'') : Carries s s'' := by
  cases h with
  | free => exact h'
  | made hs =>
    cases h' with
    | kept h' => exact .made (hs.evolves h')
  | kept h =>
    cases h' with
    | kept h' => exact .kept (h.trans h')

/-- What can become of the seats of a machine. -/
def Becomes (m m' : State σ) : Prop := ∀ id : Nat, Carries m.seats[id]? m'.seats[id]?

theorem Becomes.seat {m m' : State σ} (h : Becomes m m') {id : Exit.VcpuId} {s : Seat σ (Context Unit)}
    (hs : m.seats[id]? = some s) : ∃ s', m'.seats[id]? = some s' ∧ Evolves s s' := by
  have hid := h id
  rw [hs] at hid
  generalize m'.seats[id]? = found at hid
  cases hid with
  | kept hevolves => exact ⟨_, rfl, hevolves⟩

theorem Spares.becomes {m m' : State σ} (h : Spares m m') : Becomes m m' := by
  intro id
  have hid := h id
  cases hs : m.seats[id]? with
  | none =>
    rw [hs, Option.map_none, Option.map_eq_none_iff] at hid
    rw [hid]
    exact .free
  | some s =>
    rw [hs] at hid
    obtain ⟨s', hs', hbare⟩ := Option.map_eq_some_iff.mp hid
    rw [hs']
    exact .kept (evolves_of_bare hbare)

theorem becomes_modify {m : State σ} {id : Exit.VcpuId} {f : Seat σ (Context Unit) → Seat σ (Context Unit)}
    (h : ∀ s, m.seats[id]? = some s → Evolves s (f s)) : Becomes m (m.modify id f) := by
  intro other
  by_cases hne : id = other
  · subst hne
    rw [Machine.seat_modify]
    cases hs : m.seats[id]? with
    | none => exact .free
    | some s => exact .kept (h s hs)
  · rw [Machine.seat_modify_of_ne m f hne]
    exact .refl _

theorem becomes_modifyContext {m : State σ} {id : Exit.VcpuId} {f : Context Unit → Context Unit}
    (h : ∀ s, m.seats[id]? = some s → s.context.Evolves (f s.context)) :
    Becomes m (m.modifyContext id f) := by
  rw [Machine.modifyContext_eq]
  exact becomes_modify fun s hs => ⟨rfl, h s hs⟩

/-! ### Steps -/

/-- How the work on an exit ends for the loop. -/
theorem concluded_evolves {s w : Seat σ (Context Unit)} {c : Context Unit} {r : Exit.Reason} {m : Mask}
    (id : Exit.VcpuId) (f : Frame) (o : Hypervisor.Outcome σ) (hhandler : w.handler = s.handler)
    (hc : s.context.Evolves c) (hportals : w.context.portals = c.portals)
    (hlog : w.context.log = c.log ++ [⟨r, m, none, true⟩]) (hplace : w.context.loop.place = c.log.length)
    (hothers : w.context.others = c.others) : Evolves s (concluded id r f o w) := by
  unfold concluded
  dsimp only
  split
  next cause _ =>
    refine ⟨hhandler, hc.trans ?_⟩
    exact Context.evolves_delivered hportals hlog hplace hothers (.inr (.inr (.inl ⟨_, rfl⟩)))
  next =>
    refine ⟨hhandler, hc.trans ?_⟩
    exact Context.evolves_delivered hportals hlog hplace hothers (.inr (.inr (.inr rfl)))
  next =>
    split
    next =>
      refine ⟨hhandler, hc.trans ?_⟩
      exact Context.evolves_delivered hportals hlog hplace hothers (.inl ⟨f, rfl⟩)
    next =>
      refine ⟨hhandler, hc.trans ?_⟩
      let u := ((w.vcpu.leave o.state).transfer f w.context.loop.fpu).2.2
      exact @Context.evolves_delivered _ c {w.context with loop := {w.context.loop with fpu := u}} _
        r m true hportals hlog hplace hothers (.inr (.inl ⟨_, rfl⟩))

theorem deliver_becomes {m : State σ} {id : Exit.VcpuId} {s : Seat σ (Context Unit)} {c : Context Unit}
    (hs : m.seats[id]? = some s) (hc : s.context.Evolves c) (r : Exit.Reason) :
    Becomes m (deliver id r c m) := by
  have hevolves : ∀ s', m.seats[id]? = some s' → s'.context.Evolves c := by
    intro s' hs'
    cases hs.symm.trans hs'
    exact hc
  cases hp : c.portals.route? r with
  | none =>
    rw [deliver_dropped hp]
    exact becomes_modifyContext hevolves
  | some p =>
  cases hreg : s.registered with
  | false =>
    rw [deliver_refused hp hs hreg]
    refine becomes_modifyContext fun s' hs' => (hevolves s' hs').trans ?_
    exact @Context.evolves_delivered _ c (c.recorded r p.mask false) _ r p.mask false rfl rfl rfl rfl
      (.inr (.inl ⟨_, rfl⟩))
  | true =>
  by_cases hcall : r = .recalled ∧ s.vcpu.request = some .run
  · obtain ⟨rfl, hrun⟩ := hcall
    rw [deliver_resumed hp hs hreg hrun]
    refine becomes_modify fun s' hs' => ?_
    cases hs.symm.trans hs'
    refine ⟨rfl, hc.trans ?_⟩
    let u := ((taken .recalled s.vcpu).resume (c.filled .recalled p.mask) c.loop.fpu).2.2
    exact @Context.evolves_delivered _ c {c.recorded .recalled p.mask true with
      loop := {(c.recorded .recalled p.mask true).loop with fpu := u}} _ .recalled p.mask true rfl rfl rfl
        rfl (.inr (.inl ⟨_, rfl⟩))
  · rw [deliver_handled hp hs hreg hcall]
    generalize he : entered r (c.recorded r p.mask true) (c.filled r p.mask) s = e
    have hin : (m.modify id fun _ => e).seats[id]? = some e := Machine.seat_modify_of_some hs _
    have hspares := exec_spares id (s.handler.handle s.memory e.vcpu.state) (m.modify id fun _ => e)
    generalize hypervisor.exec id (s.handler.handle s.memory e.vcpu.state) (m.modify id fun _ => e) =
      worked at hspares
    intro other
    by_cases hne : id = other
    · subst hne
      obtain ⟨w, hw, hbare⟩ := hspares.seat hin
      rw [hs, Machine.seat_modify, hw]
      have hcontext : (bare w).context = (bare e).context := congrArg (·.context) hbare
      have hhandler : w.handler = e.handler := congrArg (·.handler) hbare
      subst he
      exact .kept (concluded_evolves id _ _ hhandler hc (congrArg (·.portals) hcontext)
        (congrArg (·.log) hcontext) (congrArg (·.loop.place) hcontext) (congrArg (·.others) hcontext))
    · rw [Machine.seat_modify_of_ne _ _ hne]
      have hother := hspares.becomes other
      rwa [Machine.seat_modify_of_ne _ _ hne] at hother

theorem moves_becomes {m m' : State σ} {id : Exit.VcpuId} (h : Moves m id m') : Becomes m m' := by
  obtain ⟨s, c, hs, hturn, hmove⟩ := h
  have hc := Context.evolves_turn hturn
  rcases move_cases hs hmove with ⟨f, ends, v, hphase, _, rfl⟩ | ⟨c', hnext, rfl⟩ | ⟨r, c', hnext, rfl⟩
  · refine becomes_modify fun s' hs' => ?_
    cases hs.symm.trans hs'
    refine ⟨rfl, ?_⟩
    cases ends with
    | true => exact hc.trans (Context.evolves_answer hphase)
    | false => exact hc
  · refine becomes_modifyContext fun s' hs' => ?_
    cases hs.symm.trans hs'
    refine (hc.trans (Context.evolves_next? hnext)).trans ?_
    exact .of_pass rfl rfl (fun _ f hf => by cases hf) fun _ p d hd => ⟨d, hd, .inl rfl⟩
  · exact deliver_becomes hs (hc.trans (Context.evolves_next? hnext)) r

/-! ### Creation -/

/-- Portals installed one after another. -/
def installed (ps : Exit.Portals Unit) (l : List (Exit.Slot × Mask)) : Exit.Portals Unit :=
  l.foldl (fun ps x => ps.install x.1 ⟨x.2, ()⟩) ps

theorem own_installed (interest : Exit.Interest) (reasons : List Exit.Reason) (ps : Exit.Portals Unit)
    (r : Exit.Reason) :
    (installed ps (reasons.filterMap fun r => (interest r).map fun m => (.exit r, Exit.portalMask (some m)))).own r =
      if r ∈ reasons then ((interest r).map fun m => ⟨Exit.portalMask (some m), ()⟩).or (ps.own r) else ps.own r := by
  induction reasons generalizing ps with
  | nil => rfl
  | cons r' rest ih =>
    rw [List.filterMap_cons]
    cases hm : interest r' with
    | none =>
      dsimp only [Option.map_none]
      rw [ih]
      by_cases hne : r = r'
      · subst hne
        simp [hm]
      · simp [hne]
    | some m =>
      dsimp only [Option.map_some]
      rw [installed, List.foldl_cons, ← installed, ih]
      by_cases hne : r = r'
      · subst hne
        simp [hm, Exit.Portals.install]
      · simp [hne, Exit.Portals.install]

/-- Every exit has the portal that is planned for it. -/
theorem served_plan (interest : Exit.Interest) : Served interest (installed {} (Exit.plan interest)) := by
  intro r
  have hown : ∀ l, (l = [] ∨ l = [(Exit.Slot.catchAll, Exit.catchAllMask)]) →
      (installed {} (Exit.Reason.all.filterMap (fun r =>
        (interest r).map fun m => (.exit r, Exit.portalMask (some m))) ++ l)).own r =
          (interest r).map fun m => ⟨Exit.portalMask (some m), ()⟩ := by
    intro l hl
    have hreasons := own_installed interest Exit.Reason.all {} r
    rw [if_pos r.mem_all, Option.or_none] at hreasons
    rw [installed, List.foldl_append, ← installed]
    rcases hl with rfl | rfl
    · exact hreasons
    · exact hreasons
  cases hr : interest r with
  | some m =>
    rw [Exit.Portals.route?, Exit.plan, hown _ (by split <;> simp), hr]
    rfl
  | none =>
    have hany : (Exit.Reason.all.any fun r => (interest r).isNone) = true :=
      List.any_eq_true.mpr ⟨r, r.mem_all, by rw [hr]; rfl⟩
    rw [Exit.Portals.route?, Exit.plan, if_pos hany, hown _ (.inr rfl), hr, installed, List.foldl_append]
    rfl

theorem installAll_eq (id : Exit.VcpuId) (l : List (Exit.Slot × Mask)) (m : State σ) :
    hypervisor.installAll id l m =
      (.ok (), m.modifyContext id fun c => {c with portals := installed c.portals l}) := by
  induction l generalizing m with
  | nil =>
    show (Except.ok (), m) = (Except.ok (), m.modifyContext id fun c => c)
    rw [Machine.modifyContext_eq, Machine.modify_id]
  | cons x rest ih =>
    show hypervisor.installAll id rest (m.modifyContext id _) = _
    rw [ih, Machine.modifyContext_eq, Machine.modifyContext_eq, Machine.modifyContext_eq, Machine.modify_modify]
    rfl

/-- A new seat, which waits to be launched or has been. -/
def newSeat (deferred : Bool) (handler : Handler σ) (memory : σ) : Seat σ (Context Unit) :=
  let c : Context Unit := {portals := installed {} (Exit.plan handler.interest)}
  {handler, memory, context := if deferred then c else c.launch}

/-- Creation succeeds, and adds a seat. -/
theorem create_eq {m : State σ} (hroom : m.HasRoom) (handler : Handler σ) (memory : σ) :
    hypervisor.create handler memory {} m = (.ok m.seats.length,
      {m.append (newSeat m.shared.deferred handler memory) hroom with owned := m.owned ++ [m.seats.length]}) := by
  rw [Hypervisor.create, installAll_eq, Machine.nextPlace_eq, Machine.nextId_eq hroom, Machine.enroll_eq hroom,
    Machine.modifyContext_eq, Machine.modify_append]
  simp only [hypervisor, Machine.modifyContext_eq, Machine.modify_append]
  cases hdeferred : m.shared.deferred with
  | true => simp [newSeat, Machine.append, hdeferred]
  | false => simp [newSeat, Machine.append, hdeferred]

/-- What a creation makes of a machine, as long as it has numbers to give out. -/
theorem apply_create {m : State σ} (hroom : m.HasRoom) (handler : Handler σ) (memory : σ) :
    (Operation.create handler memory).apply m =
      {m.append (newSeat m.shared.deferred handler memory) hroom with owned := m.owned ++ [m.seats.length]} := by
  rw [Operation.apply, if_pos hroom, create_eq hroom]

theorem seats_create {m : State σ} (hroom : m.HasRoom) (handler : Handler σ) (memory : σ) :
    ((Operation.create handler memory).apply m).seats = m.seats ++ [newSeat m.shared.deferred handler memory] := by
  rw [apply_create hroom]
  exact m.seats_append _ hroom

theorem made_newSeat (deferred : Bool) (handler : Handler σ) (memory : σ) :
    Made (newSeat deferred handler memory) := by
  cases deferred with
  | true =>
    refine ⟨served_plan handler.interest, fun l hl f hf => ?_⟩
    obtain rfl := List.mem_singleton.mp hl
    cases hf
  | false =>
    refine ⟨served_plan handler.interest, fun l hl f hf => ?_⟩
    obtain rfl := List.mem_singleton.mp hl
    cases hf

theorem create_becomes {m : State σ} (hroom : m.HasRoom) (handler : Handler σ) (memory : σ) :
    Becomes m (hypervisor.create handler memory {} m).2 := by
  intro id
  rw [create_eq hroom]
  show Carries _ (m.append _ hroom).seats[id]?
  rw [Machine.seats_append]
  rcases Nat.lt_trichotomy id m.seats.length with hlt | rfl | hgt
  · rw [List.getElem?_append_left hlt]
    exact .refl _
  · rw [List.getElem?_append_right (Nat.le_refl _), Nat.sub_self, List.getElem?_eq_none (Nat.le_refl _)]
    exact .made (made_newSeat ..)
  · rw [List.getElem?_eq_none (Nat.le_of_lt hgt), List.getElem?_eq_none (by simp; omega)]
    exact .free

/-! ### All that can happen -/

theorem apply_becomes (o : Operation σ) (m : State σ) : Becomes m (o.apply m) := by
  cases o with
  | create handler memory =>
    by_cases hroom : m.HasRoom
    · rw [Operation.apply, if_pos hroom]
      exact create_becomes hroom handler memory
    · rw [Operation.apply, if_neg hroom]
      exact (Spares.refl m).becomes
  | run id => exact (demandById_spares (fun _ => Vcpu.run_fst false) id m).becomes
  | pause id => exact (demandById_spares (fun _ => Vcpu.pause_fst false) id m).becomes
  | edit id f =>
    show Becomes m (m.editState id f).2
    rw [Machine.editState_eq]
    split
    · exact (Spares.refl m).becomes
    · exact becomes_modify fun s _ => ⟨rfl, .refl _⟩
  | shutdown => exact (shutdown_spares m).becomes
  | launch id => exact becomes_modifyContext fun s _ => s.context.evolves_launch
  | inject id r => exact becomes_modifyContext fun s _ => .of_line rfl rfl fun l hl f hf => ⟨l, hl, hf⟩
  | forceExit id => exact becomes_modifyContext fun s _ => .of_line rfl rfl fun l hl f hf => ⟨l, hl, hf⟩
  | setRegisters id f =>
    exact becomes_modifyContext fun s _ => .of_line rfl rfl fun l hl f hf => ⟨l, hl, hf⟩
  | setUnits id f => exact becomes_modifyContext fun s _ => s.context.evolves_mapUnits f
  | takeOutcome id =>
    refine becomes_modifyContext fun s _ => ?_
    unfold Context.takeOutcome
    split
    · exact .of_line rfl rfl fun l hl f hf => ⟨l, hl, hf⟩
    · exact .refl _

/-- Whatever happens, a seat stays what it is. -/
theorem leads_becomes {m m' : State σ} (h : Leads m m') : Becomes m m' := by
  induction h with
  | refl => exact (Spares.refl m).becomes
  | operation _ o ih => exact fun id => (ih id).trans (apply_becomes o _ id)
  | step _ hstep ih => exact fun id => (ih id).trans (moves_becomes hstep id)

/-- Every seat of a machine is as creation has made it. -/
theorem reachable_made {m : State σ} (h : Reachable m) {id : Exit.VcpuId} {s : Seat σ (Context Unit)}
    (hs : m.seats[id]? = some s) : Made s := by
  obtain ⟨deferred, hleads⟩ := h
  have hid := leads_becomes hleads id
  rw [hs] at hid
  cases hid with
  | made hmade => exact hmade

end GuestMachine.Simulated
