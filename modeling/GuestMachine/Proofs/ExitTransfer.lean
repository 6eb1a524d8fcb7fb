import GuestMachine.Proofs.Reachable

/-! What an exit transfers.

An exit that is handled goes through a portal, a frame, the vCPU's state, a handler, and
back (`deliver_handled`). `exit_transfer` says what all of that comes to: the handler
starts with the groups of the declared mask as the guest has them, and the guest goes on
with what the handler leaves charged, in every group apart; an exit that waits transfers
nothing, then or later. -/
namespace GuestMachine.Simulated
open Register

variable {σ : Type}

/-! ### Masks -/

/-- The mask that an exit is delivered with, for a declared interest. -/
structure Delivers (declared : Option Mask) (m : Mask) : Prop where
  undeclared : declared = none → m = Group.instruction.mask
  empty : declared = some .empty → m = .full
  declared : ∀ d, declared = some d → d ≠ .empty → m = d

theorem delivers_portalMask (declared : Option Mask) : Delivers declared (Exit.portalMask declared) := by
  refine ⟨?_, ?_, ?_⟩
  · rintro rfl
    rfl
  · rintro rfl
    rfl
  · rintro d rfl hd
    have hbits : d.isEmpty = false := by
      rw [Mask.isEmpty, beq_eq_false_iff_ne]
      exact fun hzero => hd (congrArg Mask.mk hzero)
    rw [Exit.portalMask, hbits, if_neg Bool.false_ne_true]

/-! ### The way back -/

/-- The seat after an exit that the handler has answered: `left` is the state it leaves,
`image` what the unit held before. -/
structure Answered (s t : Seat σ (Context Unit)) (r : Exit.Reason) (m : Mask) (image : FpuImage)
    (left : Register.State) : Prop where
  groups : ∀ g : Group, g.read t.context.registers.registers =
    (left.groups g).value?.getD (g.read s.context.registers.registers)
  frame : t.context.registers.mask = s.context.registers.mask ∧
    t.context.registers.reason = s.context.registers.reason
  image : t.context.latest.fpu.image = left.fpu.value?.getD image
  log : t.context.log = s.context.log ++ [⟨r, m, some left.charged, true⟩]
  state : t.vcpu.state = left.discharged

/-- The seat after an exit that waits. -/
structure Waits (s t : Seat σ (Context Unit)) (r : Exit.Reason) (m : Mask) (image : FpuImage)
    (left : Register.State) : Prop where
  registers : t.context.registers = s.context.registers
  image : t.context.latest.fpu.image = image
  phase : ∃ f, t.context.latest.phase = .waiting f ∧ f.mask = .empty
  place : t.context.latest.place = s.context.log.length
  log : t.context.log = s.context.log ++ [⟨r, m, none, true⟩]
  state : t.vcpu.state = left

/-- What a handler at work leaves of the seat that it began with. -/
structure Works (s w : Seat σ (Context Unit)) (r : Exit.Reason) (m : Mask) (image : FpuImage) : Prop where
  registers : w.context.registers = s.context.registers
  image : w.context.loop.fpu.image = image
  place : w.context.loop.place = s.context.log.length
  log : w.context.log = s.context.log ++ [⟨r, m, none, true⟩]

theorem Works.answered {s w : Seat σ (Context Unit)} {r : Exit.Reason} {m : Mask} {image : FpuImage}
    (h : Works s w r m image) (id : Exit.VcpuId) (f : Frame) {o : Hypervisor.Outcome σ}
    (ho : o.failure = none) (hw : w.vcpu.blocked = false) :
    Answered s (concluded id r f o w) r m image o.state := by
  rw [concluded_answered id r f ho hw]
  refine ⟨fun g => ?_, ?_, ?_, ?_, rfl⟩
  · rw [Context.answer_registers, State.read_reply, h.registers]
  · rw [Context.answer_registers, h.registers]
    exact ⟨rfl, rfl⟩
  · show (Context.pass _).latest.fpu.image = _
    rw [Context.pass_latest (by rintro ⟨⟩)]
    show (o.state.store f w.context.loop.fpu).2.image = _
    rw [State.store_image, h.image]
  · rw [Context.answer_log, State.store_mask]
    show w.context.log.modify w.context.loop.place _ = _
    rw [h.log, h.place, modify_append_length]

theorem Works.waits {s w : Seat σ (Context Unit)} {r : Exit.Reason} {m : Mask} {image : FpuImage}
    (h : Works s w r m image) (id : Exit.VcpuId) (f : Frame) {o : Hypervisor.Outcome σ}
    (ho : o.failure = none) (hw : w.vcpu.blocked = true) :
    Waits s (concluded id r f o w) r m image o.state := by
  have hlatest : (w.context.hold f.cleared).latest = {w.context.loop with phase := .waiting f.cleared} :=
    Context.pass_latest nofun
  rw [concluded_blocked id r f ho hw]
  refine ⟨?_, ?_, ⟨f.cleared, ?_, rfl⟩, ?_, ?_, rfl⟩
  · exact (Context.pass_registers _).trans h.registers
  · exact (congrArg (·.fpu.image) hlatest).trans h.image
  · exact congrArg (·.phase) hlatest
  · exact (congrArg (·.place) hlatest).trans h.place
  · exact (Context.pass_log _).trans h.log

/-- However the work ends, the exit has been logged. -/
theorem Works.logged {s w : Seat σ (Context Unit)} {r : Exit.Reason} {m : Mask} {image : FpuImage}
    (h : Works s w r m image) (id : Exit.VcpuId) (f : Frame) (o : Hypervisor.Outcome σ) :
    ∃ reply, (concluded id r f o w).context.log = s.context.log ++ [⟨r, m, reply, true⟩] := by
  cases ho : o.failure with
  | some failure =>
    cases failure with
    | error cause =>
      refine ⟨none, ?_⟩
      simp only [concluded, ho]
      exact (Context.pass_log _).trans h.log
    | panic =>
      refine ⟨none, ?_⟩
      simp only [concluded, ho]
      exact (Context.pass_log _).trans h.log
  | none =>
    cases hw : w.vcpu.blocked with
    | false => exact ⟨_, (h.answered id f ho hw).log⟩
    | true => exact ⟨_, (h.waits id f ho hw).log⟩

/-! ### The end of a wait -/

/-- The exit logged at a place transfers nothing any more: its entry has no reply, or the
empty one; and the end of its wait gives it that, and moves nothing else. -/
structure EndsEmpty (id : Exit.VcpuId) (place : Nat) (d : Delivery) (m : State σ) : Prop where
  entry : ∃ t d', m.seats[id]? = some t ∧ t.context.log[place]? = some d' ∧ d.Settles d'
  ends : ∀ t c f v, m.seats[id]? = some t → c ∈ t.context.turns → c.loop.phase = .waiting f →
    c.loop.place = place → t.vcpu.wake? = some (true, v) →
      ∃ m' t', move m id c = some m' ∧ m'.seats[id]? = some t' ∧
        t'.context.registers = t.context.registers ∧
        t'.context.latest = {c.loop with phase := .ready} ∧ t'.vcpu.state = t.vcpu.state ∧
        t'.context.log[place]? = some {d with reply := some .empty}

theorem endsEmpty {m : State σ} (hm : Reachable m) {id : Exit.VcpuId} {t : Seat σ (Context Unit)}
    (ht : m.seats[id]? = some t) {place : Nat} {d d' : Delivery} (hentry : t.context.log[place]? = some d')
    (hd : d.Settles d') : EndsEmpty id place d m := by
  refine ⟨⟨t, d', ht, hentry, hd⟩, fun t' c f v ht' hturn hphase hplace hwake => ?_⟩
  cases ht.symm.trans ht'
  have hempty : f.mask = .empty :=
    (reachable_made hm ht).held c.loop (Context.mem_line_of_turn hturn (List.mem_cons_self ..)) f hphase
  have hunlooped := Context.turn_unlooped hturn
  have hregisters : c.registers = t.context.registers := congrArg (·.registers) hunlooped
  have hlog : c.log = t.context.log := congrArg (·.log) hunlooped
  have hstate : v.state = t.vcpu.state := by
    obtain ⟨rest, _, hv⟩ := Option.map_eq_some_iff.mp hwake
    rw [← (Prod.mk.inj hv).2]
  have hmove : move m id c =
      some (m.modify id fun _ => {t with vcpu := v, context := c.answer f}) :=
    move_of_wake? ht hphase hwake
  refine ⟨_, _, hmove, Machine.seat_modify_of_some ht _, ?_, ?_, hstate, ?_⟩
  · rw [Context.answer_registers, hempty, copyGroups_empty, hregisters]
  · exact Context.pass_latest nofun
  · rw [Context.answer_log, hplace, List.getElem?_modify_eq, hlog, hentry, hempty]
    rcases hd with rfl | rfl <;> rfl

/-! ### The law -/

/-- **The exit transfer law.** An exit that a handler is to handle is delivered with the
mask of the declared interest. The handler starts with exactly the known groups of the
mask, as the guest has them. Once it has succeeded, a vCPU that does not block has given
the guest exactly what is left charged; one that blocks has given it nothing, and will
answer the exit with the empty mask. -/
theorem exit_transfer {m : State σ} (hm : Reachable m) {id : Exit.VcpuId} {s : Seat σ (Context Unit)}
    (hs : m.seats[id]? = some s) (hreg : s.registered = true) {c₀ c : Context Unit}
    (hturn : c₀ ∈ s.context.turns) {r : Exit.Reason} (hnext : c₀.next? = some (some r, c))
    (hcall : ¬(r = .recalled ∧ s.vcpu.request = some .run)) :
    let mask := Exit.portalMask (s.handler.interest r)
    let e := entered r (c.recorded r mask true) (c.filled r mask) s
    let worked := hypervisor.exec id (s.handler.handle s.memory e.vcpu.state) (m.modify id fun _ => e)
    let image := c₀.loop.fpu.image
    Delivers (s.handler.interest r) mask ∧
      e.vcpu.state.LoadedFrom r mask s.context.registers.registers image ∧
      e.vcpu.state.charged = mask.known ∧
      ∃ m' w t, move m id c₀ = some m' ∧ worked.2.seats[id]? = some w ∧
        m'.seats[id]? = some t ∧
        (∃ reply, t.context.log = s.context.log ++ [⟨r, mask, reply, true⟩]) ∧
        (worked.1.failure = none → w.vcpu.blocked = false →
          Answered s t r mask image worked.1.state) ∧
        (worked.1.failure = none → w.vcpu.blocked = true →
          Waits s t r mask image worked.1.state ∧
            ∀ m'', Leads m' m'' → EndsEmpty id s.context.log.length ⟨r, mask, none, true⟩ m'') := by
  intro mask e worked image
  have hsame : c.steady = c₀.steady := Context.next?_steady hnext
  have hunlooped := Context.turn_unlooped hturn
  have hportals : c.portals = s.context.portals :=
    (congrArg (·.portals) hsame).trans (congrArg (·.portals) hunlooped)
  have hregisters : c.registers = s.context.registers :=
    (congrArg (·.registers) hsame).trans (congrArg (·.registers) hunlooped)
  have hlog : c.log = s.context.log := (congrArg (·.log) hsame).trans (congrArg (·.log) hunlooped)
  have hfpu : c.loop.fpu = c₀.loop.fpu := congrArg (·.loop.fpu) hsame
  have hroute : c.portals.route? r = some ⟨mask, ()⟩ := by
    rw [hportals]
    exact (reachable_made hm hs).served r
  have hloaded : e.vcpu.state.LoadedFrom r mask s.context.registers.registers image := by
    have h := entered_loadedFrom s c r mask
    rwa [hregisters, hfpu] at h
  -- The handler works on a seat that is as it was, but for what calls change.
  obtain ⟨w, hw, hbare⟩ := exists_worked hs (s.handler.handle s.memory e.vcpu.state) e
  have hcontext : (bare w).context = (bare e).context := congrArg (·.context) hbare
  have hworks : Works s w r mask image := by
    refine ⟨(congrArg (·.registers) hcontext).trans hregisters, ?_, ?_, ?_⟩
    · rw [show w.context.loop = e.context.loop from congrArg (·.loop) hcontext]
      exact (entered_image s c r mask).trans (congrArg (·.image) hfpu)
    · exact (congrArg (·.loop.place) hcontext).trans (congrArg List.length hlog)
    · rw [← hlog]
      exact congrArg (·.log) hcontext
  have hdeliver := deliver_handled hroute hs hreg hcall
  have hmove : move m id c₀ = some (deliver id r c m) := move_of_next? hnext
  have ht : (deliver id r c m).seats[id]? = some (concluded id r (c.filled r mask) worked.1 w) := by
    rw [hdeliver, Machine.seat_modify]
    exact congrArg (Option.map _) hw
  refine ⟨delivers_portalMask _, hloaded, hloaded.charged, _, w, _, hmove, hw, ht, ?_, ?_, ?_⟩
  · exact hworks.logged id (c.filled r mask) worked.1
  · exact fun ho hblocked => hworks.answered id _ ho hblocked
  · intro ho hblocked
    have hwaits := hworks.waits id (c.filled r mask) ho hblocked
    refine ⟨hwaits, fun m'' hleads => ?_⟩
    have hreached : Reachable (deliver id r c m) := hm.leads (.step .refl ⟨s, c₀, hs, hturn, hmove⟩)
    obtain ⟨t', ht', hevolves⟩ := (leads_becomes hleads).seat ht
    have hentry : (concluded id r (c.filled r mask) worked.1 w).context.log[s.context.log.length]? =
        some ⟨r, mask, none, true⟩ := by
      rw [hwaits.log, List.getElem?_concat_length]
    obtain ⟨d', hd', hsettles⟩ := hevolves.context.log (reachable_made hreached ht).held _ _ hentry
    exact endsEmpty (hreached.leads hleads) ht' hd' hsettles

/-- A handler that asks for one group, sets a register of it, and goes on. -/
def settingHandler : Handler Unit where
  interest _ := some Group.general.mask
  handle _ s := .call .run fun _ => .done () (s.charge .general (⟨7, 0, 0, 0⟩ : General)) none

theorem exit_transfer_startup :
    ∃ (m m' : State Unit) (s t : Seat Unit (Context Unit)), Reachable m ∧ m.seats[0]? = some s ∧
      s.registered = true ∧ move m 0 s.context = some m' ∧ m'.seats[0]? = some t ∧
      t.context.registers.registers.ax = 7 ∧
      ∃ reply, t.context.log = [⟨.startup, Group.general.mask, some reply, true⟩] := by
  have hm : Reachable (Operation.apply (.create settingHandler ()) (empty false)) :=
    ⟨false, .operation .refl _⟩
  have hs : (Operation.apply (.create settingHandler ()) (empty false) : State Unit).seats[0]? =
      some (newSeat false settingHandler ()) := by
    rw [apply_create (show Machine.HasRoom _ by decide)]
    rfl
  obtain ⟨_, _, _, m', w, t, hmove, hw, ht, _, hanswered, _⟩ :=
    @exit_transfer Unit _ hm 0 _ hs rfl (newSeat false settingHandler ()).context
      ((newSeat false settingHandler ()).context.enter .ready) (List.mem_cons_self ..) .startup rfl (by decide)
  have hexec : ∀ (state : Register.State) (m : State Unit),
      (hypervisor.exec 0 ((newSeat false settingHandler ()).handler.handle
        (newSeat false settingHandler ()).memory state) m).2 = hypervisor.demand (Vcpu.run true) 0 m :=
    fun _ _ => rfl
  have hblocked : w.vcpu.blocked = false := by
    rw [hexec, demand_eq, Machine.seat_modify, Machine.seat_modify, hs] at hw
    rw [← Option.some.inj hw]
    rfl
  have h := hanswered rfl hblocked
  refine ⟨_, m', _, t, hm, hs, rfl, hmove, ht, ?_, ?_⟩
  · exact congrArg General.ax (h.groups .general)
  · exact ⟨_, h.log⟩

end GuestMachine.Simulated
