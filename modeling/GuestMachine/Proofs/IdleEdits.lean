import GuestMachine.Proofs.Locality

/-! Edits of a running vCPU's state.

The state of a vCPU belongs to its handler while an exit is handled, and to controllers
while the vCPU is blocked. In between the guest runs, and a state that is edited then is
lost: the next exit either loads the state afresh or is answered without a transfer, and no
call of others looks at it. So machines that differ by the state of a running vCPU go on
alike (`Alike.move`, `Alike.act`), until its next exit makes them the same. -/
namespace GuestMachine.Simulated
open Register

variable {σ : Type}

/-- The seat of a vCPU whose state has been replaced. -/
def restated (x : Register.State) (s : Seat σ (Context Unit)) : Seat σ (Context Unit) :=
  {s with vcpu := {s.vcpu with state := x}}

theorem demanded_restated {step : Vcpu → Vcpu × Option Request} {x : Register.State}
    (hstep : ∀ v : Vcpu, step {v with state := x} = ({(step v).1 with state := x}, (step v).2)) (s : Seat σ (Context Unit)) :
    demanded step (restated x s) = restated x (demanded step s) := by
  have hvcpu : step (restated x s).vcpu = ({(step s.vcpu).1 with state := x}, (step s.vcpu).2) := hstep s.vcpu
  unfold demanded
  rw [hvcpu]
  cases step s.vcpu with
  | mk v r =>
    cases r with
    | none => rfl
    | some r => rfl

theorem restated_passive (x : Register.State) : Passive (@restated σ x) := by
  refine ⟨fun _ => rfl, fun _ => rfl, demanded_restated fun v => ?_, demanded_restated fun v => ?_, fun _ _ => rfl⟩
  · unfold Vcpu.run
    dsimp only
    cases !v.started with
    | true => rfl
    | false =>
      cases !v.blocked && v.request.isNone with
      | true => rfl
      | false => rfl
  · rfl

/-! ### The next exit -/

/-- A handler starts on a state that has been loaded afresh. -/
theorem entered_restated (r : Exit.Reason) (c : Context Unit) (f : Frame) (x : Register.State)
    (s : Seat σ (Context Unit)) : entered r c f (restated x s) = entered r c f s := by
  by_cases hr : r = .recalled
  · simp only [entered, taken, if_pos hr]
    rfl
  · simp only [entered, taken, if_neg hr]
    rfl

/-- A recall that runs a running vCPU transfers nothing. -/
theorem resumed_running (c : Context Unit) (f : Frame) {s : Seat σ (Context Unit)} (hrunning : s.vcpu.blocked = false) :
    resumed c f s = {s with vcpu := taken .recalled s.vcpu, context := c.answer f.cleared} := by
  have hblocked : (taken .recalled s.vcpu).blocked = false := by
    rw [taken, if_pos rfl]
    exact hrunning
  have hresume : (taken .recalled s.vcpu).resume f c.loop.fpu = (taken .recalled s.vcpu, f.cleared, c.loop.fpu) := by
    rw [Vcpu.resume, hblocked]
    exact if_neg Bool.false_ne_true
  rw [resumed, hresume]

theorem visit?_restated {m : State σ} {id : Exit.VcpuId} {s : Seat σ (Context Unit)} (hs : m.seats[id]? = some s)
    (x : Register.State) (c₀ : Context Unit) : visit? (m.modify id (restated x)) id c₀ = visit? m id c₀ := by
  refine Option.ext fun _ => (visit?_eq_some_iff (Machine.seat_modify_of_some hs _)).trans (Iff.trans ?_ (visit?_eq_some_iff hs).symm)
  simp only [entered_restated]
  exact Iff.rfl

/-! ### Machines that differ by one state -/

/-- Two machines are the same but for the state of a vCPU that runs. -/
inductive Alike (id : Exit.VcpuId) (m : State σ) : State σ → Prop where
  | same : Alike id m m
  | idle {s : Seat σ (Context Unit)} (hs : m.seats[id]? = some s) (hrunning : s.vcpu.blocked = false)
    (x : Register.State) : Alike id m (m.modify id (restated x))

section Alike
variable {m m₁ m₂ m' : State σ} {id other : Exit.VcpuId} {s : Seat σ (Context Unit)}

/-- The vCPU has a seat still, and runs. -/
theorem Alike.of_running (hs : m.seats[id]? = some s) (hbecomes : Becomes m m') (hrunning : Has m' id (·.vcpu.blocked = false))
    (x : Register.State) : Alike id m' (m'.modify id (restated x)) := by
  obtain ⟨s', hs', _⟩ := hbecomes.seat hs
  exact .idle hs' (hrunning s' hs') x

/-- Its seat has been replaced, by seats that differ by their state. -/
theorem Alike.of_const (hs : m.seats[id]? = some s) {s' : Seat σ (Context Unit)} (hrunning : s'.vcpu.blocked = false)
    (x y : Register.State) :
    Alike id (m.modify id fun _ => s') ((m.modify id (restated x)).modify id fun _ => restated y s') := by
  have hboth : (m.modify id (restated x)).modify id (fun _ => restated y s') = (m.modify id fun _ => s').modify id (restated y) := by
    rw [Machine.modify_modify, Machine.modify_modify]
    rfl
  rw [hboth]
  exact .idle (Machine.seat_modify_of_some hs _) hrunning y

/-- The context of its seat has been replaced. -/
theorem Alike.of_context (hs : m.seats[id]? = some s) (hrunning : s.vcpu.blocked = false) (c : Context Unit)
    (x : Register.State) :
    Alike id (m.modifyContext id fun _ => c) ((m.modify id (restated x)).modifyContext id fun _ => c) := by
  have hboth : (m.modify id (restated x)).modifyContext id (fun _ => c) =
      (m.modifyContext id fun _ => c).modify id (restated x) := by
    rw [Machine.modifyContext_eq, Machine.modifyContext_eq, Machine.modify_modify, Machine.modify_modify]
    rfl
  rw [hboth]
  exact .idle (seat_modifyContext hs fun _ => c) hrunning x

/-- The running vCPU takes an exit. -/
theorem deliver_restated (hs : m.seats[id]? = some s) (hrunning : s.vcpu.blocked = false) (x : Register.State)
    (r : Exit.Reason) (c : Context Unit) : Alike id (deliver id r c m) (deliver id r c (m.modify id (restated x))) := by
  have hs' : (m.modify id (restated x)).seats[id]? = some (restated x s) := Machine.seat_modify_of_some hs _
  cases hp : c.portals.route? r with
  | none =>
    rw [deliver_dropped hp, deliver_dropped hp]
    exact .of_context hs hrunning ..
  | some p =>
  cases hreg : s.registered with
  | false =>
    rw [deliver_refused hp hs hreg, deliver_refused hp hs' hreg]
    exact .of_context hs hrunning ..
  | true =>
  by_cases hcall : r = .recalled ∧ s.vcpu.request = some .run
  · obtain ⟨rfl, hrun⟩ := hcall
    rw [deliver_resumed hp hs hreg hrun, deliver_resumed hp hs' hreg hrun, resumed_running _ _ hrunning,
      resumed_running _ _ (show (restated x s).vcpu.blocked = false from hrunning)]
    refine .of_const hs ?_ x (taken .recalled (restated x s).vcpu).state
    rw [taken, if_pos rfl]
    exact hrunning
  · -- From here on the machines are the same.
    have hentered : (m.modify id (restated x)).modify id
        (fun _ => entered r (c.recorded r p.mask true) (c.filled r p.mask) (restated x s)) =
          m.modify id fun _ => entered r (c.recorded r p.mask true) (c.filled r p.mask) s := by
      rw [Machine.modify_modify, entered_restated]
      rfl
    have hdeliver := deliver_handled hp hs hreg hcall
    have hdeliver' := deliver_handled hp hs' hreg hcall
    rw [hdeliver, hdeliver', hentered, entered_restated]
    exact .same

theorem move_restated (hs : m.seats[id]? = some s) (hrunning : s.vcpu.blocked = false) (x : Register.State)
    (c : Context Unit) :
    Option.Rel (Alike id) (move m id c)
      (move (m.modify id (restated x)) id c) := by
  have hs' : (m.modify id (restated x)).seats[id]? = some (restated x s) := Machine.seat_modify_of_some hs _
  cases hphase : c.loop.phase with
  | waiting f =>
    rw [move_waiting hs hphase, move_waiting hs' hphase]
    cases hwake : s.vcpu.wake? with
    | none =>
      have hwake' : (restated x s).vcpu.wake? = none := by
        rw [Vcpu.wake?, Option.map_eq_none_iff] at *
        exact hwake
      rw [hwake']
      exact .none
    | some woken =>
      obtain ⟨rest, hdown, rfl⟩ := Option.map_eq_some_iff.mp hwake
      have hwake' : (restated x s).vcpu.wake? =
          some (s.vcpu.destroyed || s.vcpu.request.isSome, {s.vcpu with state := x, signals := rest}) :=
        Option.map_eq_some_iff.mpr ⟨rest, hdown, rfl⟩
      rw [hwake']
      let ends := s.vcpu.destroyed || s.vcpu.request.isSome
      exact .some (@Alike.of_const σ m id s hs
        {s with vcpu := {s.vcpu with signals := rest}, context := if ends then c.answer f else c} hrunning x x)
  | off | starting | ready =>
    rw [move, move, hphase]
    dsimp only
    cases c.next? with
    | none => exact .none
    | some next =>
      obtain ⟨_ | r, c'⟩ := next
      · exact .some (.of_context hs hrunning ..)
      · exact .some (deliver_restated hs hrunning ..)

theorem idle_keptByCalls : KeptByCalls false fun s : Seat σ (Context Unit) => s.vcpu.blocked = false :=
  ⟨fun _ _ h => h, fun hfalse => absurd hfalse Bool.false_ne_true, fun _ _ h => h⟩

/-- A loop makes the same step in both machines, with the same visit, or none in either. -/
theorem Alike.move (h : Alike id m₁ m₂) (hs : m₁.seats[other]? = some s) :
    ∃ s', m₂.seats[other]? = some s' ∧ s'.context = s.context ∧ ∀ c ∈ s.context.turns,
      visit? m₂ other c = visit? m₁ other c ∧
        Option.Rel (Alike id) (move m₁ other c) (move m₂ other c) := by
  cases h with
  | same =>
    refine ⟨s, hs, rfl, fun c _ => ⟨rfl, ?_⟩⟩
    cases Simulated.move m₁ other c with
    | none => exact .none
    | some m' => exact .some .same
  | idle hown hrunning x =>
    by_cases hne : other = id
    · subst hne
      cases hs.symm.trans hown
      exact ⟨restated x s, Machine.seat_modify_of_some hs _, rfl, fun c _ =>
        ⟨visit?_restated hs x c, move_restated hs hrunning x c⟩⟩
    · have hs' := (Machine.seat_modify_of_ne m₁ (restated x) (Ne.symm hne)).trans hs
      refine ⟨s, hs', rfl, fun c hturn => ⟨visit?_of_seat hs hs' c, ?_⟩⟩
      rw [move_modified hne hs (.inl (restated_passive x))]
      cases hmove : Simulated.move m₁ other c with
      | none => exact .none
      | some m' =>
        have hmoves : Moves m₁ other m' := ⟨s, c, hs, hturn, hmove⟩
        have hidle : Has m₁ id (·.vcpu.blocked = false) := has_of_seat hown hrunning
        exact .some (.of_running hown (moves_becomes hmoves) (hidle.moves_elsewhere idle_keptByCalls hne hmoves) x)

theorem Alike.steps (h : Alike id m₁ m₂) {visit : Option (Visit σ)} (hsteps : Steps m₁ other visit m') :
    ∃ m₂', Steps m₂ other visit m₂' ∧ Alike id m' m₂' := by
  obtain ⟨s, c, hs, hturn, hvisit, hmove⟩ := hsteps
  obtain ⟨s', hs', hcontext, hboth⟩ := h.move hs
  obtain ⟨hvisit', hrel⟩ := hboth c hturn
  rw [hmove] at hrel
  generalize hmove' : Simulated.move m₂ other c = moved at hrel
  cases hrel with
  | some halike => exact ⟨_, ⟨s', c, hs', hcontext ▸ hturn, hvisit'.trans hvisit, hmove'⟩, halike⟩

/-! ### What others do -/

/-- A change of a seat that does not look at the state is made before or after an edit. -/
theorem modify_restated (target : Exit.VcpuId) {h : Seat σ (Context Unit) → Seat σ (Context Unit)} {x : Register.State}
    (hcomm : ∀ s, h (restated x s) = restated x (h s)) (m : State σ) :
    (m.modify id (restated x)).modify target h = (m.modify target h).modify id (restated x) := by
  by_cases hne : id = target
  · subst hne
    rw [Machine.modify_modify, Machine.modify_modify]
    exact congrArg (m.modify id) (funext hcomm)
  · exact Machine.modify_comm m hne ..

/-- An edit takes the place of the one before it. -/
theorem edit_restated (target : Exit.VcpuId) (f : Register.State → Register.State) (x : Register.State) (m : State σ) :
    ∃ y, ((m.modify id (restated x)).modifyVcpu target fun v => {v with state := f v.state}) =
      (m.modifyVcpu target fun v => {v with state := f v.state}).modify id (restated y) := by
  by_cases hne : id = target
  · subst hne
    refine ⟨f x, ?_⟩
    rw [Machine.modifyVcpu_eq, Machine.modifyVcpu_eq, Machine.modify_modify, Machine.modify_modify]
    rfl
  · refine ⟨x, ?_⟩
    rw [Machine.modifyVcpu_eq, Machine.modifyVcpu_eq]
    exact Machine.modify_comm m hne ..

theorem context_restated (target : Exit.VcpuId) (f : Context Unit → Context Unit) (x : Register.State) (m : State σ) :
    (m.modify id (restated x)).modifyContext target f = (m.modifyContext target f).modify id (restated x) := by
  rw [Machine.modifyContext_eq, Machine.modifyContext_eq]
  exact @modify_restated σ id target (fun s => {s with context := f s.context}) x (fun _ => rfl) m

theorem demand_restated (target : Exit.VcpuId) {step : Vcpu → Vcpu × Option Request} {x : Register.State}
    (hstep : ∀ s : Seat σ (Context Unit), demanded step (restated x s) = restated x (demanded step s)) (m : State σ) :
    hypervisor.demand step target (m.modify id (restated x)) = (hypervisor.demand step target m).modify id (restated x) := by
  rw [demand_eq, demand_eq]
  exact modify_restated target hstep m

theorem demandById_restated (target : Exit.VcpuId) {step : Vcpu → Vcpu × Option Request} {x : Register.State}
    (hstep : ∀ s : Seat σ (Context Unit), demanded step (restated x s) = restated x (demanded step s)) (m : State σ) :
    (hypervisor.demandById (fun _ => step) target (m.modify id (restated x))).2 =
      (hypervisor.demandById (fun _ => step) target m).2.modify id (restated x) := by
  by_cases hne : target = id
  · subst hne
    rw [demandById_passive (restated_passive x) hstep]
  · rw [demandById_modified hne]

theorem create_modified (hs : m.seats[id]? = some s) (g : Seat σ (Context Unit) → Seat σ (Context Unit))
    (handler : Handler σ) (memory : σ) : (Operation.create handler memory).apply (m.modify id g) =
      ((Operation.create handler memory).apply m).modify id g := by
  have hid : id < m.seats.length := (List.getElem?_eq_some_iff.mp hs).1
  have hcalls : (m.modify id g).HasRoom ↔ m.HasRoom := by rw [Machine.HasRoom, Machine.HasRoom, Machine.calls_modify]
  by_cases hroom : m.HasRoom
  · have hroom' := hcalls.mpr hroom
    have hlength : (m.modify id g).seats.length = m.seats.length := by rw [Machine.seats_modify, List.length_modify]
    rw [apply_create hroom, apply_create hroom', hlength, Machine.append_modify hid g _ hroom hroom']
    rfl
  · rw [Operation.apply, Operation.apply, if_neg hroom, if_neg (mt hcalls.mp hroom)]

/-- Others act on both machines alike. Only edits make a difference, for the edited state. -/
theorem act_restated (hs : m.seats[id]? = some s) (x : Register.State) (a : Act σ) :
    ∃ y, a.apply (m.modify id (restated x)) = (a.apply m).modify id (restated y) := by
  have hpassive := @restated_passive σ x
  cases a with
  | call target r =>
    cases r with
    | run => exact ⟨x, demand_restated target hpassive.run m⟩
    | pause => exact ⟨x, demand_restated target hpassive.pause m⟩
  | edit target f => exact edit_restated target f x m
  | operation o =>
    cases o with
    | create handler memory => exact ⟨x, create_modified hs _ handler memory⟩
    | run target => exact ⟨x, demandById_restated target hpassive.run m⟩
    | pause target => exact ⟨x, demandById_restated target hpassive.pause m⟩
    | edit target f =>
      show ∃ y, ((m.modify id (restated x)).editState target f).2 = (m.editState target f).2.modify id (restated y)
      have hfind : (((m.modify id (restated x)).find? target).isSome) = (m.find? target).isSome := by
        by_cases hne : id = target
        · subst hne
          rw [find?_modify hpassive.registered, Option.isSome_map]
        · rw [find?_modify_of_ne hne]
      rw [Machine.editState, Machine.editState, Machine.resolve?_eq, Machine.resolve?_eq]
      cases hfound : m.find? target with
      | none =>
        rw [hfound, Option.isSome_none, Option.isSome_eq_false_iff, Option.isNone_iff_eq_none] at hfind
        rw [hfind]
        exact ⟨x, rfl⟩
      | some _ =>
        rw [hfound, Option.isSome_some] at hfind
        obtain ⟨_, hfound'⟩ := Option.isSome_iff_exists.mp hfind
        rw [hfound']
        exact edit_restated target f x m
    | shutdown =>
      exact ⟨x, congrArg Prod.snd (destroyAll_passive hpassive m.owned {m with owned := []})⟩
    | launch target => exact ⟨x, context_restated target Context.launch x m⟩
    | inject target r => exact ⟨x, context_restated target (·.inject r) x m⟩
    | forceExit target => exact ⟨x, context_restated target Context.requestRecall x m⟩
    | setRegisters target f => exact ⟨x, context_restated target (fun c => {c with registers := f c.registers}) x m⟩
    | setUnits target f => exact ⟨x, context_restated target (Context.mapUnits f) x m⟩
    | takeOutcome target => exact ⟨x, context_restated target (fun c => c.takeOutcome.2) x m⟩

theorem Has.idle_act (h : Has m id (·.vcpu.blocked = false)) (hs : m.seats[id]? = some s) (a : Act σ) :
    Has (a.apply m) id (·.vcpu.blocked = false) := by
  have hsame : ∀ s s' : Seat σ (Context Unit), untouched s' = untouched s → s.vcpu.blocked = false → s'.vcpu.blocked = false :=
    fun s s' hsame hs => (congrArg (·.vcpu.blocked) hsame).trans hs
  cases a with
  | call target r =>
    refine h.demand fun _ s hs => ?_
    cases r with
    | run => exact idle_keptByCalls.run (fun hfalse => hfalse) hs
    | pause => exact idle_keptByCalls.pause false hs
  | edit target f =>
    rw [Act.apply, Machine.modifyVcpu_eq]
    exact h.modify fun _ _ hs => hs
  | operation o =>
    by_cases hforce : o = .forceExit id
    · subst hforce
      rw [Act.apply, Operation.apply, Machine.modifyContext_eq]
      exact h.modify fun _ _ hs => hs
    · refine h.apply idle_keptByCalls hsame o (fun hnone => ?_) (fun _ s' hs' => h s' hs') (fun _ _ _ hs => hs) hforce
      cases hs.symm.trans hnone

theorem Alike.act (h : Alike id m₁ m₂) (a : Act σ) : Alike id (a.apply m₁) (a.apply m₂) := by
  cases h with
  | same => exact .same
  | idle hs hrunning x =>
    obtain ⟨y, hy⟩ := act_restated hs x a
    have hidle : Has m₁ id (·.vcpu.blocked = false) := has_of_seat hs hrunning
    rw [hy]
    exact .of_running hs (a.apply_becomes m₁) (hidle.idle_act hs a) y

/-- Whatever happens to one machine can happen to the other, with the same visits. -/
theorem Alike.happens (h : Alike id m₁ m₂) {events : List (Event σ)} (hm : Happens m₁ events m) :
    ∃ m', Happens m₂ events m' ∧ Alike id m m' := by
  induction hm with
  | refl => exact ⟨m₂, .refl, h⟩
  | act _ a ih =>
    obtain ⟨m', hm', halike⟩ := ih
    exact ⟨_, hm'.act a, halike.act a⟩
  | step _ hstep ih =>
    obtain ⟨m', hm', halike⟩ := ih
    obtain ⟨m'', hstep', halike'⟩ := halike.steps hstep
    exact ⟨m'', hm'.step hstep', halike'⟩

/-! ### Machines that are driven -/

/-- What is found first is alike, if all that can be found is. -/
theorem findSome?_rel {α β : Type} {R : β → β → Prop} {f g : α → Option β} {l : List α}
    (h : ∀ a ∈ l, Option.Rel R (f a) (g a)) : Option.Rel R (l.findSome? f) (l.findSome? g) := by
  induction l with
  | nil => exact .none
  | cons a l ih =>
    have hfirst := h a (List.mem_cons_self ..)
    have hrest := ih fun b hb => h b (List.mem_cons_of_mem a hb)
    rw [List.findSome?_cons, List.findSome?_cons]
    generalize f a = x at hfirst
    generalize g a = y at hfirst
    cases hfirst with
    | none => exact hrest
    | some hab => exact .some hab

theorem Alike.length (h : Alike id m₁ m₂) : m₂.seats.length = m₁.seats.length := by
  cases h with
  | same => rfl
  | idle hs hrunning x => rw [Machine.seats_modify, List.length_modify]

theorem Alike.advance (h : Alike id m₁ m₂) (other : Exit.VcpuId) :
    Option.Rel (Alike id) (advance m₁ other) (advance m₂ other) := by
  cases hs : m₁.seats[other]? with
  | none =>
    have hs' : m₂.seats[other]? = none := by
      rw [List.getElem?_eq_none_iff, h.length]
      exact List.getElem?_eq_none_iff.mp hs
    rw [Simulated.advance, Simulated.advance, Machine.context?_eq, Machine.context?_eq, hs, hs']
    exact .none
  | some s =>
    obtain ⟨s', hs', hcontext, hboth⟩ := h.move hs
    rw [advance_eq hs, advance_eq hs', hcontext]
    exact findSome?_rel fun c hturn => (hboth c hturn).2

theorem Alike.settle (h : Alike id m₁ m₂) (steps : Nat) : Alike id (settle steps m₁) (settle steps m₂) := by
  induction steps generalizing m₁ m₂ with
  | zero => exact h
  | succ steps ih =>
    have hids : m₂.tables.contexts.map Prod.fst = m₁.tables.contexts.map Prod.fst := by
      rw [m₁.contexts_fst, m₂.contexts_fst, h.length]
    have hnext : Option.Rel (Alike id) ((m₁.tables.contexts.map Prod.fst).findSome? (Simulated.advance m₁))
        ((m₂.tables.contexts.map Prod.fst).findSome? (Simulated.advance m₂)) := by
      rw [hids]
      exact findSome?_rel fun other _ => h.advance other
    unfold Simulated.settle
    generalize (m₁.tables.contexts.map Prod.fst).findSome? (Simulated.advance m₁) = x at hnext
    generalize (m₂.tables.contexts.map Prod.fst).findSome? (Simulated.advance m₂) = y at hnext
    cases hnext with
    | none => exact h
    | some halike => exact ih halike

/-- Others act, and after each act the machine takes steps until nothing moves, but at most
so many. -/
def drive (steps : Nat) (m : State σ) (acts : List (Act σ)) : State σ :=
  acts.foldl (fun m a => settle steps (a.apply m)) m

theorem drive_becomes (steps : Nat) (acts : List (Act σ)) (m : State σ) : Becomes m (drive steps m acts) := by
  induction acts generalizing m with
  | nil => exact (Spares.refl m).becomes
  | cons a acts ih =>
    have hact := a.apply_becomes m
    have hsettled := leads_becomes (leads_settle steps (a.apply m))
    exact fun id => ((hact id).trans (hsettled id)).trans (ih _ id)

theorem Alike.drive (h : Alike id m₁ m₂) (steps : Nat) (acts : List (Act σ)) :
    Alike id (drive steps m₁ acts) (drive steps m₂ acts) := by
  induction acts generalizing m₁ m₂ with
  | nil => exact h
  | cons a acts ih => exact ih ((h.act a).settle steps)

/-! ### Edits of a running vCPU -/

/-- Two machines are the same, but for the state of a vCPU, and that only while it runs. -/
structure Agree (id : Exit.VcpuId) (m₁ m₂ : State σ) : Prop where
  others : ∀ other : Nat, other ≠ id → m₂.seats[other]? = m₁.seats[other]?
  own : ∃ t₁ t₂, m₁.seats[id]? = some t₁ ∧ m₂.seats[id]? = some t₂ ∧ t₂ = restated t₂.vcpu.state t₁ ∧
    (t₁.vcpu.blocked = true → t₂ = t₁)
  calls : m₂.calls = m₁.calls
  owned : m₂.owned = m₁.owned

theorem Alike.agree (h : Alike id m₁ m₂) (hs : m₁.seats[id]? = some s) : Agree id m₁ m₂ := by
  cases h with
  | same => exact ⟨fun _ _ => rfl, ⟨s, s, hs, hs, rfl, fun _ => rfl⟩, rfl, rfl⟩
  | idle hown hrunning x =>
    cases hs.symm.trans hown
    refine ⟨fun other hne => Machine.seat_modify_of_ne m₁ _ hne.symm, ?_, Machine.calls_modify .., rfl⟩
    exact ⟨s, restated x s, hs, Machine.seat_modify_of_some hs _, rfl, fun hblocked => by cases hblocked.symm.trans hrunning⟩

/-- **Edits of a running vCPU's state never reach the guest.** Whatever controllers leave in
the state of a vCPU that runs, the machine goes on in the same way: all that can happen
after the one edit can happen after the other, with the same visits to handlers on the same
states, and leaves the same registers, units, logs and memories; and so it is when the
machine is driven by a list of acts. The states differ only until the vCPU blocks. -/
theorem idle_edits_unseen (hs : m.seats[id]? = some s) (hrunning : s.vcpu.blocked = false) (x y : Register.State) :
    (∀ events m₁, Happens ((Act.edit id fun _ => x).apply m) events m₁ →
      ∃ m₂, Happens ((Act.edit id fun _ => y).apply m) events m₂ ∧ Agree id m₁ m₂) ∧
    ∀ steps acts, Agree id (drive steps ((Act.edit id fun _ => x).apply m) acts)
      (drive steps ((Act.edit id fun _ => y).apply m) acts) := by
  have hedit : ∀ z, (Act.edit id fun _ => z).apply m = m.modify id (restated z) := fun z => Machine.modifyVcpu_eq ..
  have hedited : ((Act.edit id fun _ => x).apply m).seats[id]? = some (restated x s) := by
    rw [hedit, Machine.seat_modify_of_some hs]
  have halike : Alike id ((Act.edit id fun _ => x).apply m) ((Act.edit id fun _ => y).apply m) := by
    have hboth : (Act.edit id fun _ => y).apply m = ((Act.edit id fun _ => x).apply m).modify id (restated y) := by
      rw [hedit, hedit, Machine.modify_modify]
      rfl
    rw [hboth]
    exact .idle hedited hrunning y
  constructor
  · intro events m₁ hevents
    obtain ⟨m₂, hevents', halike'⟩ := halike.happens hevents
    obtain ⟨t, ht, _⟩ := hevents.becomes.seat hedited
    exact ⟨m₂, hevents', halike'.agree ht⟩
  · intro steps acts
    obtain ⟨t, ht, _⟩ := (drive_becomes steps acts _).seat hedited
    exact (halike.drive steps acts).agree ht

end Alike

/-- The machine of a vCPU that its handler runs at every exit but a recall. -/
def runningOn : State Unit := settle 3 (calling [.run])

theorem idle_edits_unseen_charged : ∃ s, runningOn.seats[0]? = some s ∧ s.vcpu.blocked = false ∧
    ∀ acts, Agree 0 (drive 5 ((Act.edit 0 fun _ => State.charge {} .general ⟨1, 2, 3, 4⟩).apply runningOn) acts)
      (drive 5 ((Act.edit 0 fun _ => {reason := 10}).apply runningOn) acts) := by
  have hrunning : (runningOn.seats[0]?).any (!·.vcpu.blocked) = true := by decide +kernel
  obtain ⟨s, hs, hblocked⟩ := (Option.any_eq_true _ _).mp hrunning
  rw [Bool.not_eq_true'] at hblocked
  exact ⟨s, hs, hblocked, (idle_edits_unseen hs hblocked _ _).2 5⟩

end GuestMachine.Simulated
