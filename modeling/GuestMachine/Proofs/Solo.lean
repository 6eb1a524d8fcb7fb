import GuestMachine.Proofs.InUse
import GuestMachine.Simulated.Solo

/-! A simulated vCPU by itself.

The hypervisor without a machine delivers exits as the one under a machine does, and only
what its portals lead to is different. Every exit that is delivered is one call of an entry,
with the badge of the vCPU (`run_visited`). A vCPU of a machine whose handler edits the state
and lets the guest go on is, to its guest, such a vCPU: its loops take the same steps, with the
entry that gives the same answers behind each portal (`run_agrees`). -/
namespace GuestMachine

variable {ε ε' : Type}

/-! ### Contexts with other entries -/

/-- The same portals, with other entries. -/
def Exit.Portals.withEntries (g : ε → ε') (ps : Exit.Portals ε) : Exit.Portals ε' where
  own r := (ps.own r).map fun p => ⟨p.mask, g p.entry⟩
  catchAll := ps.catchAll.map fun p => ⟨p.mask, g p.entry⟩

theorem Exit.Portals.route?_withEntries (g : ε → ε') (ps : Exit.Portals ε) (r : Exit.Reason) :
    (ps.withEntries g).route? r = (ps.route? r).map fun p => ⟨p.mask, g p.entry⟩ := by
  show ((ps.own r).map _).or (ps.catchAll.map _) = ((ps.own r).or ps.catchAll).map _
  cases ps.own r with
  | none => rfl
  | some p => rfl

namespace Simulated
open Register

namespace Context
variable (g : ε → ε') (c : Context ε)

/-- The same context, with other entries behind its portals. -/
def withEntries : Context ε' :=
  { portals := c.portals.withEntries g, registers := c.registers, loop := c.loop, others := c.others, queue := c.queue
    recallPending := c.recallPending, stop := c.stop, log := c.log, stopped := c.stopped, outcome := c.outcome
    joinable := c.joinable, crashed := c.crashed }

/-! What a loop does next does not depend on the entries. -/

theorem next?_withEntries : (c.withEntries g).next? = c.next?.map fun x => (x.1, x.2.withEntries g) := by
  rw [next?, next?, show (c.withEntries g).loop.phase = c.loop.phase from rfl]
  cases c.loop.phase with
  | off => rfl
  | waiting f => rfl
  | starting => rfl
  | ready =>
    dsimp only
    rw [show (c.withEntries g).stop = c.stop from rfl, show (c.withEntries g).recallPending = c.recallPending from rfl,
      show (c.withEntries g).queue = c.queue from rfl]
    split
    · rfl
    split
    · rfl
    cases c.queue with
    | nil => rfl
    | cons r rest => rfl

theorem pass_withEntries : (c.withEntries g).pass = c.pass.withEntries g := by
  rw [pass, pass, show (c.withEntries g).others = c.others from rfl]
  cases c.others with
  | nil => rfl
  | cons l rest => rfl

theorem passes_withEntries (n : Nat) : passes n (c.withEntries g) = (passes n c).map (withEntries g) := by
  induction n generalizing c with
  | zero => rfl
  | succ n ih =>
    rw [passes, passes, pass_withEntries, ih]
    rfl

theorem turns_withEntries : (c.withEntries g).turns = c.turns.map (withEntries g) := passes_withEntries g c _

theorem answer_withEntries (f : Frame) : (c.withEntries g).answer f = (c.answer f).withEntries g := by
  rw [answer, answer, ← pass_withEntries]
  rfl

theorem finish_withEntries (r : Except Error Unit) : (c.withEntries g).finish r = (c.finish r).withEntries g := by
  rw [finish, finish, ← pass_withEntries]
  rfl

end Context

namespace Solo

/-! ### Exits and calls -/

/-- An entry at work on a context. -/
def Entry.touched (e : Entry) (c : Context Entry) : Context Entry :=
  { c with
    loop := {c.loop with fpu := (e.touchFpu c.loop.fpu).1}
    recallPending := c.recallPending || e.recalls }

section Moves
variable {id : Exit.VcpuId} {cell cell' : Cell} {c c' : Context Entry} {r : Exit.Reason}

theorem deliver_eq {p : Exit.Portal Entry} (hp : c.portals.route? r = some p) :
    c.deliver (fun f cell => cell.modifyContext f) Entry.enter id r true cell =
      { context := (p.entry.touched (c.recorded r p.mask true)).conclude (p.entry.ending (c.filled r p.mask))
        visits := cell.visits ++ [⟨.make id r, c.filled r p.mask, (p.entry.touchFpu c.loop.fpu).2⟩] } := by
  rw [Context.deliver, Context.deliver?_of_route hp]
  rfl

/-- The end of a loop, an exit that is dropped, or the call of an entry. -/
theorem move_cases (h : move id cell c = some cell') :
    (∃ c', c.next? = some (none, c') ∧ cell' = {cell with context := c'.finish (.ok ())}) ∨
      (∃ r c', c.next? = some (some r, c') ∧ c'.portals.route? r = none ∧ cell' = {cell with context := c'}) ∨
      ∃ r c' p, c.next? = some (some r, c') ∧ c'.portals.route? r = some p ∧
        cell' =
          { context := (p.entry.touched (c'.recorded r p.mask true)).conclude (p.entry.ending (c'.filled r p.mask))
            visits := cell.visits ++ [⟨.make id r, c'.filled r p.mask, (p.entry.touchFpu c'.loop.fpu).2⟩] } := by
  obtain ⟨⟨next, c'⟩, hnext, rfl⟩ := Option.map_eq_some_iff.mp h
  cases next with
  | none => exact .inl ⟨c', hnext, rfl⟩
  | some r =>
    cases hp : c'.portals.route? r with
    | none =>
      refine .inr (.inl ⟨r, c', hnext, hp, ?_⟩)
      dsimp only
      rw [Context.deliver, Context.deliver?, hp]
      rfl
    | some p =>
      exact .inr (.inr ⟨r, c', p, hnext, hp, deliver_eq hp⟩)

/-- The exits of a context, with what their portals filled in. -/
def exits (c : Context Entry) : List (Exit.Reason × Mask) := c.log.map fun d => (d.reason, d.delivered)

/-- Every exit is one call of an entry, with the badge of the vCPU and the groups that the portal
filled in. -/
def Visited (id : Exit.VcpuId) (cell : Cell) : Prop :=
  cell.visits.map (fun v => (v.badge, v.frame.mask)) =
    (exits cell.context).map fun x => (Exit.Badge.make id x.1, x.2)

/-- A conclusion changes replies only. -/
theorem exits_conclude (c : Context Entry) (a : Exit.Answer) : exits (c.conclude a) = exits c := by
  cases a with
  | returned r f =>
    cases r with
    | ok _ =>
      rw [exits, show (c.conclude (.returned (.ok _) f)).log = _ from c.answer_log f]
      refine Tables.map_modify_of_eq ?_ c.log c.loop.place
      exact fun _ => rfl
    | error e => exact congrArg (List.map _) (Context.pass_log _)
  | waiting f => exact congrArg (List.map _) (Context.pass_log _)
  | died => exact congrArg (List.map _) (Context.pass_log _)

theorem move_visited (hc : c ∈ cell.context.turns) (hmove : move id cell c = some cell') (h : Visited id cell) :
    Visited id cell' := by
  have hturn : exits c = exits cell.context := by
    rw [exits, show c.log = cell.context.log from congrArg (·.log) (Context.turn_unlooped hc)]
    rfl
  have hnext : ∀ {next c'}, c.next? = some (next, c') → exits c' = exits cell.context := by
    intro next c' hnext
    rw [← hturn, exits, show c'.log = c.log from congrArg (·.log) (Context.next?_steady hnext)]
    rfl
  rcases move_cases hmove with ⟨c', h', rfl⟩ | ⟨r, c', h', _, rfl⟩ | ⟨r, c', p, h', _, rfl⟩
  · have hfinish : exits (c'.finish (.ok ())) = exits c' := congrArg (List.map _) (Context.pass_log _)
    rw [Visited, hfinish, hnext h']
    exact h
  · rw [Visited, hnext h']
    exact h
  · have hadded : exits (p.entry.touched (c'.recorded r p.mask true)) = exits cell.context ++ [(r, p.mask)] := by
      rw [← hnext h']
      exact List.map_append
    rw [Visited, exits_conclude, hadded, List.map_append, List.map_append, show List.map _ cell.visits = _ from h]
    rfl

theorem advance_visited (hadvance : advance id cell = some cell') (h : Visited id cell) : Visited id cell' := by
  obtain ⟨c, hc, hmove⟩ := List.exists_of_findSome?_eq_some hadvance
  exact move_visited hc hmove h

/-- **Every exit that is delivered is one call of an entry.** The calls are in the order of the
log, each with the badge of the vCPU and the frame of its exit. -/
theorem run_visited (steps : Nat) (h : Visited id cell) : Visited id (run id steps cell) := by
  induction steps generalizing cell with
  | zero => exact h
  | succ steps ih =>
    rw [run]
    cases hadvance : advance id cell with
    | none => exact h
    | some cell' => exact ih (advance_visited hadvance h)

end Moves

end Solo

/-! ### A handler that edits the state -/

/-- A handler that edits the state and lets its vCPU go on. -/
def editor (interest : Exit.Interest) (g : Register.State → Register.State) : Handler Unit where
  interest
  handle _ s := .call .run fun _ => .done () (g s) none

namespace Solo

/-- The entry that answers as the edit of a state does. -/
def Entry.ofEdit (g : Register.State → Register.State) : Entry where
  change f := ((g (State.load {} f {}).1).store f {}).1

theorem Entry.touched_ofEdit (g : Register.State → Register.State) (c : Context Entry) :
    (Entry.ofEdit g).touched c = c := by
  simp [Entry.touched, Entry.touchFpu, ofEdit]

end Solo

/-- What a load takes over of the groups in a frame does not depend on what was there before. -/
theorem load_buffered (s : Register.State) {f : Frame} (hf : f.mask.has fpuBit = false) (u : Fpu) :
    s.load f u = ((State.load {} f {}).1, u) := by
  simp [State.load, hf, State.discharged]

theorem load_buffered_fst (s : Register.State) {f : Frame} (hf : f.mask.has fpuBit = false) (u : Fpu) :
    (s.load f u).1 = (State.load {} f {}).1 := by
  rw [load_buffered s hf u]

theorem load_buffered_fpu (s : Register.State) {f : Frame} (hf : f.mask.has fpuBit = false) (u : Fpu) :
    (s.load f u).1.fpu = .empty := by
  simp [State.load, hf, State.discharged, State.fpu_charges]

theorem store_buffered {s : Register.State} (hs : s.fpu = .empty) (f : Frame) (u : Fpu) :
    s.store f u = ((s.store f {}).1, u) := by
  simp [State.store, hs, Charged.empty]

/-- An edit that leaves the unit alone, for exits that do not carry it. -/
structure Buffered (interest : Exit.Interest) (g : Register.State → Register.State) : Prop where
  masks : ∀ r, (Exit.portalMask (interest r)).has fpuBit = false
  edit : ∀ s, s.fpu = .empty → (g s).fpu = .empty

/-- A context in which no exit waits. -/
def Context.Moving (c : Context ε) : Prop := ∀ l ∈ c.line, ∀ f, l.phase ≠ .waiting f

namespace Context
variable {c c' : Context ε}

theorem pass_portals (c : Context ε) : c.pass.portals = c.portals := congrArg (·.portals) (pass_unlooped c)

theorem answer_portals (c : Context ε) (f : Frame) : (c.answer f).portals = c.portals := pass_portals _

theorem finish_portals (c : Context ε) (r : Except Error Unit) : (c.finish r).portals = c.portals := pass_portals _

namespace Moving

theorem pass (h : c.Moving) : c.pass.Moving := fun l hl => h l (mem_line_pass hl)

/-- The loop whose turn it is may be anywhere but in a wait. -/
theorem of_loop (h : c.Moving) (hothers : c'.others = c.others) (hloop : ∀ f, c'.loop.phase ≠ .waiting f) :
    c'.Moving := by
  intro l hl
  rcases List.mem_cons.mp hl with rfl | hl
  · exact hloop
  · exact h l (List.mem_cons_of_mem _ (hothers ▸ hl))

theorem answer (h : c.Moving) {f : Frame} : (c.answer f).Moving :=
  pass (h.of_loop rfl fun f hf => by cases hf)

theorem finish (h : c.Moving) {r : Except Error Unit} : (c.finish r).Moving :=
  pass (h.of_loop rfl fun f hf => by cases hf)

theorem recorded (h : c.Moving) {r : Exit.Reason} {mask : Mask} {routed : Bool} : (c.recorded r mask routed).Moving :=
  h.of_loop rfl (h c.loop (List.mem_cons_self ..))

theorem next (h : c.Moving) {next : Option Exit.Reason} (hnext : c.next? = some (next, c')) : c'.Moving := by
  refine h.of_loop (congrArg (·.others) (next?_steady hnext)) fun f hf => ?_
  rw [next?_ready hnext] at hf
  cases hf

end Moving

end Context

/-- A registered vCPU that an editing handler lets go on. -/
structure Editing (interest : Exit.Interest) (g : Register.State → Register.State) (s : Seat Unit (Context Unit)) :
    Prop where
  handler : s.handler = editor interest g
  registered : s.registered = true
  request : s.vcpu.request = none
  served : Served interest s.context.portals
  moving : s.context.Moving

section Editor
variable {interest : Exit.Interest} {g : Register.State → Register.State} {m : State Unit} {id : Exit.VcpuId}
  {s : Seat Unit (Context Unit)} {c c' : Context Unit} {r : Exit.Reason}

/-- The handler lets its vCPU go on, and leaves the edited state. -/
theorem work_edited (h : s.handler = editor interest g) (id : Exit.VcpuId) (r : Exit.Reason) (c : Context Unit)
    (m : State Unit) : work id r c s m =
      (⟨(), g (atWork r c s).vcpu.state, none⟩, m.modify id fun _ => unblocked (atWork r c s)) := by
  have hstarted : (atWork r c s).vcpu.started = true := taken_started r s.vcpu
  rw [work, h]
  refine Prod.ext rfl ?_
  show hypervisor.demand (Vcpu.run true) id _ = _
  rw [demand_eq, Machine.modify_modify]
  exact congrArg (m.modify id) (funext fun _ => demanded_own hstarted)

theorem atWork_state (r : Exit.Reason) (c : Context Unit) (s : Seat Unit (Context Unit)) : (atWork r c s).vcpu.state =
    ((taken r s.vcpu).state.load (c.filled r (Exit.portalMask (s.handler.interest r))) c.loop.fpu).1 := rfl

/-- Without the unit, taking an exit changes the vCPU only. -/
theorem atWork_context (hf : (Exit.portalMask (s.handler.interest r)).has fpuBit = false) :
    (atWork r c s).context = c.recorded r (Exit.portalMask (s.handler.interest r)) true := by
  have hunit := load_buffered (f := c.filled r (Exit.portalMask (s.handler.interest r))) (taken r s.vcpu).state hf
    (c.recorded r (Exit.portalMask (s.handler.interest r)) true).loop.fpu
  show ({c.recorded r _ true with
    loop := {(c.recorded r _ true).loop with fpu := (State.load _ _ _).2}} : Context Unit) = _
  rw [hunit]

/-- The loop goes on with what the entry makes of the frame. -/
theorem deliver_edited (hg : Buffered interest g) (h : Editing interest g s) (hs : m.seats[id]? = some s)
    (hserved : Served interest c.portals) (r : Exit.Reason) :
    ∃ t, deliver id r c m = m.modify id (fun _ => t) ∧ t.handler = s.handler ∧ t.registered = true ∧
      t.vcpu.request = none ∧ t.context = (c.recorded r (Exit.portalMask (interest r)) true).answer
        ((Solo.Entry.ofEdit g).change (c.filled r (Exit.portalMask (interest r)))) := by
  have hinterest : s.handler.interest = interest := congrArg (·.interest) h.handler
  have hmask := hg.masks r
  rw [← hinterest] at hserved hmask ⊢
  have hcall : ¬(r = .recalled ∧ s.vcpu.request = some .run) := by
    rw [h.request]
    exact fun hcall => by cases hcall.2
  have hleft : (taken r s.vcpu).request = none := by
    rw [taken]
    split
    · rfl
    · exact h.request
  have hload : (atWork r c s).vcpu.state =
      (State.load {} (c.filled r (Exit.portalMask (s.handler.interest r))) {}).1 := by
    rw [atWork_state, load_buffered_fst (f := c.filled r (Exit.portalMask (s.handler.interest r))) _ hmask]
  have hempty : (g (atWork r c s).vcpu.state).fpu = .empty := by
    rw [hload]
    exact hg.edit _ (load_buffered_fpu (f := c.filled r (Exit.portalMask (s.handler.interest r))) {} hmask {})
  rw [deliver_work hserved hs h.registered hcall, work_edited h.handler, Machine.modify_modify]
  refine ⟨concluded id r (c.filled r (Exit.portalMask (s.handler.interest r))) ⟨(), g (atWork r c s).vcpu.state, none⟩
    (unblocked (atWork r c s)), rfl, ?_⟩
  rw [concluded_answered id r _ rfl rfl]
  refine ⟨rfl, h.registered, hleft, ?_⟩
  dsimp only
  rw [store_buffered hempty, hload, show (unblocked (atWork r c s)).context = _ from atWork_context hmask]
  rfl

theorem move_of_rest (hphase : ∀ f, c.loop.phase ≠ .waiting f) (h : c.next? = none) : move m id c = none := by
  unfold move
  split
  next f hf => exact absurd hf (hphase f)
  next => rw [h]; rfl

theorem move_of_end (h : c.next? = some (none, c')) :
    move m id c = some (m.modifyContext id fun _ => c'.finish (.ok ())) := by
  unfold move
  split
  next f hf =>
    rw [Context.next?, hf] at h
    cases h
  next => rw [h]; rfl

/-- The vCPU of a machine and one by itself, whose portals lead to the entry of the same edit. -/
def Mirrors (interest : Exit.Interest) (g : Register.State → Register.State) (id : Exit.VcpuId) (m : State Unit)
    (cell : Solo.Cell) : Prop :=
  ∃ s, m.seats[id]? = some s ∧ Editing interest g s ∧ cell.context = s.context.withEntries fun _ => Solo.Entry.ofEdit g

theorem move_mirrors (hg : Buffered interest g) {cell : Solo.Cell} (h : Editing interest g s)
    (hs : m.seats[id]? = some s) (hc : c ∈ s.context.turns) :
    Option.Rel (Mirrors interest g id) (move m id c)
      (Solo.move id cell (c.withEntries fun _ => Solo.Entry.ofEdit g)) := by
  have hmoving : c.Moving := fun l hl => h.moving l (Context.mem_line_of_turn hc hl)
  rw [Solo.move, Context.next?_withEntries, Option.map_map]
  cases hnext : c.next? with
  | none =>
    rw [move_of_rest (hmoving c.loop (List.mem_cons_self ..)) hnext]
    exact .none
  | some x =>
    obtain ⟨next, c'⟩ := x
    have hportals : c'.portals = s.context.portals :=
      (congrArg (·.portals) (Context.next?_steady hnext)).trans (congrArg (·.portals) (Context.turn_unlooped hc))
    have hserved : Served interest c'.portals := hportals ▸ h.served
    have hmoving' := hmoving.next hnext
    cases next with
    | none =>
      rw [move_of_end hnext]
      refine .some ⟨{s with context := c'.finish (.ok ())}, seat_modifyContext hs _,
        ⟨h.handler, h.registered, h.request, ?_, ?_⟩, Context.finish_withEntries _ c' _⟩
      · show Served interest (c'.finish (.ok ())).portals
        rw [Context.finish_portals]
        exact hserved
      · exact hmoving'.finish
    | some r =>
      obtain ⟨t, hdeliver, hhandler, hregistered, hrequest, hcontext⟩ := deliver_edited hg h hs hserved r
      have hp : (c'.withEntries fun _ => Solo.Entry.ofEdit g).portals.route? r =
          some ⟨Exit.portalMask (interest r), Solo.Entry.ofEdit g⟩ := by
        rw [Context.withEntries, Exit.Portals.route?_withEntries, hserved r]
        rfl
      rw [move_of_next? hnext]
      refine .some ⟨t, ?_, ⟨hhandler.trans h.handler, hregistered, hrequest, ?_, ?_⟩, ?_⟩
      · rw [hdeliver]
        exact Machine.seat_modify_of_some hs _
      · rw [hcontext, Context.answer_portals]
        exact hserved
      · exact hcontext ▸ hmoving'.recorded.answer
      · show (Context.deliver (fun f cell => Solo.Cell.modifyContext cell f) Solo.Entry.enter id r true
          (c'.withEntries fun _ => Solo.Entry.ofEdit g) cell).context = _
        rw [Solo.deliver_eq hp, Solo.Entry.touched_ofEdit, hcontext, ← Context.answer_withEntries]
        rfl

/-- The first loop that can move is the same for both. -/
theorem advance_mirrors (hg : Buffered interest g) {cell : Solo.Cell} (h : Mirrors interest g id m cell) :
    Option.Rel (Mirrors interest g id) (advance m id) (Solo.advance id cell) := by
  obtain ⟨s, hs, hediting, hcell⟩ := h
  rw [advance_eq hs, Solo.advance, hcell, Context.turns_withEntries]
  have hturns : ∀ c ∈ s.context.turns, Option.Rel (Mirrors interest g id) (move m id c)
      (Solo.move id cell (c.withEntries fun _ => Solo.Entry.ofEdit g)) := fun c hc => move_mirrors hg hediting hs hc
  generalize s.context.turns = turns at hturns
  induction turns with
  | nil => exact .none
  | cons c rest ih =>
    have hfirst := hturns c (List.mem_cons_self ..)
    rw [List.map_cons, List.findSome?_cons, List.findSome?_cons]
    generalize move m id c = moved at hfirst
    generalize Solo.move id cell (c.withEntries fun _ => Solo.Entry.ofEdit g) = moved' at hfirst
    cases hfirst with
    | none => exact ih fun c hc => hturns c (List.mem_cons_of_mem _ hc)
    | some hmirrors => exact .some hmirrors

theorem rests_alike {R : State Unit → Solo.Cell → Prop} {moved : Option (State Unit)} {moved' : Option Solo.Cell}
    (h : Option.Rel R moved moved') : moved = none ↔ moved' = none := by
  cases h with
  | none => exact iff_of_true rfl rfl
  | some _ => exact iff_of_false (Option.some_ne_none _) (Option.some_ne_none _)

/-- **A vCPU by itself is one whose handler edits the state.** The loops of both take the same
steps: wherever the vCPU by itself comes to, that of the machine comes to, with the same
registers, log, queue and loops. It rests there if the other does. -/
theorem run_agrees (hg : Buffered interest g) {cell : Solo.Cell} (h : Mirrors interest g id m cell) (steps : Nat) :
    ∃ m', Reaches id m m' ∧ Mirrors interest g id m' (Solo.run id steps cell) ∧
      (advance m' id = none ↔ Solo.advance id (Solo.run id steps cell) = none) := by
  induction steps generalizing m cell with
  | zero => exact ⟨m, .refl, h, rests_alike (advance_mirrors hg h)⟩
  | succ steps ih =>
    have hadvance := advance_mirrors hg h
    rw [Solo.run]
    cases hsolo : Solo.advance id cell with
    | none => exact ⟨m, .refl, h, rests_alike hadvance⟩
    | some cell' =>
      rw [hsolo] at hadvance
      cases hmachine : advance m id with
      | none => rw [hmachine] at hadvance; cases hadvance
      | some m₁ =>
        rw [hmachine] at hadvance
        cases hadvance with
        | some hmirrors =>
          obtain ⟨m', hreaches, hlast⟩ := ih hmirrors
          exact ⟨m', .head (moves_of_advance hmachine) hreaches, hlast⟩

end Editor

end Simulated

end GuestMachine
