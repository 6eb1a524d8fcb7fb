import GuestMachine.Proofs.Calls
import GuestMachine.Proofs.Transfer
import Mathlib.Logic.Relation

/-! The steps of a simulated vCPU.

The loops of a context have their turns in a line: each of them comes first once, and all
else in the context stays as it is (`exists_turn`, `turn_unlooped`). A step is the end of
a wait, the end of a loop, or a delivery (`move_cases`); a delivery is dropped, refused,
answered by a request to run, or handled (`deliver_handled` and the lemmas before it). What
is not handled stays within the seat of the vCPU (`moves_cases`). -/
namespace GuestMachine.Simulated
open Register

variable {σ ε : Type}

/-! ### Turns -/

namespace Context

/-- The loops in the order of their turns. -/
def line (c : Context ε) : List Loop := c.loop :: c.others

/-- A context without its loops. -/
def unlooped (c : Context ε) : Context ε := {c with loop := {}, others := []}

theorem pass_unlooped (c : Context ε) : c.pass.unlooped = c.unlooped := by
  unfold pass
  split <;> rfl

theorem pass_registers (c : Context ε) : c.pass.registers = c.registers :=
  congrArg (·.registers) (pass_unlooped c)

theorem pass_log (c : Context ε) : c.pass.log = c.log := congrArg (·.log) (pass_unlooped c)

theorem pass_recallPending (c : Context ε) : c.pass.recallPending = c.recallPending :=
  congrArg (·.recallPending) (pass_unlooped c)

theorem answer_registers (c : Context ε) (f : Frame) :
    (c.answer f).registers = c.registers.copyGroups f f.mask := pass_registers _

theorem answer_log (c : Context ε) (f : Frame) :
    (c.answer f).log = c.log.modify c.loop.place fun d => {d with reply := some f.mask} := pass_log _

theorem mem_line_pass {c : Context ε} {l : Loop} (h : l ∈ c.pass.line) : l ∈ c.line := by
  unfold pass at h
  split at h
  next => exact h
  next first rest hothers =>
    rw [line, hothers]
    simp only [line] at h
    split at h
    · exact List.mem_cons_of_mem _ h
    · simp only [List.mem_cons, List.mem_append, List.not_mem_nil, or_false] at *
      rcases h with rfl | h | rfl
      · exact .inr (.inl rfl)
      · exact .inr (.inr h)
      · exact .inl rfl

theorem passes_unlooped {n : Nat} {c c' : Context ε} (h : c' ∈ passes n c) :
    c'.unlooped = c.unlooped ∧ ∀ l ∈ c'.line, l ∈ c.line := by
  induction n generalizing c with
  | zero =>
    obtain rfl := List.mem_singleton.mp h
    exact ⟨rfl, fun _ hl => hl⟩
  | succ n ih =>
    rcases List.mem_cons.mp h with rfl | h
    · exact ⟨rfl, fun _ hl => hl⟩
    · obtain ⟨hsame, hline⟩ := ih h
      exact ⟨hsame.trans (pass_unlooped c), fun l hl => mem_line_pass (hline l hl)⟩

/-- All but the loops is the same at every turn. -/
theorem turn_unlooped {c c' : Context ε} (h : c' ∈ c.turns) : c'.unlooped = c.unlooped :=
  (passes_unlooped h).1

theorem mem_line_of_turn {c c' : Context ε} (h : c' ∈ c.turns) {l : Loop} (hl : l ∈ c'.line) :
    l ∈ c.line := (passes_unlooped h).2 l hl

theorem exists_pass {n i : Nat} {c : Context ε} {l : Loop} (hi : i ≤ n) (hl : c.line[i]? = some l) :
    ∃ c' ∈ passes n c, c'.loop = l := by
  induction n generalizing c i with
  | zero =>
    obtain rfl := Nat.le_zero.mp hi
    exact ⟨c, List.mem_singleton.mpr rfl, Option.some.inj hl⟩
  | succ n ih =>
    cases i with
    | zero => exact ⟨c, List.mem_cons_self .., Option.some.inj hl⟩
    | succ i =>
      have hothers : c.others[i]? = some l := hl
      have hpass : c.pass.line[i]? = some l := by
        unfold pass
        split
        next hnil => rw [hnil] at hothers; cases hothers
        next first rest heq =>
          rw [heq] at hothers
          simp only [line]
          split
          · exact hothers
          · rw [← List.cons_append, List.getElem?_append_left (List.getElem?_eq_some_iff.mp hothers).1]
            exact hothers
      obtain ⟨c', hc', hloop⟩ := ih (Nat.le_of_succ_le_succ hi) hpass
      exact ⟨c', List.mem_cons_of_mem _ hc', hloop⟩

/-- Every loop has its turn. -/
theorem exists_turn {c : Context ε} {l : Loop} (h : l ∈ c.line) : ∃ c' ∈ c.turns, c'.loop = l := by
  obtain ⟨i, hi, hl⟩ := List.mem_iff_getElem.mp h
  exact exists_pass (Nat.le_of_lt_succ hi) (List.getElem?_eq_some_iff.mpr ⟨hi, hl⟩)

/-- The loop that has moved last: it is the last in the line, or the only one. -/
def latest (c : Context ε) : Loop := c.line.getLast (List.cons_ne_nil _ _)

theorem pass_latest {c : Context ε} (h : c.loop.phase ≠ .off) : c.pass.latest = c.loop := by
  unfold pass
  split
  next hothers => simp only [latest, line, hothers, List.getLast_singleton]
  next first rest hothers =>
    rw [if_neg h]
    exact @List.getLast_concat _ c.loop (first :: rest)

/-! ### What comes next -/

/-- What a loop does next takes from the context what is done, and moves on a loop that
starts. -/
theorem next?_cases {c c' : Context ε} {next : Option Exit.Reason} (h : c.next? = some (next, c')) :
    (c.loop.phase = .starting ∧ next = some .startup ∧ c' = c.enter .ready) ∨
      (c.loop.phase = .ready ∧
        ((c.stop = true ∧ next = none ∧ c' = c) ∨
          (c.stop = false ∧ c.recallPending = true ∧ next = some .recalled ∧
            c' = {c with recallPending := false}) ∨
          (c.stop = false ∧ c.recallPending = false ∧
            ∃ r rest, c.queue = r :: rest ∧ next = some r ∧ c' = {c with queue := rest}))) := by
  unfold next? at h
  split at h
  next => cases h
  next => cases h
  next hphase =>
    cases h
    exact .inl ⟨hphase, rfl, rfl⟩
  next hphase =>
    refine .inr ⟨hphase, ?_⟩
    split at h
    next hstop =>
      cases h
      exact .inl ⟨hstop, rfl, rfl⟩
    next hstop =>
      rw [Bool.not_eq_true] at hstop
      split at h
      next hrecall =>
        cases h
        exact .inr (.inl ⟨hstop, hrecall, rfl, rfl⟩)
      next hrecall =>
        rw [Bool.not_eq_true] at hrecall
        split at h
        next r rest hqueue =>
          cases h
          exact .inr (.inr ⟨hstop, hrecall, r, rest, hqueue, rfl, rfl⟩)
        next => cases h

/-- What is left of a context without what the next step of a loop takes. -/
def steady (c : Context ε) : Context ε :=
  {c with loop := {c.loop with phase := .off}, recallPending := false, queue := []}

theorem next?_steady {c c' : Context ε} {next : Option Exit.Reason} (h : c.next? = some (next, c')) :
    c'.steady = c.steady := by
  rcases next?_cases h with ⟨_, _, rfl⟩ | ⟨_, ⟨_, _, rfl⟩ | ⟨_, _, _, rfl⟩ | ⟨_, _, _, _, _, _, rfl⟩⟩
  · rfl
  · rfl
  · rfl
  · rfl

theorem next?_ready {c c' : Context ε} {next : Option Exit.Reason} (h : c.next? = some (next, c')) :
    c'.loop = {c.loop with phase := .ready} := by
  rcases next?_cases h with ⟨_, _, rfl⟩ | ⟨hphase, ⟨_, _, rfl⟩ | ⟨_, _, _, rfl⟩ | ⟨_, _, _, _, _, _, rfl⟩⟩
  · rfl
  all_goals exact hphase ▸ rfl

/-! ### Frames -/

/-- The frame that a portal with a mask fills for an exit. -/
def filled (c : Context ε) (r : Exit.Reason) (m : Mask) : Frame :=
  {(Frame.forExit r.raw).copyGroups c.registers m with mask := m}

/-- The context once an exit with a mask has been delivered. -/
def recorded (c : Context ε) (r : Exit.Reason) (m : Mask) (routed : Bool) : Context ε :=
  { c with
    log := c.log ++ [⟨r, m, none, routed⟩]
    loop := {c.loop with place := c.log.length} }

theorem deliver?_of_route {c : Context ε} {r : Exit.Reason} {p : Exit.Portal ε}
    (h : c.portals.route? r = some p) (routed : Bool) :
    c.deliver? r routed = some (p, c.filled r p.mask, c.recorded r p.mask routed) := by
  rw [deliver?, h]
  rfl

theorem filled_reason (c : Context ε) (r : Exit.Reason) (m : Mask) :
    Exit.Reason.ofRaw (c.filled r m).reason = r := UInt8.toUInt8_toUInt32 r

end Context

/-! ### Steps -/

/-- A loop of a vCPU makes a step, whichever of them it is. -/
def Moves (m : State σ) (id : Exit.VcpuId) (m' : State σ) : Prop :=
  ∃ s c, m.seats[id]? = some s ∧ c ∈ s.context.turns ∧ move m id c = some m'

/-- The steps of one vCPU lead from one state to the other. -/
def Reaches (id : Exit.VcpuId) : State σ → State σ → Prop := Relation.ReflTransGen fun m m' => Moves m id m'

theorem advance_eq {m : State σ} {id : Exit.VcpuId} {s : Seat σ (Context Unit)} (hs : m.seats[id]? = some s) :
    advance m id = s.context.turns.findSome? (move m id) := by
  rw [advance, Machine.context?_eq, hs]
  rfl

theorem moves_of_advance {m m' : State σ} {id : Exit.VcpuId} (h : advance m id = some m') :
    Moves m id m' := by
  rw [advance, Machine.context?_eq] at h
  cases hs : m.seats[id]? with
  | none => rw [hs] at h; cases h
  | some s =>
    rw [hs] at h
    obtain ⟨c, hc, hmove⟩ := List.exists_of_findSome?_eq_some h
    exact ⟨s, c, hs, hc, hmove⟩

/-- Nothing moves if no loop does. -/
theorem advance_eq_none_iff {m : State σ} {id : Exit.VcpuId} :
    advance m id = none ↔ ∀ m', ¬Moves m id m' := by
  cases hs : m.seats[id]? with
  | none =>
    refine iff_of_true ?_ ?_
    · rw [advance, Machine.context?_eq, hs]
      rfl
    · rintro m' ⟨s, c, hs', _⟩
      rw [hs] at hs'
      cases hs'
  | some s =>
    rw [advance_eq hs, List.findSome?_eq_none_iff]
    constructor
    · rintro h m' ⟨s', c, hs', hc, hmove⟩
      cases hs.symm.trans hs'
      rw [h c hc] at hmove
      cases hmove
    · intro h c hc
      cases hmove : move m id c with
      | none => rfl
      | some m' => exact absurd ⟨s, c, hs, hc, hmove⟩ (h m')

/-- A wait of a loop is one in the vCPU of the seat. -/
theorem move_waiting {m : State σ} {id : Exit.VcpuId} {s : Seat σ (Context Unit)} (hs : m.seats[id]? = some s)
    {c : Context Unit} {f : Frame} (hphase : c.loop.phase = .waiting f) :
    move m id c = s.vcpu.wake?.map fun x =>
      m.modify id fun _ => {s with vcpu := x.2, context := if x.1 then c.answer f else c} := by
  rw [move, hphase]
  dsimp only
  rw [Machine.vcpu?_eq, hs, Option.map_some, Option.bind_some]
  refine congrArg (fun g => Option.map g _) (funext fun x => ?_)
  rw [Machine.modifyVcpu_eq, Machine.modifyContext_eq, Machine.modify_modify]
  exact Machine.modify_congr hs rfl

/-- A loop makes three kinds of steps: it ends a wait or goes on waiting, it ends itself,
or it delivers an exit. -/
theorem move_cases {m m' : State σ} {id : Exit.VcpuId} {s : Seat σ (Context Unit)} {c : Context Unit}
    (hs : m.seats[id]? = some s) (h : move m id c = some m') :
    (∃ f ends v, c.loop.phase = .waiting f ∧ s.vcpu.wake? = some (ends, v) ∧
        m' = m.modify id fun _ => {s with vcpu := v, context := if ends then c.answer f else c}) ∨
      (∃ c', c.next? = some (none, c') ∧
        m' = m.modifyContext id fun _ => c'.finish (.ok ())) ∨
      ∃ r c', c.next? = some (some r, c') ∧ m' = deliver id r c' m := by
  cases hphase : c.loop.phase with
  | waiting f =>
    rw [move_waiting hs hphase] at h
    obtain ⟨⟨ends, v⟩, hwake, rfl⟩ := Option.map_eq_some_iff.mp h
    exact .inl ⟨f, ends, v, rfl, hwake, rfl⟩
  | off | starting | ready =>
    rw [move, hphase] at h
    obtain ⟨⟨next, c'⟩, hnext, rfl⟩ := Option.map_eq_some_iff.mp h
    cases next with
    | none => exact .inr (.inl ⟨c', hnext, rfl⟩)
    | some r => exact .inr (.inr ⟨r, c', hnext, rfl⟩)

theorem move_of_wake? {m : State σ} {id : Exit.VcpuId} {s : Seat σ (Context Unit)} (hs : m.seats[id]? = some s)
    {c : Context Unit} {f : Frame} {ends : Bool} {v : Vcpu} (hphase : c.loop.phase = .waiting f)
    (hwake : s.vcpu.wake? = some (ends, v)) :
    move m id c = some (m.modify id fun _ => {s with vcpu := v, context := if ends then c.answer f else c}) := by
  rw [move_waiting hs hphase, hwake, Option.map_some]

theorem move_of_next? {m : State σ} {id : Exit.VcpuId} {r : Exit.Reason} {c c' : Context Unit}
    (h : c.next? = some (some r, c')) : move m id c = some (deliver id r c' m) := by
  have hphase : ∀ f, c.loop.phase ≠ .waiting f := by
    intro f hf
    rw [Context.next?, hf] at h
    cases h
  unfold move
  split
  next f hf => exact absurd hf (hphase f)
  next => rw [h]; rfl

/-! ### Deliveries -/

section Deliveries
variable {m : State σ} {id : Exit.VcpuId} {s : Seat σ (Context Unit)} {r : Exit.Reason}
  {c : Context Unit}

theorem deliver_dropped (h : c.portals.route? r = none) :
    deliver id r c m = m.modifyContext id fun _ => c := by
  rw [deliver, Context.deliver, Context.deliver?, h]
  rfl

/-- What becomes of a loop with the answer to its exit. -/
def given (id : Exit.VcpuId) (x : Exit.Answer × State σ) : State σ := x.2.modifyContext id (·.conclude x.1)

/-- What becomes of the loop is one more change of the seat that the answer leaves. -/
theorem given_modify (a : Exit.Answer) (m : State σ) (g : Seat σ (Context Unit) → Seat σ (Context Unit)) :
    given id (a, m.modify id g) = m.modify id fun s => {g s with context := (g s).context.conclude a} := by
  rw [given, Machine.modifyContext_eq, Machine.modify_modify]
  rfl

/-- The badge of an exit of a vCPU leads to that vCPU, as long as it is registered. -/
theorem routed (hs : m.seats[id]? = some s) (r : Exit.Reason) (f : Frame) :
    hypervisor.route id (.make id r) f m =
      if s.registered then hypervisor.handleExit id id f m else (.returned (.ok ()) f.cleared, m) := by
  rw [Hypervisor.route, Machine.resolve?_make hs]
  cases s.registered with
  | true => rfl
  | false => rfl

variable {p : Exit.Portal Unit}

/-- What is delivered goes where its badge leads to, and the loop has the answer. -/
theorem deliver_given (hp : c.portals.route? r = some p) (hs : m.seats[id]? = some s) :
    deliver id r c m = given id (hypervisor.route id (.make id r) (c.filled r p.mask)
      (m.modifyContext id fun _ => c.recorded r p.mask s.registered)) := by
  have hrouted : (m.resolve? (Exit.Badge.make id r).vcpu).isSome = s.registered := by
    rw [Machine.resolve?_make hs]
    cases s.registered with
    | true => rfl
    | false => rfl
  rw [deliver, Context.deliver, Context.deliver?_of_route hp, hrouted]
  rfl

theorem seat_modifyContext (hs : m.seats[id]? = some s) (f : Context Unit → Context Unit) :
    (m.modifyContext id f).seats[id]? = some {s with context := f s.context} := by
  rw [Machine.modifyContext_eq, Machine.seat_modify_of_some hs]

/-- An exit of a vCPU that is not registered is answered without a transfer. -/
theorem deliver_refused (hp : c.portals.route? r = some p) (hs : m.seats[id]? = some s)
    (hreg : s.registered = false) :
    deliver id r c m = m.modifyContext id fun _ =>
      (c.recorded r p.mask false).answer (c.filled r p.mask).cleared := by
  have hseat := seat_modifyContext hs fun _ => c.recorded r p.mask false
  rw [deliver_given hp hs, hreg, routed hseat, hreg, given, Machine.modifyContext_eq, Machine.modifyContext_eq,
    Machine.modifyContext_eq]
  exact Machine.modify_modify ..

/-- The vCPU as it takes an exit: a recall takes the request along. -/
def taken (r : Exit.Reason) (v : Vcpu) : Vcpu :=
  if r = .recalled then v.start.takeRequest.2 else v.start

theorem taken_started (r : Exit.Reason) (v : Vcpu) : (taken r v).started = true := by
  unfold taken
  split
  · rfl
  · rfl

/-- Any other exit leaves the request. -/
theorem taken_other {r : Exit.Reason} (hr : r ≠ .recalled) (v : Vcpu) : taken r v = v.start := if_neg hr

/-- A recall exit that finds a request to run. -/
def resumed (c : Context Unit) (f : Frame) (s : Seat σ (Context Unit)) : Seat σ (Context Unit) :=
  let (v, f', u) := (taken .recalled s.vcpu).resume f c.loop.fpu
  {s with vcpu := v, context := ({c with loop := {c.loop with fpu := u}} : Context Unit).answer f'}

/-- The seat when the handler starts to work on an exit. -/
def entered (r : Exit.Reason) (c : Context Unit) (f : Frame) (s : Seat σ (Context Unit)) :
    Seat σ (Context Unit) :=
  let (v, u) := (taken r s.vcpu).enter f c.loop.fpu
  {s with vcpu := v, context := {c with loop := {c.loop with fpu := u}}}

/-- The seat after the handler's work on an exit, given how that ended. -/
def concluded (id : Exit.VcpuId) (r : Exit.Reason) (f : Frame) (o : Hypervisor.Outcome σ)
    (s : Seat σ (Context Unit)) : Seat σ (Context Unit) :=
  let v := s.vcpu.leave o.state
  match o.failure with
  | some (.error cause) =>
    {s with vcpu := v, memory := o.memory, context := s.context.finish (.error (.handler id r cause))}
  | some .panic => {s with vcpu := v, memory := o.memory, context := s.context.crash}
  | none =>
    if v.blocked then {s with vcpu := v, memory := o.memory, context := s.context.hold f.cleared}
    else
      let (v', f', u) := v.transfer f s.context.loop.fpu
      { s with
        vcpu := v', memory := o.memory
        context := ({s.context with loop := {s.context.loop with fpu := u}} : Context Unit).answer f' }

/-- A vCPU that blocks holds the exit with an empty frame. -/
theorem concluded_blocked (id : Exit.VcpuId) (r : Exit.Reason) (f : Frame) {o : Hypervisor.Outcome σ}
    (ho : o.failure = none) (hblocked : s.vcpu.blocked = true) :
    concluded id r f o s =
      {s with vcpu := s.vcpu.leave o.state, memory := o.memory, context := s.context.hold f.cleared} := by
  have hleave : (s.vcpu.leave o.state).blocked = true := hblocked
  simp only [concluded, ho, hleave, if_true]

/-- One that does not gives the state to the guest. -/
theorem concluded_answered (id : Exit.VcpuId) (r : Exit.Reason) (f : Frame) {o : Hypervisor.Outcome σ}
    (ho : o.failure = none) (hblocked : s.vcpu.blocked = false) :
    let given := o.state.store f s.context.loop.fpu
    concluded id r f o s =
      { s with
        vcpu := {s.vcpu.leave o.state with state := o.state.discharged}, memory := o.memory
        context := ({s.context with loop := {s.context.loop with fpu := given.2}} : Context Unit).answer
          given.1 } := by
  intro given
  have hleave : (s.vcpu.leave o.state).blocked = false := hblocked
  rw [concluded, ho]
  dsimp only
  rw [if_neg (Bool.eq_false_iff.mp hleave)]
  rfl

theorem concluded_registered (id : Exit.VcpuId) (r : Exit.Reason) (f : Frame) (o : Hypervisor.Outcome σ)
    (s : Seat σ (Context Unit)) : (concluded id r f o s).registered = s.registered := by
  unfold concluded
  dsimp only
  split
  · rfl
  · rfl
  · split
    · rfl
    · rfl

theorem concluded_handler (id : Exit.VcpuId) (r : Exit.Reason) (f : Frame) (o : Hypervisor.Outcome σ)
    (s : Seat σ (Context Unit)) : (concluded id r f o s).handler = s.handler := by
  unfold concluded
  dsimp only
  split
  · rfl
  · rfl
  · split
    · rfl
    · rfl

/-- A recall that finds a request to run resumes the guest by itself. -/
theorem deliver_resumed (hp : c.portals.route? .recalled = some p) (hs : m.seats[id]? = some s)
    (hreg : s.registered = true) (hrun : s.vcpu.request = some .run) :
    deliver id .recalled c m = m.modify id fun _ =>
      resumed (c.recorded .recalled p.mask true) (c.filled .recalled p.mask) s := by
  have hseat := seat_modifyContext hs fun _ => c.recorded .recalled p.mask true
  rw [deliver_given hp hs, hreg, routed hseat, if_pos hreg, Hypervisor.handleExit, Machine.vcpu?_eq, hseat]
  dsimp only [Option.map_some, Seat.resident]
  rw [if_pos (Context.filled_reason ..)]
  have htake : s.vcpu.start.takeRequest = (some .run, taken .recalled s.vcpu) := by
    rw [taken, if_pos rfl, Vcpu.takeRequest]
    exact Prod.ext hrun rfl
  rw [htake]
  simp only [hypervisor, Machine.context?_eq, hseat, Option.map_some, Option.getD_some]
  rw [Machine.modifyContext_eq, Machine.modifyContext_eq, Machine.modifyVcpu_eq, Machine.modify_modify,
    Machine.modify_modify, given_modify]
  exact Machine.modify_congr hs rfl

/-- Any other exit is handed on to the handler. -/
theorem handed_on (hs : m.seats[id]? = some s)
    (hcall : ¬(r = .recalled ∧ s.vcpu.request = some .run)) {f : Frame} (hf : Exit.Reason.ofRaw f.reason = r) :
    hypervisor.handleExit id id f (m.modifyContext id fun _ => c) =
      hypervisor.dispatch id id {s.resident id with vcpu := taken r s.vcpu} f
        (m.modifyContext id fun _ => c) := by
  rw [Hypervisor.handleExit, Machine.vcpu?_eq, seat_modifyContext hs, hf]
  dsimp only [Option.map_some, Seat.resident]
  split
  next hrecalled =>
    have hother : s.vcpu.start.takeRequest.1 ≠ some .run := fun h => hcall ⟨hrecalled, h⟩
    rw [taken, if_pos hrecalled]
    split
    next v htake => rw [htake] at hother; exact absurd rfl hother
    next v htake => rw [htake]
  next hrecalled => rw [taken, if_neg hrecalled]

/-- The seat that a handler starts on. -/
theorem modify_entered (hs : m.seats[id]? = some s) (f : Frame) :
    (hypervisor.setFpu id (entered r c f s).context.loop.fpu (m.modifyContext id fun _ => c)).modifyVcpu id
      (fun _ => (entered r c f s).vcpu) = m.modify id fun _ => entered r c f s := by
  simp only [hypervisor]
  rw [Machine.modifyContext_eq, Machine.modifyContext_eq, Machine.modifyVcpu_eq, Machine.modify_modify,
    Machine.modify_modify]
  exact Machine.modify_congr hs rfl

/-- The handler starts with what the frame carries, works, and what it leaves goes to the
guest or waits. -/
theorem given_dispatch (hs : m.seats[id]? = some s) {f : Frame} (hf : Exit.Reason.ofRaw f.reason = r) :
    let e := entered r c f s
    let worked := hypervisor.exec id (s.handler.handle s.memory e.vcpu.state) (m.modify id fun _ => e)
    given id (hypervisor.dispatch id id {s.resident id with vcpu := taken r s.vcpu} f
        (m.modifyContext id fun _ => c)) =
      worked.2.modify id (concluded id r f worked.1) := by
  intro e worked
  have hfpu : hypervisor.fpu id (m.modifyContext id fun _ => c) = c.loop.fpu := by
    simp only [hypervisor, Machine.context?_eq, seat_modifyContext hs, Option.map_some, Option.getD_some]
  have henter : (taken r s.vcpu).enter f c.loop.fpu = (e.vcpu, e.context.loop.fpu) := rfl
  have hworked : hypervisor.exec id (s.handler.handle s.memory e.vcpu.state) (m.modify id fun _ => e) =
      (worked.1, worked.2) := rfl
  obtain ⟨w, hw, _⟩ := exists_worked hs (s.handler.handle s.memory e.vcpu.state) e
  rw [hworked] at hw
  rw [Hypervisor.dispatch, hfpu, henter]
  dsimp only [Seat.resident]
  rw [modify_entered hs f, hworked]
  generalize worked = done at *
  dsimp only
  have hleaving : (done.2.modifyVcpu id (·.leave done.1.state)).setMemory id done.1.memory =
      done.2.modify id fun s => {s with vcpu := s.vcpu.leave done.1.state, memory := done.1.memory} := by
    rw [Machine.modifyVcpu_eq, Machine.setMemory_eq, Machine.modify_modify]
    rfl
  have hleft := Machine.seat_modify_of_some hw fun s =>
    {s with vcpu := s.vcpu.leave done.1.state, memory := done.1.memory}
  rw [hleaving]
  cases hfailure : done.1.failure with
  | some failure =>
    cases failure with
    | error cause =>
      dsimp only
      rw [hf, given_modify]
      refine Machine.modify_congr hw ?_
      simp only [concluded, hfailure, Context.conclude]
    | panic =>
      dsimp only
      rw [given_modify]
      refine Machine.modify_congr hw ?_
      simp only [concluded, hfailure, Context.conclude]
  | none =>
    dsimp only
    rw [Machine.vcpu?_eq, hleft]
    dsimp only [Option.map_some, Seat.resident]
    cases hblocked : w.vcpu.blocked with
    | true =>
      have hleave : (w.vcpu.leave done.1.state).blocked = true := hblocked
      rw [if_pos hleave, given_modify]
      refine Machine.modify_congr hw ?_
      rw [concluded_blocked id r f hfailure hblocked]
      rfl
    | false =>
      have hleave : (w.vcpu.leave done.1.state).blocked = false := hblocked
      rw [if_neg (Bool.eq_false_iff.mp hleave)]
      simp only [hypervisor, Machine.context?_eq, hleft, Option.map_some, Option.getD_some]
      rw [Machine.modifyContext_eq, Machine.modifyVcpu_eq, Machine.modify_modify, Machine.modify_modify, given_modify]
      refine Machine.modify_congr hw ?_
      rw [concluded_answered id r f hfailure hblocked]
      rfl

/-- Any other exit is handled. -/
theorem deliver_handled (hp : c.portals.route? r = some p) (hs : m.seats[id]? = some s)
    (hreg : s.registered = true) (hcall : ¬(r = .recalled ∧ s.vcpu.request = some .run)) :
    let e := entered r (c.recorded r p.mask true) (c.filled r p.mask) s
    let worked := hypervisor.exec id (s.handler.handle s.memory e.vcpu.state) (m.modify id fun _ => e)
    deliver id r c m = worked.2.modify id (concluded id r (c.filled r p.mask) worked.1) := by
  have hreason := c.filled_reason r p.mask
  have hseat := seat_modifyContext hs fun _ => c.recorded r p.mask true
  rw [deliver_given hp hs, hreg, routed hseat, if_pos hreg, handed_on hs hcall hreason]
  exact given_dispatch hs hreason

/-- A delivery is handled, or changes the seat of its vCPU only. -/
theorem deliver_cases (hs : m.seats[id]? = some s) (r : Exit.Reason) (c : Context Unit) :
    (∃ f, deliver id r c m = m.modify id f ∧ (f s).handler = s.handler ∧ (f s).registered = s.registered) ∨
      s.registered = true ∧ ∃ e f, e.handler = s.handler ∧ e.registered = s.registered ∧
        let worked := hypervisor.exec id (s.handler.handle s.memory e.vcpu.state) (m.modify id fun _ => e)
        deliver id r c m = worked.2.modify id (concluded id r f worked.1) := by
  cases hp : c.portals.route? r with
  | none =>
    rw [deliver_dropped hp, Machine.modifyContext_eq]
    exact .inl ⟨_, rfl, rfl, rfl⟩
  | some p =>
  cases hreg : s.registered with
  | false =>
    rw [deliver_refused hp hs hreg, Machine.modifyContext_eq]
    exact .inl ⟨_, rfl, rfl, hreg⟩
  | true =>
  by_cases hcall : r = .recalled ∧ s.vcpu.request = some .run
  · obtain ⟨rfl, hrun⟩ := hcall
    rw [deliver_resumed hp hs hreg hrun]
    exact .inl ⟨_, rfl, rfl, hreg⟩
  · exact .inr ⟨rfl, entered r (c.recorded r p.mask true) (c.filled r p.mask) s, c.filled r p.mask, rfl, hreg,
      deliver_handled hp hs hreg hcall⟩

/-- A step is the handler's work on an exit, or changes the seat of its vCPU only: neither the
handler nor the registration. -/
theorem moves_cases {m' : State σ} (h : Moves m id m') : ∃ s, m.seats[id]? = some s ∧
    ((∃ f, m' = m.modify id f ∧ (f s).handler = s.handler ∧ (f s).registered = s.registered) ∨
      s.registered = true ∧ ∃ e r f, e.handler = s.handler ∧ e.registered = s.registered ∧
        let worked := hypervisor.exec id (s.handler.handle s.memory e.vcpu.state) (m.modify id fun _ => e)
        m' = worked.2.modify id (concluded id r f worked.1)) := by
  obtain ⟨s, c, hs, _, hmove⟩ := h
  refine ⟨s, hs, ?_⟩
  rcases move_cases hs hmove with ⟨f, ends, v, _, _, rfl⟩ | ⟨c', _, rfl⟩ | ⟨r, c', _, rfl⟩
  · exact .inl ⟨_, rfl, rfl, rfl⟩
  · rw [Machine.modifyContext_eq]
    exact .inl ⟨_, rfl, rfl, rfl⟩
  · rcases deliver_cases hs r c' with hown | ⟨hreg, e, f, hhandled⟩
    · exact .inl hown
    · exact .inr ⟨hreg, e, r, f, hhandled⟩

end Deliveries

/-! ### What a handler starts with -/

theorem read_filled {c : Context Unit} {r : Exit.Reason} {m : Mask} {g : Group} (h : m.has g.bit = true) :
    g.read (c.filled r m).registers = g.read c.registers.registers := by
  show g.read ((Frame.forExit r.raw).copyGroups c.registers m).registers = _
  rw [read_copyGroups, if_pos h]

/-- A handler starts with the known groups of the mask, whatever was charged before. -/
theorem entered_loadedFrom (s : Seat σ (Context Unit)) (c : Context Unit) (r : Exit.Reason) (m : Mask) :
    (entered r (c.recorded r m true) (c.filled r m) s).vcpu.state.LoadedFrom r m
      c.registers.registers c.loop.fpu.image := by
  obtain ⟨hreason, hgroups, hfpu⟩ :=
    State.load_loadedFrom (taken r s.vcpu).state (c.filled r m) c.loop.fpu
  refine ⟨hreason.trans (c.filled_reason r m), fun g => (hgroups g).trans ?_, hfpu⟩
  show (if m.has g.bit then some (g.read (c.filled r m).registers) else none) = _
  split
  next hm => rw [read_filled hm]
  next => rfl

theorem entered_image (s : Seat σ (Context Unit)) (c : Context Unit) (r : Exit.Reason) (m : Mask) :
    (entered r (c.recorded r m true) (c.filled r m) s).context.loop.fpu.image = c.loop.fpu.image :=
  State.load_image (taken r s.vcpu).state (c.filled r m) c.loop.fpu

end GuestMachine.Simulated
