import GuestMachine.Proofs.Hypervisors
import GuestMachine.Proofs.InUse
import GuestMachine.Stepped.Hypervisor

/-! Exits that are delivered by hand.

The hypervisor that is stepped by hand is not the simulated one, but the machine on it is the
same. While recalls are not prompt, machines with the same vCPUs stay so (`Level`,
`Parallel.relates`), and an exit that both are given ends in the same way: the steps of the
simulated loop lead to where a delivery by hand does, with the exit answered or waiting with no
signal left (`deliver_agrees`). After an answer the machines are ready for the next exit
(`EndsAlike.parallel`). -/
namespace GuestMachine.Stepped
open Register

variable {σ : Type}

/-! ### Machines with the same vCPUs -/

/-- What both hypervisors keep for a vCPU, however its exits are delivered. -/
structure Fits (s : Seat σ (Simulated.Context Unit)) (t : Seat σ Context) : Prop where
  vcpu : t.vcpu = s.vcpu
  handler : t.handler = s.handler
  memory : t.memory = s.memory
  registered : t.registered = s.registered
  portals : t.context.portals = s.context.portals
  /-- A recall is due. -/
  recalls : t.context.recallPending = (s.context.recallPending && !s.context.portals.isEmpty)
  /-- The dispatch thread can be joined, so that a release succeeds. -/
  joins : (s.context.joinable && s.context.crashed) = false

theorem Fits.resident {s : Seat σ (Simulated.Context Unit)} {t : Seat σ Context} (h : Fits s t) (id : Exit.VcpuId) :
    t.resident id = s.resident id := by
  rw [Seat.resident, Seat.resident, h.vcpu, h.handler, h.memory]

/-- A vCPU with one loop that can take an exit. -/
structure Attends (u : Fpu) (s : Seat σ (Simulated.Context Unit)) (t : Seat σ Context) : Prop where
  unit : s.context.loop.fpu = u
  single : s.context.others = []
  free : t.context.waiting = none

/-- A simulated machine and one whose exits are delivered by hand, with the same vCPUs. -/
structure Level (m : Simulated.State σ) (n : State σ) : Prop where
  calls : n.calls = m.calls
  owned : n.owned = m.owned
  seats : ∀ id : Nat, Option.Rel Fits m.seats[id]? n.seats[id]?
  lazyRecall : n.shared.promptRecall = false
  releases : n.shared.unreleasable = []

/-- The machines differ in nothing that an exit of a vCPU could tell. -/
structure Parallel (thread : Exit.VcpuId) (m : Simulated.State σ) (n : State σ) : Prop extends Level m n where
  attends : ∃ s t, m.seats[thread]? = some s ∧ n.seats[thread]? = some t ∧ Attends n.shared.fpu s t

section Machines
variable {thread id : Exit.VcpuId} {m : Simulated.State σ} {n : State σ}
  {f : Seat σ (Simulated.Context Unit) → Seat σ (Simulated.Context Unit)}
  {g : Seat σ Context → Seat σ Context}

namespace Level

theorem seat (h : Level m n) {s : Seat σ (Simulated.Context Unit)} (hs : m.seats[id]? = some s) :
    ∃ t, n.seats[id]? = some t ∧ Fits s t := by
  have hrel := h.seats id
  rw [hs] at hrel
  cases ht : n.seats[id]? with
  | none => rw [ht] at hrel; cases hrel
  | some t => rw [ht] at hrel; cases hrel with | some hfits => exact ⟨t, rfl, hfits⟩

theorem seat_none (h : Level m n) (hs : m.seats[id]? = none) : n.seats[id]? = none := by
  have hrel := h.seats id
  rw [hs] at hrel
  cases ht : n.seats[id]? with
  | none => rfl
  | some t => rw [ht] at hrel; cases hrel

/-- Changes of the seats of a number that fit each other. -/
theorem seats_modify (h : Level m n)
    (hfits : ∀ s t, m.seats[id]? = some s → n.seats[id]? = some t → Fits s t → Fits (f s) (g t))
    (other : Nat) : Option.Rel Fits (m.modify id f).seats[other]? (n.modify id g).seats[other]? := by
  by_cases hne : id = other
  · subst hne
    rw [Machine.seat_modify, Machine.seat_modify]
    cases hs : m.seats[id]? with
    | none =>
      rw [h.seat_none hs]
      exact .none
    | some s =>
      obtain ⟨t, ht, hfit⟩ := h.seat hs
      rw [ht]
      exact .some (hfits s t hs ht hfit)
  · rw [Machine.seat_modify_of_ne m f hne, Machine.seat_modify_of_ne n g hne]
    exact h.seats other

end Level

namespace Parallel

theorem modify (h : Parallel thread m n)
    (hfits : ∀ s t, m.seats[id]? = some s → n.seats[id]? = some t → Fits s t → Fits (f s) (g t))
    (hattends : ∀ s t, m.seats[id]? = some s → n.seats[id]? = some t → Attends n.shared.fpu s t →
      Attends n.shared.fpu (f s) (g t)) : Parallel thread (m.modify id f) (n.modify id g) := by
  refine ⟨⟨?_, h.owned, h.seats_modify hfits, h.lazyRecall, h.releases⟩, ?_⟩
  · rw [Machine.calls_modify, Machine.calls_modify, h.calls]
  obtain ⟨s, t, hs, ht, hst⟩ := h.attends
  by_cases hne : id = thread
  · subst hne
    exact ⟨f s, g t, Machine.seat_modify_of_some hs f, Machine.seat_modify_of_some ht g, hattends s t hs ht hst⟩
  · refine ⟨s, t, ?_, ?_, hst⟩
    · rw [Machine.seat_modify_of_ne m f hne, hs]
    · rw [Machine.seat_modify_of_ne n g hne, ht]

/-- A change that concerns the vCPU only. -/
theorem modifyVcpu (h : Parallel thread m n) (place : Nat) (f : Vcpu → Vcpu) :
    Parallel thread (m.modifyVcpu place f) (n.modifyVcpu place f) := by
  rw [Machine.modifyVcpu_eq, Machine.modifyVcpu_eq]
  refine h.modify (fun s t _ _ hfit => ?_) fun s t _ _ hst => ⟨hst.unit, hst.single, hst.free⟩
  exact { hfit with vcpu := congrArg f hfit.vcpu }

/-- A recall that is not prompt. -/
theorem forceExit (h : Parallel thread m n) (id : Exit.VcpuId) (depth : Nat) :
    Parallel thread (Simulated.hypervisor.forceExit id m) (Stepped.forceExit depth id n) := by
  have hflag : Stepped.forceExit depth id n = flag id n := by
    cases depth with
    | zero => rfl
    | succ depth =>
      have hlazy : (flag id n).shared.promptRecall = false := h.lazyRecall
      rw [Stepped.forceExit, hlazy]
      split
      · rfl
      · rfl
  rw [hflag]
  show Parallel thread (m.modifyContext id _) (n.modifyContext id _)
  rw [Machine.modifyContext_eq, Machine.modifyContext_eq]
  refine h.modify (fun s t _ _ hfit => ?_) fun s t _ _ hst => ⟨hst.unit, hst.single, hst.free⟩
  refine { hfit with recalls := ?_ }
  show (t.context.recallPending || !t.context.portals.isEmpty) = (true && !s.context.portals.isEmpty)
  rw [hfit.recalls, hfit.portals]
  cases s.context.recallPending <;> simp

theorem release (h : Parallel thread m n) {place : Nat} {v : Resident σ} (hv : m.vcpu? place = some v) :
    Paired (Parallel thread) (Simulated.hypervisor.release v.id m) (Stepped.release v.id n) := by
  have hid : v.id = place := m.inStep.id_eq hv
  rw [Machine.vcpu?_eq] at hv
  obtain ⟨s, hs, _⟩ := Option.map_eq_some_iff.mp hv
  rw [← hid] at hs
  obtain ⟨t, ht, hfit⟩ := h.seat hs
  have hreleased : Simulated.hypervisor.release v.id m =
      (.ok (), m.modify v.id fun s => {s with context := (s.context.release v.id).2}) := by
    simp only [Simulated.hypervisor]
    rw [Machine.context?_eq, hs]
    dsimp only [Option.map_some]
    rw [Machine.modifyContext_eq]
    refine Prod.ext ?_ (Machine.modify_congr hs rfl)
    show (if s.context.joinable && s.context.crashed then _ else _) = _
    rw [hfit.joins]
    rfl
  rw [hreleased]
  refine ⟨?_, ?_⟩
  · rw [Stepped.release, h.releases]
    rfl
  · show Parallel thread (m.modify v.id _) n
    rw [← Machine.modify_id n v.id]
    refine h.modify (fun s t _ _ hfit => ?_) fun s t _ _ hst => ⟨hst.unit, hst.single, hst.free⟩
    exact { hfit with joins := Bool.false_and _ }

theorem setFpu (h : Parallel thread m n) (u : Fpu) :
    Parallel thread (Simulated.hypervisor.setFpu thread u m) {n with shared := {n.shared with fpu := u}} := by
  show Parallel thread (m.modifyContext thread _) _
  rw [Machine.modifyContext_eq]
  obtain ⟨s, t, hs, ht, hst⟩ := h.attends
  refine ⟨⟨h.calls.trans (m.calls_modify thread _).symm, h.owned, ?_, h.lazyRecall, h.releases⟩,
    ⟨_, t, Machine.seat_modify_of_some hs _, ht, ?_⟩⟩
  · rw [← Machine.modify_id n thread]
    exact h.seats_modify fun s t _ _ hfit => { hfit with }
  · exact ⟨rfl, hst.single, hst.free⟩

/-- The two hypervisors serve exits alike, as long as recalls are not prompt. -/
theorem relates (thread : Exit.VcpuId) (depth : Nat) :
    Hypervisor.Relates (@Simulated.hypervisor σ) (withForce (Stepped.forceExit depth)) thread (Parallel thread) where
  owned h := h.owned
  vcpu? {m n} h place := by
    rw [Machine.vcpu?_eq, Machine.vcpu?_eq]
    cases hs : m.seats[place]? with
    | none => rw [h.seat_none hs, Option.map_none, Option.map_none]
    | some s =>
      obtain ⟨t, ht, hfit⟩ := h.seat hs
      rw [ht, Option.map_some, Option.map_some, hfit.resident]
  resolve? {m n} h id := by
    rw [Machine.resolve?_eq, Machine.resolve?_eq, Machine.find?, Machine.find?]
    cases hs : m.seats[id]? with
    | none => rw [h.seat_none hs]; rfl
    | some s =>
      obtain ⟨t, ht, hfit⟩ := h.seat hs
      rw [ht, Option.filter_some, Option.filter_some, hfit.registered]
      split
      · rfl
      · rfl
  modifyVcpu h := h.modifyVcpu
  setMemory {m n} h place memory := by
    rw [Machine.setMemory_eq, Machine.setMemory_eq]
    refine h.modify (fun s t _ _ hfit => ?_) fun s t _ _ hst => ⟨hst.unit, hst.single, hst.free⟩
    exact { hfit with memory := rfl }
  unregister {m n} h id := by
    rw [Machine.unregister_eq, Machine.unregister_eq]
    refine h.modify (fun s t _ _ hfit => ?_) fun s t _ _ hst => ⟨hst.unit, hst.single, hst.free⟩
    exact { hfit with registered := rfl }
  disown h := ⟨⟨h.calls, rfl, h.seats, h.lazyRecall, h.releases⟩, h.attends⟩
  forceExit h id := h.forceExit id depth
  release h := h.release
  fpu {m n} h := by
    obtain ⟨s, t, hs, _, hst⟩ := h.attends
    show n.shared.fpu = ((m.context? thread).map (·.loop.fpu)).getD {}
    rw [Machine.context?_eq, hs]
    exact hst.unit.symm
  setFpu h := h.setFpu

end Parallel

/-! ### Creation -/

/-- A vCPU that has been created for deliveries by hand. -/
def newSeat (handler : Handler σ) (memory : σ) : Seat σ Context :=
  {handler, memory, context := {portals := Simulated.installed {} (Exit.plan handler.interest), created := true}}

theorem installAll_eq (hslot : n.shared.refusedSlot = none) (force : Exit.VcpuId → State σ → State σ)
    (id : Exit.VcpuId) (l : List (Exit.Slot × Mask)) : (withForce force).installAll id l n =
      (.ok (), n.modifyContext id fun c => {c with portals := Simulated.installed c.portals l}) := by
  induction l generalizing n with
  | nil =>
    show (Except.ok (), n) = (Except.ok (), n.modifyContext id fun c => c)
    rw [Machine.modifyContext_eq, Machine.modify_id]
  | cons x rest ih =>
    have hinstall : (withForce force).install id x.1 x.2 n =
        (.ok (), n.modifyContext id fun c => {c with portals := c.portals.install x.1 ⟨x.2, ()⟩}) := by
      show install id x.1 x.2 n = _
      rw [install, hslot]
      rfl
    rw [Hypervisor.installAll, hinstall]
    refine (ih ?_).trans ?_
    · exact hslot
    · rw [Machine.modifyContext_eq, Machine.modifyContext_eq, Machine.modifyContext_eq, Machine.modify_modify]
      rfl

/-- A creation that is not refused adds a seat. -/
theorem create_eq (hslot : n.shared.refusedSlot = none) (hstart : n.shared.refusesStart = false) (hroom : n.HasRoom)
    (force : Exit.VcpuId → State σ → State σ) (handler : Handler σ) (memory : σ) :
    (withForce force).create handler memory {} n = (.ok n.seats.length,
      {n.append (newSeat handler memory) hroom with owned := n.owned ++ [n.seats.length]}) := by
  have hrefused : (n.enroll handler memory {}).shared.refusedSlot = none := hslot
  rw [Hypervisor.create, installAll_eq hrefused, Machine.nextPlace_eq, Machine.nextId_eq hroom,
    Machine.enroll_eq hroom, Machine.modifyContext_eq, Machine.modify_append]
  have hstarted : ∀ s : Seat σ Context, (withForce force).start n.seats.length (n.append s hroom) =
      (.ok (), (n.append s hroom).modifyContext n.seats.length fun c => {c with created := true}) := by
    intro s
    show start n.seats.length (n.append s hroom) = _
    rw [start, show (n.append s hroom).shared.refusesStart = false from hstart]
    rfl
  dsimp only
  rw [hstarted]
  dsimp only
  rw [Machine.modifyContext_eq, Machine.modify_append]
  rfl

theorem Level.hasRoom (h : Level m n) (hroom : m.HasRoom) : n.HasRoom :=
  Nat.lt_of_le_of_lt (Nat.le_of_eq h.calls) hroom

theorem Level.seats_length (h : Level m n) : n.seats.length = m.seats.length := by
  rw [Machine.seats_length, Machine.seats_length, h.calls]

theorem Level.create (h : Level m n) (hslot : n.shared.refusedSlot = none)
    (hstart : n.shared.refusesStart = false) (hroom : m.HasRoom) (force : Exit.VcpuId → State σ → State σ)
    (handler : Handler σ) (memory : σ) : Level (Simulated.hypervisor.create handler memory {} m).2
      ((withForce force).create handler memory {} n).2 := by
  have hroom' : n.HasRoom := h.hasRoom hroom
  have hlength : n.seats.length = m.seats.length := h.seats_length
  have hnew : Fits (Simulated.newSeat m.shared.deferred handler memory) (newSeat handler memory) := by
    cases m.shared.deferred with
    | true => exact ⟨rfl, rfl, rfl, rfl, rfl, rfl, rfl⟩
    | false => exact ⟨rfl, rfl, rfl, rfl, rfl, rfl, rfl⟩
  rw [Simulated.create_eq hroom, create_eq hslot hstart hroom']
  refine ⟨?_, ?_, fun id => ?_, h.lazyRecall, h.releases⟩
  · show (n.append _ hroom').calls = (m.append _ hroom).calls
    rw [Machine.calls_append, Machine.calls_append, h.calls]
  · show n.owned ++ [n.seats.length] = m.owned ++ [m.seats.length]
    rw [h.owned, hlength]
  · show Option.Rel Fits (m.append _ hroom).seats[id]? (n.append _ hroom').seats[id]?
    rw [Machine.seats_append, Machine.seats_append, List.getElem?_append, List.getElem?_append, hlength]
    split
    · exact h.seats id
    · rw [List.getElem?_singleton, List.getElem?_singleton]
      split
      · exact .some hnew
      · exact .none

theorem Level.begin (deferred : Bool) : Level (Simulated.empty deferred : Simulated.State σ) {shared := {}} :=
  ⟨rfl, rfl, fun _ => .none, rfl, rfl⟩

/-- As long as the shared unit has not been used, no exit of a new vCPU could tell the machines
apart. -/
theorem Parallel.created (h : Level m n) (hslot : n.shared.refusedSlot = none)
    (hstart : n.shared.refusesStart = false) (hfpu : n.shared.fpu = {}) (hroom : m.HasRoom)
    (force : Exit.VcpuId → State σ → State σ) (handler : Handler σ) (memory : σ) :
    Parallel m.seats.length (Simulated.hypervisor.create handler memory {} m).2
      ((withForce force).create handler memory {} n).2 := by
  have hroom' : n.HasRoom := h.hasRoom hroom
  have hlength : n.seats.length = m.seats.length := h.seats_length
  refine ⟨h.create hslot hstart hroom force handler memory, Simulated.newSeat m.shared.deferred handler memory,
    newSeat handler memory, ?_, ?_, ?_⟩
  · rw [Simulated.create_eq hroom]
    show (m.append _ hroom).seats[_]? = _
    rw [Machine.seats_append, List.getElem?_concat_length]
  · rw [create_eq hslot hstart hroom', ← hlength]
    show (n.append _ hroom').seats[_]? = _
    rw [Machine.seats_append, List.getElem?_concat_length]
  · rw [create_eq hslot hstart hroom']
    show Attends n.shared.fpu _ _
    rw [hfpu]
    cases m.shared.deferred with
    | true => exact ⟨rfl, rfl, rfl⟩
    | false => exact ⟨rfl, rfl, rfl⟩

end Machines

/-! ### From the delivery to the end -/

/-- What becomes of an exit with its answer. -/
def Context.ended (d : Context) : Exit.Answer → Context
  | .returned r f => {d with delivering := false, returned := d.returned ++ [(r, f)]}
  | .waiting f => {d with delivering := false, waiting := some f}
  | .died => {d with delivering := false}

/-- A signal ends the wait of an exit. -/
def ends (v : Vcpu) : Bool := v.destroyed || v.request.isSome

theorem wake?_eq (v : Vcpu) : v.wake? = v.signals.down?.map fun rest => (ends v, {v with signals := rest}) := rfl

/-- No signal ends the wait, or none is there. -/
def Stale (v : Vcpu) : Prop := v.signals.pending = 0 ∨ ends v = false

/-- An exit that is not to end takes every signal. -/
theorem takeSignals_stale {v : Vcpu} {d : Context} {f : Frame} (hwaiting : d.waiting = some f) (h : Stale v) :
    takeSignals v.signals.pending v d = ({v with signals := ⟨0⟩}, d) := by
  obtain ⟨k, hk⟩ : ∃ k, v.signals.pending = k := ⟨_, rfl⟩
  rw [hk]
  induction k generalizing v with
  | zero => rw [takeSignals, ← hk]
  | succ k ih =>
    have hends : ends v = false := h.resolve_left (by rw [hk]; exact Nat.succ_ne_zero k)
    have hwake : v.wake? = some (false, {v with signals := ⟨k⟩}) := by
      rw [wake?_eq, Semaphore.down?, hk, hends]
      rfl
    rw [takeSignals, hwaiting, hwake]
    exact ih (v := {v with signals := ⟨k⟩}) (.inr hends) rfl

/-- Otherwise the first signal ends the wait. -/
theorem takeSignals_ends {v : Vcpu} {d : Context} {f : Frame} {k : Nat} (hwaiting : d.waiting = some f)
    (hends : ends v = true) (hk : v.signals.pending = k + 1) :
    takeSignals v.signals.pending v d =
      ({v with signals := ⟨k⟩}, {d with waiting := none, returned := d.returned ++ [(.ok (), f)]}) := by
  have hwake : v.wake? = some (true, {v with signals := ⟨k⟩}) := by
    rw [wake?_eq, Semaphore.down?, hk, hends]
    rfl
  rw [hk, takeSignals, hwaiting, hwake]

theorem wake_eq {n : State σ} {id : Exit.VcpuId} {t : Seat σ Context} (ht : n.seats[id]? = some t) :
    wake id n = n.modify id fun _ =>
      { t with
        vcpu := (takeSignals t.vcpu.signals.pending t.vcpu t.context).1
        context := (takeSignals t.vcpu.signals.pending t.vcpu t.context).2 } := by
  rw [wake, Machine.vcpu?_eq, Machine.context?_eq, ht]
  dsimp only [Option.map_some, Seat.resident]
  rw [Machine.modifyVcpu_eq, Machine.modifyContext_eq, Machine.modify_modify]
  exact Machine.modify_congr ht rfl

section Deliveries
variable {id : Exit.VcpuId} {m : Simulated.State σ} {n : State σ} {s : Seat σ (Simulated.Context Unit)}

/-- A seat with a number of signals. -/
def signalled {κ : Type} (k : Nat) (s : Seat σ κ) : Seat σ κ := {s with vcpu := {s.vcpu with signals := ⟨k⟩}}

theorem reaches_stale {f : Frame} (hs : m.seats[id]? = some s) (hphase : s.context.loop.phase = .waiting f)
    (hsingle : s.context.others = []) (h : Stale s.vcpu) : Simulated.Reaches id m (m.modify id (signalled 0)) := by
  obtain ⟨k, hk⟩ : ∃ k, s.vcpu.signals.pending = k := ⟨_, rfl⟩
  induction k generalizing m s with
  | zero =>
    have hsame : m.modify id (signalled 0) = m := by
      refine (Machine.modify_congr hs ?_).trans (m.modify_id id)
      rw [signalled, ← hk]
    rw [hsame]
    exact .refl
  | succ k ih =>
    have hends : ends s.vcpu = false := h.resolve_left (by rw [hk]; exact Nat.succ_ne_zero k)
    have hwake : s.vcpu.wake? = some (false, (signalled k s).vcpu) := by
      rw [wake?_eq, Semaphore.down?, hk, hends]
      rfl
    have hmove : Simulated.Moves m id (m.modify id fun _ => signalled k s) :=
      (Simulated.moves_iff_move hs hsingle).mpr (Simulated.move_of_wake? hs hphase hwake)
    have hs' := Machine.seat_modify_of_some hs fun _ => signalled k s
    have hrest := ih hs' hphase hsingle (.inr hends) rfl
    rw [Machine.modify_modify] at hrest
    refine .head hmove ?_
    rw [Machine.modify_congr hs (f := signalled 0) (g := signalled 0 ∘ fun _ => signalled k s) rfl]
    exact hrest

/-- An exit has come to the same end on both machines. If it waits, no signal is left for it. -/
structure EndsAlike (id : Exit.VcpuId) (a : Exit.Answer) (m : Simulated.State σ) (n : State σ) : Prop where
  concluded : ∃ m' n', Parallel id m' n' ∧ m = m'.modifyContext id (·.conclude a) ∧
    n = n'.modifyContext id (·.ended a)
  rests : ∀ f, a = .waiting f → ∀ v, m.vcpu? id = some v → v.vcpu.wake? = none

theorem Parallel.signalled (h : Parallel id m n) (k : Nat) :
    Parallel id (m.modify id (signalled k)) (n.modify id (signalled k)) := by
  refine h.modify (fun s t _ _ hfit => ?_) fun s t _ _ hst => ⟨hst.unit, hst.single, hst.free⟩
  refine { hfit with vcpu := ?_ }
  rw [Stepped.signalled, Stepped.signalled, hfit.vcpu]

/-- An exit that is to wait takes the signals that are there, in both ways of delivery. -/
theorem waits_alike (h : Parallel id m n) (f : Frame) :
    ∃ a m₁, Simulated.Reaches id (m.modifyContext id (·.conclude (.waiting f))) m₁ ∧
      EndsAlike id a m₁ (conclude id n (.waiting f)) := by
  obtain ⟨s, t, hs, ht, hst⟩ := h.attends
  obtain ⟨t', ht', hfit⟩ := h.seat hs
  cases ht.symm.trans ht'
  have hheld : (m.modifyContext id (·.conclude (.waiting f))).seats[id]? =
      some {s with context := s.context.hold f} := by
    rw [Machine.modifyContext_eq]
    exact Machine.seat_modify_of_some hs _
  have hphase : (s.context.hold f).loop.phase = .waiting f := by
    rw [Simulated.Context.hold_single hst.single]
  have hsingle : (s.context.hold f).others = [] := by
    rw [Simulated.Context.hold_single hst.single]
    exact hst.single
  have hwaiting : (n.modifyContext id (·.ended (.waiting f))).seats[id]? =
      some {t with context := t.context.ended (.waiting f)} := by
    rw [Machine.modifyContext_eq]
    exact Machine.seat_modify_of_some ht _
  show ∃ a m₁, _ ∧ EndsAlike id a m₁ (wake id (n.modifyContext id (·.ended (.waiting f))))
  rw [wake_eq hwaiting]
  dsimp only
  by_cases hstale : Stale s.vcpu
  · refine ⟨.waiting f, _, reaches_stale hheld hphase hsingle hstale, ⟨_, _, h.signalled 0, ?_, ?_⟩, ?_⟩
    · simp only [Machine.modifyContext_eq, Machine.modify_modify]
      rfl
    · rw [hfit.vcpu, takeSignals_stale rfl hstale]
      simp only [Machine.modifyContext_eq, Machine.modify_modify]
      refine Machine.modify_congr ht ?_
      simp only [Function.comp, signalled, hfit.vcpu]
    · intro _ _ v hv
      rw [Machine.vcpu?_eq, Machine.seat_modify_of_some hheld] at hv
      obtain rfl := Option.some.inj hv
      rfl
  · obtain ⟨hpending, hends⟩ := not_or.mp hstale
    obtain ⟨k, hk⟩ := Nat.exists_eq_succ_of_ne_zero hpending
    rw [Bool.not_eq_false] at hends
    have hwake : s.vcpu.wake? = some (true, (signalled k s).vcpu) := by
      rw [wake?_eq, Semaphore.down?, hk, hends]
      rfl
    refine ⟨.returned (.ok ()) f, _, .single ((Simulated.moves_iff_move hheld hsingle).mpr
      (Simulated.move_of_wake? hheld hphase hwake)), ⟨_, _, h.signalled k, ?_, ?_⟩, fun _ ha => by cases ha⟩
    · simp only [Machine.modifyContext_eq, Machine.modify_modify]
      refine Machine.modify_congr hs ?_
      simp [signalled, Simulated.Context.conclude, Simulated.Context.hold_single hst.single,
        Simulated.Context.answer_single, hst.single]
    · rw [hfit.vcpu, takeSignals_ends rfl hends hk]
      simp only [Machine.modifyContext_eq, Machine.modify_modify]
      refine Machine.modify_congr ht ?_
      simp [signalled, hfit.vcpu, Context.ended, hst.free]

theorem ends_alike (h : Parallel id m n) (a : Exit.Answer) :
    ∃ a' m₁, Simulated.Reaches id (m.modifyContext id (·.conclude a)) m₁ ∧
      EndsAlike id a' m₁ (conclude id n a) := by
  cases a with
  | returned r f => exact ⟨.returned r f, _, .refl, ⟨m, n, h, rfl, rfl⟩, fun _ ha => by cases ha⟩
  | waiting f => exact waits_alike h f
  | died => exact ⟨.died, _, .refl, ⟨m, n, h, rfl, rfl⟩, fun _ ha => by cases ha⟩

/-- A recall exit is what a pending recall was for. -/
theorem next?_recallPending {c c' : Simulated.Context Unit} {r : Exit.Reason} (h : c.next? = some (some r, c')) :
    c'.recallPending = (c.recallPending && !decide (r = .recalled)) := by
  rcases Simulated.Context.next?_cases h with
    ⟨_, hr, rfl⟩ | ⟨_, ⟨_, hr, _⟩ | ⟨_, _, hr, rfl⟩ | ⟨_, hrecall, _, _, _, _, rfl⟩⟩
  · obtain rfl := Option.some.inj hr
    exact (Bool.and_true _).symm
  · cases hr
  · obtain rfl := Option.some.inj hr
    exact (Bool.and_false _).symm
  · rw [hrecall, Bool.false_and]

/-- The machines when an exit has been taken from its guest, and is about to be routed. -/
theorem Parallel.recorded (h : Parallel id m n) (hs : m.seats[id]? = some s) {r : Exit.Reason}
    {c : Simulated.Context Unit} (hnext : s.context.next? = some (some r, c)) (mask : Mask) (routed : Bool) :
    Parallel id (m.modifyContext id fun _ => c.recorded r mask routed)
      (n.modifyContext id fun d =>
        {d with recallPending := d.recallPending && !decide (r = .recalled), delivering := true}) := by
  rw [Machine.modifyContext_eq, Machine.modifyContext_eq]
  have hsteady := Simulated.Context.next?_steady hnext
  have hportals : c.portals = s.context.portals := congrArg (·.portals) hsteady
  refine h.modify (fun s' t hs' _ hfit => ?_) fun s' t hs' _ hst => ?_
  · cases hs.symm.trans hs'
    refine { hfit with portals := ?_, recalls := ?_, joins := ?_ }
    · exact hfit.portals.trans hportals.symm
    · show (t.context.recallPending && !decide (r = .recalled)) = (c.recallPending && !c.portals.isEmpty)
      rw [hfit.recalls, next?_recallPending hnext, hportals, Bool.and_right_comm]
    · exact (congrArg (fun c => c.joinable && c.crashed) hsteady).trans hfit.joins
  · cases hs.symm.trans hs'
    refine ⟨?_, ?_, hst.free⟩
    · exact (congrArg (·.loop.fpu) hsteady).trans hst.unit
    · exact (congrArg (·.others) hsteady).trans hst.single

/-- Nothing stands in the way of an exit of a vCPU that can take one, but a recall that has to come
first. -/
theorem deliver_free {t : Seat σ Context} (ht : n.seats[id]? = some t) (hfree : t.context.waiting = none)
    {r : Exit.Reason} (hfirst : (t.context.recallPending && t.vcpu.started && !decide (r = .recalled)) = false)
    {f : Frame} (hreason : Exit.Reason.ofRaw f.reason = r) :
    deliver (.make id r) f n = (.delivered, handOver (hypervisor n) (.make id r) f n) := by
  have hbadge : (Exit.Badge.make id r).vcpu = id := Exit.Badge.vcpu_make_of_lt (Machine.lt_of_seat ht) r
  rw [deliver, hbadge, Machine.vcpu?_eq, Machine.context?_eq, ht]
  dsimp only [Option.map_some, Seat.resident]
  rw [hfree, hreason]
  simp [hfirst]

/-- **An exit ends alike on both hypervisors.** A simulated machine and one whose exits are
delivered by hand differ in nothing that an exit of a vCPU could tell. The simulated loop takes
the next exit of the vCPU, with the frame that its portal fills; an exit with this frame and the
badge of the vCPU is delivered by hand, which nothing stands in the way of. Then the steps of the
vCPU lead to a state in which the exit has come to the same end on both machines. -/
theorem deliver_agrees (h : Parallel id m n) (hs : m.seats[id]? = some s) {r : Exit.Reason}
    {c : Simulated.Context Unit} {p : Exit.Portal Unit} (hnext : s.context.next? = some (some r, c))
    (hp : c.portals.route? r = some p) (hfirst : s.context.loop.phase = .starting → s.vcpu.started = false) :
    ∃ a m₁, Relation.TransGen (fun m m' => Simulated.Moves m id m') m m₁ ∧
      (deliver (.make id r) (c.filled r p.mask) n).1 = .delivered ∧
      EndsAlike id a m₁ (deliver (.make id r) (c.filled r p.mask) n).2 := by
  obtain ⟨s', t, hs', ht, hst⟩ := h.attends
  cases hs.symm.trans hs'
  obtain ⟨t', ht', hfit⟩ := h.seat hs
  cases ht.symm.trans ht'
  have hfree : (t.context.recallPending && t.vcpu.started && !decide (r = .recalled)) = false := by
    rw [hfit.recalls, hfit.vcpu]
    rcases Simulated.Context.next?_cases hnext with
      ⟨hphase, _⟩ | ⟨_, ⟨_, hr, _⟩ | ⟨_, _, hr, _⟩ | ⟨_, hrecall, _⟩⟩
    · rw [hfirst hphase, Bool.and_false, Bool.false_and]
    · cases hr
    · obtain rfl := Option.some.inj hr
      exact Bool.and_false _
    · rw [hrecall, Bool.false_and, Bool.false_and, Bool.false_and]
  have hreason : Exit.Reason.ofRaw (c.filled r p.mask).reason = r := c.filled_reason r p.mask
  have hbadge : (Exit.Badge.make id r).vcpu = id := Exit.Badge.vcpu_make_of_lt (Machine.lt_of_seat hs) r
  obtain ⟨hanswer, hrouted⟩ := (Parallel.relates id n.tables.vcpus.length).route
    (h.recorded hs hnext p.mask s.registered) (.make id r) (c.filled r p.mask)
  obtain ⟨a, m₁, hreaches, halike⟩ := ends_alike hrouted (Simulated.hypervisor.route id (.make id r)
    (c.filled r p.mask) (m.modifyContext id fun _ => c.recorded r p.mask s.registered)).1
  refine ⟨a, m₁, ?_, ?_, ?_⟩
  · have hmove : Simulated.Moves m id (Simulated.deliver id r c m) :=
      (Simulated.moves_iff_move hs hst.single).mpr (Simulated.move_of_next? hnext)
    rw [Simulated.deliver_given hp hs] at hmove
    exact .head' hmove hreaches
  · rw [deliver_free ht hst.free hfree hreason]
  · rw [deliver_free ht hst.free hfree hreason]
    rw [← hanswer] at halike
    simp only [handOver, hbadge, hreason]
    exact halike

/-- After an answer the machines are ready for the next exit of the vCPU. -/
theorem EndsAlike.parallel {f : Frame} (h : EndsAlike id (.returned (.ok ()) f) m n) : Parallel id m n := by
  obtain ⟨m', n', hparallel, rfl, rfl⟩ := h.concluded
  rw [Machine.modifyContext_eq, Machine.modifyContext_eq]
  refine hparallel.modify (fun s t _ _ hfit => ?_) fun s t _ _ hst => ?_
  · have hkept := Simulated.Context.pass_unlooped ({ s.context with
      registers := s.context.registers.copyGroups f f.mask
      log := s.context.log.modify s.context.loop.place fun d => {d with reply := some f.mask} }.enter .ready)
    refine { hfit with portals := ?_, recalls := ?_, joins := ?_ }
    · exact hfit.portals.trans (congrArg (·.portals) hkept).symm
    · exact hfit.recalls.trans (congrArg (fun c => c.recallPending && !c.portals.isEmpty) hkept).symm
    · exact (congrArg (fun c => c.joinable && c.crashed) hkept).trans hfit.joins
  · have hanswer := Simulated.Context.answer_single hst.single f
    refine ⟨?_, ?_, hst.free⟩
    · exact (congrArg (·.loop.fpu) hanswer).trans hst.unit
    · exact (congrArg (·.others) hanswer).trans hst.single

end Deliveries

end GuestMachine.Stepped
