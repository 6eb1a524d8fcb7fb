import GuestMachine.Machine.Seats

/-! How a machine works on its hypervisor.

A hypervisor is given by what it does for the machine (`Hypervisor`). On top of that
stand the calls of controllers, the creation and the destruction of vCPUs, the work
of a handler (`exec`), and the handling of one exit from its delivery to the point
where it is answered or waits (`route`).

The hypervisor knows vCPUs by their numbers, and a delivered exit by its badge; only
the registry tells to which vCPU that leads. A vCPU that is at hand, as that of a
handler or one that the machine owns, is known by its place.

A call is one step, and so is a handler's work on an exit: nothing else moves until
the handler is done, but for what its calls themselves set in motion. -/
namespace GuestMachine
open Register

/-- What a hypervisor does for a machine. -/
structure Hypervisor (σ κ φ : Type) where
  install : Exit.VcpuId → Exit.Slot → Mask → Machine σ κ φ → Except Error Unit × Machine σ κ φ
  /-- Starts to deliver exits, the startup exit first. -/
  start : Exit.VcpuId → Machine σ κ φ → Except Error Unit × Machine σ κ φ
  /-- Forces a recall exit, before the vCPU does anything else in the guest. -/
  forceExit : Exit.VcpuId → Machine σ κ φ → Machine σ κ φ
  /-- Gives up what it keeps for a vCPU. -/
  release : Exit.VcpuId → Machine σ κ φ → Except Error Unit × Machine σ κ φ
  /-- The floating point unit of a thread, which is named by the context that it serves. -/
  fpu : Exit.VcpuId → Machine σ κ φ → Fpu
  setFpu : Exit.VcpuId → Fpu → Machine σ κ φ → Machine σ κ φ

namespace Hypervisor
variable {σ κ φ : Type} (h : Hypervisor σ κ φ)

/-! ### Calls -/

/-- Leaves a request: it is posted, then the exit forced, then the vCPU woken. -/
def request (id : Exit.VcpuId) (place : Nat) (r : Request) (m : Machine σ κ φ) : Machine σ κ φ :=
  (h.forceExit id (m.modifyVcpu place (Vcpu.post r))).modifyVcpu place Vcpu.signal

/-- A call to run or to pause a vCPU, given as the vCPU's own part in it. -/
def demand (step : Vcpu → Vcpu × Option Request) (place : Nat) (m : Machine σ κ φ) :
    Machine σ κ φ :=
  match m.vcpu? place with
  | none => m
  | some v =>
    match step v.vcpu with
    | (v', none) => m.modifyVcpu place fun _ => v'
    | (v', some r) => h.request v.id place r (m.modifyVcpu place fun _ => v')

/-- The same by number, for a vCPU that is registered. Its own part may depend on its place. -/
def demandById (step : Nat → Vcpu → Vcpu × Option Request) (id : Exit.VcpuId) (m : Machine σ κ φ) :
    Except Error Unit × Machine σ κ φ :=
  match m.resolve? id with
  | none => (.error (.unknownVcpu id), m)
  | some place => (.ok (), h.demand (step place) place m)

def run (id : Exit.VcpuId) (m : Machine σ κ φ) : Except Error Unit × Machine σ κ φ :=
  h.demandById (fun _ => Vcpu.run false) id m

def pause (id : Exit.VcpuId) (m : Machine σ κ φ) : Except Error Unit × Machine σ κ φ :=
  h.demandById (fun _ => Vcpu.pause false) id m

/-! ### Creation and destruction -/

/-- Installs portals in order, up to the first that fails. -/
def installAll (id : Exit.VcpuId) :
    List (Exit.Slot × Mask) → Machine σ κ φ → Except Error Unit × Machine σ κ φ
  | [], m => (.ok (), m)
  | (slot, mask) :: rest, m =>
    match h.install id slot mask m with
    | (.ok _, m') => installAll id rest m'
    | (.error e, m') => (.error e, m')

/-- Takes the next number, registers the vCPU, installs its portals and starts it. If
that fails the number is used up, and the vCPU is not kept. -/
def create (handler : Handler σ) (memory : σ) (context : κ) (m : Machine σ κ φ) :
    Except Error Exit.VcpuId × Machine σ κ φ :=
  let id := m.nextId
  let (installed, m₁) := h.installAll id (Exit.plan handler.interest) (m.enroll handler memory context)
  let (started, m₂) := match installed with
    | .ok _ => h.start id m₁
    | .error e => (.error e, m₁)
  match started with
  | .ok _ => (.ok id, {m₂ with owned := m₂.owned ++ [m.nextPlace]})
  | .error e => (.error e, m₂.unregister id)

/-- Exits are no longer routed to the vCPU, a blocked exit is woken, and the
hypervisor releases what it keeps. -/
def destroy (place : Nat) (m : Machine σ κ φ) : Except Error Unit × Machine σ κ φ :=
  match m.vcpu? place with
  | none => (.ok (), m)
  | some v => h.release v.id ((m.unregister v.id).modifyVcpu place Vcpu.destroy)

/-- Destroys every one of a list of vCPUs; the first error is kept. -/
def destroyAll : List Nat → Machine σ κ φ → Except Error Unit × Machine σ κ φ
  | [], m => (.ok (), m)
  | place :: rest, m =>
    let (first, m₁) := h.destroy place m
    let (others, m₂) := destroyAll rest m₁
    (match first with
      | .ok _ => others
      | .error e => .error e, m₂)

/-- Destroys every vCPU the machine owns. -/
def shutdown (m : Machine σ κ φ) : Except Error Unit × Machine σ κ φ :=
  h.destroyAll m.owned {m with owned := []}

/-! ### Handlers at work -/

/-- Answers a call of the handler of the vCPU at a place. A call by number is made on the
handler's own thread, so it may turn out to be one to its own vCPU. -/
def perform (place : Nat) (m : Machine σ κ φ) : Call → Reply × Machine σ κ φ
  | .run => (.done, h.demand (Vcpu.run true) place m)
  | .pause => (.done, h.demand (Vcpu.pause true) place m)
  | .remoteRun => (.done, h.demand (Vcpu.run false) place m)
  | .remotePause => (.done, h.demand (Vcpu.pause false) place m)
  | .runVcpu target =>
    let (r, m') := h.demandById (fun p => Vcpu.run (p == place)) target m
    (.result r, m')
  | .pauseVcpu target =>
    let (r, m') := h.demandById (fun p => Vcpu.pause (p == place)) target m
    (.result r, m')
  | .shutdown =>
    let (r, m') := h.shutdown m
    (.result r, m')
  | .probe => (((m.vcpu? place).map fun v => Reply.glimpse v.vcpu.glimpse).getD .done, m)

/-- How a handler ended its work on an exit. -/
structure Outcome (σ : Type) where
  memory : σ
  state : State
  failure : Option Failure

/-- Lets the handler of the vCPU at a place work to its end. -/
def exec (place : Nat) : Program σ → Machine σ κ φ → Outcome σ × Machine σ κ φ
  | .done memory state failure, m => (⟨memory, state, failure⟩, m)
  | .call c next, m =>
    let (r, m') := h.perform place m c
    exec place (next r) m'

/-! ### Exits -/

/-- Calls the handler of a vCPU, which is as given, then gives the state to the guest or
blocks. The exit is handled on a thread, whose floating point unit the guest uses. -/
def dispatch (thread : Exit.VcpuId) (place : Nat) (v : Resident σ) (f : Frame) (m : Machine σ κ φ) :
    Exit.Answer × Machine σ κ φ :=
  let (entering, u) := v.vcpu.enter f (h.fpu thread m)
  let entered := (h.setFpu thread u m).modifyVcpu place fun _ => entering
  let (o, m₁) := h.exec place (v.handler.handle v.memory entering.state) entered
  let left := (m₁.modifyVcpu place (·.leave o.state)).setMemory place o.memory
  match o.failure with
  | some (.error cause) => (.returned (.error (.handler v.id (Exit.Reason.ofRaw f.reason) cause)) f, left)
  | some .panic => (.died, left)
  | none =>
    match left.vcpu? place with
    | none => (.waiting f.cleared, left)
    | some v' =>
      if v'.vcpu.blocked then (.waiting f.cleared, left)
      else
        let (leaving, f', u') := v'.vcpu.transfer f (h.fpu thread left)
        (.returned (.ok ()) f', (h.setFpu thread u' left).modifyVcpu place fun _ => leaving)

/-- Handles an exit of the vCPU at a place. A recall exit that finds a request to run
resumes the guest by itself; every other exit goes to the handler. -/
def handleExit (thread : Exit.VcpuId) (place : Nat) (f : Frame) (m : Machine σ κ φ) :
    Exit.Answer × Machine σ κ φ :=
  match m.vcpu? place with
  | none => (.returned (.ok ()) f.cleared, m)
  | some v =>
    let started := v.vcpu.start
    if Exit.Reason.ofRaw f.reason = .recalled then
      match started.takeRequest with
      | (some .run, taken) =>
        let (resumed, f', u) := taken.resume f (h.fpu thread m)
        (.returned (.ok ()) f', (h.setFpu thread u m).modifyVcpu place fun _ => resumed)
      | (_, taken) => h.dispatch thread place {v with vcpu := taken} f m
    else h.dispatch thread place {v with vcpu := started} f m

/-- Routes a delivered exit by its badge. One whose number no vCPU has, or none any more,
is answered without any transfer. -/
def route (thread : Exit.VcpuId) (badge : Exit.Badge) (f : Frame) (m : Machine σ κ φ) :
    Exit.Answer × Machine σ κ φ :=
  match m.resolve? badge.vcpu with
  | none => (.returned (.ok ()) f.cleared, m)
  | some place => h.handleExit thread place f m

end Hypervisor

end GuestMachine
