import GuestMachine.Machine.Dispatch

/-! A hypervisor whose exits are delivered by hand.

No exit happens by itself: each one is delivered when it is asked for, on a thread of
its own, and may then wait inside its vCPU. A recall sets a flag. With prompt recalls
it also delivers the recall exit at once, to a vCPU that has started and takes no
exit at the moment; the exit has returned or waits before the recall is over. An exit
that is to wait first takes the signals it finds; one that is signalled while it waits
wakes when all else has come to rest (`settle`). All vCPUs share one floating point
unit. -/
namespace GuestMachine.Stepped
open Register

/-- What is kept for one vCPU. -/
structure Context where
  portals : Exit.Portals Unit := {}
  /-- The vCPU has been started, which is the end of its creation. -/
  created : Bool := false
  recallPending : Bool := false
  /-- An exit is inside the vCPU and does not wait. -/
  delivering : Bool := false
  /-- The frame of an exit that waits inside the vCPU. -/
  waiting : Option Frame := none
  /-- The exits that have returned, oldest first. -/
  returned : List (Except Error Unit × Frame) := []

/-- What is kept for all vCPUs. -/
structure Setting where
  fpu : Fpu := {}
  promptRecall : Bool := false
  /-- Their release fails. -/
  unreleasable : List Exit.VcpuId := []
  /-- Installing a portal there fails. -/
  refusedSlot : Option Exit.Slot := none
  refusesStart : Bool := false

abbrev State (σ : Type) := Machine σ Context Setting

variable {σ : Type}

/-! ### Primitives -/

def install (id : Exit.VcpuId) (slot : Exit.Slot) (mask : Mask) (m : State σ) :
    Except Error Unit × State σ :=
  if m.shared.refusedSlot = some slot then
    (.error (.hypervisor ("cannot install portal for " ++ toString id)), m)
  else
    (.ok (), m.modifyContext id fun c => {c with portals := c.portals.install slot ⟨mask, ()⟩})

def start (id : Exit.VcpuId) (m : State σ) : Except Error Unit × State σ :=
  if m.shared.refusesStart then (.error (.hypervisor ("cannot start " ++ toString id)), m)
  else (.ok (), m.modifyContext id fun c => {c with created := true})

def release (id : Exit.VcpuId) (m : State σ) : Except Error Unit × State σ :=
  (if m.shared.unreleasable.contains id then .error (.hypervisor ("cannot destroy " ++ toString id))
    else .ok (), m)

/-- A vCPU without a portal cannot be recalled. -/
def flag (id : Exit.VcpuId) (m : State σ) : State σ :=
  m.modifyContext id fun c => {c with recallPending := c.recallPending || !c.portals.isEmpty}

/-- The hypervisor with a given way to force exits. -/
def withForce (force : Exit.VcpuId → State σ → State σ) : Hypervisor σ Context Setting where
  install := install
  start := start
  forceExit := force
  release := release
  fpu := fun _ m => m.shared.fpu
  setFpu := fun _ u m => {m with shared := {m.shared with fpu := u}}

/-- An exit that waits takes signals until one ends the wait or none is left. -/
def takeSignals : Nat → Vcpu → Context → Vcpu × Context
  | 0, v, c => (v, c)
  | n + 1, v, c =>
    match c.waiting, v.wake? with
    | some f, some (true, v') => (v', {c with waiting := none, returned := c.returned ++ [(.ok (), f)]})
    | some _, some (false, v') => takeSignals n v' c
    | _, _ => (v, c)

/-- Has the exit that waits for a number take the signals it can. It waits in the vCPU of that
number. -/
def wake (id : Exit.VcpuId) (m : State σ) : State σ :=
  match m.vcpu? id, m.context? id with
  | some v, some c =>
    let (v', c') := takeSignals v.vcpu.signals.pending v.vcpu c
    (m.modifyVcpu id fun _ => v').modifyContext id fun _ => c'
  | _, _ => m

/-- Keeps where an exit ends. One that is to wait takes the signals that are there already. -/
def conclude (id : Exit.VcpuId) (m : State σ) : Exit.Answer → State σ
  | .returned r f =>
    m.modifyContext id fun c => {c with delivering := false, returned := c.returned ++ [(r, f)]}
  | .waiting f => wake id (m.modifyContext id fun c => {c with delivering := false, waiting := some f})
  | .died => m.modifyContext id fun c => {c with delivering := false}

/-- Hands an exit to the registry with its badge, and keeps where it ends. A recall exit clears
the flag. -/
def handOver (h : Hypervisor σ Context Setting) (badge : Exit.Badge) (f : Frame) (m : State σ) :
    State σ :=
  let id := badge.vcpu
  let answers := Exit.Reason.ofRaw f.reason = .recalled
  let m₁ := m.modifyContext id fun c =>
    {c with recallPending := c.recallPending && !answers, delivering := true}
  let (a, m₂) := h.route id badge f m₁
  conclude id m₂ a

/-- The frame of an exit that carries zero registers. -/
def bareFrame (c : Context) (r : Exit.Reason) : Option Frame :=
  (c.portals.route? r).map fun p => {Frame.forExit r.raw with mask := p.mask}

/-- A vCPU that takes no exit at the moment and can be sent one. -/
def idle (v : Vcpu) (c : Context) : Bool :=
  !c.delivering && c.waiting.isNone && v.started && !v.destroyed

/-- Recalls with at most `depth` recall exits inside one another. Each is inside a
vCPU of its own, so the number of vCPUs is depth enough. -/
def forceExit : Nat → Exit.VcpuId → State σ → State σ
  | 0, id, m => flag id m
  | depth + 1, id, m =>
    let m' := flag id m
    match m'.vcpu? id, m'.context? id with
    | some v, some c =>
      if m'.shared.promptRecall && idle v.vcpu c then
        match bareFrame c .recalled with
        | none => m'
        | some f => handOver (withForce (forceExit depth)) (.make id .recalled) f m'
      else m'
    | _, _ => m'

/-- The hypervisor of a machine. -/
def hypervisor (m : State σ) : Hypervisor σ Context Setting := withForce (forceExit m.tables.vcpus.length)

/-- The creation of the vCPU has not failed. -/
def isCreated (m : State σ) (id : Exit.VcpuId) : Bool :=
  ((m.context? id).map (·.created)).getD false

/-! ### Deliveries -/

/-- What becomes of an exit that is to be delivered. -/
inductive Delivery where
  | noPortal
  /-- Another exit waits inside the vCPU. -/
  | busy
  /-- A recall has to be delivered before it. -/
  | recallFirst
  | delivered
deriving DecidableEq

/-- Delivers an exit, if nothing stands in its way. -/
def deliver (badge : Exit.Badge) (f : Frame) (m : State σ) : Delivery × State σ :=
  match m.vcpu? badge.vcpu, m.context? badge.vcpu with
  | some v, some c =>
    if c.waiting.isSome then (.busy, m)
    else if c.recallPending && v.vcpu.started && Exit.Reason.ofRaw f.reason ≠ .recalled then (.recallFirst, m)
    else (.delivered, handOver (hypervisor m) badge f m)
  | _, _ => (.noPortal, m)

/-- Lets every exit that can move do so. -/
def settle (m : State σ) : State σ :=
  m.tables.contexts.foldl (fun m x => wake x.1 m) m

end GuestMachine.Stepped
