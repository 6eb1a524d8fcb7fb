import GuestMachine.Machine.Dispatch
import GuestMachine.Simulated.Context

/-! A machine on the simulated hypervisor.

Every vCPU has a dispatch loop of its own. `advance` lets a loop of one vCPU make its
next step; a machine is at rest when no loop can. What happens between two calls is any
sequence of such steps, and `settle` takes them until nothing moves. -/
namespace GuestMachine.Simulated
open Register

/-- Whether vCPUs wait to be launched after their creation. -/
structure Setting where
  deferred : Bool := false

abbrev State (σ : Type) := Machine σ (Context Unit) Setting

variable {σ : Type}

/-- A machine without vCPUs. -/
def empty (deferred : Bool) : State σ := {shared := ⟨deferred⟩}

def hypervisor : Hypervisor σ (Context Unit) Setting where
  install id slot mask m :=
    (.ok (), m.modifyContext id fun c => {c with portals := c.portals.install slot ⟨mask, ()⟩})
  start id m := (.ok (), if m.shared.deferred then m else m.modifyContext id Context.launch)
  forceExit id m := m.modifyContext id Context.requestRecall
  release id m :=
    match m.context? id with
    | none => (.error (Context.unknown id), m)
    | some c =>
      let (r, c') := c.release id
      (r, m.modifyContext id fun _ => c')
  fpu thread m := ((m.context? thread).map (·.loop.fpu)).getD {}
  setFpu thread u m := m.modifyContext thread fun c => {c with loop := {c.loop with fpu := u}}

/-- Does something with the context of a vCPU, whether exits still reach it or not. -/
def withContext {α : Type} (id : Exit.VcpuId)
    (f : Context Unit → Except Error α × Context Unit) (m : State σ) : Except Error α × State σ :=
  match m.context? id with
  | none => (.error (Context.unknown id), m)
  | some c =>
    let (r, c') := f c
    (r, m.modifyContext id fun _ => c')

/-- Delivers an exit through its portal. Every portal leads to the registry, which finds the
vCPU by the badge; the exit is handled on the loop's own thread. -/
def deliver (id : Exit.VcpuId) (r : Exit.Reason) (c : Context Unit) (m : State σ) : State σ :=
  c.deliver (fun f m => m.modifyContext id f) (fun _ badge f m => hypervisor.route id badge f m) id r
    (m.resolve? (Exit.Badge.make id r).vcpu).isSome m

/-- The next step of a loop of a context, which is as at its turn, if the loop has one. An exit
that waits does so in the vCPU that it has been routed to, which is the one of the same number
(`Machine.resolve?_make`). -/
def move (m : State σ) (id : Exit.VcpuId) (c : Context Unit) : Option (State σ) :=
  match c.loop.phase with
  | .waiting f =>
    (m.vcpu? id).bind fun v => v.vcpu.wake?.map fun (ends, v') =>
      (m.modifyVcpu id fun _ => v').modifyContext id fun _ => if ends then c.answer f else c
  | _ =>
    c.next?.map fun (next, c') =>
      match next with
      | none => m.modifyContext id fun _ => c'.finish (.ok ())
      | some r => deliver id r c' m

/-- The next step of a vCPU: that of the first of its loops, by turns, that has one. -/
def advance (m : State σ) (id : Exit.VcpuId) : Option (State σ) :=
  (m.context? id).bind fun c => c.turns.findSome? (move m id)

/-- Nothing moves. -/
def AtRest (m : State σ) : Prop := ∀ id, advance m id = none

/-- The first vCPU that can move does, at most `steps` times. -/
def settle : Nat → State σ → State σ
  | 0, m => m
  | steps + 1, m =>
    match (m.tables.contexts.map Prod.fst).findSome? (advance m) with
    | none => m
    | some m' => settle steps m'

end GuestMachine.Simulated
