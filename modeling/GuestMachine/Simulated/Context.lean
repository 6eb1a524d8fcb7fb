import GuestMachine.Exit.Portal
import GuestMachine.Register.Fpu

/-! A simulated vCPU of a guest.

A dispatch loop plays the part of the hypervisor: it delivers the startup exit, then
recalls and injected exits as they come, a pending recall before anything else. An
exit takes the groups of its portal's mask from the guest's registers and gives back
those of the mask in the answer. Every delivered exit is logged.

One loop is launched for a vCPU as a rule. Each further launch adds a loop, with its
own startup exit and its own floating point unit; the loops share all else. Each has a
thread, and which of them comes first is the scheduler's choice: the order in which
they are kept is that of a scheduler which lets the one go first that has waited
longest. A turn lasts from the taking of an exit to its answer or its wait, and no other
loop of the vCPU moves within it. -/
namespace GuestMachine.Simulated
open Register

/-- One delivered exit. -/
structure Delivery where
  reason : Exit.Reason
  /-- What the portal filled in. -/
  delivered : Mask
  /-- What was given back, once the exit has been answered. -/
  reply : Option Mask := none
  /-- Whether there was a vCPU for it. -/
  routed : Bool := true
deriving DecidableEq

/-- The exits of a log that are new since an older log, or have got their reply since,
with their places. -/
def changes (old new : List Delivery) : List (Nat × Delivery) :=
  ((List.range new.length).zip new).filter fun (i, d) =>
    match old[i]? with
    | none => true
    | some d' => d'.reply.isNone && d.reply.isSome

/-- Where a dispatch loop is. -/
inductive Phase where
  /-- It has not been launched, or has ended. -/
  | off
  /-- The startup exit is next. -/
  | starting
  /-- Between two exits. -/
  | ready
  /-- An exit waits inside its portal. -/
  | waiting (frame : Frame)
deriving DecidableEq

/-- A dispatch loop, which has a thread to itself. -/
structure Loop where
  phase : Phase := .off
  /-- The floating point unit of the thread. -/
  fpu : Fpu := {}
  /-- The place in the log of the exit delivered last. -/
  place : Nat := 0
  /-- The loop was launched last, so that a release joins its thread. -/
  attached : Bool := false
deriving DecidableEq

structure Context (ε : Type) where
  portals : Exit.Portals ε := {}
  /-- The registers of the guest. -/
  registers : Frame := {}
  /-- The loop whose turn it is. -/
  loop : Loop := {}
  /-- Further loops that have not ended, in the order of their turns. Any of them may be the
  next to move, not just the first. -/
  others : List Loop := []
  /-- Injected exits, in order. -/
  queue : List Exit.Reason := []
  recallPending : Bool := false
  stop : Bool := false
  /-- Delivered exits, oldest first. -/
  log : List Delivery := []
  /-- A loop has ended. -/
  stopped : Bool := false
  /-- The result of the loop that ended last, until it is taken. -/
  outcome : Option (Except Error Unit) := none
  /-- The thread launched last has not been joined. -/
  joinable : Bool := false
  /-- The thread launched last died inside a portal. -/
  crashed : Bool := false

namespace Context
variable {ε : Type}

/-! ### From outside -/

/-- There is no context with this number. -/
def unknown (id : Nat) : Error := .hypervisor ("no execution context for vCPU " ++ toString id)

/-- The loops that have not ended. -/
def loops (c : Context ε) : List Loop :=
  if c.loop.phase = .off then c.others else c.loop :: c.others

/-- Starts a dispatch loop, on a new thread whose floating point unit is zero. The
loops that are there already go on, at their own pace. -/
def launch (c : Context ε) : Context ε :=
  { c with
    loop := {phase := .starting, attached := true}
    others := c.loops.map fun l => {l with attached := false}
    joinable := true
    crashed := false }

def inject (c : Context ε) (r : Exit.Reason) : Context ε := {c with queue := c.queue ++ [r]}

def requestRecall (c : Context ε) : Context ε := {c with recallPending := true}

/-- Tells the loops to stop and joins the thread launched last, which fails if the
thread died. -/
def release (id : Exit.VcpuId) (c : Context ε) : Except Error Unit × Context ε :=
  (if c.joinable && c.crashed then
      .error (.hypervisor ("dispatch thread of vCPU " ++ toString id ++ " panicked"))
    else .ok (),
    {c with stop := true, joinable := false})

/-- The result of a loop that has ended, once. -/
def takeOutcome (c : Context ε) : Option (Except Error Unit) × Context ε :=
  if c.stopped then (c.outcome, {c with outcome := none}) else (none, c)

def replies (c : Context ε) : Nat := (c.log.filter (·.reply.isSome)).length

/-! ### The loop whose turn it is -/

/-- Moves the loop whose turn it is on to another phase. -/
def enter (c : Context ε) (p : Phase) : Context ε := {c with loop := {c.loop with phase := p}}

/-- What the loop does next: deliver an exit, or end. Nothing, while there is no loop,
no exit to deliver or one that waits. -/
def next? (c : Context ε) : Option (Option Exit.Reason × Context ε) :=
  match c.loop.phase with
  | .off | .waiting _ => none
  | .starting => some (some .startup, c.enter .ready)
  | .ready =>
    if c.stop then some (none, c)
    else if c.recallPending then some (some .recalled, {c with recallPending := false})
    else
      match c.queue with
      | r :: rest => some (some r, {c with queue := rest})
      | [] => none

/-- The portal of an exit and the frame for it, filled from the registers. An exit
without a portal is dropped. -/
def deliver? (c : Context ε) (r : Exit.Reason) (routed : Bool) :
    Option (Exit.Portal ε × Frame × Context ε) :=
  (c.portals.route? r).map fun p =>
    (p, {(Frame.forExit r.raw).copyGroups c.registers p.mask with mask := p.mask},
      { c with
        log := c.log ++ [⟨r, p.mask, none, routed⟩]
        loop := {c.loop with place := c.log.length} })

/-- The next loop in line has its turn; one that has ended leaves the line. -/
def pass (c : Context ε) : Context ε :=
  match c.others with
  | [] => c
  | l :: rest =>
    {c with loop := l, others := if c.loop.phase = .off then rest else rest ++ [c.loop]}

/-- The context as it is, and after each of the next passes. -/
def passes : Nat → Context ε → List (Context ε)
  | 0, c => [c]
  | n + 1, c => c :: passes n c.pass

/-- The context at the turn of each loop, in order. -/
def turns (c : Context ε) : List (Context ε) := passes c.others.length c

/-- The exit waits inside its portal. -/
def hold (c : Context ε) (f : Frame) : Context ε := (c.enter (.waiting f)).pass

/-- The guest goes on with the groups that the answer gives back. -/
def answer (c : Context ε) (f : Frame) : Context ε :=
  ({ c with
    registers := c.registers.copyGroups f f.mask
    log := c.log.modify c.loop.place fun d => {d with reply := some f.mask} }.enter .ready).pass

/-- The loop ends with a result. -/
def finish (c : Context ε) (r : Except Error Unit) : Context ε :=
  ({c with stopped := true, outcome := some r}.enter .off).pass

/-- The loop's thread dies. -/
def crash (c : Context ε) : Context ε :=
  ({c with crashed := c.crashed || c.loop.attached}.enter .off).pass

/-- What becomes of the loop with the answer to its exit. -/
def conclude (c : Context ε) : Exit.Answer → Context ε
  | .waiting f => c.hold f
  | .returned (.ok _) f => c.answer f
  | .returned (.error e) _ => c.finish (.error e)
  | .died => c.crash

/-- Delivers an exit of the vCPU with a number: its portal's entry is called with the badge and
the frame, and with all that it may work on, `τ`, of which the context is a part. -/
def deliver {τ : Type} (change : (Context ε → Context ε) → τ → τ)
    (enter : ε → Exit.Badge → Frame → τ → Exit.Answer × τ) (id : Exit.VcpuId) (r : Exit.Reason) (routed : Bool)
    (c : Context ε) (t : τ) : τ :=
  match c.deliver? r routed with
  | none => change (fun _ => c) t
  | some (p, f, c') =>
    let (a, t') := enter p.entry (.make id r) f (change (fun _ => c') t)
    change (·.conclude a) t'

end Context

end GuestMachine.Simulated
