import GuestMachine.Exit.Badge
import GuestMachine.Register.Transfer
import GuestMachine.Vcpu.Semaphore

/-! A vCPU between its exits: run, pause, recall and block.

Exits are handled on the vCPU's own thread. Any other thread that wants the vCPU to
run or pause leaves a request and has the hypervisor force a recall exit; the vCPU
acts on the request when it takes that exit. One request is remembered, the last.

The operations here are the steps of one vCPU by itself. A step that needs its
hypervisor or its handler ends where they are called. -/
namespace GuestMachine
open Register

/-- What another thread asks of a vCPU. -/
inductive Request where
  | pause
  | run
deriving DecidableEq

/-- The name of what is asked, or of the lack of it. -/
def Request.label : Option Request → String
  | none => "None"
  | some .pause => "Pause"
  | some .run => "Run"

structure Vcpu where
  state : State := {}
  /-- Wake signals for a blocked exit. -/
  signals : Semaphore := {}
  /-- Left by another thread and not yet taken by a recall exit. -/
  request : Option Request := none
  /-- Waits to be resumed, or will at the end of this exit. -/
  blocked : Bool := false
  /-- Has taken its first exit. -/
  started : Bool := false
  destroyed : Bool := false
  /-- Its handler is being called right now. -/
  dispatching : Bool := false

namespace Vcpu

/-! ### Calls -/

/-- A call to run, made on the dispatching thread (`own`) or on another one. In its
own handler the vCPU just does not block at the end of the exit. From elsewhere a
request is due, unless the vCPU runs already and none is pending. A vCPU that has
not started is resumed by its first exit. -/
def run (own : Bool) (v : Vcpu) : Vcpu × Option Request :=
  if !v.started then (v, none)
  else if own then ({v with blocked := false}, none)
  else if !v.blocked && v.request.isNone then (v, none)
  else (v, some .run)

/-- A call to pause. In its own handler a vCPU that will block needs nothing more;
one that the handler has resumed is paused by its next exit. -/
def pause (own : Bool) (v : Vcpu) : Vcpu × Option Request :=
  if own && v.blocked then (v, none) else (v, some .pause)

/-- A request takes the place of the one before it. -/
def post (r : Request) (v : Vcpu) : Vcpu := {v with request := some r}

def signal (v : Vcpu) : Vcpu := {v with signals := v.signals.up}

/-- Wakes a blocked exit for good. -/
def destroy (v : Vcpu) : Vcpu := {v with destroyed := true}.signal

/-! ### Exits -/

def start (v : Vcpu) : Vcpu := {v with started := true}

/-- Gives the charged state to the guest; nothing stays charged. -/
def transfer (v : Vcpu) (f : Frame) (u : Fpu) : Vcpu × Frame × Fpu :=
  let (f', u') := v.state.store f u
  ({v with state := v.state.discharged}, f', u')

/-- A recall exit takes the request and every wake signal. The reason becomes the
recall's only if the vCPU was running: a blocked one was stopped by another exit. -/
def takeRequest (v : Vcpu) : Option Request × Vcpu :=
  (v.request,
    { v with
      state := if v.blocked then v.state else {v.state with reason := Exit.Reason.recalled}
      signals := v.signals.drain.2
      request := none })

/-- Resumes the guest from a recall exit. State that waited in a blocked vCPU goes
to the guest; a running one has none to give. -/
def resume (v : Vcpu) (f : Frame) (u : Fpu) : Vcpu × Frame × Fpu :=
  if v.blocked then {v with blocked := false}.transfer f u else (v, f.cleared, u)

/-- The exit goes to the handler, which starts with the groups of the frame. Unless
the handler says otherwise, the vCPU blocks after it. -/
def enter (v : Vcpu) (f : Frame) (u : Fpu) : Vcpu × Fpu :=
  let (s, u') := v.state.load f u
  ({v with state := s, blocked := true, dispatching := true}, u')

/-- The handler is done and leaves a state. -/
def leave (v : Vcpu) (s : State) : Vcpu := {v with state := s, dispatching := false}

/-- Takes a signal in a blocked exit. The exit ends if the vCPU was destroyed or a
request waits; a signal without either is stale, and the exit goes on waiting. -/
def wake? (v : Vcpu) : Option (Bool × Vcpu) :=
  v.signals.down?.map fun rest => (v.destroyed || v.request.isSome, {v with signals := rest})

/-- What is shown of a vCPU. -/
def text (id : Exit.VcpuId) (v : Vcpu) : String :=
  "Vcpu \x7b id: VcpuId(" ++ toString id ++ "), blocked: " ++ toString v.blocked
    ++ ", remote: " ++ Request.label v.request
    ++ ", started: " ++ toString v.started ++ ", .. \x7d"

end Vcpu

end GuestMachine
