import GuestMachine.Error
import GuestMachine.Exit.Portal
import GuestMachine.Register.State
import GuestMachine.Vcpu.Lifecycle

/-! Exit handlers.

A handler is told of an exit with the state of its vCPU. While it works it may call
its own vCPU, from its own thread or by another one that it waits for, and others
by their numbers; in the end it leaves a state, and succeeds, fails or panics. It keeps a
memory `σ` of its own from one exit to the next, which stands for all that it
knows: any sequence of behaviours is the behaviour of some handler. -/
namespace GuestMachine

/-- What a handler can ask for while it works. -/
inductive Call where
  /-- Run or pause its own vCPU, on the dispatching thread. -/
  | run
  | pause
  /-- The same by another thread, which ends before the handler goes on. -/
  | remoteRun
  | remotePause
  /-- Run or pause a vCPU by its number. -/
  | runVcpu (id : Exit.VcpuId)
  | pauseVcpu (id : Exit.VcpuId)
  /-- Destroy every vCPU. -/
  | shutdown
  /-- Look at its own vCPU. -/
  | probe
deriving DecidableEq

/-- What a handler sees of its vCPU. -/
structure Glimpse where
  blocked : Bool
  started : Bool
  dispatching : Bool
  request : Option Request
deriving DecidableEq

def Vcpu.glimpse (v : Vcpu) : Glimpse := ⟨v.blocked, v.started, v.dispatching, v.request⟩

inductive Reply where
  | done
  | result (r : Except Error Unit)
  | glimpse (g : Glimpse)

/-- How a handler fails an exit. -/
inductive Failure where
  /-- With an error, which the exit returns. -/
  | error (cause : String)
  /-- It panics, and takes the thread that delivers the exit down with it. -/
  | panic
deriving DecidableEq

/-- A handler at work on one exit. -/
inductive Program (σ : Type) where
  /-- Leaves a memory and a state, and may fail. What has been edited stays edited, however the
  handler ends. -/
  | done (memory : σ) (state : Register.State) (failure : Option Failure)
  | call (c : Call) (next : Reply → Program σ)

structure Handler (σ : Type) where
  interest : Exit.Interest
  handle : σ → Register.State → Program σ

/-- The interest of a handler that declares none: every group of every exit. -/
def Exit.everything : Exit.Interest := fun _ => some .empty

end GuestMachine
