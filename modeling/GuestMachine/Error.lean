import GuestMachine.Exit.Badge

/-! What an operation of the machine can fail with.

An error names its cause; `message` is the one place where its wording is kept. -/
namespace GuestMachine

inductive Error where
  /-- An address, a page id or a count of pages outside its range. -/
  | outOfRange (value : Nat)
  | allocationFailed (detail : String)
  | unknownVcpu (id : Exit.VcpuId)
  /-- The exit handler of a vCPU gave up on an exit, with a reason of its own. -/
  | handler (id : Exit.VcpuId) (reason : Exit.Reason) (cause : String)
  | hypervisor (detail : String)
  | invalidConfig (detail : String)
  | io (detail : String)
deriving DecidableEq

namespace Error

def message : Error → String
  | outOfRange value => "address or page id out of range: " ++ Text.hex value
  | allocationFailed detail => "guest memory allocation failed: " ++ detail
  | unknownVcpu id => "unknown vCPU: " ++ toString id
  | handler id reason _ =>
    "exit handler of vCPU " ++ toString id ++ " failed on exit reason " ++ reason.text
  | hypervisor detail => "hypervisor error: " ++ detail
  | invalidConfig detail => "invalid memory configuration: " ++ detail
  | io detail => "I/O error: " ++ detail

/-- The error beneath this one, where there is one. -/
def cause? : Error → Option String
  | handler _ _ cause => some cause
  | io detail => some detail
  | _ => none

def isOutOfRange : Error → Bool
  | outOfRange _ => true
  | _ => false

def isAllocationFailed : Error → Bool
  | allocationFailed _ => true
  | _ => false

end Error

/-- A result of two steps is one of the second on a result of the first. -/
theorem bind_eq_ok_iff {α β : Type} {x : Except Error α} {f : α → Except Error β} {b : β} :
    (x >>= f) = .ok b ↔ ∃ a, x = .ok a ∧ f a = .ok b := by
  cases x <;> simp [bind, Except.bind]

end GuestMachine
