/-! Counting semaphores.

A vCPU that is blocked waits for a signal, and others leave signals for it. Signals
are counted, not merged; taking one needs one to be there. -/
namespace GuestMachine

structure Semaphore where
  pending : Nat := 0
deriving DecidableEq

namespace Semaphore

def up (s : Semaphore) : Semaphore := ⟨s.pending + 1⟩

/-- Takes one signal; with none queued the caller has to wait. -/
def down? (s : Semaphore) : Option Semaphore :=
  match s.pending with
  | 0 => none
  | n + 1 => some ⟨n⟩

/-- Takes every queued signal at once, and says how many there were. -/
def drain (s : Semaphore) : Nat × Semaphore := (s.pending, ⟨0⟩)

end Semaphore

end GuestMachine
