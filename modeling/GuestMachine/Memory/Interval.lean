import GuestMachine.Memory.Page

/-! Intervals of addresses.

An interval is not empty and does not wrap around the end of the address space. It
grows at either end by an interval that adjoins it there. -/
namespace GuestMachine.Memory

structure Interval where
  first : Nat
  /-- The last address that belongs to the interval. -/
  last : Nat
deriving DecidableEq

/-- Where one interval lies beside another. -/
inductive Side where
  | before
  | after
deriving DecidableEq

namespace Interval

/-- The interval of `size` addresses from `start`. -/
def make? (start size : Nat) : Option Interval :=
  if 0 < size ∧ start + (size - 1) < addressLimit then some ⟨start, start + (size - 1)⟩ else none

/-- The addresses of an interval. Only those of the whole address space are too many for a
number of 64 bits. -/
def size (i : Interval) : Nat := i.last - i.first + 1

def contains (i : Interval) (address : Nat) : Bool :=
  decide (i.first ≤ address) && decide (address ≤ i.last)

/-- The side of `i` on which `j` follows without a gap. The two ends of the address
space do not adjoin. -/
def adjoins (i j : Interval) : Option Side :=
  if i.last + 1 = j.first ∧ i.last + 1 < addressLimit then some .after
  else if j.last + 1 = i.first ∧ j.last + 1 < addressLimit then some .before
  else none

/-- Grows by an interval that adjoins on a side. -/
def extend (i j : Interval) : Side → Interval
  | .before => {i with first := j.first}
  | .after => {i with last := j.last}

end Interval

end GuestMachine.Memory
