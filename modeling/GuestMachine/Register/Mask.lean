import GuestMachine.Text.Hex

/-! Transfer masks.

A mask says which register groups a frame carries, one bit per group. Bits that
name no group are kept as they are and select nothing. -/
namespace GuestMachine.Register

structure Mask where
  bits : BitVec 32
deriving DecidableEq

namespace Mask

def empty : Mask := ⟨0⟩

def has (m : Mask) (bit : Nat) : Bool := m.bits.getLsbD bit

def single (bit : Nat) : Mask := ⟨BitVec.twoPow 32 bit⟩

def union (m n : Mask) : Mask := ⟨m.bits ||| n.bits⟩

def inter (m n : Mask) : Mask := ⟨m.bits &&& n.bits⟩

/-- The bits of `m` outside `n`. -/
def diff (m n : Mask) : Mask := ⟨m.bits &&& ~~~n.bits⟩

def isEmpty (m : Mask) : Bool := m.bits == 0

def contains (m n : Mask) : Bool := m.bits &&& n.bits == n.bits

def toNat (m : Mask) : Nat := m.bits.toNat

def ofNat (n : Nat) : Mask := ⟨BitVec.ofNat 32 n⟩

/-! ### Bit by bit -/

theorem ext_has {m n : Mask} (h : ∀ bit < 32, m.has bit = n.has bit) : m = n := by
  cases m; cases n
  congr 1
  exact BitVec.eq_of_getLsbD_eq h

@[simp] theorem has_empty (bit : Nat) : empty.has bit = false := by
  simp [has, empty]

@[simp] theorem has_union (m n : Mask) (bit : Nat) :
    (m.union n).has bit = (m.has bit || n.has bit) := by
  simp [has, union]

@[simp] theorem has_inter (m n : Mask) (bit : Nat) :
    (m.inter n).has bit = (m.has bit && n.has bit) := by
  simp [has, inter]

theorem has_diff (m n : Mask) {bit : Nat} (hbit : bit < 32) :
    (m.diff n).has bit = (m.has bit && !n.has bit) := by
  simp [has, diff, hbit]

theorem has_single (i bit : Nat) : (single i).has bit = (decide (bit < 32) && decide (i = bit)) := by
  simp [has, single, BitVec.getLsbD_twoPow, Bool.and_comm]
  by_cases h : i = bit <;> simp [h]

end Mask

end GuestMachine.Register
