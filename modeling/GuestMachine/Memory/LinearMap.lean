import GuestMachine.Memory.Page

/-! The host's map of guest memory.

A linear map reserves a range of host addresses. Slices of it are attached one by one;
a slice is zero where it has not been written since. Slices that overlap share their
bytes. It is for the host to say where the range lies, and whether it reserves and backs
what is asked for (`Host`). -/
namespace GuestMachine.Memory

/-! ### The host -/

/-- What the host answers when it is asked for memory. If it refuses, it says why. -/
structure Host where
  /-- Reserves a number of bytes of address space, and gives the first address. -/
  reserve : Nat → Except String Nat
  /-- Backs a number of bytes with memory, from an address on that has been reserved. -/
  back : (address size : Nat) → Except String Unit

namespace Host

/-- Of what has been reserved, the host backs any whole pages. -/
def Backs (h : Host) (base size : Nat) : Prop :=
  ∀ offset length, isAligned offset = true → isAligned length = true → 0 < length → offset + length ≤ size →
    h.back (base + offset) length = .ok ()

/-- A host that reserves address space from one address on, and less than 2^62 bytes of it. It backs
all that begins at a page and is not empty. -/
def plain (base : Nat) : Host where
  reserve size := if size < 0x4000000000000000 then .ok base else .error "Cannot allocate memory (os error 12)"
  back address size :=
    if isAligned address && size ≠ 0 then .ok () else .error "Invalid argument (os error 22)"

theorem plain_backs {base : Nat} (h : isAligned base = true) (size : Nat) : (plain base).Backs base size := by
  intro offset length hoffset _ hpos _
  rw [isAligned_iff] at h hoffset
  have haligned : isAligned (base + offset) = true := by
    rw [isAligned_iff, Nat.add_mod, h, hoffset, Nat.add_zero, Nat.zero_mod]
  simp [plain, haligned, Nat.ne_of_gt hpos]

end Host

/-! ### The map -/

structure LinearMap where
  base : Nat
  size : Nat
  host : Host
  /-- The byte at a host address. -/
  contents : Nat → UInt8 := fun _ => 0

structure Slice where
  index : Nat
  base : Nat
  size : Nat
deriving DecidableEq

namespace Slice

def contains (s : Slice) (address : Nat) : Bool :=
  decide (s.base ≤ address) && decide (address < s.base + s.size)

end Slice

namespace LinearMap

/-- Reserves `size` bytes where the host gives them. -/
def reserve (host : Host) (size : Nat) : Except Error LinearMap :=
  if size = 0 then .error (.allocationFailed "size must be greater than 0")
  else
    match host.reserve size with
    | .ok base => .ok {base, size, host}
    | .error why =>
      .error (.allocationFailed ("reserving linear map of " ++ Text.hex size ++ " bytes failed: " ++ why))

/-- Zeroes a range of host addresses. -/
def zero (m : LinearMap) (start length : Nat) : LinearMap :=
  {m with contents := fun a => if start ≤ a ∧ a < start + length then 0 else m.contents a}

/-- Backs a range of the map with fresh memory, in whole pages. -/
def attach (m : LinearMap) (index offset size : Nat) : Except Error (Slice × LinearMap) :=
  if m.size < offset + size then .error (.outOfRange (m.base + offset))
  else
    match m.host.back (m.base + offset) size with
    | .ok _ => .ok (⟨index, m.base + offset, size⟩, m.zero (m.base + offset) (pagesOfBytes size * pageSize))
    | .error why => .error (.allocationFailed ("attaching slice " ++ toString index ++ " failed: " ++ why))

/-! The sum of an offset and a length is taken to be less than 2^64. -/

/-- The bytes of a slice from an offset in it. -/
def read (m : LinearMap) (s : Slice) (offset length : Nat) : Except Error (List UInt8) :=
  if s.size < offset + length then .error (.outOfRange (s.base + (offset + length)))
  else .ok ((List.range length).map fun i => m.contents (s.base + offset + i))

/-- Puts bytes into a slice at an offset in it. -/
def write (m : LinearMap) (s : Slice) (offset : Nat) (data : List UInt8) : Except Error LinearMap :=
  if s.size < offset + data.length then .error (.outOfRange (s.base + (offset + data.length)))
  else
    let start := s.base + offset
    let bytes := data.toArray
    .ok { m with contents := fun a =>
      if start ≤ a ∧ a < start + bytes.size then bytes[a - start]?.getD 0 else m.contents a }

def text (m : LinearMap) : String :=
  "LinearMap \x7b base: VmmAddr(" ++ toString m.base ++ "), size: " ++ toString m.size ++ " \x7d"

end LinearMap

end GuestMachine.Memory
