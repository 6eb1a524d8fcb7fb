import GuestMachine.Text.Hex

/-! Why control came back from the guest.

A reason is one byte. Two reasons are the machine's own: a vCPU's first exit and
the exit that is forced on it so that it looks at a request. -/
namespace GuestMachine.Exit

abbrev Reason := UInt8

namespace Reason

/-- First exit of a vCPU that has just been started. -/
def startup : Reason := 0xfe

/-- Exit forced on a vCPU to make it see a request. -/
def recalled : Reason := 0xff

/-- The reason in a frame's 32-bit field is its low byte. -/
def ofRaw (raw : UInt32) : Reason := raw.toUInt8

def raw (r : Reason) : UInt32 := r.toUInt32

/-- Every reason, in order. -/
def all : List Reason := (List.range 256).map Nat.toUInt8

def text (r : Reason) : String :=
  if r = startup then "startup"
  else if r = recalled then "recall"
  else Text.hex r.toNat

/-- Every byte is in the list. -/
theorem mem_all (r : Reason) : r ∈ all := by
  refine List.mem_map.2 ⟨r.toNat, List.mem_range.2 (UInt8.toNat_lt r), ?_⟩
  exact UInt8.ofNat_toNat

end Reason

end GuestMachine.Exit
