import GuestMachine.Text.Hex

/-! The floating point unit.

Its state is one image of 512 bytes. The image is no part of a frame: it is saved
from and restored to the unit of the thread that dispatches the exit. The unit
counts both, so that a transfer can be seen to touch it once or not at all. -/
namespace GuestMachine.Register

structure FpuImage where
  bytes : Vector UInt8 512
deriving DecidableEq

namespace FpuImage

def zero : FpuImage := ⟨Vector.replicate 512 0⟩

/-- The bytes given, then zeros; what is beyond the image is dropped. -/
def ofList (bytes : List UInt8) : FpuImage :=
  let given := bytes.toArray
  ⟨Vector.ofFn fun i => given[i.val]?.getD 0⟩

/-- The number in `count` bytes from `start`, the lowest byte first. -/
def number (image : FpuImage) (start count : Nat) : Nat :=
  (List.range count).foldr (fun i n => (image.bytes[start + i]?.getD 0).toNat + 256 * n) 0

/-- The control word, the status word and the vector control register tell two
images apart well enough to be shown. -/
def text (image : FpuImage) : String :=
  "FpuState \x7b fcw: " ++ toString (image.number 0 2)
    ++ ", fsw: " ++ toString (image.number 2 2)
    ++ ", mxcsr: " ++ toString (image.number 24 4) ++ ", .. \x7d"

/-- One byte larger by one; a full byte becomes zero. -/
def bump (image : FpuImage) (i : Nat) : FpuImage :=
  ⟨image.bytes.setIfInBounds i (image.bytes[i]?.getD 0 + 1)⟩

end FpuImage

structure Fpu where
  image : FpuImage := .zero
  saves : Nat := 0
  restores : Nat := 0
deriving DecidableEq

namespace Fpu

def save (u : Fpu) : FpuImage × Fpu := (u.image, {u with saves := u.saves + 1})

def restore (image : FpuImage) (u : Fpu) : Fpu :=
  {u with image := image, restores := u.restores + 1}

end Fpu

end GuestMachine.Register
