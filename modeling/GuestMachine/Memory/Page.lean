import GuestMachine.Error

/-! Pages, their numbers and their protection.

Addresses are numbers below 2^64, in the host's space or in the guest's. Memory is
handed out and mapped by pages of 4096 bytes. A page id names a page of the pool by
its chunk of 512 pages and its place in the chunk; chunk zero names no page. -/
namespace GuestMachine.Memory

def pageSize : Nat := 4096

/-- Addresses are below this. -/
def addressLimit : Nat := UInt64.size

/-- Pages in a chunk, and the first page id that names a page. -/
def chunkPages : Nat := 512

/-- The bytes of a number of pages, as long as they can be counted in an address. -/
def bytesOfPages (pages : Nat) : Except Error Nat :=
  if pages * pageSize < addressLimit then .ok (pages * pageSize) else .error (.outOfRange pages)

/-- The pages it takes to hold a number of bytes. -/
def pagesOfBytes (bytes : Nat) : Nat := (bytes + (pageSize - 1)) / pageSize

def isAligned (address : Nat) : Bool := address % pageSize == 0

theorem isAligned_iff (address : Nat) : isAligned address = true ↔ address % pageSize = 0 := by
  simp [isAligned]

theorem bytesOfPages_eq_ok_iff {pages bytes : Nat} :
    bytesOfPages pages = .ok bytes ↔ pages * pageSize < addressLimit ∧ bytes = pages * pageSize := by
  rw [bytesOfPages]
  split
  · next h => simp [h, eq_comm]
  · next h => simp [h]

/-! ### Page ids -/

structure PageId where
  raw : Nat
deriving DecidableEq

namespace PageId

/-- Names no page. -/
def nil : PageId := ⟨0⟩

def chunk (id : PageId) : Nat := id.raw / chunkPages

def index (id : PageId) : Nat := id.raw % chunkPages

end PageId

/-! ### Protection -/

structure Protection where
  read : Bool := false
  write : Bool := false
  execute : Bool := false
deriving DecidableEq

namespace Protection

/-- No access: a range with it is not mapped. -/
def none : Protection := {}

def isNone (p : Protection) : Bool := p == none

end Protection

end GuestMachine.Memory
