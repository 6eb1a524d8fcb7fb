import GuestMachine.Memory.LinearMap

/-! The guest's page table.

A table maps pages of the guest to host addresses with a protection. It is kept as
runs of pages that follow one another on both sides; no page is in two runs. Every
operation is recorded, so that it can be seen how many a change of layout took. -/
namespace GuestMachine.Memory

/-- `count` pages of the guest from `page`, mapped to consecutive host pages. -/
structure MappedRun where
  page : Nat
  count : Nat
  host : Nat
  protection : Protection
deriving DecidableEq

namespace MappedRun

def covers (r : MappedRun) (page : Nat) : Bool :=
  decide (r.page ≤ page) && decide (page < r.page + r.count)

/-- The host address of a page of the run. -/
def hostOf (r : MappedRun) (page : Nat) : Nat := r.host + (page - r.page) * pageSize

/-- What is left of a run below page `low` and from page `high` on. -/
def cut (low high : Nat) (r : MappedRun) : List MappedRun :=
  (if r.page < low then [{r with count := min r.count (low - r.page)}] else [])
    ++ (if high < r.page + r.count then
      [{ r with
        page := max r.page high
        count := r.page + r.count - max r.page high
        host := r.hostOf (max r.page high) }]
      else [])

end MappedRun

/-- One operation on a table, as it was asked for. -/
inductive MapOperation where
  | map (slice offset size guest : Nat) (protection : Protection)
  | unmap (guest size : Nat)
deriving DecidableEq

/-- Where a guest address is mapped to. -/
structure Mapping where
  host : Nat
  protection : Protection
deriving DecidableEq

structure GuestTable where
  runs : List MappedRun := []
  /-- The operations so far, oldest first. -/
  operations : List MapOperation := []
deriving DecidableEq

namespace GuestTable

/-- What a page of the guest is mapped to. -/
def lookup (t : GuestTable) (page : Nat) : Option Mapping :=
  (t.runs.find? (·.covers page)).map fun r => ⟨r.hostOf page, r.protection⟩

def translate (t : GuestTable) (address : Nat) : Option Mapping :=
  (t.lookup (address / pageSize)).map fun e => {e with host := e.host + address % pageSize}

/-- How many pages are mapped. -/
def pages (t : GuestTable) : Nat := t.runs.foldr (fun r n => r.count + n) 0

/-- The runs without the pages from `low` on and below `high`. -/
def without (low high : Nat) (runs : List MappedRun) : List MappedRun :=
  if low < high then runs.flatMap (MappedRun.cut low high) else runs

/-- Removes the pages between the one that holds `guest` and the end of the range. -/
def unmap (t : GuestTable) (guest size : Nat) : GuestTable :=
  { runs := without (guest / pageSize) (pagesOfBytes (guest + size)) t.runs
    operations := t.operations ++ [.unmap guest size] }

def misaligned (what : String) (value : Nat) : Error :=
  .hypervisor (what ++ " " ++ Text.hex value ++ " is not page aligned")

/-- Maps a part of a slice. Pages mapped before are mapped anew. -/
def map (t : GuestTable) (s : Slice) (offset size guest : Nat) (p : Protection) :
    Except Error GuestTable :=
  if !isAligned offset then .error (misaligned "offset" offset)
  else if !isAligned size then .error (misaligned "size" size)
  else if !isAligned guest then .error (misaligned "guest address" guest)
  else if s.size < offset + size then .error (.outOfRange (s.base + (offset + size)))
  else
    let page := guest / pageSize
    let count := size / pageSize
    let kept := without page (page + count) t.runs
    .ok
      { runs := if count = 0 then kept else ⟨page, count, s.base + offset, p⟩ :: kept
        operations := t.operations ++ [.map s.index offset size guest p] }

/-- Forgets the recorded operations. -/
def clearOperations (t : GuestTable) : GuestTable := {t with operations := []}

end GuestTable

end GuestMachine.Memory
