import GuestMachine.Memory.Interval
import GuestMachine.Memory.Pool

/-! Coalescing of changes to the guest's layout.

The layout is announced in pages or runs of pages, and each mapping is a round trip to
the hypervisor. Announced ranges are gathered as long as they continue one another,
on the host's side and on the guest's alike, with one protection; what has been
gathered is mapped at once. -/
namespace GuestMachine.Memory

/-- A gathered range: as many bytes of the host as of the guest. -/
structure Extent where
  host : Interval
  guest : Interval
  protection : Protection
deriving DecidableEq

namespace Extent

def pages (e : Extent) : Nat := e.host.size / pageSize

/-- The extent grown by one that continues it on the same side in both spaces. -/
def join? (e next : Extent) : Option Extent :=
  if next.protection ≠ e.protection then none
  else
    match e.host.adjoins next.host, e.guest.adjoins next.guest with
    | some side, some side' =>
      if side = side' then
        some {e with host := e.host.extend next.host side, guest := e.guest.extend next.guest side}
      else none
    | _, _ => none

/-- The extent of a run of pages, with its arguments checked. -/
def make (host guest pages : Nat) (prot : Protection) : Except Error Extent := do
  let size ← bytesOfPages pages
  let some h := Interval.make? host size | throw (.outOfRange host)
  let some g := Interval.make? guest size | throw (.outOfRange guest)
  return ⟨h, g, prot⟩

end Extent

structure Coalescer where
  pending : Option Extent := none
  /-- Ranges that have been mapped. -/
  commits : Nat := 0
deriving DecidableEq

namespace Coalescer

/-- Maps what has been gathered. It is given up even if it cannot be mapped. The whole address
space cannot be, and is refused here for its number of pages; that it has no size of 64 bits
is left out. -/
def commit (c : Coalescer) (p : Pool) (t : GuestTable) : Except Error Unit × Coalescer × GuestTable :=
  match c.pending with
  | none => (.ok (), c, t)
  | some e =>
    match p.mapToGuest t e.host.first e.guest.first e.pages e.protection with
    | (.ok _, t') => (.ok (), ⟨none, c.commits + 1⟩, t')
    | (.error err, t') => (.error err, ⟨none, c.commits⟩, t')

/-- Gathers an extent. One that does not continue what has been gathered has that
mapped first, and is gathered whether this succeeds or not. -/
def gather (c : Coalescer) (p : Pool) (t : GuestTable) (e : Extent) :
    Except Error Unit × Coalescer × GuestTable :=
  match c.pending.bind (·.join? e) with
  | some joined => (.ok (), {c with pending := some joined}, t)
  | none =>
    let (r, c', t') := c.commit p t
    (r, {c' with pending := some e}, t')

/-- Announces a run of pages. -/
def notifyRange (c : Coalescer) (p : Pool) (t : GuestTable) (host guest pages : Nat)
    (prot : Protection) : Except Error Unit × Coalescer × GuestTable :=
  if pages = 0 then (.ok (), c, t)
  else
    match Extent.make host guest pages prot with
    | .error e => (.error e, c, t)
    | .ok e => c.gather p t e

/-- Announces one page. -/
def notifyPage (c : Coalescer) (p : Pool) (t : GuestTable) (host guest : Nat) (prot : Protection) :
    Except Error Unit × Coalescer × GuestTable :=
  c.notifyRange p t host guest 1 prot

end Coalescer

end GuestMachine.Memory
