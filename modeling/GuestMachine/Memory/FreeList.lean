/-! Free pages.

A free list holds the free pages as ranges in ascending order, with a gap between any
two. Pages are taken from the lowest range that is long enough, and a range given back
is joined with the ranges it touches. -/
namespace GuestMachine.Memory

/-- `length` pages from `start`. -/
structure PageRange where
  start : Nat
  length : Nat
deriving DecidableEq

structure FreeList where
  ranges : List PageRange := []
deriving DecidableEq

namespace FreeList

/-- Takes `count` pages from the first range that has them. -/
def takeFrom (count : Nat) : List PageRange → Option (Nat × List PageRange)
  | [] => none
  | r :: rest =>
    if count ≤ r.length then
      some (r.start,
        if count < r.length then ⟨r.start + count, r.length - count⟩ :: rest else rest)
    else (takeFrom count rest).map fun (start, rest') => (start, r :: rest')

/-- The lowest place for `count` pages, and the list without them. -/
def alloc? (f : FreeList) (count : Nat) : Option (Nat × FreeList) :=
  if count = 0 then none else (takeFrom count f.ranges).map fun (start, rest) => (start, ⟨rest⟩)

/-! ### Ranges by their first pages -/

/-- The last range that begins before a page. -/
def lastBefore? (page : Nat) : List PageRange → Option PageRange
  | [] => none
  | r :: rest => if r.start < page then (lastBefore? page rest).or (some r) else lastBefore? page rest

/-- The range that begins at a page. -/
def startingAt? (page : Nat) (l : List PageRange) : Option PageRange := l.find? fun r => r.start = page

/-- The list without the range that begins at a page. -/
def removeAt (page : Nat) (l : List PageRange) : List PageRange := l.filter fun r => r.start ≠ page

/-- The list with a range where it belongs by its first page, in place of one that begins there. -/
def insert (new : PageRange) : List PageRange → List PageRange
  | [] => [new]
  | r :: rest =>
    if r.start < new.start then r :: insert new rest
    else if r.start = new.start then new :: rest
    else new :: r :: rest

/-- Joins a range with the one before it, if that ends where it begins. -/
def joinBefore (previous : Option PageRange) (new : PageRange) (l : List PageRange) : PageRange × List PageRange :=
  match previous with
  | some p =>
    if p.start + p.length = new.start then (⟨p.start, p.length + new.length⟩, removeAt p.start l) else (new, l)
  | none => (new, l)

/-- Joins a range with the one that begins where it ends. -/
def joinAfter (new : PageRange) (l : List PageRange) : PageRange × List PageRange :=
  let stop := new.start + new.length
  match startingAt? stop l with
  | some next => (⟨new.start, new.length + next.length⟩, removeAt stop l)
  | none => (new, l)

/-- Puts a range back, with its neighbours looked up. A range that is not empty meets another
only if it meets the last one that begins before its end. -/
def putBack (new : PageRange) (l : List PageRange) : Option (List PageRange) :=
  let previous := lastBefore? (new.start + new.length) l
  if previous.any fun p => new.start < p.start + p.length then none
  else
    let (new₁, l₁) := joinBefore previous new l
    let (new₂, l₂) := joinAfter new₁ l₁
    some (insert new₂ l₂)

/-- The list with `count` pages from `start`, unless one of them is free already. -/
def free? (f : FreeList) (start count : Nat) : Option FreeList :=
  if count = 0 then some f else (putBack ⟨start, count⟩ f.ranges).map FreeList.mk

/-- How many pages are free. -/
def pages (f : FreeList) : Nat := f.ranges.foldr (fun r n => r.length + n) 0

def fragments (f : FreeList) : Nat := f.ranges.length

end FreeList

end GuestMachine.Memory
