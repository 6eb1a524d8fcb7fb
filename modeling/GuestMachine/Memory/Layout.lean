import GuestMachine.Memory.Coalescer

/-! The memory of one guest: the pool it comes from, the changes to its layout that
have been announced, and the page table that they end in. -/
namespace GuestMachine.Memory

structure Layout where
  pool : Pool
  coalescer : Coalescer := {}
  table : GuestTable := {}

namespace Layout

def create (host : Host) (c : PoolConfig) : Except Error Layout :=
  (Pool.create host c).map fun pool => {pool}

def alloc (l : Layout) (pages : Nat) : Except Error Nat × Layout :=
  let (r, pool) := l.pool.alloc pages
  (r, {l with pool})

def release (l : Layout) (address pages : Nat) : Except Error Unit × Layout :=
  match l.pool.release address pages with
  | .ok pool => (.ok (), {l with pool})
  | .error e => (.error e, l)

def write (l : Layout) (address : Nat) (data : List UInt8) : Except Error Unit × Layout :=
  match l.pool.write address data with
  | .ok pool => (.ok (), {l with pool})
  | .error e => (.error e, l)

def map (l : Layout) (host guest pages : Nat) (prot : Protection) : Except Error Unit × Layout :=
  let (r, table) := l.pool.mapToGuest l.table host guest pages prot
  (r, {l with table})

def notifyRange (l : Layout) (host guest pages : Nat) (prot : Protection) :
    Except Error Unit × Layout :=
  let (r, coalescer, table) := l.coalescer.notifyRange l.pool l.table host guest pages prot
  (r, {l with coalescer, table})

def notifyPage (l : Layout) (host guest : Nat) (prot : Protection) : Except Error Unit × Layout :=
  let (r, coalescer, table) := l.coalescer.notifyPage l.pool l.table host guest prot
  (r, {l with coalescer, table})

def commit (l : Layout) : Except Error Unit × Layout :=
  let (r, coalescer, table) := l.coalescer.commit l.pool l.table
  (r, {l with coalescer, table})

end Layout

end GuestMachine.Memory
