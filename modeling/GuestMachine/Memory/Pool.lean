import GuestMachine.Memory.FreeList
import GuestMachine.Memory.GuestTable

/-! The pool of guest memory.

The pool hands out pages of a linear map. The map is backed slice by slice, in address
order and only as far as allocations need it; slices are never given up. Pages go to
the lowest place that is free. The pool also maps its pages into the guest, and copies
bytes in and out; a range may span slices, and each slice gets its piece. -/
namespace GuestMachine.Memory

/-! ### Sizes -/

structure PoolConfig where
  /-- Bytes added to the backed part at a time: 128 MiB unless said otherwise. -/
  sliceSize : Nat := 128 * 2 ^ 20
  /-- Bytes of guest memory at most: 32 GiB unless said otherwise. -/
  mapSize : Nat := 32 * 2 ^ 30
deriving DecidableEq

namespace PoolConfig

def slicePages (c : PoolConfig) : Nat := c.sliceSize / pageSize

def mapPages (c : PoolConfig) : Nat := c.mapSize / pageSize

def validate (c : PoolConfig) : Except Error Unit :=
  if c.sliceSize = 0 ∨ !isAligned c.sliceSize then
    .error (.invalidConfig ("slice size " ++ Text.hex c.sliceSize
      ++ " is not a multiple of the page size"))
  else if c.mapSize = 0 ∨ !isAligned c.mapSize then
    .error (.invalidConfig ("linear map size " ++ Text.hex c.mapSize
      ++ " is not a multiple of the page size"))
  else if c.mapSize % c.sliceSize ≠ 0 then
    .error (.invalidConfig ("slice size " ++ Text.hex c.sliceSize
      ++ " does not divide linear map size " ++ Text.hex c.mapSize))
  else if UInt32.size < c.mapPages + chunkPages then
    .error (.invalidConfig ("linear map of " ++ toString c.mapPages
      ++ " pages exceeds the page id space"))
  else .ok ()

end PoolConfig

/-! ### Pieces of a range -/

/-- The part of a range that lies in one slice. -/
structure Piece where
  slice : Nat
  /-- Where the part begins in the slice. -/
  within : Nat
  length : Nat
  /-- How much of the range comes before the part. -/
  before : Nat
deriving DecidableEq

/-- Cuts what is left of a range, `before` bytes having been passed: the next piece goes up to the
end of its slice or of the range, and so on from there. -/
def cut (sliceSize : Nat) : (turns offset left before : Nat) → List Piece
  | 0, _, _, _ => []
  | turns + 1, offset, left, before =>
    if left = 0 then []
    else
      let within := offset % sliceSize
      let length := min left (sliceSize - within)
      ⟨offset / sliceSize, within, length, before⟩ ::
        cut sliceSize turns (offset + length) (left - length) (before + length)

/-- The pieces of a range, slice by slice. Every turn passes a byte, so there are no more of them
than bytes. -/
def pieces (sliceSize offset length : Nat) : List Piece := cut sliceSize length offset length 0

/-! ### The pool -/

structure Pool where
  config : PoolConfig
  map : LinearMap
  slices : List Slice := []
  free : FreeList := {}
  /-- Pages handed out. -/
  reserved : Nat := 0

namespace Pool

/-- A pool whose map is reserved from a host. Nothing is backed yet. -/
def create (host : Host) (c : PoolConfig) : Except Error Pool := do
  c.validate
  let map ← LinearMap.reserve host c.mapSize
  return {config := c, map}

def base (p : Pool) : Nat := p.map.base

/-- Pages backed by slices. -/
def materialized (p : Pool) : Nat := p.slices.length * p.config.slicePages

/-- The slices that can still be attached. -/
def room (p : Pool) : Nat := (p.config.mapPages - p.materialized) / p.config.slicePages

/-- Backs the next part of the map. -/
def addSlice (p : Pool) : Except Error Pool :=
  let index := p.slices.length
  let offset := index * p.config.sliceSize
  if p.config.mapSize < offset + p.config.sliceSize then .error (.outOfRange (p.base + offset))
  else
    (p.map.attach index offset p.config.sliceSize).map fun (slice, map) =>
      { p with
        map
        slices := p.slices ++ [slice]
        free := (p.free.free? (offset / pageSize) p.config.slicePages).getD p.free }

/-- Attaches a number of slices, up to the first that fails. -/
def addSlices : Nat → Pool → Except Error Unit × Pool
  | 0, p => (.ok (), p)
  | n + 1, p =>
    match p.addSlice with
    | .ok p' => addSlices n p'
    | .error e => (.error e, p)

/-- Slices to attach so that `pages` pages are backed. -/
def lacking (p : Pool) (pages : Nat) : Nat :=
  (pages - p.materialized + (p.config.slicePages - 1)) / p.config.slicePages

/-- Takes `pages` pages in one range. Where fragmentation leaves no place, the pool
grows, at most by `more` slices. -/
def place (pages : Nat) : Nat → Pool → Except Error Nat × Pool
  | more, p =>
    match p.free.alloc? pages with
    | some (start, free) => (.ok start, {p with free})
    | none =>
      match more with
      | 0 =>
        (.error (.allocationFailed ("no contiguous range of " ++ toString pages ++ " pages ("
          ++ toString p.free.pages ++ " free)")), p)
      | more' + 1 =>
        match p.addSlice with
        | .ok p' => place pages more' p'
        | .error e => (.error e, p)

/-- The address past the map that an allocation of `pages` more would need, as far as
it can be told. -/
def beyond (p : Pool) (pages : Nat) : Nat :=
  let top := addressLimit - 1
  min (p.base + min (min (p.reserved + pages) top * pageSize) top) top

/-- Hands out `pages` pages in one range and gives its address. -/
def alloc (p : Pool) (pages : Nat) : Except Error Nat × Pool :=
  if pages = 0 then (.error (.allocationFailed "cannot allocate zero pages"), p)
  else if p.config.mapPages < p.reserved + pages then (.error (.outOfRange (p.beyond pages)), p)
  else
    match p.addSlices (p.lacking (p.reserved + pages)) with
    | (.error e, p') => (.error e, p')
    | (.ok _, p') =>
      match place pages p'.room p' with
      | (.error e, p'') => (.error e, p'')
      | (.ok start, p'') =>
        (.ok (p.base + start * pageSize), {p'' with reserved := p''.reserved + pages})

/-- The offset of an address in the map, if `length` bytes from there are backed. -/
def backedOffset (p : Pool) (address length : Nat) : Except Error Nat :=
  if p.base ≤ address ∧ address - p.base + length ≤ p.materialized * pageSize then
    .ok (address - p.base)
  else .error (.outOfRange address)

/-- The page of an address in the map, if `pages` pages from there are backed. -/
def backedPage (p : Pool) (address pages : Nat) : Except Error Nat :=
  if !isAligned address then .error (.outOfRange address)
  else do
    let bytes ← bytesOfPages pages
    let offset ← p.backedOffset address bytes
    return offset / pageSize

/-- Takes back pages that were handed out. -/
def release (p : Pool) (address pages : Nat) : Except Error Pool := do
  let start ← p.backedPage address pages
  match p.free.free? start pages with
  | none => .error (.allocationFailed ("pages at " ++ Text.hex address ++ " are already free"))
  | some free => .ok {p with free, reserved := p.reserved - pages}

/-! ### Page ids -/

/-- The id of the page of an address. Ids have 32 bits. -/
def pageId (p : Pool) (address : Nat) : Except Error PageId :=
  if address < p.base ∨ p.config.mapSize ≤ address - p.base then .error (.outOfRange address)
  else .ok ⟨((address - p.base) / pageSize + chunkPages) % UInt32.size⟩

/-- The address of the page with an id. -/
def addressOf (p : Pool) (id : PageId) : Except Error Nat :=
  if id.raw < chunkPages ∨ p.config.mapPages ≤ id.raw - chunkPages then .error (.outOfRange id.raw)
  else .ok (p.base + (id.raw - chunkPages) * pageSize)

/-! ### Bytes -/

/-- The slice of a piece. -/
def sliceOf (p : Pool) (piece : Piece) : Except Error Slice :=
  match p.slices[piece.slice]? with
  | some s => .ok s
  | none => .error (.outOfRange (p.base + piece.slice * p.config.sliceSize))

/-- Copies bytes into the pool. -/
def write (p : Pool) (address : Nat) (data : List UInt8) : Except Error Pool := do
  let offset ← p.backedOffset address data.length
  let map ← (pieces p.config.sliceSize offset data.length).foldlM
    (fun map piece => do
      let slice ← p.sliceOf piece
      map.write slice piece.within ((data.drop piece.before).take piece.length)) p.map
  return {p with map}

/-- Copies bytes out of the pool. -/
def read (p : Pool) (address length : Nat) : Except Error (List UInt8) := do
  let offset ← p.backedOffset address length
  (pieces p.config.sliceSize offset length).foldlM
    (fun bytes piece => do
      let slice ← p.sliceOf piece
      return bytes ++ (← p.map.read slice piece.within piece.length)) []

/-! ### The guest -/

/-- Maps pieces of the pool to the guest from an address on, up to the first that
fails. -/
def mapPieces (p : Pool) (guest : Nat) (prot : Protection) :
    List Piece → GuestTable → Except Error Unit × GuestTable
  | [], t => (.ok (), t)
  | piece :: rest, t =>
    match p.sliceOf piece with
    | .error e => (.error e, t)
    | .ok slice =>
      match t.map slice piece.within piece.length (guest + piece.before) prot with
      | .error e => (.error e, t)
      | .ok t' => mapPieces p guest prot rest t'

/-- Maps pages of the pool to the guest. What was mapped in the range is revoked
first; without any access nothing is mapped instead. -/
def mapToGuest (p : Pool) (t : GuestTable) (host guest pages : Nat) (prot : Protection) :
    Except Error Unit × GuestTable :=
  if pages = 0 then (.ok (), t)
  else
    match bytesOfPages pages with
    | .error e => (.error e, t)
    | .ok size =>
      if addressLimit ≤ guest + size then (.error (.outOfRange guest), t)
      else if prot.isNone then (.ok (), t.unmap guest size)
      else
        match p.backedPage host pages with
        | .error e => (.error e, t)
        | .ok page =>
          p.mapPieces guest prot (pieces p.config.sliceSize (page * pageSize) size) (t.unmap guest size)

/-- What is shown of a pool. -/
def text (p : Pool) : String :=
  "Gmm \x7b config: GmmConfig \x7b slice_size: " ++ toString p.config.sliceSize
    ++ ", linear_map_size: " ++ toString p.config.mapSize ++ " \x7d, base: VmmAddr("
    ++ toString p.base ++ "), slices: " ++ toString p.slices.length
    ++ ", reserved_pages: " ++ toString p.reserved ++ ", .. \x7d"

end Pool

end GuestMachine.Memory
