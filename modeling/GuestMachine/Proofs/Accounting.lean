import GuestMachine.Memory.Layout
import GuestMachine.Proofs.GuestMapping

/-! What the counts of a pool are good for.

A pool counts its slices, its free pages and the pages it has handed out, each in a place
of its own. After any calls, those that fail included, the three agree and the slices stand
side by side (`Accounted`). Much is done with a pool that is not checked where it is done:
the pages of a new slice go into the free list, pages given back are taken off the count,
slices are looked up by number. All of that is in order as long as the counts agree
(`Safe`). -/
namespace GuestMachine.Memory

/-! ### Calls -/

/-- A call on the memory of a guest. -/
inductive MemoryCall where
  | alloc (pages : Nat)
  | release (address pages : Nat)
  | write (address : Nat) (data : List UInt8)
  | read (address length : Nat)
  /-- Bytes of one slice, from an offset in it. -/
  | readSlice (index offset length : Nat)
  | map (host guest pages : Nat) (prot : Protection)

inductive MemoryAnswer where
  | address (r : Except Error Nat)
  | done (r : Except Error Unit)
  | bytes (r : Except Error (List UInt8))
  /-- Nothing, if there is no such slice. -/
  | sliceBytes (r : Option (Except Error (List UInt8)))

namespace Layout

def serve (l : Layout) : MemoryCall → MemoryAnswer × Layout
  | .alloc pages => (.address (l.alloc pages).1, (l.alloc pages).2)
  | .release address pages => (.done (l.release address pages).1, (l.release address pages).2)
  | .write address data => (.done (l.write address data).1, (l.write address data).2)
  | .read address length => (.bytes (l.pool.read address length), l)
  | .readSlice index offset length =>
    (.sliceBytes (l.pool.slices[index]?.map fun s => l.pool.map.read s offset length), l)
  | .map host guest pages prot =>
    (.done (l.map host guest pages prot).1, (l.map host guest pages prot).2)

/-- The memory after calls one after another. -/
def served (l : Layout) (calls : List MemoryCall) : Layout :=
  calls.foldl (fun l call => (l.serve call).2) l

/-- A layout of a valid configuration is created where the host reserves its map, with a pool of
its own. -/
theorem create_pool {host : Host} {base : Nat} {c : PoolConfig} (hc : c.validate = .ok ())
    (hreserved : host.reserve c.mapSize = .ok base) :
    ∃ l, Layout.create host c = .ok l ∧ Pool.create host c = .ok l.pool := by
  have hp := Pool.create_ok hc hreserved
  refine ⟨{pool := {config := c, map := {base, size := c.mapSize, host}}}, ?_, hp⟩
  rw [Layout.create, hp]
  rfl

/-- A call leaves a sound pool, whether it succeeds or not. -/
theorem serve_sound {l : Layout} (h : l.pool.Sound) (call : MemoryCall) :
    (l.serve call).2.pool.Sound ∧ Pool.Follows l.pool (l.serve call).2.pool := by
  cases call with
  | alloc pages => exact Pool.alloc_sound h pages
  | release address pages =>
    show (l.release address pages).2.pool.Sound ∧ Pool.Follows l.pool (l.release address pages).2.pool
    unfold release
    split
    next hr => exact Pool.release_sound h hr
    next => exact ⟨h, .refl _⟩
  | write address data =>
    show (l.write address data).2.pool.Sound ∧ Pool.Follows l.pool (l.write address data).2.pool
    unfold write
    split
    next hw => exact Pool.write_sound h hw
    next => exact ⟨h, .refl _⟩
  | read => exact ⟨h, .refl _⟩
  | readSlice => exact ⟨h, .refl _⟩
  | map => exact ⟨h, .refl _⟩

theorem served_sound {l : Layout} (h : l.pool.Sound) (calls : List MemoryCall) :
    (l.served calls).pool.Sound ∧ Pool.Follows l.pool (l.served calls).pool := by
  induction calls generalizing l with
  | nil => exact ⟨h, .refl _⟩
  | cons call rest ih =>
    obtain ⟨hsound, hfollows⟩ := serve_sound h call
    obtain ⟨hsound', hfollows'⟩ := ih hsound
    exact ⟨hsound', hfollows.trans hfollows'⟩

end Layout

/-- A new pool is where the host has reserved its map, with the configuration it was asked to have. -/
theorem Pool.create_place {host : Host} {base : Nat} {c : PoolConfig} {p : Pool} (h : Pool.create host c = .ok p)
    (hreserved : host.reserve c.mapSize = .ok base) : p.base = base ∧ p.config = c ∧ p.map.host = host := by
  obtain ⟨_, base', hreserved', rfl⟩ := create_eq h
  cases hreserved.symm.trans hreserved'
  exact ⟨rfl, rfl, rfl⟩

/-! ### Pieces in their slices -/

/-- A piece lies in one slice, and that slice begins before the range ends. -/
theorem piece_bounds {sliceSize offset length : Nat} (hsize : 0 < sliceSize) {piece : Piece}
    (hp : piece ∈ pieces sliceSize offset length) :
    piece.within + piece.length ≤ sliceSize ∧ piece.slice * sliceSize < offset + length := by
  rcases Nat.eq_zero_or_pos length with rfl | hpos
  · cases hp
  · rw [pieces_eq hsize hpos] at hp
    obtain ⟨i, hi, rfl⟩ := List.mem_map.mp hp
    obtain ⟨hfirst, hlast⟩ := List.mem_range'_1.mp hi
    have hstart : offset < (i + 1) * sliceSize :=
      (Nat.div_lt_iff_lt_mul hsize).mp (Nat.lt_succ_of_le hfirst)
    have horder : offset / sliceSize ≤ (offset + (length - 1)) / sliceSize :=
      Nat.div_le_div_right (Nat.le_add_right ..)
    have hend : i * sliceSize ≤ offset + (length - 1) :=
      (Nat.le_div_iff_mul_le hsize).mp (by omega)
    have hnext := Nat.add_one_mul i sliceSize
    simp only [pieceIn]
    omega

/-- A slice refuses a piece neither a copy nor a mapping for its range. -/
structure Slice.Takes (s : Slice) (piece : Piece) : Prop where
  inside : piece.within + piece.length ≤ s.size
  read : ∀ m : LinearMap, ∃ bytes, m.read s piece.within piece.length = .ok bytes
  write : ∀ (m : LinearMap) (data : List UInt8), data.length ≤ piece.length →
    ∃ m', m.write s piece.within data = .ok m'
  map : ∀ (t : GuestTable) (guest : Nat) (prot : Protection) (e : Error),
    t.map s piece.within piece.length guest prot = .error e → e.isOutOfRange = false

theorem Slice.takes_of_inside {s : Slice} {piece : Piece} (h : piece.within + piece.length ≤ s.size) :
    s.Takes piece := by
  refine ⟨h, fun m => ?_, fun m data hdata => ?_, fun t guest prot e he => ?_⟩
  · rw [LinearMap.read, if_neg (by omega)]
    exact ⟨_, rfl⟩
  · rw [LinearMap.write, if_neg (by omega)]
    exact ⟨_, rfl⟩
  · -- What is left to object to is alignment.
    unfold GuestTable.map at he
    split at he
    · cases he
      rfl
    split at he
    · cases he
      rfl
    split at he
    · cases he
      rfl
    rw [if_neg (by omega)] at he
    cases he

namespace Pool

theorem Sound.sliceSize_pos {p : Pool} (h : p.Sound) : 0 < p.config.sliceSize := by
  rw [h.config.sliceSize]
  exact Nat.mul_pos h.config.slicePages_pos (by decide)

/-- Every piece of a backed range has its slice. -/
theorem Sound.slice_of_piece {p : Pool} (h : p.Sound) {offset length : Nat}
    (hend : offset + length ≤ p.materialized * pageSize) {piece : Piece}
    (hp : piece ∈ pieces p.config.sliceSize offset length) :
    p.slices[piece.slice]? = some (p.sliceAt piece.slice) ∧ (p.sliceAt piece.slice).Takes piece := by
  obtain ⟨hinside, hstart⟩ := piece_bounds h.sliceSize_pos hp
  have hindex : piece.slice < p.slices.length := by
    refine Nat.lt_of_mul_lt_mul_right (a := p.config.sliceSize) ?_
    rw [h.slices_end]
    omega
  have hs := List.getElem?_eq_getElem hindex
  exact ⟨by rw [hs, h.slices _ _ hs], Slice.takes_of_inside hinside⟩

/-! ### Slices that an allocation attaches -/

/-- The pools that a slice is to be attached to when a number of them are, up to the first
that fails. -/
def addSlicesTo : Nat → Pool → List Pool
  | 0, _ => []
  | n + 1, p =>
    p :: match p.addSlice with
      | .ok p' => addSlicesTo n p'
      | .error _ => []

/-- The same for the search of a place. -/
def placeTo (pages : Nat) : Nat → Pool → List Pool
  | more, p =>
    match p.free.alloc? pages with
    | some _ => []
    | none =>
      match more with
      | 0 => []
      | more' + 1 =>
        p :: match p.addSlice with
          | .ok p' => placeTo pages more' p'
          | .error _ => []

/-- The pools that an allocation attaches a slice to, one after another. -/
def attaching (p : Pool) (pages : Nat) : List Pool :=
  if pages = 0 ∨ p.config.mapPages < p.reserved + pages then []
  else
    let lacking := p.lacking (p.reserved + pages)
    addSlicesTo lacking p ++
      match p.addSlices lacking with
      | (.ok _, p') => placeTo pages p'.room p'
      | (.error _, _) => []

/-- The next slice is attached, and the free list takes its pages. -/
structure Attaches (p : Pool) : Prop where
  attached : ∃ q, p.addSlice = .ok q
  taken : (p.free.free? (p.slices.length * p.config.sliceSize / pageSize)
    p.config.slicePages).isSome = true

theorem Sound.attaches {p : Pool} (h : p.Sound) (hback : p.Backed)
    (hroom : p.materialized + p.config.slicePages ≤ p.config.mapPages) : p.Attaches := by
  obtain ⟨q, hq, _⟩ := addSlice_spec h hback hroom
  obtain ⟨f, hf⟩ := h.free_next
  refine ⟨⟨q, hq⟩, ?_⟩
  rw [h.slices_end, Nat.mul_div_cancel _ (by decide), hf]
  rfl

theorem addSlicesTo_spec (n : Nat) {p : Pool} (h : p.Sound) (hback : p.Backed)
    (hroom : p.materialized + n * p.config.slicePages ≤ p.config.mapPages) :
    (∀ q ∈ addSlicesTo n p, q.Attaches) ∧ (addSlicesTo n p).length = n := by
  induction n generalizing p with
  | zero => exact ⟨fun q hq => absurd hq List.not_mem_nil, rfl⟩
  | succ n ih =>
    rw [Nat.succ_mul] at hroom
    obtain ⟨p', hadd, hp', hg⟩ := addSlice_spec h hback (by omega)
    have hmat := hg.materialized
    obtain ⟨hall, hlength⟩ := ih hp' (hg.backed hback) (by rw [hg.config, hmat]; omega)
    rw [addSlicesTo, hadd]
    refine ⟨fun q hq => ?_, by rw [List.length_cons, hlength]⟩
    rcases List.mem_cons.mp hq with rfl | hlater
    · exact h.attaches hback (by omega)
    · exact hall q hlater

theorem placeTo_spec (pages more : Nat) {p : Pool} (h : p.Sound) (hback : p.Backed)
    (hroom : p.materialized + more * p.config.slicePages ≤ p.config.mapPages) :
    (∀ q ∈ placeTo pages more p, q.Attaches) ∧
      (place pages more p).2.slices.length = p.slices.length + (placeTo pages more p).length := by
  induction more generalizing p with
  | zero =>
    unfold placeTo place
    cases p.free.alloc? pages with
    | some found => exact ⟨fun q hq => absurd hq List.not_mem_nil, rfl⟩
    | none => exact ⟨fun q hq => absurd hq List.not_mem_nil, rfl⟩
  | succ more ih =>
    rw [Nat.succ_mul] at hroom
    unfold placeTo place
    cases p.free.alloc? pages with
    | some found => exact ⟨fun q hq => absurd hq List.not_mem_nil, rfl⟩
    | none =>
      obtain ⟨p', hadd, hp', hg⟩ := addSlice_spec h hback (by omega)
      have hmat := hg.materialized
      obtain ⟨hall, hlength⟩ := ih hp' (hg.backed hback) (by rw [hg.config, hmat]; omega)
      simp only [hadd]
      refine ⟨fun q hq => ?_, ?_⟩
      · rcases List.mem_cons.mp hq with rfl | hlater
        · exact h.attaches hback (by omega)
        · exact hall q hlater
      · rw [hlength, hg.count, List.length_cons]
        omega

/-- An allocation attaches just the slices listed, and none of them in vain. -/
theorem attaching_spec {p : Pool} (h : p.Sound) (hback : p.Backed) (pages : Nat) :
    (∀ q ∈ p.attaching pages, q.Attaches) ∧
      (p.alloc pages).2.slices.length = p.slices.length + (p.attaching pages).length := by
  unfold attaching alloc
  by_cases hzero : pages = 0
  · rw [if_pos (.inl hzero), if_pos hzero]
    exact ⟨fun q hq => absurd hq List.not_mem_nil, rfl⟩
  by_cases hmany : p.config.mapPages < p.reserved + pages
  · rw [if_pos (.inr hmany), if_neg hzero, if_pos hmany]
    exact ⟨fun q hq => absurd hq List.not_mem_nil, rfl⟩
  rw [if_neg (not_or.mpr ⟨hzero, hmany⟩), if_neg hzero, if_neg hmany]
  obtain ⟨_, hlack⟩ := lacking_spec h (Nat.not_lt.mp hmany)
  obtain ⟨p', hadd, hp', hg⟩ := addSlices_spec _ h hback hlack
  obtain ⟨hfirst, hcount⟩ := addSlicesTo_spec _ h hback hlack
  obtain ⟨hsecond, hcount'⟩ := placeTo_spec pages p'.room hp' (hg.backed hback) (Nat.le_of_eq (room_spec hp'))
  simp only [hadd]
  refine ⟨fun q hq => (List.mem_append.mp hq).elim (hfirst q) (hsecond q), ?_⟩
  rw [List.length_append, hcount, ← Nat.add_assoc, ← hg.count, ← hcount']
  split
  next hplace => rw [hplace]
  next hplace => rw [hplace]

/-! ### The counts -/

/-- The slices, the free pages and the pages handed out of a pool at `base`. -/
structure Accounted (base : Nat) (c : PoolConfig) (p : Pool) : Prop where
  slices : ∀ (i : Nat) (s : Slice), p.slices[i]? = some s → s = ⟨i, base + i * c.sliceSize, c.sliceSize⟩
  materialized : p.materialized = p.slices.length * c.slicePages
  bounded : p.materialized ≤ c.mapPages
  free : ∀ r ∈ p.free.ranges, r.start + r.length ≤ p.materialized
  counted : p.free.pages + p.reserved = p.materialized

/-- What is done with a pool without a check is in order: slices that allocations attach,
pages that are taken off the count, and slices looked up for a range of bytes or pages. -/
structure Safe (p : Pool) : Prop where
  attaches : ∀ pages, ∀ q ∈ p.attaching pages, q.Attaches
  attached : ∀ pages, (p.alloc pages).2.slices.length = p.slices.length + (p.attaching pages).length
  counted : ∀ address pages q, p.release address pages = .ok q → pages ≤ p.reserved
  bytes : ∀ address length offset, p.backedOffset address length = .ok offset →
    ∀ piece ∈ pieces p.config.sliceSize offset length,
      ∃ s, p.slices[piece.slice]? = some s ∧ s.Takes piece
  pages : ∀ host pages page, p.backedPage host pages = .ok page →
    ∀ piece ∈ pieces p.config.sliceSize (page * pageSize) (pages * pageSize),
      ∃ s, p.slices[piece.slice]? = some s ∧ s.Takes piece

/-- The free list lies in the backed part of the map, range by range. -/
theorem Sound.free_inside {p : Pool} (h : p.Sound) {r : PageRange} (hr : r ∈ p.free.ranges) :
    r.start + r.length ≤ p.materialized := by
  have hpos := h.order.length_pos hr
  have hlast := h.within (r.start + (r.length - 1)) ⟨r, hr, by omega, by omega⟩
  omega

theorem Sound.accounted {p : Pool} (h : p.Sound) : p.Accounted p.base p.config :=
  ⟨h.slices, rfl, h.bounded, fun _ hr => h.free_inside hr, h.counted⟩

/-- Pages that are taken back have been handed out: none of them was free. -/
theorem Sound.release_le {p q : Pool} (h : p.Sound) {address pages : Nat}
    (hr : p.release address pages = .ok q) : pages ≤ p.reserved := by
  have hcounted := h.counted
  have hcounted' := (release_sound h hr).1.counted
  obtain ⟨start, f, hpage, hf, rfl⟩ := release_eq hr
  obtain ⟨_, _, _, htotal⟩ := FreeList.free?_spec h.order hf
  change f.pages + (p.reserved - pages) = p.materialized at hcounted'
  omega

theorem Sound.safe {p : Pool} (h : p.Sound) (hback : p.Backed) : p.Safe := by
  refine ⟨fun pages => (attaching_spec h hback pages).1, fun pages => (attaching_spec h hback pages).2,
    fun _ _ _ hr => h.release_le hr, fun address length offset hoffset piece hpiece => ?_,
    fun host pages page hpage piece hpiece => ?_⟩
  · obtain ⟨_, hend, rfl⟩ := backedOffset_eq_ok_iff.mp hoffset
    exact ⟨_, h.slice_of_piece hend hpiece⟩
  · have hend := Nat.mul_le_mul_right pageSize (backedPage_end hpage)
    rw [Nat.add_mul] at hend
    exact ⟨_, h.slice_of_piece hend hpiece⟩

/-- **The counts of a pool agree, and what rests on them is in order.** After any calls on
a pool of a valid configuration, failed ones included: the slices stand side by side from
the base on and fit in the map, the free list lies in them, and every page of them is free
or handed out. So every slice that an allocation sets out to attach is attached, with pages
that the free list takes; no more pages are taken back than were handed out; and every piece
of a range that is backed has its slice and lies in it. The host is relied on to reserve the
map and to back its slices. -/
theorem pool_accounted {host : Host} {base : Nat} {c : PoolConfig} (hc : c.validate = .ok ())
    (hreserved : host.reserve c.mapSize = .ok base) (hback : host.Backs base c.mapSize) (calls : List MemoryCall) :
    ∃ l, Layout.create host c = .ok l ∧ (l.served calls).pool.Accounted base c ∧ (l.served calls).pool.Safe := by
  obtain ⟨l, hl, hp⟩ := Layout.create_pool hc hreserved
  obtain ⟨hbase, hconfig, hhost⟩ := create_place hp hreserved
  obtain ⟨hsound, hfollows⟩ := Layout.served_sound (create_sound hp) calls
  have haccounted := hsound.accounted
  rw [hfollows.base, hfollows.config, hbase, hconfig] at haccounted
  have hbacked : l.pool.Backed := by
    rw [Backed, hhost, hbase, hconfig]
    exact hback
  exact ⟨l, hl, haccounted, hsound.safe (hfollows.backed hbacked)⟩

/-- Four pages in slices of two. Three pages are handed out; one is given back, and again;
what is left is written and mapped across the slices' border; and two pages more do not fit
side by side. -/
def fragmentedCalls : List MemoryCall :=
  [.alloc 3, .release 8192 1, .release 8192 1, .write 12286 [1, 2, 3, 4],
    .map 8192 65536 2 ⟨true, true, false⟩, .alloc 2]

theorem pool_accounted_fragmented :
    PoolConfig.validate ⟨8192, 16384⟩ = .ok () ∧ (Host.plain 4096).reserve 16384 = .ok 4096 ∧
      (Host.plain 4096).Backs 4096 16384 ∧ ∃ l, Layout.create (.plain 4096) ⟨8192, 16384⟩ = .ok l ∧
        (l.pool.attaching 3).length = 2 ∧
        (l.served fragmentedCalls).pool.free.ranges = [⟨1, 1⟩, ⟨3, 1⟩] ∧
        (l.served fragmentedCalls).pool.reserved = 2 ∧
        (l.served fragmentedCalls).pool.Accounted 4096 ⟨8192, 16384⟩ ∧
        (l.served fragmentedCalls).pool.Safe := by
  have hback : (Host.plain 4096).Backs 4096 16384 := Host.plain_backs rfl 16384
  obtain ⟨l, hl, hcalls⟩ := @pool_accounted (.plain 4096) 4096 ⟨8192, 16384⟩ rfl rfl hback fragmentedCalls
  obtain rfl := Except.ok.inj (hl.symm.trans rfl)
  exact ⟨rfl, rfl, hback, _, hl, rfl, rfl, rfl, hcalls⟩

end Pool

end GuestMachine.Memory
