import GuestMachine.Proofs.Accounting

/-! The pool as one flat memory.

Bytes go into a pool and out of it piece by piece, each slice getting its own. Seen from
outside the slices do not show: a copy in puts its bytes at their host addresses
(`write_spec`), a copy out gets them from there (`read_spec`), and an allocation changes
none, for what it attaches was zero before (`Fresh.alloc`). So every sequence of calls is
answered as by one array of bytes that is zero at first and changes by writes alone
(`flat_memory`); how much of it can be used yet is all that the growth of the pool
decides. -/
namespace GuestMachine.Memory

/-! ### A flat memory -/

/-- Bytes with some of them replaced, from an offset on. -/
def overwrite (bytes : List UInt8) (offset : Nat) (data : List UInt8) : List UInt8 :=
  bytes.take offset ++ data ++ bytes.drop (offset + data.length)

/-- A call that has been answered, with the number of bytes that could be used when it was
made. -/
structure Served where
  backed : Nat
  call : MemoryCall
  answer : MemoryAnswer

/-- What a flat memory at `base` answers to a call, and its bytes before and after. Slices
are cut out of it one after another. -/
inductive FlatStep (base sliceSize : Nat) : List UInt8 → Served → List UInt8 → Prop where
  | alloc {m backed pages r} : FlatStep base sliceSize m ⟨backed, .alloc pages, .address r⟩ m
  | release {m backed address pages r} :
      FlatStep base sliceSize m ⟨backed, .release address pages, .done r⟩ m
  | map {m backed host guest pages prot r} :
      FlatStep base sliceSize m ⟨backed, .map host guest pages prot, .done r⟩ m
  | write {m backed address data} : base ≤ address → address + data.length ≤ base + backed →
      FlatStep base sliceSize m ⟨backed, .write address data, .done (.ok ())⟩
        (overwrite m (address - base) data)
  | writeRefused {m backed address data} :
      ¬(base ≤ address ∧ address + data.length ≤ base + backed) →
      FlatStep base sliceSize m ⟨backed, .write address data, .done (.error (.outOfRange address))⟩ m
  | read {m backed address length} : base ≤ address → address + length ≤ base + backed →
      FlatStep base sliceSize m
        ⟨backed, .read address length, .bytes (.ok ((m.drop (address - base)).take length))⟩ m
  | readRefused {m backed address length} : ¬(base ≤ address ∧ address + length ≤ base + backed) →
      FlatStep base sliceSize m
        ⟨backed, .read address length, .bytes (.error (.outOfRange address))⟩ m
  | readSlice {m backed index offset length} : (index + 1) * sliceSize ≤ backed →
      offset + length ≤ sliceSize →
      FlatStep base sliceSize m ⟨backed, .readSlice index offset length,
        .sliceBytes (some (.ok ((m.drop (index * sliceSize + offset)).take length)))⟩ m
  | readSliceRefused {m backed index offset length} : (index + 1) * sliceSize ≤ backed →
      sliceSize < offset + length →
      FlatStep base sliceSize m ⟨backed, .readSlice index offset length,
        .sliceBytes (some (.error (.outOfRange (base + index * sliceSize + (offset + length)))))⟩ m
  | noSlice {m backed index offset length} : backed < (index + 1) * sliceSize →
      FlatStep base sliceSize m ⟨backed, .readSlice index offset length, .sliceBytes none⟩ m

/-- Calls one after another. -/
inductive FlatRun (base sliceSize : Nat) : List UInt8 → List Served → List UInt8 → Prop where
  | nil {m} : FlatRun base sliceSize m [] m
  | cons {m m' m'' served rest} : FlatStep base sliceSize m served m' →
      FlatRun base sliceSize m' rest m'' → FlatRun base sliceSize m (served :: rest) m''

/-- The calls on a guest's memory, as they are answered. -/
def Layout.history : Layout → List MemoryCall → List Served
  | _, [] => []
  | l, call :: rest =>
    ⟨l.pool.materialized * pageSize, call, (l.serve call).1⟩ :: history (l.serve call).2 rest

/-! ### The bytes of a map -/

namespace LinearMap

/-- The bytes at a number of host addresses from `start` on. -/
def bytesAt (m : LinearMap) (start length : Nat) : List UInt8 :=
  (List.range length).map fun i => m.contents (start + i)

/-- The map with bytes put at the host addresses from `start` on. -/
def put (m : LinearMap) (start : Nat) (data : List UInt8) : LinearMap :=
  { m with contents := fun a =>
    if start ≤ a ∧ a < start + data.length then data[a - start]?.getD 0 else m.contents a }

theorem length_bytesAt (m : LinearMap) (start length : Nat) :
    (m.bytesAt start length).length = length := by
  rw [bytesAt, List.length_map, List.length_range]

theorem bytesAt_append (m : LinearMap) (start a b : Nat) :
    m.bytesAt start (a + b) = m.bytesAt start a ++ m.bytesAt (start + a) b := by
  rw [bytesAt, List.range_add, List.map_append, List.map_map]
  refine congrArg _ (List.map_congr_left fun i _ => ?_)
  exact congrArg m.contents (Nat.add_assoc start a i).symm

/-- Bytes out of the middle. -/
theorem take_drop_bytesAt (m : LinearMap) (start : Nat) {length offset n : Nat} (h : offset + n ≤ length) :
    ((m.bytesAt start length).drop offset).take n = m.bytesAt (start + offset) n := by
  obtain ⟨rest, rfl⟩ := Nat.exists_eq_add_of_le h
  rw [Nat.add_assoc, bytesAt_append, List.drop_left' (length_bytesAt ..), bytesAt_append,
    List.take_left' (length_bytesAt ..)]

theorem bytesAt_put (m : LinearMap) (start : Nat) (data : List UInt8) :
    (m.put start data).bytesAt start data.length = data := by
  refine List.ext_getElem (length_bytesAt ..) fun i _ hi => ?_
  simp only [bytesAt, put, List.getElem_map, List.getElem_range]
  rw [if_pos (by omega), Nat.add_sub_cancel_left, List.getElem?_eq_getElem hi, Option.getD_some]

/-- Bytes on either side of those that are put stay. -/
theorem bytesAt_put_apart (m : LinearMap) {start length first : Nat} {data : List UInt8}
    (h : start + length ≤ first ∨ first + data.length ≤ start) :
    (m.put first data).bytesAt start length = m.bytesAt start length := by
  refine List.map_congr_left fun i hi => ?_
  have := List.mem_range.mp hi
  exact if_neg (by omega)

/-- Bytes put in the middle overwrite as many. -/
theorem bytesAt_put_within (m : LinearMap) (start : Nat) {length offset : Nat} {data : List UInt8}
    (h : offset + data.length ≤ length) :
    (m.put (start + offset) data).bytesAt start length =
      overwrite (m.bytesAt start length) offset data := by
  obtain ⟨rest, rfl⟩ := Nat.exists_eq_add_of_le h
  have hbefore : (m.bytesAt start (offset + data.length + rest)).take offset = m.bytesAt start offset := by
    rw [Nat.add_assoc, bytesAt_append, List.take_left' (length_bytesAt ..)]
  have hafter : (m.bytesAt start (offset + data.length + rest)).drop (offset + data.length) =
      m.bytesAt (start + (offset + data.length)) rest := by
    rw [bytesAt_append, List.drop_left' (length_bytesAt ..)]
  rw [overwrite, hbefore, hafter, bytesAt_append, bytesAt_append, bytesAt_put,
    bytesAt_put_apart m (.inl (Nat.le_refl _)), bytesAt_put_apart m (.inr (by omega))]

theorem put_nil (m : LinearMap) (start : Nat) : m.put start [] = m := by
  have hcontents : (m.put start []).contents = m.contents := by
    funext a
    exact if_neg (by rw [List.length_nil]; omega)
  exact congrArg (fun contents => {m with contents}) hcontents

/-- Bytes put one part after the other are put together. -/
theorem put_append (m : LinearMap) (start : Nat) (a b : List UInt8) :
    (m.put start a).put (start + a.length) b = m.put start (a ++ b) := by
  have hcontents : ((m.put start a).put (start + a.length) b).contents = (m.put start (a ++ b)).contents := by
    funext i
    simp only [put, List.length_append]
    by_cases hin : start ≤ i ∧ i < start + (a.length + b.length)
    · rw [if_pos hin]
      by_cases hlater : start + a.length ≤ i
      · rw [if_pos (by omega), List.getElem?_append_right (by omega), Nat.sub_sub]
      · rw [if_neg (by omega), if_pos (by omega), List.getElem?_append_left (by omega)]
    · rw [if_neg hin, if_neg (by omega), if_neg (by omega)]
  exact congrArg (fun contents => {m with contents}) hcontents

theorem read_inside (m : LinearMap) {s : Slice} {offset length : Nat} (h : offset + length ≤ s.size) :
    m.read s offset length = .ok (m.bytesAt (s.base + offset) length) := by
  rw [read, if_neg (Nat.not_lt.mpr h)]
  rfl

theorem write_inside (m : LinearMap) {s : Slice} {offset : Nat} {data : List UInt8}
    (h : offset + data.length ≤ s.size) :
    m.write s offset data = .ok (m.put (s.base + offset) data) := by
  rw [write, if_neg (Nat.not_lt.mpr h)]
  simp only [put, List.size_toArray, List.getElem?_toArray]

end LinearMap

namespace Pool

/-! ### Copies, piece by piece -/

def writePiece (p : Pool) (data : List UInt8) (map : LinearMap) (piece : Piece) :
    Except Error LinearMap := do
  let slice ← p.sliceOf piece
  map.write slice piece.within ((data.drop piece.before).take piece.length)

def readPiece (p : Pool) (bytes : List UInt8) (piece : Piece) : Except Error (List UInt8) := do
  let slice ← p.sliceOf piece
  return bytes ++ (← p.map.read slice piece.within piece.length)

theorem writePiece_after (p : Pool) (data : List UInt8) (n : Nat) (map : LinearMap) (piece : Piece) :
    p.writePiece data map (piece.after n) = p.writePiece (data.drop n) map piece := by
  rw [writePiece, writePiece, List.drop_drop]
  rfl

/-- The host address of a piece. -/
theorem sliceAt_base (p : Pool) (offset : Nat) :
    (p.sliceAt (offset / p.config.sliceSize)).base + offset % p.config.sliceSize = p.base + offset := by
  show p.base + offset / p.config.sliceSize * p.config.sliceSize + _ = _
  rw [Nat.add_assoc, Nat.div_add_mod']

/-- A backed range begins with a piece that has its slice, and goes on with the pieces of
the rest. -/
theorem Sound.pieces_split {p : Pool} (h : p.Sound) {offset length : Nat} (hpos : 0 < length)
    (hend : offset + length ≤ p.materialized * pageSize) :
    ∃ k, 0 < k ∧ k ≤ length ∧ offset % p.config.sliceSize + k ≤ p.config.sliceSize ∧
      p.sliceOf ⟨offset / p.config.sliceSize, offset % p.config.sliceSize, k, 0⟩ =
        .ok (p.sliceAt (offset / p.config.sliceSize)) ∧
      pieces p.config.sliceSize offset length =
        ⟨offset / p.config.sliceSize, offset % p.config.sliceSize, k, 0⟩ ::
          (pieces p.config.sliceSize (offset + k) (length - k)).map (Piece.after k) := by
  have hwithin := Nat.mod_lt offset h.sliceSize_pos
  have hpieces := @pieces_cons p.config.sliceSize offset length h.sliceSize_pos hpos
  generalize hk : min length (p.config.sliceSize - offset % p.config.sliceSize) = k at hpieces
  have hmem : (⟨offset / p.config.sliceSize, offset % p.config.sliceSize, k, 0⟩ : Piece) ∈
      pieces p.config.sliceSize offset length := by
    rw [hpieces]
    exact List.mem_cons_self ..
  refine ⟨k, by omega, by omega, by omega, ?_, hpieces⟩
  rw [sliceOf, (h.slice_of_piece hend hmem).1]

/-- Bytes copied in piece by piece end up side by side. -/
theorem Sound.copy_in {p : Pool} (h : p.Sound) {data : List UInt8} {offset : Nat}
    (hend : offset + data.length ≤ p.materialized * pageSize) (map : LinearMap) :
    (pieces p.config.sliceSize offset data.length).foldlM (p.writePiece data) map =
      .ok (map.put (p.base + offset) data) := by
  induction hn : data.length using Nat.strongRecOn generalizing data offset map with
  | ind n ih =>
    subst hn
    rcases Nat.eq_zero_or_pos data.length with hzero | hpos
    · rw [hzero, pieces_zero, List.eq_nil_of_length_eq_zero hzero, LinearMap.put_nil]
      rfl
    obtain ⟨k, hk, hle, hinside, hslice, hpieces⟩ := h.pieces_split hpos hend
    have hlength : (data.take k).length = k := List.length_take_of_le hle
    have hfirst : p.writePiece data map ⟨offset / p.config.sliceSize, offset % p.config.sliceSize, k, 0⟩ =
        .ok (map.put (p.base + offset) (data.take k)) := by
      rw [writePiece, hslice, ← p.sliceAt_base offset]
      exact map.write_inside (hlength.symm ▸ hinside)
    have hless : (data.drop k).length < data.length := by rw [List.length_drop]; omega
    have hdrop : offset + k + (data.drop k).length ≤ p.materialized * pageSize := by
      rw [List.length_drop]
      omega
    have hrest := ih _ hless hdrop (map.put (p.base + offset) (data.take k)) rfl
    rw [hpieces, List.foldlM_cons, hfirst]
    show ((pieces _ _ _).map (Piece.after k)).foldlM _ (map.put _ _) = _
    rw [List.foldlM_map, ← List.length_drop]
    simp only [writePiece_after]
    rw [hrest, ← Nat.add_assoc]
    have hjoined := map.put_append (p.base + offset) (data.take k) (data.drop k)
    rw [hlength, List.take_append_drop] at hjoined
    rw [hjoined]

/-- Bytes copied out piece by piece are those that lie side by side. -/
theorem Sound.copy_out {p : Pool} (h : p.Sound) {offset length : Nat}
    (hend : offset + length ≤ p.materialized * pageSize) (bytes : List UInt8) :
    (pieces p.config.sliceSize offset length).foldlM p.readPiece bytes =
      .ok (bytes ++ p.map.bytesAt (p.base + offset) length) := by
  induction length using Nat.strongRecOn generalizing offset bytes with
  | ind length ih =>
    rcases Nat.eq_zero_or_pos length with rfl | hpos
    · rw [pieces_zero]
      exact congrArg Except.ok (List.append_nil bytes).symm
    obtain ⟨k, hk, hle, hinside, hslice, hpieces⟩ := h.pieces_split hpos hend
    have hfirst : p.readPiece bytes ⟨offset / p.config.sliceSize, offset % p.config.sliceSize, k, 0⟩ =
        .ok (bytes ++ p.map.bytesAt (p.base + offset) k) := by
      have hread := p.map.read_inside (s := p.sliceAt (offset / p.config.sliceSize)) hinside
      rw [p.sliceAt_base offset] at hread
      rw [readPiece, hslice]
      show (p.map.read _ _ _).bind (fun more => .ok (bytes ++ more)) = _
      rw [hread]
      rfl
    have hdrop : offset + k + (length - k) ≤ p.materialized * pageSize := by omega
    have hrest := ih (length - k) (by omega) hdrop (bytes ++ p.map.bytesAt (p.base + offset) k)
    rw [hpieces, List.foldlM_cons, hfirst]
    show ((pieces _ _ _).map (Piece.after k)).foldlM _ (bytes ++ _) = _
    rw [List.foldlM_map]
    show (pieces _ _ _).foldlM p.readPiece _ = _
    rw [hrest, List.append_assoc, ← Nat.add_assoc, ← LinearMap.bytesAt_append, Nat.add_sub_cancel' hle]

/-! ### Whole copies -/

/-- A range of bytes is found in the pool exactly if all of it is backed. -/
theorem backedOffset_eq (p : Pool) (address length : Nat) :
    p.backedOffset address length =
      if p.base ≤ address ∧ address + length ≤ p.base + p.materialized * pageSize then
        .ok (address - p.base)
      else .error (.outOfRange address) := by
  rw [backedOffset]
  exact ite_congr (propext (by omega)) (fun _ => rfl) fun _ => rfl

/-- Bytes are written to their addresses, if these are backed; otherwise nothing is. -/
theorem write_spec {p : Pool} (h : p.Sound) (address : Nat) (data : List UInt8) :
    p.write address data =
      if p.base ≤ address ∧ address + data.length ≤ p.base + p.materialized * pageSize then
        .ok {p with map := p.map.put address data}
      else .error (.outOfRange address) := by
  have hcopy : p.write address data = (p.backedOffset address data.length).bind fun offset =>
      ((pieces p.config.sliceSize offset data.length).foldlM (p.writePiece data) p.map).bind
        fun map => .ok {p with map} := rfl
  rw [hcopy, backedOffset_eq]
  split
  next hin =>
    have hend : address - p.base + data.length ≤ p.materialized * pageSize := by omega
    have hcopied := h.copy_in hend p.map
    rw [Nat.add_sub_cancel' hin.1] at hcopied
    simp only [Except.bind, hcopied]
  next => rfl

/-- Bytes are read from their addresses, if these are backed. -/
theorem read_spec {p : Pool} (h : p.Sound) (address length : Nat) :
    p.read address length =
      if p.base ≤ address ∧ address + length ≤ p.base + p.materialized * pageSize then
        .ok (p.map.bytesAt address length)
      else .error (.outOfRange address) := by
  have hcopy : p.read address length = (p.backedOffset address length).bind fun offset =>
      (pieces p.config.sliceSize offset length).foldlM p.readPiece [] := rfl
  rw [hcopy, backedOffset_eq]
  split
  next hin =>
    have hend : address - p.base + length ≤ p.materialized * pageSize := by omega
    have hcopied := h.copy_out hend []
    rw [Nat.add_sub_cancel' hin.1] at hcopied
    exact hcopied
  next => rfl

/-! ### Growth -/

/-- Where no slice is attached yet the map is zero. -/
def Fresh (p : Pool) : Prop :=
  ∀ a, p.base + p.slices.length * p.config.sliceSize ≤ a → p.map.contents a = 0

/-- Zeroing what is attached changes nothing: it is zero. -/
theorem Fresh.addSlice {p q : Pool} (h : p.Fresh) (hq : p.addSlice = .ok q) :
    q.map = p.map ∧ q.Fresh := by
  rw [Pool.addSlice] at hq
  dsimp only at hq
  split at hq
  · cases hq
  unfold LinearMap.attach at hq
  split at hq
  · cases hq
  split at hq
  next =>
    cases hq
    have hzero : p.map.zero (p.map.base + p.slices.length * p.config.sliceSize)
        (pagesOfBytes p.config.sliceSize * pageSize) = p.map := by
      refine congrArg (fun contents => {p.map with contents}) (funext fun a => ?_)
      split
      next ha => exact (h a ha.1).symm
      next => rfl
    refine ⟨hzero, fun a ha => ?_⟩
    have hmore : p.base + p.slices.length * p.config.sliceSize ≤ a := by
      refine Nat.le_trans (Nat.add_le_add_left (Nat.mul_le_mul_right _ ?_) _) ha
      rw [List.length_append]
      exact Nat.le_add_right _ _
    exact (congrArg (fun map : LinearMap => map.contents a) hzero).trans (h a hmore)
  next => cases hq

theorem Fresh.addSlices (n : Nat) {p : Pool} (h : p.Fresh) :
    (p.addSlices n).2.map = p.map ∧ (p.addSlices n).2.Fresh := by
  induction n generalizing p with
  | zero => exact ⟨rfl, h⟩
  | succ n ih =>
    rw [Pool.addSlices]
    split
    next q hq =>
      obtain ⟨hmap, hfresh⟩ := h.addSlice hq
      exact ⟨(ih hfresh).1.trans hmap, (ih hfresh).2⟩
    next => exact ⟨rfl, h⟩

theorem Fresh.place (pages more : Nat) {p : Pool} (h : p.Fresh) :
    (Pool.place pages more p).2.map = p.map ∧ (Pool.place pages more p).2.Fresh := by
  induction more generalizing p with
  | zero =>
    unfold Pool.place
    split <;> exact ⟨rfl, h⟩
  | succ more ih =>
    unfold Pool.place
    cases p.free.alloc? pages with
    | some found => exact ⟨rfl, h⟩
    | none =>
      cases hq : p.addSlice with
      | ok q =>
        obtain ⟨hmap, hfresh⟩ := h.addSlice hq
        exact ⟨(ih hfresh).1.trans hmap, (ih hfresh).2⟩
      | error e => exact ⟨rfl, h⟩

/-- An allocation changes no byte, however many slices it attaches and whether it succeeds
or not. -/
theorem Fresh.alloc {p : Pool} (h : p.Fresh) (pages : Nat) :
    (p.alloc pages).2.map = p.map ∧ (p.alloc pages).2.Fresh := by
  unfold Pool.alloc
  split
  · exact ⟨rfl, h⟩
  split
  · exact ⟨rfl, h⟩
  obtain ⟨hmap, hfresh⟩ := h.addSlices (p.lacking (p.reserved + pages))
  split
  next hgrown =>
    rw [hgrown] at hmap hfresh
    exact ⟨hmap, hfresh⟩
  next hgrown =>
    rw [hgrown] at hmap hfresh
    obtain ⟨hmap', hfresh'⟩ := hfresh.place pages _
    split
    next hplaced =>
      rw [hplaced] at hmap' hfresh'
      exact ⟨hmap'.trans hmap, hfresh'⟩
    next hplaced =>
      rw [hplaced] at hmap' hfresh'
      exact ⟨hmap'.trans hmap, hfresh'⟩

/-- A write does not reach where no slice is attached. -/
theorem Fresh.put {p : Pool} (h : p.Fresh) {address : Nat} {data : List UInt8}
    (hend : address + data.length ≤ p.base + p.slices.length * p.config.sliceSize) :
    Fresh {p with map := p.map.put address data} := by
  intro a ha
  change p.base + p.slices.length * p.config.sliceSize ≤ a at ha
  exact (if_neg (by omega)).trans (h a ha)

/-! ### The pool seen flat -/

/-- The bytes of a flat memory are those of the pool's map. -/
structure Shows (p : Pool) (m : List UInt8) : Prop where
  sound : p.Sound
  fresh : p.Fresh
  bytes : m = p.map.bytesAt p.base p.config.mapSize

theorem create_shows {host : Host} {c : PoolConfig} {p : Pool} (h : create host c = .ok p) :
    p.Shows (List.replicate c.mapSize 0) := by
  have hsound := create_sound h
  obtain ⟨_, _, _, rfl⟩ := create_eq h
  refine ⟨hsound, fun _ _ => rfl, ?_⟩
  show _ = (List.range c.mapSize).map fun _ => 0
  rw [List.map_const', List.length_range]

theorem Sound.backed_le {p : Pool} (h : p.Sound) : p.materialized * pageSize ≤ p.config.mapSize := by
  rw [h.config.mapSize]
  exact Nat.mul_le_mul_right _ h.bounded

/-- A slice is there if the backed bytes reach to its end. -/
theorem Sound.lt_slices_iff {p : Pool} (h : p.Sound) (index : Nat) :
    index < p.slices.length ↔ (index + 1) * p.config.sliceSize ≤ p.materialized * pageSize := by
  rw [← h.slices_end]
  exact (Nat.mul_le_mul_right_iff h.sliceSize_pos).symm

end Pool

namespace Layout
variable {l : Layout} {m : List UInt8}

theorem shows_alloc (h : l.pool.Shows m) (pages : Nat) : (l.alloc pages).2.pool.Shows m := by
  obtain ⟨hsound, hfollows⟩ := Pool.alloc_sound h.sound pages
  obtain ⟨hmap, hfresh⟩ := h.fresh.alloc pages
  refine ⟨hsound, hfresh, ?_⟩
  show m = LinearMap.bytesAt (l.pool.alloc pages).2.map (l.pool.alloc pages).2.base
    (l.pool.alloc pages).2.config.mapSize
  rw [hmap, hfollows.base, hfollows.config]
  exact h.bytes

theorem shows_release (h : l.pool.Shows m) (address pages : Nat) :
    (l.release address pages).2.pool.Shows m := by
  unfold release
  split
  next hr =>
    have hsound := (Pool.release_sound h.sound hr).1
    obtain ⟨_, _, _, _, rfl⟩ := Pool.release_eq hr
    exact ⟨hsound, h.fresh, h.bytes⟩
  next => exact h

/-- Bytes that are written replace those of the flat memory, or none are. -/
theorem shows_write (h : l.pool.Shows m) (address : Nat) (data : List UInt8) :
    ∃ m', FlatStep l.pool.base l.pool.config.sliceSize m
        ⟨l.pool.materialized * pageSize, .write address data, .done (l.write address data).1⟩ m' ∧
      (l.write address data).2.pool.Shows m' := by
  have hwrite := Pool.write_spec h.sound address data
  unfold write
  split at hwrite
  next hin =>
    obtain ⟨hbase, hend⟩ := hin
    have hbacked := h.sound.backed_le
    have hfits : address - l.pool.base + data.length ≤ l.pool.config.mapSize := by omega
    have hput := l.pool.map.bytesAt_put_within l.pool.base hfits
    rw [Nat.add_sub_cancel' hbase, ← h.bytes] at hput
    simp only [hwrite]
    refine ⟨_, .write hbase hend, (Pool.write_sound h.sound hwrite).1, h.fresh.put ?_, hput.symm⟩
    rw [h.sound.slices_end]
    exact hend
  next hout =>
    simp only [hwrite]
    exact ⟨m, .writeRefused hout, h⟩

/-- Bytes that are read are those of the flat memory. -/
theorem shows_read (h : l.pool.Shows m) (address length : Nat) :
    FlatStep l.pool.base l.pool.config.sliceSize m
      ⟨l.pool.materialized * pageSize, .read address length, .bytes (l.pool.read address length)⟩ m := by
  rw [Pool.read_spec h.sound]
  split
  next hin =>
    have hbacked := h.sound.backed_le
    have hfits : address - l.pool.base + length ≤ l.pool.config.mapSize := by omega
    have hbytes := l.pool.map.take_drop_bytesAt l.pool.base hfits
    rw [Nat.add_sub_cancel' hin.1, ← h.bytes] at hbytes
    rw [← hbytes]
    exact .read hin.1 hin.2
  next hout => exact .readRefused hout

/-- And so are those of a slice, from where it begins. -/
theorem shows_readSlice (h : l.pool.Shows m) (index offset length : Nat) :
    FlatStep l.pool.base l.pool.config.sliceSize m
      ⟨l.pool.materialized * pageSize, .readSlice index offset length,
        .sliceBytes (l.pool.slices[index]?.map fun s => l.pool.map.read s offset length)⟩ m := by
  rcases Nat.lt_or_ge index l.pool.slices.length with hindex | hindex
  · have hslice : l.pool.slices[index]? = some (l.pool.sliceAt index) := by
      rw [List.getElem?_eq_getElem hindex, h.sound.slices index _ (List.getElem?_eq_getElem hindex)]
    have hbacked := (h.sound.lt_slices_iff index).mp hindex
    rw [hslice, Option.map_some]
    rcases Nat.lt_or_ge l.pool.config.sliceSize (offset + length) with hlong | hshort
    · have hrefused : l.pool.map.read (l.pool.sliceAt index) offset length =
          .error (.outOfRange (l.pool.base + index * l.pool.config.sliceSize + (offset + length))) :=
        if_pos hlong
      rw [hrefused]
      exact .readSliceRefused hbacked hlong
    · have hread := l.pool.map.read_inside (s := l.pool.sliceAt index) hshort
      have hend := h.sound.backed_le
      have hnext := Nat.add_one_mul index l.pool.config.sliceSize
      have hfits : index * l.pool.config.sliceSize + offset + length ≤ l.pool.config.mapSize := by omega
      have hbytes := l.pool.map.take_drop_bytesAt l.pool.base hfits
      rw [← Nat.add_assoc, ← h.bytes] at hbytes
      rw [hread, show (l.pool.sliceAt index).base + offset =
        l.pool.base + index * l.pool.config.sliceSize + offset from rfl, ← hbytes]
      exact .readSlice hbacked hshort
  · rw [List.getElem?_eq_none hindex]
    refine .noSlice (Nat.lt_of_not_le fun hbacked => ?_)
    exact absurd ((h.sound.lt_slices_iff index).mpr hbacked) (Nat.not_lt.mpr hindex)

/-- Every call is answered as by the flat memory. -/
theorem shows_serve (h : l.pool.Shows m) (call : MemoryCall) :
    ∃ m', FlatStep l.pool.base l.pool.config.sliceSize m
        ⟨l.pool.materialized * pageSize, call, (l.serve call).1⟩ m' ∧
      (l.serve call).2.pool.Shows m' := by
  cases call with
  | alloc pages => exact ⟨m, .alloc, shows_alloc h pages⟩
  | release address pages => exact ⟨m, .release, shows_release h address pages⟩
  | write address data => exact shows_write h address data
  | read address length => exact ⟨m, shows_read h address length, h⟩
  | readSlice index offset length => exact ⟨m, shows_readSlice h index offset length, h⟩
  | map host guest pages prot => exact ⟨m, .map, h⟩

theorem shows_history (h : l.pool.Shows m) (calls : List MemoryCall) :
    ∃ m', FlatRun l.pool.base l.pool.config.sliceSize m (l.history calls) m' ∧
      (l.served calls).pool.Shows m' := by
  induction calls generalizing l m with
  | nil => exact ⟨m, .nil, h⟩
  | cons call rest ih =>
    obtain ⟨m', hstep, hnext⟩ := shows_serve h call
    obtain ⟨m'', hrun, hlast⟩ := ih hnext
    have hfollows := (serve_sound h.sound call).2
    rw [hfollows.base, hfollows.config] at hrun
    exact ⟨m'', .cons hstep hrun, hlast⟩

/-- **A pool is one flat memory.** Whatever calls are made on a pool of a valid configuration,
they are answered as by an array of bytes of the map's size that is zero at first: a range
that is backed as a whole is written and read as it lies there, across slices or not, any
other range is refused and nothing is written; a slice is a part of the array; and nothing
but a write changes a byte. -/
theorem flat_memory {host : Host} {base : Nat} {c : PoolConfig} (hc : c.validate = .ok ())
    (hreserved : host.reserve c.mapSize = .ok base) (calls : List MemoryCall) :
    ∃ l, Layout.create host c = .ok l ∧ ∃ m,
      FlatRun base c.sliceSize (List.replicate c.mapSize 0) (l.history calls) m ∧
        m.length = c.mapSize := by
  obtain ⟨l, hl, hp⟩ := create_pool hc hreserved
  obtain ⟨hbase, hconfig, _⟩ := Pool.create_place hp hreserved
  have hshows := Pool.create_shows hp
  obtain ⟨m, hrun, hlast⟩ := shows_history hshows calls
  rw [hbase, hconfig] at hrun
  refine ⟨l, hl, m, hrun, ?_⟩
  rw [hlast.bytes, LinearMap.length_bytesAt, (served_sound hshows.sound calls).2.config, hconfig]

/-- Four pages in slices of two. Bytes are written at the end of the first slice, and others
that would go past it; an allocation attaches the second slice but finds no place; then
bytes are written and read across the border. -/
def borderCalls : List MemoryCall :=
  [.alloc 2, .write 12284 [1, 2, 3, 4], .write 12286 [9, 9, 9], .release 4096 1, .alloc 3,
    .write 12286 [5, 6, 7, 8], .read 12284 6, .readSlice 1 0 3, .readSlice 2 0 1]

theorem flat_memory_border :
    PoolConfig.validate ⟨8192, 16384⟩ = .ok () ∧ (Host.plain 4096).reserve 16384 = .ok 4096 ∧
      ∃ l, Layout.create (.plain 4096) ⟨8192, 16384⟩ = .ok l ∧
        (l.history borderCalls).map Served.answer =
          [.address (.ok 4096), .done (.ok ()), .done (.error (.outOfRange 12286)), .done (.ok ()),
            .address (.error (.allocationFailed "no contiguous range of 3 pages (3 free)")),
            .done (.ok ()), .bytes (.ok [1, 2, 5, 6, 7, 8]), .sliceBytes (some (.ok [7, 8, 0])),
            .sliceBytes none] ∧
        ∃ m, FlatRun 4096 8192 (List.replicate 16384 0) (l.history borderCalls) m ∧ m.length = 16384 := by
  obtain ⟨l, hl, hrun⟩ := @flat_memory (.plain 4096) 4096 ⟨8192, 16384⟩ rfl rfl borderCalls
  obtain rfl := Except.ok.inj (hl.symm.trans rfl)
  exact ⟨rfl, rfl, _, hl, rfl, hrun⟩

end Layout

end GuestMachine.Memory
