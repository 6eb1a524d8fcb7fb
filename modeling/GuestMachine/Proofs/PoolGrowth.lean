import GuestMachine.Memory.Pool
import GuestMachine.Proofs.FreePages

/-! How the pool grows.

A sound pool (`Sound`) has its slices side by side from the start of the map, keeps its
free pages among the backed ones, and counts every backed page once, as free or as
handed out. Growth (`Grows`) adds whole slices at the end, all of them free, and changes
nothing else; the host may refuse to back a slice, and then the pool stays as it is. If the
host backs them all (`Backed`), `alloc_spec` says where an allocation takes its pages: from
the pool grown just so far, by the free list's own lowest fit, or, from the pool grown to its
end, not at all. -/
namespace GuestMachine.Memory

/-- What a validated configuration gives. -/
structure PoolConfig.Valid (c : PoolConfig) : Prop where
  slicePages_pos : 0 < c.slicePages
  sliceSize : c.sliceSize = c.slicePages * pageSize
  mapSize : c.mapSize = c.mapPages * pageSize
  divides : c.slicePages ∣ c.mapPages
  mapPages_pos : 0 < c.mapPages
  ids : c.mapPages + chunkPages ≤ UInt32.size

theorem PoolConfig.valid_of_validate {c : PoolConfig} (h : c.validate = .ok ()) : c.Valid := by
  unfold PoolConfig.validate at h
  split at h
  · cases h
  next hslice =>
  split at h
  · cases h
  next hmap =>
  split at h
  · cases h
  next hdiv =>
  split at h
  · cases h
  next hids =>
  simp only [Bool.not_eq_true', not_or, ← Bool.not_eq_true, Decidable.not_not,
    isAligned_iff] at hslice hmap
  have hs : c.sliceSize = c.slicePages * pageSize :=
    (Nat.div_mul_cancel (Nat.dvd_of_mod_eq_zero hslice.2)).symm
  have hm : c.mapSize = c.mapPages * pageSize :=
    (Nat.div_mul_cancel (Nat.dvd_of_mod_eq_zero hmap.2)).symm
  have hdvd : c.slicePages * pageSize ∣ c.mapPages * pageSize := by
    rw [← hs, ← hm]
    exact Nat.dvd_of_mod_eq_zero (Decidable.not_not.mp hdiv)
  refine ⟨Nat.pos_of_ne_zero fun h0 => hslice.1 ?_, hs, hm,
    Nat.dvd_of_mul_dvd_mul_right (by decide) hdvd, Nat.pos_of_ne_zero fun h0 => hmap.1 ?_, by omega⟩
  · rw [hs, h0, Nat.zero_mul]
  · rw [hm, h0, Nat.zero_mul]

/-- The ids of a valid map are few enough that a plain host reserves it. -/
theorem PoolConfig.Valid.plain_reserve {c : PoolConfig} (h : c.Valid) (base : Nat) :
    (Host.plain base).reserve c.mapSize = .ok base := by
  refine if_pos ?_
  have hids := h.ids
  rw [h.mapSize]
  simp only [pageSize, chunkPages, UInt32.size] at *
  omega

namespace Pool

/-- The slice that backs the part of the map with number `i`. -/
def sliceAt (p : Pool) (i : Nat) : Slice :=
  ⟨i, p.base + i * p.config.sliceSize, p.config.sliceSize⟩

structure Sound (p : Pool) : Prop where
  config : p.config.Valid
  size : p.map.size = p.config.mapSize
  slices : ∀ i s, p.slices[i]? = some s → s = p.sliceAt i
  bounded : p.materialized ≤ p.config.mapPages
  order : p.free.Ordered
  within : ∀ page, p.free.Has page → page < p.materialized
  counted : p.free.pages + p.reserved = p.materialized

/-- The host backs every slice of the map. -/
def Backed (p : Pool) : Prop := p.map.host.Backs p.base p.config.mapSize

/-- `q` is `p` with `n` more slices. -/
structure Grows (p : Pool) (n : Nat) (q : Pool) : Prop where
  config : q.config = p.config
  base : q.base = p.base
  host : q.map.host = p.map.host
  reserved : q.reserved = p.reserved
  slices : p.slices <+: q.slices
  count : q.slices.length = p.slices.length + n
  free : ∀ page, q.free.Has page ↔
    p.free.Has page ∨ (p.materialized ≤ page ∧ page < q.materialized)

theorem Grows.refl (p : Pool) : Grows p 0 p :=
  ⟨rfl, rfl, rfl, rfl, List.prefix_refl _, rfl, fun page => by rw [or_iff_left (by omega)]⟩

theorem Grows.materialized {p q : Pool} {n : Nat} (h : Grows p n q) :
    q.materialized = p.materialized + n * p.config.slicePages := by
  rw [Pool.materialized, h.count, h.config, Nat.add_mul]
  rfl

theorem Grows.le {p q : Pool} {n : Nat} (h : Grows p n q) : p.materialized ≤ q.materialized := by
  rw [h.materialized]
  exact Nat.le_add_right _ _

theorem Grows.trans {p q r : Pool} {n k : Nat} (h : Grows p n q) (h' : Grows q k r) :
    Grows p (n + k) r := by
  refine ⟨h'.config.trans h.config, h'.base.trans h.base, h'.host.trans h.host, h'.reserved.trans h.reserved,
    h.slices.trans h'.slices, by rw [h'.count, h.count, Nat.add_assoc], fun page => ?_⟩
  have hpq := h.le
  have hqr := h'.le
  rw [h'.free, h.free, or_assoc]
  exact or_congr Iff.rfl (by omega)

/-- `q` has the map of `p`, backed at least as far. -/
structure Follows (p q : Pool) : Prop where
  config : q.config = p.config
  base : q.base = p.base
  host : q.map.host = p.map.host
  slices : p.slices <+: q.slices

theorem Follows.refl (p : Pool) : Follows p p := ⟨rfl, rfl, rfl, List.prefix_refl _⟩

theorem Follows.trans {p q r : Pool} (h : Follows p q) (h' : Follows q r) : Follows p r :=
  ⟨h'.config.trans h.config, h'.base.trans h.base, h'.host.trans h.host, h.slices.trans h'.slices⟩

theorem Grows.follows {p q : Pool} {n : Nat} (h : Grows p n q) : Follows p q :=
  ⟨h.config, h.base, h.host, h.slices⟩

theorem Follows.backed {p q : Pool} (h : Follows p q) (hp : p.Backed) : q.Backed := by
  rw [Backed, h.host, h.base, h.config]
  exact hp

theorem Follows.le {p q : Pool} (h : Follows p q) : p.materialized ≤ q.materialized := by
  rw [materialized, materialized, h.config]
  exact Nat.mul_le_mul_right _ h.slices.length_le

theorem Grows.backed {p q : Pool} {n : Nat} (h : Grows p n q) (hp : p.Backed) : q.Backed := h.follows.backed hp

/-! ### Creation -/

theorem create_eq {host : Host} {c : PoolConfig} {p : Pool} (h : create host c = .ok p) :
    c.Valid ∧ ∃ base, host.reserve c.mapSize = .ok base ∧
      p = {config := c, map := {base, size := c.mapSize, host}} := by
  unfold create at h
  cases hv : c.validate with
  | error e =>
    rw [hv] at h
    cases h
  | ok u =>
    have hc := PoolConfig.valid_of_validate hv
    rw [hv] at h
    change (LinearMap.reserve host c.mapSize).bind _ = _ at h
    unfold LinearMap.reserve at h
    split at h
    · cases h
    · split at h
      next base hreserved =>
        cases h
        exact ⟨hc, base, hreserved, rfl⟩
      next => cases h

/-- A pool of a valid configuration is created where the host reserves its map. -/
theorem create_ok {host : Host} {c : PoolConfig} (h : c.validate = .ok ()) {base : Nat}
    (hreserved : host.reserve c.mapSize = .ok base) :
    create host c = .ok {config := c, map := {base, size := c.mapSize, host}} := by
  have hc := PoolConfig.valid_of_validate h
  have hsize : c.mapSize ≠ 0 := by
    rw [hc.mapSize]
    exact Nat.ne_of_gt (Nat.mul_pos hc.mapPages_pos (by decide))
  rw [create, h]
  show (LinearMap.reserve host c.mapSize >>= _) = _
  rw [LinearMap.reserve, if_neg hsize, hreserved]
  rfl

theorem create_sound {host : Host} {c : PoolConfig} {p : Pool} (h : create host c = .ok p) :
    p.Sound := by
  obtain ⟨hc, _, _, rfl⟩ := create_eq h
  refine ⟨hc, rfl, fun i s hs => by simp at hs, ?_, FreeList.ordered_empty, ?_, ?_⟩
  · simp [materialized]
  · exact fun page hp => absurd hp (FreeList.not_has_empty page)
  · simp [materialized, FreeList.pages]

/-! ### One slice more -/

/-- A slice lies in the part of the map that is backed. -/
theorem Sound.slice_bounds {p : Pool} (h : p.Sound) {s : Slice} (hs : s ∈ p.slices) :
    p.base ≤ s.base ∧ s.base + s.size ≤ p.base + p.materialized * pageSize := by
  obtain ⟨i, hi, rfl⟩ := List.mem_iff_getElem.mp hs
  have heq := h.slices i _ (List.getElem?_eq_getElem hi)
  rw [heq]
  refine ⟨Nat.le_add_right _ _, ?_⟩
  have hcount : (i + 1) * p.config.sliceSize ≤ p.slices.length * p.config.sliceSize :=
    Nat.mul_le_mul_right _ hi
  have hsize : p.slices.length * p.config.sliceSize = p.materialized * pageSize := by
    rw [h.config.sliceSize, materialized, Nat.mul_assoc]
  rw [Nat.add_one_mul] at hcount
  show p.base + i * p.config.sliceSize + p.config.sliceSize ≤ _
  omega

/-- The slices end where the pages that are backed end. -/
theorem Sound.slices_end {p : Pool} (h : p.Sound) :
    p.slices.length * p.config.sliceSize = p.materialized * pageSize := by
  rw [h.config.sliceSize, materialized, Nat.mul_assoc]

/-- Where the next slice begins there is a page of it, and not the end of the last. -/
theorem Sound.slice_aligned {p : Pool} (h : p.Sound) :
    isAligned (p.slices.length * p.config.sliceSize) = true ∧ isAligned p.config.sliceSize = true ∧
      0 < p.config.sliceSize := by
  refine ⟨?_, ?_, ?_⟩
  · rw [isAligned_iff, h.slices_end, Nat.mul_mod_left]
  · rw [isAligned_iff, h.config.sliceSize, Nat.mul_mod_left]
  · rw [h.config.sliceSize]
    exact Nat.mul_pos h.config.slicePages_pos (by decide)

/-- The map takes the next slice, if it has room for it and the host backs it. -/
theorem Sound.attach_next {p : Pool} (h : p.Sound) (hback : p.Backed)
    (hfits : p.slices.length * p.config.sliceSize + p.config.sliceSize ≤ p.config.mapSize) :
    p.map.attach p.slices.length (p.slices.length * p.config.sliceSize) p.config.sliceSize =
      .ok (p.sliceAt p.slices.length,
        p.map.zero (p.base + p.slices.length * p.config.sliceSize)
          (pagesOfBytes p.config.sliceSize * pageSize)) := by
  obtain ⟨hoffset, hlength, hpos⟩ := h.slice_aligned
  have hbacked : p.map.host.back (p.map.base + p.slices.length * p.config.sliceSize) p.config.sliceSize = .ok () :=
    hback _ _ hoffset hlength hpos hfits
  rw [LinearMap.attach, h.size, if_neg (by omega), hbacked]
  rfl

/-- The pages of the next slice are not in the list: all that is in it lies below them. -/
theorem Sound.free_next {p : Pool} (h : p.Sound) :
    ∃ f, p.free.free? p.materialized p.config.slicePages = some f := by
  cases hf : p.free.free? p.materialized p.config.slicePages with
  | some f => exact ⟨f, rfl⟩
  | none =>
    obtain ⟨page, hlow, _, hp⟩ := FreeList.free?_none h.order hf
    have := h.within page hp
    omega

/-- A slice where the others end, and its pages free. -/
theorem Sound.extend {p : Pool} (h : p.Sound) {f : FreeList} (map : LinearMap)
    (hsize : map.base = p.map.base ∧ map.size = p.map.size) (hhost : map.host = p.map.host)
    (hf : p.free.free? p.materialized p.config.slicePages = some f)
    (hroom : p.materialized + p.config.slicePages ≤ p.config.mapPages) :
    let q := {p with map, slices := p.slices ++ [p.sliceAt p.slices.length], free := f}
    q.Sound ∧ Grows p 1 q := by
  intro q
  obtain ⟨horder, _, hpages, htotal⟩ := FreeList.free?_spec h.order hf
  have hmat : (p.slices ++ [p.sliceAt p.slices.length]).length * p.config.slicePages =
      p.materialized + p.config.slicePages := by
    rw [List.length_append, List.length_singleton, Nat.add_mul, Nat.one_mul]
    rfl
  constructor
  · refine ⟨h.config, ?_, fun i s hs => ?_, ?_, horder, fun page hp => ?_, ?_⟩
    · exact hsize.2.trans h.size
    · rcases Nat.lt_or_ge i p.slices.length with hi | hi
      · have hbase : q.sliceAt i = p.sliceAt i := by
          simp only [q, sliceAt, base, hsize.1]
        rw [hbase]
        exact h.slices i s (by rwa [List.getElem?_append_left hi] at hs)
      · rw [List.getElem?_append_right hi] at hs
        obtain ⟨hi', rfl⟩ : i - p.slices.length = 0 ∧ p.sliceAt p.slices.length = s := by
          rw [List.getElem?_singleton] at hs
          split at hs
          · exact ⟨‹_›, Option.some.inj hs⟩
          · cases hs
        rw [show i = p.slices.length from by omega]
        simp only [q, sliceAt, base, hsize.1]
    · show (p.slices ++ [_]).length * _ ≤ _
      rw [hmat]
      exact hroom
    · show page < (p.slices ++ [_]).length * _
      rw [hmat]
      rcases (hpages page).mp hp with hnew | hold
      · exact hnew.2
      · exact Nat.lt_add_right _ (h.within page hold)
    · show f.pages + p.reserved = (p.slices ++ [_]).length * _
      have := h.counted
      rw [hmat, htotal]
      omega
  · refine ⟨rfl, hsize.1, hhost, rfl, List.prefix_append _ _, by simp [q], fun page => ?_⟩
    show f.Has page ↔ p.free.Has page ∨ (_ ∧ page < (p.slices ++ [_]).length * _)
    rw [hmat, hpages page, or_comm]

/-- The map has room for the next slice in bytes if it has in pages. -/
theorem Sound.fits_iff {p : Pool} (h : p.Sound) :
    p.slices.length * p.config.sliceSize + p.config.sliceSize ≤ p.config.mapSize ↔
      p.materialized + p.config.slicePages ≤ p.config.mapPages := by
  rw [h.slices_end, h.config.sliceSize, h.config.mapSize, ← Nat.add_mul]
  exact Nat.mul_le_mul_right_iff (by decide)

/-- The first page of the next slice. -/
theorem Sound.next_page {p : Pool} (h : p.Sound) :
    p.slices.length * p.config.sliceSize / pageSize = p.materialized := by
  rw [h.slices_end]
  exact Nat.mul_div_cancel _ (by decide)

/-- If a slice is attached, the pool has grown by it. -/
theorem addSlice_grows {p q : Pool} (h : p.Sound) (hadd : p.addSlice = .ok q) : q.Sound ∧ Grows p 1 q := by
  obtain ⟨f, hf⟩ := h.free_next
  rw [addSlice, h.next_page, hf] at hadd
  dsimp only at hadd
  split at hadd
  · cases hadd
  next hfits =>
  have hroom := h.fits_iff.mp (Nat.le_of_not_lt hfits)
  rw [LinearMap.attach, h.size, if_neg hfits] at hadd
  split at hadd
  · cases hadd
    exact h.extend (p.map.zero _ _) ⟨rfl, rfl⟩ rfl hf hroom
  · cases hadd

/-- The next slice is attached, if the map has room for it and the host backs it. -/
theorem addSlice_spec {p : Pool} (h : p.Sound) (hback : p.Backed)
    (hroom : p.materialized + p.config.slicePages ≤ p.config.mapPages) :
    ∃ q, p.addSlice = .ok q ∧ q.Sound ∧ Grows p 1 q := by
  have hfits := h.fits_iff.mpr hroom
  obtain ⟨q, hadd⟩ : ∃ q, p.addSlice = .ok q := by
    rw [addSlice]
    dsimp only
    rw [if_neg (Nat.not_lt.mpr hfits), h.attach_next hback hfits]
    exact ⟨_, rfl⟩
  exact ⟨q, hadd, addSlice_grows h hadd⟩

/-- Several slices are attached, up to the first that is not. -/
theorem addSlices_grows (n : Nat) {p : Pool} (h : p.Sound) :
    (p.addSlices n).2.Sound ∧ ∃ k, Grows p k (p.addSlices n).2 := by
  induction n generalizing p with
  | zero => exact ⟨h, 0, .refl p⟩
  | succ n ih =>
    rw [addSlices]
    cases hadd : p.addSlice with
    | error e => exact ⟨h, 0, .refl p⟩
    | ok p' =>
      obtain ⟨hp', hg⟩ := addSlice_grows h hadd
      obtain ⟨hsound, k, hg'⟩ := ih hp'
      exact ⟨hsound, 1 + k, hg.trans hg'⟩

/-- Several slices are attached, if the map has room for them and the host backs them. -/
theorem addSlices_spec (n : Nat) {p : Pool} (h : p.Sound) (hback : p.Backed)
    (hroom : p.materialized + n * p.config.slicePages ≤ p.config.mapPages) :
    ∃ q, p.addSlices n = (.ok (), q) ∧ q.Sound ∧ Grows p n q := by
  induction n generalizing p with
  | zero => exact ⟨p, rfl, h, .refl p⟩
  | succ n ih =>
    rw [Nat.succ_mul] at hroom
    obtain ⟨p', hadd, hp', hg⟩ := addSlice_spec h hback (by omega)
    have hmat := hg.materialized
    obtain ⟨q, hq, hs, hg'⟩ := ih hp' (hg.backed hback) (by rw [hg.config, hmat]; omega)
    refine ⟨q, ?_, hs, by rw [Nat.add_comm n 1]; exact hg.trans hg'⟩
    rw [addSlices, hadd]
    exact hq

/-- As many slices as a number of pages lacks back them, and still fit in the map. -/
theorem lacking_spec {p : Pool} (h : p.Sound) {pages : Nat} (hp : pages ≤ p.config.mapPages) :
    pages ≤ p.materialized + p.lacking pages * p.config.slicePages ∧
      p.materialized + p.lacking pages * p.config.slicePages ≤ p.config.mapPages := by
  have hpos := h.config.slicePages_pos
  obtain ⟨k, hk⟩ := h.config.divides
  have hbounded := h.bounded
  have hlack : p.lacking pages = (pages - p.materialized + (p.config.slicePages - 1)) / p.config.slicePages := rfl
  constructor
  · have := Nat.lt_div_mul_add hpos (a := pages - p.materialized + (p.config.slicePages - 1))
    rw [hlack]
    omega
  · -- The map ends at a slice's border, so that rounding up does not leave it.
    have hle : p.lacking pages ≤ k - p.slices.length := by
      rw [hlack]
      refine Nat.le_of_lt_succ ((Nat.div_lt_iff_lt_mul hpos).mpr ?_)
      rw [Nat.succ_mul, Nat.sub_mul, Nat.mul_comm k, ← hk]
      show _ < p.config.mapPages - p.materialized + _
      omega
    have := Nat.mul_le_mul_right p.config.slicePages hle
    rw [Nat.sub_mul, Nat.mul_comm k, ← hk] at this
    change _ ≤ p.config.mapPages - p.materialized at this
    omega

/-! ### Allocations -/

/-- The answer to a request that finds no place in a map backed to its end. -/
def noPlace (pages free : Nat) : Error :=
  .allocationFailed ("no contiguous range of " ++ toString pages ++ " pages ("
    ++ toString free ++ " free)")

/-- The search grows the pool up to a place, or gives up. -/
theorem place_grows (pages more : Nat) {p : Pool} (h : p.Sound) :
    ∃ n q, q.Sound ∧ Grows p n q ∧
      ((∃ start f, q.free.alloc? pages = some (start, f) ∧ place pages more p = (.ok start, {q with free := f})) ∨
        ∃ e, place pages more p = (.error e, q)) := by
  induction more generalizing p with
  | zero =>
    refine ⟨0, p, h, .refl p, ?_⟩
    unfold place
    cases hf : p.free.alloc? pages with
    | some found => exact .inl ⟨found.1, found.2, rfl, rfl⟩
    | none => exact .inr ⟨_, rfl⟩
  | succ more ih =>
    unfold place
    cases hf : p.free.alloc? pages with
    | some found => exact ⟨0, p, h, .refl p, .inl ⟨found.1, found.2, hf, rfl⟩⟩
    | none =>
      cases hadd : p.addSlice with
      | error e => exact ⟨0, p, h, .refl p, .inr ⟨e, rfl⟩⟩
      | ok p' =>
        obtain ⟨hp', hg⟩ := addSlice_grows h hadd
        obtain ⟨n, q, hq, hg', hanswer⟩ := ih hp'
        exact ⟨1 + n, q, hq, hg.trans hg', hanswer⟩

/-- The search grows the pool as long as the free list has no place. -/
theorem place_spec (pages more : Nat) {p : Pool} (h : p.Sound) (hback : p.Backed)
    (hroom : p.materialized + more * p.config.slicePages ≤ p.config.mapPages) :
    ∃ n q, q.Sound ∧ Grows p n q ∧
      match q.free.alloc? pages with
      | some (start, f) => place pages more p = (.ok start, {q with free := f})
      | none => n = more ∧ place pages more p = (.error (noPlace pages q.free.pages), q) := by
  induction more generalizing p with
  | zero =>
    refine ⟨0, p, h, .refl p, ?_⟩
    unfold place
    cases hf : p.free.alloc? pages with
    | some found => rfl
    | none => exact ⟨rfl, rfl⟩
  | succ more ih =>
    rw [Nat.succ_mul] at hroom
    cases hf : p.free.alloc? pages with
    | some found =>
      obtain ⟨start, f⟩ := found
      refine ⟨0, p, h, .refl p, ?_⟩
      rw [hf]
      simp only [place, hf]
    | none =>
      obtain ⟨p', hadd, hp', hg⟩ := addSlice_spec h hback (by omega)
      have hmat := hg.materialized
      obtain ⟨n, q, hq, hg', hanswer⟩ := ih hp' (hg.backed hback) (by rw [hg.config, hmat]; omega)
      have hplace : place pages (more + 1) p = place pages more p' := by
        simp only [place, hf, hadd]
      refine ⟨n + 1, q, hq, by rw [Nat.add_comm]; exact hg.trans hg', ?_⟩
      rw [hplace]
      split
      · next hq' => rw [hq'] at hanswer; exact hanswer
      · next hq' =>
        rw [hq'] at hanswer
        exact ⟨congrArg (· + 1) hanswer.1, hanswer.2⟩

/-- Growing by all the room there is backs the whole map. -/
theorem room_spec {p : Pool} (h : p.Sound) :
    p.materialized + p.room * p.config.slicePages = p.config.mapPages := by
  have hdvd : p.config.slicePages ∣ p.config.mapPages - p.materialized :=
    Nat.dvd_sub h.config.divides (Nat.dvd_mul_left _ _)
  have := h.bounded
  rw [room, Nat.div_mul_cancel hdvd]
  omega

/-- An allocation takes its pages from the pool grown by some slices, or fails. -/
theorem alloc_grows {p : Pool} (h : p.Sound) (pages : Nat) :
    ∃ n q, q.Sound ∧ Grows p n q ∧
      ((∃ start f, q.free.alloc? pages = some (start, f) ∧ p.alloc pages =
          (.ok (p.base + start * pageSize), {q with free := f, reserved := q.reserved + pages})) ∨
        ∃ e, p.alloc pages = (.error e, q)) := by
  unfold alloc
  split
  · exact ⟨0, p, h, .refl p, .inr ⟨_, rfl⟩⟩
  split
  · exact ⟨0, p, h, .refl p, .inr ⟨_, rfl⟩⟩
  obtain ⟨hp', k, hg⟩ := addSlices_grows (p.lacking (p.reserved + pages)) h
  split
  next e p' hadd =>
    rw [hadd] at hp' hg
    exact ⟨k, p', hp', hg, .inr ⟨e, rfl⟩⟩
  next p' hadd =>
    rw [hadd] at hp' hg
    obtain ⟨n, q, hq, hg', ⟨start, f, hf, hplace⟩ | ⟨e, hplace⟩⟩ := place_grows pages p'.room hp'
    · rw [hplace]
      exact ⟨k + n, q, hq, hg.trans hg', .inl ⟨start, f, hf, rfl⟩⟩
    · rw [hplace]
      exact ⟨k + n, q, hq, hg.trans hg', .inr ⟨e, rfl⟩⟩

/-- An allocation that the map has pages for takes them from the pool grown by some
slices, where the free list finds its place; or there is none in the whole map. -/
theorem alloc_spec {p : Pool} (h : p.Sound) (hback : p.Backed) {pages : Nat} (hpos : 0 < pages)
    (htotal : p.reserved + pages ≤ p.config.mapPages) :
    ∃ n q, q.Sound ∧ Grows p n q ∧
      match q.free.alloc? pages with
      | some (start, f) =>
        p.alloc pages = (.ok (p.base + start * pageSize),
          {q with free := f, reserved := q.reserved + pages})
      | none =>
        q.materialized = p.config.mapPages ∧
          p.alloc pages = (.error (noPlace pages q.free.pages), q) := by
  obtain ⟨hlack, hlack'⟩ := lacking_spec h htotal
  obtain ⟨p', hadd, hp', hg⟩ := addSlices_spec _ h hback hlack'
  have hroom := room_spec hp'
  obtain ⟨n, q, hq, hg', hanswer⟩ := place_spec pages p'.room hp' (hg.backed hback) (Nat.le_of_eq hroom)
  refine ⟨_, q, hq, hg.trans hg', ?_⟩
  rw [alloc, if_neg (by omega), if_neg (by omega)]
  simp only [hadd]
  split
  · next hf =>
    rw [hf] at hanswer
    simp only [hanswer]
  · next hf =>
    rw [hf] at hanswer
    obtain ⟨rfl, hplace⟩ := hanswer
    refine ⟨?_, by simp only [hplace]⟩
    rw [hg'.materialized, hroom, hg.config]

/-! ### Pages handed out and taken back -/

/-- Every page from the first free list to the second is counted as handed out. -/
theorem Sound.take {p : Pool} (h : p.Sound) {start count : Nat} {f : FreeList}
    (ha : p.free.alloc? count = some (start, f)) :
    Sound {p with free := f, reserved := p.reserved + count} := by
  have ht := FreeList.alloc?_spec h.order ha
  refine ⟨h.config, h.size, h.slices, h.bounded, ht.order, fun page hp => ?_, ?_⟩
  · exact h.within page ((ht.pages page).mp hp).1
  · have htotal := ht.total
    rw [← FreeList.pages_eq_total, ← FreeList.pages_eq_total] at htotal
    have := h.counted
    show f.pages + (p.reserved + count) = p.materialized
    omega

/-- And every page back from it is not. There are so many handed out, as none of them is
free. -/
theorem Sound.giveBack {p : Pool} (h : p.Sound) {start count : Nat} {f : FreeList}
    (hend : start + count ≤ p.materialized) (hf : p.free.free? start count = some f) :
    Sound {p with free := f, reserved := p.reserved - count} := by
  obtain ⟨horder, _, hfree, htotal⟩ := FreeList.free?_spec h.order hf
  have hwithin : ∀ page, f.Has page → page < p.materialized := by
    intro page hp
    rcases (hfree page).mp hp with hnew | hold
    · omega
    · exact h.within page hold
  refine ⟨h.config, h.size, h.slices, h.bounded, horder, hwithin, ?_⟩
  have hle := horder.total_le hwithin (Nat.zero_le _)
  rw [← FreeList.pages_eq_total] at hle
  have := h.counted
  show f.pages + (p.reserved - count) = p.materialized
  omega

/-! ### Ranges of the pool -/

theorem backedOffset_eq_ok_iff {p : Pool} {address length offset : Nat} :
    p.backedOffset address length = .ok offset ↔
      p.base ≤ address ∧ address - p.base + length ≤ p.materialized * pageSize ∧
        offset = address - p.base := by
  unfold backedOffset
  split
  · next h => simp [h, eq_comm]
  · next h =>
    rw [not_and] at h
    simp
    intro hb hl
    exact absurd hl (h hb)

/-- A range of pages is found in the pool exactly if it begins at a page, can be
counted in bytes and is backed. -/
theorem backedPage_eq_ok_iff {p : Pool} {address pages page : Nat} :
    p.backedPage address pages = .ok page ↔
      isAligned address = true ∧ pages * pageSize < addressLimit ∧ p.base ≤ address ∧
        address - p.base + pages * pageSize ≤ p.materialized * pageSize ∧
        page = (address - p.base) / pageSize := by
  unfold backedPage
  split
  · next h =>
    rw [Bool.not_eq_true', ← Bool.not_eq_true] at h
    simp [h]
  · next h =>
    rw [Bool.not_eq_true', Bool.not_eq_false] at h
    simp only [bind_eq_ok_iff, bytesOfPages_eq_ok_iff, backedOffset_eq_ok_iff, pure, Except.pure,
      Except.ok.injEq]
    constructor
    · rintro ⟨_, ⟨hlt, rfl⟩, _, ⟨hbase, hend, rfl⟩, rfl⟩
      exact ⟨h, hlt, hbase, hend, rfl⟩
    · rintro ⟨_, hlt, hbase, hend, rfl⟩
      exact ⟨_, ⟨hlt, rfl⟩, _, ⟨hbase, hend, rfl⟩, rfl⟩

/-! ### Whole calls -/

/-- An allocation leaves a sound pool, whether it succeeds or not. -/
theorem alloc_sound {p : Pool} (h : p.Sound) (pages : Nat) :
    (p.alloc pages).2.Sound ∧ Follows p (p.alloc pages).2 := by
  obtain ⟨n, q, hq, hg, ⟨start, f, hf, halloc⟩ | ⟨e, halloc⟩⟩ := alloc_grows h pages
  · rw [halloc]
    exact ⟨hq.take hf, hg.config, hg.base, hg.host, hg.slices⟩
  · rw [halloc]
    exact ⟨hq, hg.follows⟩

/-- What a successful release has found and changed. -/
theorem release_eq {p q : Pool} {address pages : Nat} (hr : p.release address pages = .ok q) :
    ∃ start f, p.backedPage address pages = .ok start ∧ p.free.free? start pages = some f ∧
      q = {p with free := f, reserved := p.reserved - pages} := by
  obtain ⟨start, hpage, hrest⟩ := bind_eq_ok_iff.mp hr
  cases hf : p.free.free? start pages with
  | none =>
    rw [hf] at hrest
    cases hrest
  | some f =>
    rw [hf] at hrest
    cases hrest
    exact ⟨start, f, hpage, hf, rfl⟩

theorem backedPage_end {p : Pool} {address pages page : Nat}
    (h : p.backedPage address pages = .ok page) : page + pages ≤ p.materialized := by
  obtain ⟨_, _, _, hend, rfl⟩ := backedPage_eq_ok_iff.mp h
  simp only [pageSize] at *
  omega

theorem release_sound {p q : Pool} (h : p.Sound) {address pages : Nat}
    (hr : p.release address pages = .ok q) : q.Sound ∧ Follows p q := by
  obtain ⟨start, f, hpage, hf, rfl⟩ := release_eq hr
  exact ⟨h.giveBack (backedPage_end hpage) hf, rfl, rfl, rfl, List.prefix_refl _⟩

/-- Copying bytes into slices leaves the map where it is. -/
theorem copied_eq {p : Pool} {data : List UInt8} {l : List Piece} {map map' : LinearMap}
    (h : l.foldlM (fun map piece => do
      let slice ← p.sliceOf piece
      map.write slice piece.within ((data.drop piece.before).take piece.length)) map = .ok map') :
    ∃ contents, map' = {map with contents} := by
  induction l generalizing map with
  | nil =>
    cases h
    exact ⟨_, rfl⟩
  | cons piece rest ih =>
    rw [List.foldlM_cons, bind_eq_ok_iff] at h
    obtain ⟨next, hnext, hrest⟩ := h
    obtain ⟨slice, _, hput⟩ := bind_eq_ok_iff.mp hnext
    obtain ⟨contents, rfl⟩ := ih hrest
    unfold LinearMap.write at hput
    split at hput
    · cases hput
    · cases hput
      exact ⟨contents, rfl⟩

theorem write_eq {p q : Pool} {address : Nat} {data : List UInt8} (hw : p.write address data = .ok q) :
    ∃ contents, q = {p with map := {p.map with contents}} := by
  obtain ⟨offset, _, hrest⟩ := bind_eq_ok_iff.mp hw
  obtain ⟨map, hmap, hq⟩ := bind_eq_ok_iff.mp hrest
  obtain ⟨contents, rfl⟩ := copied_eq hmap
  cases hq
  exact ⟨contents, rfl⟩

theorem write_sound {p q : Pool} (h : p.Sound) {address : Nat} {data : List UInt8}
    (hw : p.write address data = .ok q) : q.Sound ∧ Follows p q := by
  obtain ⟨contents, rfl⟩ := write_eq hw
  exact ⟨⟨h.config, h.size, h.slices, h.bounded, h.order, h.within, h.counted⟩, rfl, rfl, rfl, List.prefix_refl _⟩

/-- The pools that calls can lead to. -/
inductive Reachable : Pool → Prop where
  | created {host : Host} {c : PoolConfig} {p : Pool} (h : create host c = .ok p) : Reachable p
  | alloc {p : Pool} (h : Reachable p) (pages : Nat) : Reachable (p.alloc pages).2
  | release {p q : Pool} (h : Reachable p) {address pages : Nat} (hr : p.release address pages = .ok q) :
    Reachable q
  | write {p q : Pool} (h : Reachable p) {address : Nat} {data : List UInt8} (hw : p.write address data = .ok q) :
    Reachable q

theorem Reachable.sound {p : Pool} (h : p.Reachable) : p.Sound := by
  induction h with
  | created h => exact create_sound h
  | alloc _ pages ih => exact (alloc_sound ih pages).1
  | release _ hr ih => exact (release_sound ih hr).1
  | write _ hw ih => exact (write_sound ih hw).1

end Pool

end GuestMachine.Memory
