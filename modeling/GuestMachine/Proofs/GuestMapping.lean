import GuestMachine.Proofs.PageTable
import GuestMachine.Proofs.PoolGrowth

/-! Mapping pages of the pool into the guest.

A range is cut at the borders of slices: the first piece goes up to the next border, and
the others are the pieces of the rest (`pieces_cons`), so that there is one for every slice
the range meets (`pieces_eq`). A sound pool has a slice for every piece of a backed range, so
the range is mapped whole (`mapPieces_spec`); and what `mapToGuest` does to a mappable range is
one overlay on what the pages of the guest were mapped to before (`mapToGuest_overlay`). -/
namespace GuestMachine.Memory

/-! ### Pieces -/

/-- A piece of the rest of a range, as a piece of the whole: `n` bytes come before it. -/
def Piece.after (n : Nat) (p : Piece) : Piece := {p with before := n + p.before}

/-- What has been passed shifts every piece. -/
theorem cut_after (sliceSize turns offset left n before : Nat) :
    cut sliceSize turns offset left (n + before) = (cut sliceSize turns offset left before).map (Piece.after n) := by
  induction turns generalizing offset left before with
  | zero => rfl
  | succ turns ih =>
    rw [cut, cut]
    split
    · rfl
    · dsimp only
      rw [Nat.add_assoc, ih]
      rfl

/-- More turns than bytes change nothing: no piece is empty, so that less is left after it. -/
theorem cut_turns {sliceSize : Nat} (hsize : 0 < sliceSize) {turns turns' offset left before : Nat}
    (h : left ≤ turns) (h' : left ≤ turns') :
    cut sliceSize turns offset left before = cut sliceSize turns' offset left before := by
  induction turns generalizing turns' offset left before with
  | zero =>
    obtain rfl := Nat.le_zero.mp h
    cases turns' <;> rfl
  | succ turns ih =>
    cases turns' with
    | zero =>
      obtain rfl := Nat.le_zero.mp h'
      rfl
    | succ turns' =>
      rw [cut, cut]
      split
      · rfl
      next hleft =>
        have hwithin := Nat.mod_lt offset hsize
        dsimp only
        rw [@ih turns' _ _ _ (by omega) (by omega)]

theorem pieces_zero (sliceSize offset : Nat) : pieces sliceSize offset 0 = [] := rfl

/-- The first piece of a range, and the pieces of the rest. -/
theorem pieces_cons {sliceSize offset length : Nat} (hsize : 0 < sliceSize) (hpos : 0 < length) :
    pieces sliceSize offset length =
      ⟨offset / sliceSize, offset % sliceSize, min length (sliceSize - offset % sliceSize), 0⟩ ::
        (pieces sliceSize (offset + min length (sliceSize - offset % sliceSize))
          (length - min length (sliceSize - offset % sliceSize))).map
            (Piece.after (min length (sliceSize - offset % sliceSize))) := by
  have hwithin := Nat.mod_lt offset hsize
  obtain ⟨turns, rfl⟩ : ∃ turns, length = turns + 1 := ⟨length - 1, by omega⟩
  rw [pieces, pieces, cut, if_neg (by omega), ← cut_after]
  dsimp only
  rw [Nat.zero_add, cut_turns hsize (Nat.le_refl _) (show _ ≤ turns by omega)]
  rfl

/-! The pieces of a range are what the slices have of it. -/

/-- The part of `[offset, offset + length)` in slice `i`. -/
def pieceIn (sliceSize offset length i : Nat) : Piece :=
  let low := max offset (i * sliceSize)
  let high := min (offset + length) ((i + 1) * sliceSize)
  ⟨i, low - i * sliceSize, high - low, low - offset⟩

theorem pieceIn_first {sliceSize offset length : Nat} (hsize : 0 < sliceSize) :
    pieceIn sliceSize offset length (offset / sliceSize) =
      ⟨offset / sliceSize, offset % sliceSize, min length (sliceSize - offset % sliceSize), 0⟩ := by
  have hwithin := Nat.mod_lt offset hsize
  have hsplit := Nat.div_add_mod' offset sliceSize
  have hnext := Nat.add_one_mul (offset / sliceSize) sliceSize
  simp only [pieceIn, Piece.mk.injEq, true_and]
  omega

/-- What a slice has of a range from its beginning on, it has of the rest. -/
theorem pieceIn_later {sliceSize offset length n i : Nat} (hn : n ≤ length) (hi : offset + n ≤ i * sliceSize) :
    pieceIn sliceSize offset length i = (pieceIn sliceSize (offset + n) (length - n) i).after n := by
  simp only [pieceIn, Piece.after, Piece.mk.injEq, true_and]
  omega

/-- There is one piece for every slice that a range meets, in ascending order. -/
theorem pieces_eq {sliceSize offset length : Nat} (hsize : 0 < sliceSize) (hpos : 0 < length) :
    pieces sliceSize offset length =
      (List.range' (offset / sliceSize) ((offset + (length - 1)) / sliceSize - offset / sliceSize + 1)).map
        (pieceIn sliceSize offset length) := by
  induction length using Nat.strongRecOn generalizing offset with
  | ind length ih =>
    have hwithin := Nat.mod_lt offset hsize
    have hsplit := Nat.div_add_mod' offset sliceSize
    have hnext := Nat.add_one_mul (offset / sliceSize) sliceSize
    rw [pieces_cons hsize hpos, List.range'_succ, List.map_cons, pieceIn_first hsize]
    generalize hn : min length (sliceSize - offset % sliceSize) = n
    refine congrArg _ ?_
    rcases Nat.lt_or_ge sliceSize (offset % sliceSize + length) with hlong | hshort
    · have hborder : offset + n = (offset / sliceSize + 1) * sliceSize := by omega
      have hfirst : (offset + n) / sliceSize = offset / sliceSize + 1 := by
        rw [hborder, Nat.mul_div_cancel _ hsize]
      have hlast : offset / sliceSize + 1 ≤ (offset + (length - 1)) / sliceSize :=
        (Nat.le_div_iff_mul_le hsize).mpr (by omega)
      have hend : offset + n + (length - n - 1) = offset + (length - 1) := by omega
      rw [ih (length - n) (by omega) (by omega), hend, hfirst, List.map_map,
        show (offset + (length - 1)) / sliceSize - (offset / sliceSize + 1) + 1 =
          (offset + (length - 1)) / sliceSize - offset / sliceSize by omega]
      refine List.map_congr_left fun i hi => (pieceIn_later (by omega) ?_).symm
      rw [hborder]
      exact Nat.mul_le_mul_right _ (List.mem_range'_1.mp hi).1
    · have hlast : (offset + (length - 1)) / sliceSize = offset / sliceSize := by
        refine Nat.div_eq_of_lt_le ?_ ?_ <;> omega
      rw [hlast, Nat.sub_self, show length - n = 0 by omega, pieces_zero]
      rfl

namespace Pool

/-! ### Mapping piece by piece -/

theorem mapPieces_after (p : Pool) (guest n : Nat) (prot : Protection) (l : List Piece)
    (t : GuestTable) :
    p.mapPieces guest prot (l.map (Piece.after n)) t = p.mapPieces (guest + n) prot l t := by
  induction l generalizing t with
  | nil => rfl
  | cons piece rest ih =>
    simp only [List.map_cons, mapPieces, ih]
    rw [show guest + (piece.after n).before = guest + n + piece.before from (Nat.add_assoc ..).symm]
    rfl

/-- Every backed page is in a slice. -/
theorem Sound.slice_of_page {p : Pool} (h : p.Sound) {page : Nat} (hp : page < p.materialized) :
    p.slices[page / p.config.slicePages]? = some (p.sliceAt (page / p.config.slicePages)) := by
  have hlt : page / p.config.slicePages < p.slices.length :=
    (Nat.div_lt_iff_lt_mul h.config.slicePages_pos).mpr hp
  have hs := List.getElem?_eq_getElem hlt
  rw [hs, h.slices _ _ hs]

/-- Backed pages are cut into a first piece of whole pages in one slice and the pieces of the
others. -/
theorem Sound.pieces_pages {p : Pool} (h : p.Sound) {first count : Nat} (hcount : 0 < count)
    (hend : first + count ≤ p.materialized) :
    ∃ k, 0 < k ∧ k ≤ count ∧ first % p.config.slicePages + k ≤ p.config.slicePages ∧
      p.slices[first / p.config.slicePages]? = some (p.sliceAt (first / p.config.slicePages)) ∧
      pieces p.config.sliceSize (first * pageSize) (count * pageSize) =
        ⟨first / p.config.slicePages, first % p.config.slicePages * pageSize, k * pageSize, 0⟩ ::
          (pieces p.config.sliceSize ((first + k) * pageSize) ((count - k) * pageSize)).map
            (Piece.after (k * pageSize)) := by
  have hps : 0 < pageSize := by decide
  have hsp := h.config.slicePages_pos
  have hmod := Nat.mod_lt first hsp
  generalize hk : min count (p.config.slicePages - first % p.config.slicePages) = k
  have hlength : min (count * pageSize) (p.config.slicePages * pageSize - first % p.config.slicePages * pageSize) =
      k * pageSize := by
    rw [← Nat.sub_mul, Nat.mul_min_mul_right, hk]
  refine ⟨k, by omega, by omega, by omega, h.slice_of_page (by omega), ?_⟩
  rw [h.config.sliceSize, pieces_cons (Nat.mul_pos hsp hps) (Nat.mul_pos hcount hps), Nat.mul_mod_mul_right,
    Nat.mul_div_mul_right _ _ hps, hlength, ← Nat.add_mul, ← Nat.sub_mul]

/-- Pages in one slice are mapped. -/
theorem Sound.map_pages {p : Pool} (h : p.Sound) {first k : Nat}
    (hfit : first % p.config.slicePages + k ≤ p.config.slicePages) (guest : Nat) (prot : Protection) (t : GuestTable) :
    ∃ t', t.map (p.sliceAt (first / p.config.slicePages)) (first % p.config.slicePages * pageSize)
        (k * pageSize) (guest * pageSize) prot = .ok t' ∧
      ∀ page, t'.lookup page =
        if guest ≤ page ∧ page < guest + k then some ⟨p.base + (first + (page - guest)) * pageSize, prot⟩
        else t.lookup page := by
  have hps : 0 < pageSize := by decide
  have haligned : ∀ n, isAligned (n * pageSize) = true := fun n => (isAligned_iff _).mpr (Nat.mul_mod_left ..)
  have hinside : first % p.config.slicePages * pageSize + k * pageSize ≤ p.config.sliceSize := by
    rw [h.config.sliceSize, ← Nat.add_mul]
    exact Nat.mul_le_mul_right _ hfit
  have hhost : (p.sliceAt (first / p.config.slicePages)).base + first % p.config.slicePages * pageSize =
      p.base + first * pageSize := by
    show p.base + first / p.config.slicePages * p.config.sliceSize + _ = _
    rw [h.config.sliceSize, ← Nat.mul_assoc, Nat.add_assoc, ← Nat.add_mul, Nat.div_add_mod']
  refine ⟨_, GuestTable.map_eq_ok_iff.mpr ⟨haligned _, haligned _, haligned _, hinside, rfl⟩, fun page => ?_⟩
  rw [GuestTable.lookup_mapped, Nat.mul_div_cancel _ hps, Nat.mul_div_cancel _ hps, hhost, Nat.add_assoc,
    ← Nat.add_mul]

/-- A backed range of pages is mapped whole. -/
theorem mapPieces_spec {p : Pool} (h : p.Sound) (prot : Protection) (n a g : Nat) (t : GuestTable)
    (hend : a + n ≤ p.materialized) :
    ∃ t', p.mapPieces (g * pageSize) prot
        (pieces p.config.sliceSize (a * pageSize) (n * pageSize)) t = (.ok (), t') ∧
      ∀ page, t'.lookup page =
        if g ≤ page ∧ page < g + n then some ⟨p.base + (a + (page - g)) * pageSize, prot⟩
        else t.lookup page := by
  induction n using Nat.strongRecOn generalizing a g t with
  | ind n ih =>
    rcases Nat.eq_zero_or_pos n with rfl | hn
    · rw [Nat.zero_mul, pieces_zero]
      exact ⟨t, rfl, fun page => by rw [if_neg (by omega)]⟩
    obtain ⟨k, hk, hle, hfit, hslice, hpieces⟩ := h.pieces_pages hn hend
    obtain ⟨t₁, hmap, hfirst⟩ := h.map_pages hfit g prot t
    obtain ⟨t', hrest, hlook⟩ := ih (n - k) (by omega) (a + k) (g + k) t₁ (by omega)
    refine ⟨t', ?_, fun page => ?_⟩
    · rw [hpieces, mapPieces, sliceOf]
      simp only [hslice, Nat.add_zero, hmap]
      rw [mapPieces_after, ← Nat.add_mul]
      exact hrest
    · rw [hlook, hfirst]
      by_cases hlater : g + k ≤ page ∧ page < g + k + (n - k)
      · rw [if_pos hlater, if_pos (by omega), show a + k + (page - (g + k)) = a + (page - g) from by omega]
      · rw [if_neg hlater]
        by_cases hhere : g ≤ page ∧ page < g + k
        · rw [if_pos hhere, if_pos (by omega)]
        · rw [if_neg hhere, if_neg (by omega)]

/-! ### Overlays -/

/-- What page `i` of a run from a host address is mapped to. -/
def mappingOf (p : Pool) (host : Nat) (prot : Protection) (i : Nat) : Option Mapping :=
  if prot.isNone then none
  else some ⟨p.base + ((host - p.base) / pageSize + i) * pageSize, prot⟩

/-- What the pages of the guest are mapped to once some of them are mapped to the pool,
or to nothing. -/
def overlay (p : Pool) (host guest pages : Nat) (prot : Protection) (v : Nat → Option Mapping) :
    Nat → Option Mapping := fun page =>
  if guest / pageSize ≤ page ∧ page < guest / pageSize + pages then
    p.mappingOf host prot (page - guest / pageSize)
  else v page

/-- A range of pages that can be mapped. -/
structure Mappable (p : Pool) (host guest pages : Nat) (prot : Protection) : Prop where
  aligned : isAligned guest = true
  room : guest + pages * pageSize < addressLimit
  backed : prot.isNone = true ∨ (isAligned host = true ∧ p.base ≤ host ∧
    host - p.base + pages * pageSize ≤ p.materialized * pageSize)

theorem lookup_unmap_pages {guest : Nat} (hg : isAligned guest = true) (pages : Nat) (t : GuestTable)
    (page : Nat) :
    (t.unmap guest (pages * pageSize)).lookup page =
      if guest / pageSize ≤ page ∧ page < guest / pageSize + pages then none else t.lookup page := by
  have hend : pagesOfBytes (guest + pages * pageSize) = guest / pageSize + pages := by
    rw [isAligned_iff] at hg
    simp only [pagesOfBytes, pageSize] at *
    omega
  rw [GuestTable.lookup_unmap, hend]

/-- A mappable range is mapped, and nothing else changes. -/
theorem mapToGuest_overlay {p : Pool} (h : p.Sound) {host guest pages : Nat} {prot : Protection}
    (hm : p.Mappable host guest pages prot) (t : GuestTable) :
    ∃ t', p.mapToGuest t host guest pages prot = (.ok (), t') ∧
      t'.lookup = p.overlay host guest pages prot t.lookup := by
  have hbytes : bytesOfPages pages = .ok (pages * pageSize) :=
    bytesOfPages_eq_ok_iff.mpr ⟨Nat.lt_of_le_of_lt (Nat.le_add_left ..) hm.room, rfl⟩
  rcases Nat.eq_zero_or_pos pages with rfl | hpos
  · refine ⟨t, rfl, funext fun page => ?_⟩
    rw [overlay, if_neg (by omega)]
  rw [mapToGuest, if_neg (by omega), hbytes]
  dsimp only
  rw [if_neg (Nat.not_le.mpr hm.room)]
  by_cases hnone : prot.isNone = true
  · rw [if_pos hnone]
    refine ⟨_, rfl, funext fun page => ?_⟩
    rw [lookup_unmap_pages hm.aligned, overlay, mappingOf, if_pos hnone]
  · rw [if_neg hnone]
    obtain ⟨haligned, hbase, hend⟩ := hm.backed.resolve_left hnone
    have hpage : p.backedPage host pages = .ok ((host - p.base) / pageSize) :=
      backedPage_eq_ok_iff.mpr ⟨haligned, (bytesOfPages_eq_ok_iff.mp hbytes).1, hbase, hend, rfl⟩
    have hguest : guest = guest / pageSize * pageSize :=
      (Nat.div_mul_cancel (Nat.dvd_of_mod_eq_zero ((isAligned_iff guest).mp hm.aligned))).symm
    have hfits : (host - p.base) / pageSize + pages ≤ p.materialized := by
      simp only [pageSize] at *
      omega
    obtain ⟨t', ht', hlook⟩ := mapPieces_spec h prot pages ((host - p.base) / pageSize)
      (guest / pageSize) (t.unmap guest (pages * pageSize)) hfits
    rw [← hguest] at ht'
    rw [hpage]
    refine ⟨t', ht', funext fun page => ?_⟩
    rw [hlook, lookup_unmap_pages hm.aligned, overlay, mappingOf, if_neg hnone]
    split
    · rfl
    · rfl

end Pool

end GuestMachine.Memory
