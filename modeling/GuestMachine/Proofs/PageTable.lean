import GuestMachine.Memory.GuestTable
import Mathlib.Tactic.SplitIfs

/-! The guest's page table, page by page.

A table is kept as runs, but what it means is what each page is mapped to (`lookup`).
`lookup_unmap` and `lookup_mapped` say what the two operations do to every page,
`map_eq_ok_iff` when a part of a slice can be mapped, and `unmap_exact` compares what is
revoked with the bytes of the range. -/
namespace GuestMachine.Memory

namespace GuestTable

/-- What a list of runs maps a page to. -/
def lookupIn (runs : List MappedRun) (page : Nat) : Option Mapping :=
  (runs.find? (·.covers page)).map fun r => ⟨r.hostOf page, r.protection⟩

theorem lookup_eq (t : GuestTable) (page : Nat) : t.lookup page = lookupIn t.runs page := rfl

theorem covers_iff (r : MappedRun) (page : Nat) :
    r.covers page = true ↔ r.page ≤ page ∧ page < r.page + r.count := by
  simp [MappedRun.covers]

theorem lookupIn_nil (page : Nat) : lookupIn [] page = none := rfl

theorem lookupIn_cons (r : MappedRun) (rest : List MappedRun) (page : Nat) :
    lookupIn (r :: rest) page =
      if r.page ≤ page ∧ page < r.page + r.count then some ⟨r.hostOf page, r.protection⟩
      else lookupIn rest page := by
  rw [lookupIn, List.find?_cons]
  cases hc : r.covers page
  · rw [if_neg (by rw [← covers_iff, hc]; decide)]
    rfl
  · rw [if_pos ((covers_iff r page).mp hc)]
    rfl

/-- Of two lists the first that maps a page decides. -/
theorem lookupIn_append (a b : List MappedRun) (page : Nat) :
    lookupIn (a ++ b) page = (lookupIn a page).or (lookupIn b page) := by
  rw [lookupIn, List.find?_append, lookupIn, lookupIn]
  cases a.find? (·.covers page) <;> rfl

/-- The part of a run below the gap. -/
theorem lookupIn_below (low : Nat) (r : MappedRun) (page : Nat) :
    lookupIn (if r.page < low then [{r with count := min r.count (low - r.page)}] else []) page =
      if page < low then lookupIn [r] page else none := by
  split_ifs with hr hp hp
  · rw [lookupIn_cons, lookupIn_cons]
    by_cases hin : r.page ≤ page ∧ page < r.page + r.count
    · rw [if_pos hin, if_pos (by dsimp only; omega)]
      rfl
    · rw [if_neg hin, if_neg (by dsimp only; omega)]
  · rw [lookupIn_cons, if_neg (by dsimp only; omega)]
    rfl
  · rw [lookupIn_cons, if_neg (by omega)]
  · rfl

/-- The part of a run from the end of the gap on. It begins further on in the run, in the
guest and in the host alike. -/
theorem lookupIn_above (high : Nat) (r : MappedRun) (page : Nat) :
    lookupIn (if high < r.page + r.count then
        [{ r with
          page := max r.page high
          count := r.page + r.count - max r.page high
          host := r.hostOf (max r.page high) }] else []) page =
      if high ≤ page then lookupIn [r] page else none := by
  split_ifs with hr hp hp
  · rw [lookupIn_cons, lookupIn_cons]
    by_cases hin : r.page ≤ page ∧ page < r.page + r.count
    · rw [if_pos hin, if_pos (by dsimp only; omega)]
      have hhost : r.host + (max r.page high - r.page) * pageSize + (page - max r.page high) * pageSize =
          r.host + (page - r.page) * pageSize := by
        rw [Nat.add_assoc, ← Nat.add_mul]
        congr 2
        omega
      exact congrArg (fun host => some (Mapping.mk host r.protection)) hhost
    · rw [if_neg hin, if_neg (by dsimp only; omega)]
  · rw [lookupIn_cons, if_neg (by dsimp only; omega)]
    rfl
  · rw [lookupIn_cons, if_neg (by omega)]
  · rfl

/-- What is left of a run maps the pages outside the gap as the run did. -/
theorem lookupIn_cut (low high : Nat) (h : low < high) (r : MappedRun) (page : Nat) :
    lookupIn (r.cut low high) page =
      if low ≤ page ∧ page < high then none else lookupIn [r] page := by
  rw [MappedRun.cut, lookupIn_append, lookupIn_below, lookupIn_above]
  rcases Nat.lt_or_ge page low with hp | hp
  · rw [if_pos hp, if_neg (by omega), if_neg (by omega), Option.or_none]
  · rw [if_neg (by omega), Option.none_or]
    rcases Nat.lt_or_ge page high with hh | hh
    · rw [if_neg (by omega), if_pos ⟨hp, hh⟩]
    · rw [if_pos hh, if_neg (by omega)]

theorem lookupIn_without (low high : Nat) (runs : List MappedRun) (page : Nat) :
    lookupIn (without low high runs) page =
      if low ≤ page ∧ page < high then none else lookupIn runs page := by
  unfold without
  split
  · next h =>
    induction runs with
    | nil => simp [lookupIn_nil]
    | cons r rest ih =>
      rw [List.flatMap_cons, lookupIn_append, ih, lookupIn_cut low high h,
        show r :: rest = [r] ++ rest from rfl, lookupIn_append]
      split_ifs <;> rfl
  · next h => rw [if_neg (by omega)]

/-- Revoking a range unmaps the pages from that of its first byte to that of its last. -/
theorem lookup_unmap (t : GuestTable) (guest size page : Nat) :
    (t.unmap guest size).lookup page =
      if guest / pageSize ≤ page ∧ page < pagesOfBytes (guest + size) then none
      else t.lookup page :=
  lookupIn_without ..

/-- The table after a part of a slice has been mapped. -/
def mapped (t : GuestTable) (s : Slice) (offset size guest : Nat) (p : Protection) : GuestTable :=
  let kept := without (guest / pageSize) (guest / pageSize + size / pageSize) t.runs
  { runs := if size / pageSize = 0 then kept
      else ⟨guest / pageSize, size / pageSize, s.base + offset, p⟩ :: kept
    operations := t.operations ++ [.map s.index offset size guest p] }

/-- A part can be mapped exactly if it is aligned on all sides and inside its slice. -/
theorem map_eq_ok_iff {t t' : GuestTable} {s : Slice} {offset size guest : Nat} {p : Protection} :
    t.map s offset size guest p = .ok t' ↔
      isAligned offset = true ∧ isAligned size = true ∧ isAligned guest = true ∧
        offset + size ≤ s.size ∧ t' = t.mapped s offset size guest p := by
  unfold map
  split
  · next h => simp at h; simp [h]
  next ho =>
  split
  · next h => simp at h; simp [h]
  next hs =>
  split
  · next h => simp at h; simp [h]
  next hg =>
  split
  · next h => simp [Nat.not_le.mpr h]
  · next h =>
    simp only [Bool.not_eq_true', Bool.not_eq_false] at ho hs hg
    simp only [Except.ok.injEq, ho, hs, hg, Nat.not_lt.mp h, true_and]
    exact eq_comm

theorem lookup_mapped (t : GuestTable) (s : Slice) (offset size guest : Nat) (p : Protection)
    (page : Nat) :
    (t.mapped s offset size guest p).lookup page =
      if guest / pageSize ≤ page ∧ page < guest / pageSize + size / pageSize then
        some ⟨s.base + offset + (page - guest / pageSize) * pageSize, p⟩
      else t.lookup page := by
  rw [lookup_eq, mapped]
  dsimp only
  split
  · next h0 => rw [lookupIn_without, h0, if_neg (by omega), if_neg (by omega), lookup_eq]
  · rw [lookupIn_cons, lookupIn_without]
    split_ifs with hin
    · rfl
    · rfl

/-! ### What a revoked range leaves -/

/-- The range and the page share a byte. -/
def Meets (guest size page : Nat) : Prop :=
  ∃ address, guest ≤ address ∧ address < guest + size ∧ address / pageSize = page

/-- Rounding the beginning down and the end up finds the pages of a range that is not empty. -/
theorem meets_iff {guest size : Nat} (h : 0 < size) (page : Nat) :
    Meets guest size page ↔ guest / pageSize ≤ page ∧ page < pagesOfBytes (guest + size) := by
  simp only [Meets, pagesOfBytes, pageSize]
  constructor
  · rintro ⟨address, hlow, hhigh, rfl⟩
    omega
  · rintro ⟨hlow, hhigh⟩
    -- the page's first byte in the range: where the later of the two begins
    exact ⟨max guest (page * 4096), by omega, by omega, by omega⟩

theorem not_meets_empty (guest page : Nat) : ¬ Meets guest 0 page := by
  rintro ⟨address, hlow, hhigh, _⟩
  omega

/-- Of an empty range the two roundings meet, unless it lies inside a page: then they enclose
that page. -/
theorem rounded_empty_iff (guest page : Nat) :
    guest / pageSize ≤ page ∧ page < pagesOfBytes (guest + 0) ↔
      isAligned guest = false ∧ page = guest / pageSize := by
  rw [← Bool.not_eq_true, isAligned_iff]
  simp only [pagesOfBytes, pageSize]
  omega

/-- The pages that revoking a range removes. -/
theorem revoked_iff (guest size page : Nat) :
    guest / pageSize ≤ page ∧ page < pagesOfBytes (guest + size) ↔
      Meets guest size page ∨ size = 0 ∧ isAligned guest = false ∧ page = guest / pageSize := by
  rcases Nat.eq_zero_or_pos size with rfl | hpos
  · rw [rounded_empty_iff]
    simp [not_meets_empty]
  · simp [meets_iff hpos, Nat.ne_of_gt hpos]

/-- **Revoking removes what the range touches, and an empty range inside a page takes that page
with it.** For every table and range, aligned or not: every page that shares a byte with the
range is gone, and every other page is mapped as before, unless the range is empty, lies inside
a page, and this is the page. -/
theorem unmap_exact (t : GuestTable) (guest size : Nat) :
    (∀ page, Meets guest size page → (t.unmap guest size).lookup page = none) ∧
    (∀ page, ¬ Meets guest size page →
      ¬ (size = 0 ∧ isAligned guest = false ∧ page = guest / pageSize) →
      (t.unmap guest size).lookup page = t.lookup page) ∧
    (size = 0 → isAligned guest = false →
      (t.unmap guest size).lookup (guest / pageSize) = none) := by
  refine ⟨fun page hmeets => ?_, fun page hapart hinside => ?_, fun hempty hinside => ?_⟩
  · rw [lookup_unmap, if_pos ((revoked_iff ..).mpr (.inl hmeets))]
  · rw [lookup_unmap, if_neg fun hrevoked => ?_]
    exact ((revoked_iff ..).mp hrevoked).elim hapart hinside
  · rw [lookup_unmap, if_pos ((revoked_iff ..).mpr (.inr ⟨hempty, hinside, rfl⟩))]

/-- No page shares a byte with an empty range, and yet one is removed by it. -/
theorem empty_range_revokes :
    ¬ ∀ (t : GuestTable) (guest size page : Nat), guest + size < addressLimit →
      ¬ Meets guest size page → (t.unmap guest size).lookup page = t.lookup page := by
  intro h
  have hkept := h {runs := [⟨16, 1, 0x100000000000, {read := true, write := true}⟩]} 0x10800 0 16
    (by decide) (not_meets_empty _ _)
  exact absurd hkept (by decide)

end GuestTable

end GuestMachine.Memory
