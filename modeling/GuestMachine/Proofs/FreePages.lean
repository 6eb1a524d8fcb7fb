import GuestMachine.Memory.FreeList

/-! The free list as a set of pages.

A list in order (`InOrder`) holds ranges that are not empty, in ascending order, with a
gap between any two. On such a list a run of free pages lies in one range (`run_within`),
so that the first range long enough is the lowest place there is. A range is put back by the
one before it and the one after it; on a list in order one pass over the ranges does the same
(`putBack_eq`). `putInto_spec` and `takeFrom_spec` say what the two operations do to the set
of free pages and to the order; everything about the pool rests on them and not on how ranges
are kept. -/
namespace GuestMachine.Memory

/-- The range has the page. -/
def PageRange.Has (r : PageRange) (page : Nat) : Prop :=
  r.start ≤ page ∧ page < r.start + r.length

namespace FreeList

/-- Some range of the list has the page. -/
def HasIn (l : List PageRange) (page : Nat) : Prop := ∃ r ∈ l, r.Has page

/-- A page is free. -/
def Has (f : FreeList) (page : Nat) : Prop := HasIn f.ranges page

/-- Every page of a run is in the list. -/
def Covers (l : List PageRange) (start count : Nat) : Prop := ∀ i, i < count → HasIn l (start + i)

/-- Ranges from `low` on, none of them empty, each with a gap before the next. -/
def InOrder : Nat → List PageRange → Prop
  | _, [] => True
  | low, r :: rest => low ≤ r.start ∧ 0 < r.length ∧ InOrder (r.start + r.length + 1) rest

/-- The pages of all ranges together. -/
def total (l : List PageRange) : Nat := l.foldr (fun r n => r.length + n) 0

theorem hasIn_nil (page : Nat) : ¬ HasIn [] page := by
  rintro ⟨r, hr, _⟩
  cases hr

theorem hasIn_cons (r : PageRange) (rest : List PageRange) (page : Nat) :
    HasIn (r :: rest) page ↔ r.Has page ∨ HasIn rest page := by
  simp [HasIn]

/-- A page of a run that is in the list is in it. -/
theorem Covers.hasIn {l : List PageRange} {start count page : Nat} (h : Covers l start count)
    (hlow : start ≤ page) (hhigh : page < start + count) : HasIn l page := by
  have hin := h (page - start) (by omega)
  rwa [Nat.add_sub_cancel' hlow] at hin

theorem total_cons (r : PageRange) (rest : List PageRange) :
    total (r :: rest) = r.length + total rest := rfl

/-! ### Order -/

theorem InOrder.mono {low low' : Nat} {l : List PageRange} (h : InOrder low l) (hl : low' ≤ low) :
    InOrder low' l := by
  cases l with
  | nil => trivial
  | cons r rest => exact ⟨Nat.le_trans hl h.1, h.2⟩

/-- No range of the list is empty. -/
theorem InOrder.length_pos {low : Nat} {l : List PageRange} (h : InOrder low l) {r : PageRange}
    (hr : r ∈ l) : 0 < r.length := by
  induction l generalizing low with
  | nil => cases hr
  | cons r' rest ih =>
    obtain ⟨_, hpos, hrest⟩ := h
    rcases List.mem_cons.mp hr with rfl | hlater
    · exact hpos
    · exact ih hrest hlater

/-- No page of the list is below its lower bound. -/
theorem InOrder.le_of_hasIn {low : Nat} {l : List PageRange} (h : InOrder low l) {page : Nat}
    (hp : HasIn l page) : low ≤ page := by
  induction l generalizing low with
  | nil => exact absurd hp (hasIn_nil page)
  | cons r rest ih =>
    obtain ⟨hlow, _, hrest⟩ := h
    rcases (hasIn_cons r rest page).mp hp with hr | hr
    · exact Nat.le_trans hlow hr.1
    · have := ih hrest hr
      omega

/-- Pages between two bounds are no more than lie between them. -/
theorem InOrder.total_le {low high : Nat} {l : List PageRange} (h : InOrder low l)
    (hbound : ∀ page, HasIn l page → page < high) (hle : low ≤ high) : low + total l ≤ high := by
  induction l generalizing low with
  | nil => exact hle
  | cons r rest ih =>
    obtain ⟨hlow, hpos, hrest⟩ := h
    have hlast := hbound (r.start + (r.length - 1)) ((hasIn_cons r rest _).mpr (.inl ⟨by omega, by omega⟩))
    rw [total_cons]
    cases rest with
    | nil =>
      show low + (r.length + 0) ≤ high
      omega
    | cons r' rest' =>
      have hnext := hbound r'.start ((hasIn_cons r _ _).mpr
        (.inr ((hasIn_cons r' rest' _).mpr (.inl ⟨Nat.le_refl _, by have := hrest.2.1; omega⟩))))
      have := hrest.1
      have := ih hrest (fun page hp => hbound page ((hasIn_cons r _ page).mpr (.inr hp))) (by omega)
      omega

/-- The page after a range is not free: there is a gap. -/
theorem InOrder.not_hasIn_end {r : PageRange} {rest : List PageRange}
    (h : InOrder (r.start + r.length + 1) rest) : ¬ HasIn (r :: rest) (r.start + r.length) := by
  intro hp
  rcases (hasIn_cons r rest _).mp hp with hr | hr
  · exact absurd hr.2 (Nat.lt_irrefl _)
  · have := h.le_of_hasIn hr
    omega

/-- A run of free pages lies in one range. -/
theorem run_within {low : Nat} {l : List PageRange} (h : InOrder low l) {start count : Nat}
    (hc : 0 < count) (hcover : Covers l start count) :
    ∃ r ∈ l, r.start ≤ start ∧ start + count ≤ r.start + r.length := by
  induction l generalizing low with
  | nil => exact absurd (hcover 0 hc) (hasIn_nil _)
  | cons r rest ih =>
    obtain ⟨_, _, hrest⟩ := h
    rcases (hasIn_cons r rest _).mp (hcover 0 hc) with hr | hr
    · -- A run that begins in `r` and leaves it would hold the page of the gap.
      refine ⟨r, List.mem_cons_self .., hr.1, Nat.le_of_not_lt fun hlong => ?_⟩
      exact hrest.not_hasIn_end (hcover.hasIn (Nat.le_of_lt hr.2) hlong)
    · have hbeyond := hrest.le_of_hasIn hr
      have hcover' : Covers rest start count := by
        intro i hi
        rcases (hasIn_cons r rest _).mp (hcover i hi) with hr' | hr'
        · have := hr'.2
          omega
        · exact hr'
      obtain ⟨r', hr', hfit⟩ := ih hrest hcover'
      exact ⟨r', List.mem_cons_of_mem r hr', hfit⟩

/-! ### Taking pages -/

/-- What taking pages from a list in order does: it takes the lowest run there is, or
there is none. -/
structure Taken (low count : Nat) (l : List PageRange) (start : Nat) (l' : List PageRange) : Prop where
  covers : Covers l start count
  lowest : ∀ s, Covers l s count → start ≤ s
  order : InOrder low l'
  pages : ∀ page, HasIn l' page ↔ HasIn l page ∧ ¬ (start ≤ page ∧ page < start + count)
  total : total l' + count = total l

theorem covers_of_within {l : List PageRange} {r : PageRange} (hr : r ∈ l) {start count : Nat}
    (hs : r.start ≤ start) (he : start + count ≤ r.start + r.length) : Covers l start count :=
  fun i hi => ⟨r, hr, by omega, by omega⟩

theorem takeFrom_none {low count : Nat} {l : List PageRange} (hc : 0 < count) (h : InOrder low l)
    (hnone : takeFrom count l = none) (s : Nat) : ¬ Covers l s count := by
  intro hcover
  obtain ⟨r, hr, hs, he⟩ := run_within h hc hcover
  have hshort : ∀ r ∈ l, r.length < count := by
    clear hcover hr h
    induction l with
    | nil => intro r hr; cases hr
    | cons r rest ih =>
      unfold takeFrom at hnone
      split at hnone
      · cases hnone
      · intro r' hr'
        rcases List.mem_cons.mp hr' with rfl | hr'
        · omega
        · exact ih (by simpa using hnone) r' hr'
  have := hshort r hr
  omega

section Leftover
variable {low count : Nat} {r : PageRange} {rest : List PageRange}

/-- Without its first pages, a range has those from there to its end, or is gone. -/
theorem hasIn_leftover (hfit : count ≤ r.length) (page : Nat) :
    HasIn (if count < r.length then ⟨r.start + count, r.length - count⟩ :: rest else rest) page ↔
      (r.start + count ≤ page ∧ page < r.start + r.length) ∨ HasIn rest page := by
  split
  · have hend : r.start + count + (r.length - count) = r.start + r.length := by omega
    rw [hasIn_cons, PageRange.Has, hend]
  · exact (or_iff_right (by omega)).symm

theorem InOrder.leftover (h : InOrder low (r :: rest)) (hfit : count ≤ r.length) :
    InOrder low (if count < r.length then ⟨r.start + count, r.length - count⟩ :: rest else rest) := by
  obtain ⟨hlow, hpos, hrest⟩ := h
  split
  · next hlt =>
    have hend : r.start + count + (r.length - count) = r.start + r.length := by omega
    exact ⟨Nat.le_add_right_of_le hlow, Nat.sub_pos_of_lt hlt, hend ▸ hrest⟩
  · exact hrest.mono (by omega)

theorem total_leftover (hfit : count ≤ r.length) :
    total (if count < r.length then ⟨r.start + count, r.length - count⟩ :: rest else rest) + count =
      total (r :: rest) := by
  split
  · rw [total_cons, total_cons]
    show r.length - count + _ + count = _
    omega
  · rw [total_cons]
    omega

/-- Pages are taken from the front of the first range, if that is long enough. -/
theorem taken_first (hc : 0 < count) (h : InOrder low (r :: rest)) (hfit : count ≤ r.length) :
    Taken low count (r :: rest) r.start
      (if count < r.length then ⟨r.start + count, r.length - count⟩ :: rest else rest) := by
  have hbeyond : ∀ {page}, HasIn rest page → r.start + r.length < page := h.2.2.le_of_hasIn
  have hcovers : Covers (r :: rest) r.start count :=
    covers_of_within (List.mem_cons_self ..) (Nat.le_refl _) (by omega)
  refine ⟨hcovers, fun s hs => ?_, h.leftover hfit, fun page => ?_, total_leftover hfit⟩
  · rcases (hasIn_cons r rest _).mp (hs 0 hc) with hr | hr
    · exact hr.1
    · have := hbeyond hr
      omega
  · rw [hasIn_leftover hfit, hasIn_cons]
    constructor
    · rintro (⟨hlow, hhigh⟩ | hr)
      · exact ⟨.inl ⟨by omega, hhigh⟩, by omega⟩
      · have := hbeyond hr
        exact ⟨.inr hr, by omega⟩
    · rintro ⟨⟨hlow, hhigh⟩ | hr, hout⟩
      · exact .inl ⟨by omega, hhigh⟩
      · exact .inr hr

end Leftover

/-- A range that is too short is passed over. -/
theorem Taken.later {low count start : Nat} {r : PageRange} {rest rest' : List PageRange} (hc : 0 < count)
    (h : InOrder low (r :: rest)) (hshort : ¬ count ≤ r.length)
    (ht : Taken (r.start + r.length + 1) count rest start rest') :
    Taken low count (r :: rest) start (r :: rest') := by
  have hall := h
  obtain ⟨hlow, hpos, hrest⟩ := h
  have hstart : r.start + r.length < start := hrest.le_of_hasIn (ht.covers 0 hc)
  refine ⟨fun i hi => (hasIn_cons r rest _).mpr (.inr (ht.covers i hi)), ?_, ⟨hlow, hpos, ht.order⟩, ?_, ?_⟩
  · intro s hs
    obtain ⟨r', hr', hs', he'⟩ := run_within hall hc hs
    rcases List.mem_cons.mp hr' with rfl | hr'
    · omega
    · exact ht.lowest s (covers_of_within hr' hs' he')
  · intro page
    rw [hasIn_cons, hasIn_cons, ht.pages page]
    constructor
    · rintro (hr | ⟨hr, hout⟩)
      · have := hr.2
        exact ⟨.inl hr, by omega⟩
      · exact ⟨.inr hr, hout⟩
    · rintro ⟨hr | hr, hout⟩
      · exact .inl hr
      · exact .inr ⟨hr, hout⟩
  · rw [total_cons, total_cons, ← ht.total]
    omega

theorem takeFrom_spec {low count : Nat} {l : List PageRange} (hc : 0 < count) (h : InOrder low l)
    {start : Nat} {l' : List PageRange} (htake : takeFrom count l = some (start, l')) :
    Taken low count l start l' := by
  induction l generalizing low start l' with
  | nil => cases htake
  | cons r rest ih =>
    unfold takeFrom at htake
    split at htake
    · next hfit =>
      obtain ⟨rfl, rfl⟩ : r.start = start ∧ _ = l' := by simpa using htake
      exact taken_first hc h hfit
    · next hshort =>
      obtain ⟨⟨start', rest'⟩, hrec, heq⟩ := Option.map_eq_some_iff.mp htake
      obtain ⟨rfl, rfl⟩ : start' = start ∧ r :: rest' = l' := by simpa using heq
      exact (ih h.2.2 hrec).later hc h hshort

/-! ### Putting pages back in one pass -/

/-- Puts a range where it belongs; not possible if some page of it is there already. -/
def putInto (new : PageRange) : List PageRange → Option (List PageRange)
  | [] => some [new]
  | r :: rest =>
    if new.start + new.length < r.start then some (new :: r :: rest)
    else if new.start + new.length = r.start then some (⟨new.start, new.length + r.length⟩ :: rest)
    else if r.start + r.length < new.start then (putInto new rest).map (r :: ·)
    else if r.start + r.length = new.start then putInto ⟨r.start, r.length + new.length⟩ rest
    else none

/-! Ranges that all begin later. -/

section Beyond
variable {low page : Nat} {new r : PageRange} {l : List PageRange}

theorem InOrder.le_start (h : InOrder low l) (hr : r ∈ l) : low ≤ r.start :=
  h.le_of_hasIn ⟨r, hr, Nat.le_refl _, Nat.lt_add_of_pos_right (h.length_pos hr)⟩

theorem lastBefore?_beyond (h : InOrder low l) (hpage : page ≤ low) : lastBefore? page l = none := by
  induction l generalizing low with
  | nil => rfl
  | cons r rest ih =>
    obtain ⟨hlow, _, hrest⟩ := h
    rw [lastBefore?, if_neg (by omega), ih hrest (by omega)]

theorem startingAt?_beyond (h : InOrder low l) (hpage : page < low) : startingAt? page l = none := by
  refine List.find?_eq_none.mpr fun r hr => ?_
  have := h.le_start hr
  simp
  omega

theorem removeAt_beyond (h : InOrder low l) (hpage : page < low) : removeAt page l = l := by
  refine List.filter_eq_self.mpr fun r hr => ?_
  have := h.le_start hr
  simp
  omega

theorem insert_beyond (h : InOrder low l) (hnew : new.start < low) : insert new l = new :: l := by
  cases l with
  | nil => rfl
  | cons r rest =>
    have := h.1
    rw [insert, if_neg (by omega), if_neg (by omega)]

theorem joinAfter_beyond (h : InOrder low l) (hnew : new.start + new.length < low) : joinAfter new l = (new, l) := by
  rw [joinAfter, startingAt?_beyond h hnew]

end Beyond

/-! A first range that begins before. -/

section Before
variable {new r p : PageRange} {l : List PageRange}

theorem lastBefore?_mem {page : Nat} (h : lastBefore? page l = some p) : p ∈ l := by
  induction l with
  | nil => cases h
  | cons r rest ih =>
    rw [lastBefore?] at h
    split at h
    · rcases Option.or_eq_some_iff.mp h with hlater | ⟨_, hfirst⟩
      · exact List.mem_cons_of_mem r (ih hlater)
      · cases hfirst
        exact List.mem_cons_self ..
    · exact List.mem_cons_of_mem r (ih h)

theorem removeAt_cons {page : Nat} (h : r.start ≠ page) : removeAt page (r :: l) = r :: removeAt page l :=
  List.filter_cons_of_pos (decide_eq_true h)

theorem removeAt_first {low : Nat} (h : InOrder low (r :: l)) : removeAt r.start (r :: l) = l := by
  have hfirst : removeAt r.start (r :: l) = removeAt r.start l := List.filter_cons_of_neg (by simp)
  rw [hfirst, removeAt_beyond h.2.2 (by omega)]

theorem joinBefore_start (hp : r.start < p.start) (hnew : r.start < new.start) (l : List PageRange) :
    r.start < (joinBefore (some p) new l).1.start := by
  rw [joinBefore]
  split
  · exact hp
  · exact hnew

theorem joinAfter_start (new : PageRange) (l : List PageRange) : (joinAfter new l).1.start = new.start := by
  rw [joinAfter]
  split <;> rfl

theorem joinAfter_cons (h : r.start ≠ new.start + new.length) :
    joinAfter new (r :: l) = ((joinAfter new l).1, r :: (joinAfter new l).2) := by
  have hlookup : startingAt? (new.start + new.length) (r :: l) = startingAt? (new.start + new.length) l :=
    List.find?_cons_of_neg (by simpa using h)
  rw [joinAfter, joinAfter, hlookup, removeAt_cons h]
  split <;> rfl

/-- What is done once a range has been joined with the one before it. -/
def finish (new : PageRange) (l : List PageRange) : List PageRange := insert (joinAfter new l).1 (joinAfter new l).2

theorem finish_cons (hstart : r.start < new.start) : finish new (r :: l) = r :: finish new l := by
  rw [finish, joinAfter_cons (by omega), insert, if_pos (by rwa [joinAfter_start])]
  rfl

theorem putBack_of_none (h : lastBefore? (new.start + new.length) l = none) : putBack new l = some (finish new l) := by
  rw [putBack, h]
  rfl

theorem putBack_of_some (h : lastBefore? (new.start + new.length) l = some p) :
    putBack new l =
      if new.start < p.start + p.length then none
      else some (finish (joinBefore (some p) new l).1 (joinBefore (some p) new l).2) := by
  rw [putBack, h]
  simp only [Option.any_some, decide_eq_true_eq]
  rfl

/-! What the lookups come to, by where the first range is. -/

variable {low : Nat}

theorem putBack_first (h : InOrder low (r :: l)) (hbefore : new.start + new.length < r.start) :
    putBack new (r :: l) = some (new :: r :: l) := by
  have hlater : InOrder r.start (r :: l) := ⟨Nat.le_refl _, h.2⟩
  rw [putBack_of_none (lastBefore?_beyond hlater (Nat.le_of_lt hbefore)), finish,
    joinAfter_beyond hlater hbefore, insert_beyond hlater (show new.start < r.start by omega)]

theorem putBack_joined (h : InOrder low (r :: l)) (hpos : 0 < new.length) (hmeets : new.start + new.length = r.start) :
    putBack new (r :: l) = some (⟨new.start, new.length + r.length⟩ :: l) := by
  have hlater : InOrder r.start (r :: l) := ⟨Nat.le_refl _, h.2⟩
  have hfound : startingAt? r.start (r :: l) = some r := List.find?_cons_of_pos (by simp)
  rw [putBack_of_none (lastBefore?_beyond hlater (Nat.le_of_eq hmeets)), finish, joinAfter]
  simp only [hmeets, hfound, removeAt_first h]
  rw [insert_beyond h.2.2 (by show new.start < _; omega)]

theorem putBack_later (h : InOrder low (r :: l)) (hpos : 0 < new.length) (hafter : r.start + r.length < new.start) :
    putBack new (r :: l) = (putBack new l).map (r :: ·) := by
  have hlast : lastBefore? (new.start + new.length) (r :: l) =
      (lastBefore? (new.start + new.length) l).or (some r) := by rw [lastBefore?, if_pos (by omega)]
  cases hl : lastBefore? (new.start + new.length) l with
  | none =>
    rw [hl, Option.none_or] at hlast
    rw [putBack_of_some hlast, putBack_of_none hl, if_neg (by omega), joinBefore, if_neg (by omega)]
    dsimp only
    rw [finish_cons (by omega), Option.map_some]
  | some p =>
    rw [hl, Option.some_or] at hlast
    have hp : r.start < p.start := by
      have := h.2.2.le_start (lastBefore?_mem hl)
      omega
    have hjoin : joinBefore (some p) new (r :: l) =
        ((joinBefore (some p) new l).1, r :: (joinBefore (some p) new l).2) := by
      rw [joinBefore, joinBefore, removeAt_cons (Nat.ne_of_lt hp)]
      split <;> rfl
    rw [putBack_of_some hlast, putBack_of_some hl, hjoin, finish_cons (joinBefore_start hp (by omega) l)]
    split <;> rfl

theorem putBack_after (h : InOrder low (r :: l)) (hpos : 0 < new.length) (hmeets : r.start + r.length = new.start) :
    putBack new (r :: l) = putBack ⟨r.start, r.length + new.length⟩ l := by
  have hstop : r.start + (r.length + new.length) = new.start + new.length := by omega
  have hlast : lastBefore? (new.start + new.length) (r :: l) =
      (lastBefore? (new.start + new.length) l).or (some r) := by
    have := h.2.1
    rw [lastBefore?, if_pos (by omega)]
  cases hl : lastBefore? (new.start + new.length) l with
  | none =>
    rw [hl, Option.none_or] at hlast
    rw [putBack_of_some hlast, putBack_of_none (by rw [← hl, ← hstop]), if_neg (by omega), joinBefore,
      if_pos hmeets, removeAt_first h]
  | some p =>
    -- What begins before the end is too near, be the range joined or not.
    rw [hl, Option.some_or] at hlast
    have hp := h.2.2.le_start (lastBefore?_mem hl)
    have hjoined : lastBefore? (r.start + (r.length + new.length)) l = some p := hstop ▸ hl
    rw [putBack_of_some hlast, if_pos (by omega), putBack_of_some hjoined, if_pos (by show r.start < _; omega)]

theorem putBack_meets (h : InOrder low (r :: l)) (hbefore : r.start < new.start + new.length)
    (hmeets : new.start < r.start + r.length) : putBack new (r :: l) = none := by
  obtain ⟨p, hlast, hp⟩ : ∃ p, lastBefore? (new.start + new.length) (r :: l) = some p ∧
      new.start < p.start + p.length := by
    rw [lastBefore?, if_pos hbefore]
    cases hl : lastBefore? (new.start + new.length) l with
    | none => exact ⟨r, rfl, hmeets⟩
    | some p =>
      have := h.2.2.le_start (lastBefore?_mem hl)
      exact ⟨p, rfl, by omega⟩
  rw [putBack_of_some hlast, if_pos hp]

end Before

/-- One pass does the same as the lookups: a range before the new one, with a gap, is passed over. -/
theorem putBack_eq {low : Nat} {new : PageRange} {l : List PageRange} (h : InOrder low l) (hpos : 0 < new.length) :
    putBack new l = putInto new l := by
  induction l generalizing low new with
  | nil => rfl
  | cons r rest ih =>
    rw [putInto]
    split
    next hbefore => exact putBack_first h hbefore
    next =>
    split
    next hmeets => exact putBack_joined h hpos hmeets
    next =>
    split
    next hafter => rw [putBack_later h hpos hafter, ih h.2.2 hpos]
    next =>
    split
    next hmeets => rw [putBack_after h hpos hmeets, ih h.2.2 (by show 0 < r.length + new.length; omega)]
    next => exact putBack_meets h (by omega) (by omega)

/-! ### What putting pages back does -/

/-- What putting a range into a list in order does: its pages were not there, and are
now. -/
structure Put (low : Nat) (new : PageRange) (l l' : List PageRange) : Prop where
  order : InOrder low l'
  fresh : ∀ page, new.Has page → ¬ HasIn l page
  pages : ∀ page, HasIn l' page ↔ new.Has page ∨ HasIn l page
  total : total l' = new.length + total l

/-- A range joined with one that it follows has the pages of both. -/
theorem has_join {r s : PageRange} (h : r.start + r.length = s.start) (page : Nat) :
    PageRange.Has ⟨r.start, r.length + s.length⟩ page ↔ r.Has page ∨ s.Has page := by
  simp only [PageRange.Has]
  omega

section Place
variable {low : Nat} {new r : PageRange} {rest rest' : List PageRange}

/-- A range comes first if it ends before the others, with a gap. -/
theorem put_first (h : InOrder low (r :: rest)) (hlow : low ≤ new.start) (hpos : 0 < new.length)
    (hbefore : new.start + new.length < r.start) : Put low new (r :: rest) (new :: r :: rest) := by
  obtain ⟨_, hrpos, hrest⟩ := h
  refine ⟨⟨hlow, hpos, hbefore, hrpos, hrest⟩, fun page hn hp => ?_, fun page => hasIn_cons .., ?_⟩
  · have := hn.2
    rcases (hasIn_cons r rest page).mp hp with hr | hr
    · have := hr.1
      omega
    · have := hrest.le_of_hasIn hr
      omega
  · exact total_cons ..

/-- It is joined with the first range if it ends where that begins. -/
theorem put_joined (h : InOrder low (r :: rest)) (hlow : low ≤ new.start) (hpos : 0 < new.length)
    (hmeets : new.start + new.length = r.start) :
    Put low new (r :: rest) (⟨new.start, new.length + r.length⟩ :: rest) := by
  obtain ⟨_, _, hrest⟩ := h
  refine ⟨⟨hlow, by show 0 < new.length + r.length; omega, ?_⟩, fun page hn hp => ?_, fun page => ?_, ?_⟩
  · show InOrder (new.start + (new.length + r.length) + 1) rest
    rw [← Nat.add_assoc, hmeets]
    exact hrest
  · have := hn.2
    rcases (hasIn_cons r rest page).mp hp with hr | hr
    · have := hr.1
      omega
    · have := hrest.le_of_hasIn hr
      omega
  · rw [hasIn_cons, hasIn_cons, has_join hmeets, or_assoc]
  · rw [total_cons, total_cons, Nat.add_assoc]

/-- It is put among the others if it begins after the first range, with a gap. -/
theorem Put.later (h : InOrder low (r :: rest)) (hafter : r.start + r.length < new.start)
    (hp : Put (r.start + r.length + 1) new rest rest') : Put low new (r :: rest) (r :: rest') := by
  obtain ⟨hlow, hpos, _⟩ := h
  refine ⟨⟨hlow, hpos, hp.order⟩, fun page hn hin => ?_, fun page => ?_, ?_⟩
  · rcases (hasIn_cons r rest page).mp hin with hr | hr
    · have := hn.1; have := hr.2
      omega
    · exact hp.fresh page hn hr
  · rw [hasIn_cons, hasIn_cons, hp.pages page, or_left_comm]
  · rw [total_cons, total_cons, hp.total, Nat.add_left_comm]

/-- The first range is joined with it if it begins where that ends, and then put in. -/
theorem Put.after (hlow : low ≤ r.start) (hmeets : r.start + r.length = new.start)
    (hp : Put r.start ⟨r.start, r.length + new.length⟩ rest rest') : Put low new (r :: rest) rest' := by
  refine ⟨hp.order.mono hlow, fun page hn hin => ?_, fun page => ?_, ?_⟩
  · rcases (hasIn_cons r rest page).mp hin with hr | hr
    · have := hn.1; have := hr.2
      omega
    · exact hp.fresh page ((has_join hmeets page).mpr (.inr hn)) hr
  · rw [hp.pages page, has_join hmeets, hasIn_cons, or_assoc, or_left_comm]
  · rw [hp.total, total_cons]
    show r.length + new.length + _ = _
    omega

end Place

theorem putInto_spec {low : Nat} {new : PageRange} {l l' : List PageRange} (h : InOrder low l)
    (hlow : low ≤ new.start) (hpos : 0 < new.length) (hput : putInto new l = some l') :
    Put low new l l' := by
  induction l generalizing low new l' with
  | nil =>
    obtain rfl : [new] = l' := by simpa [putInto] using hput
    refine ⟨⟨hlow, hpos, trivial⟩, fun page _ => hasIn_nil page, fun page => hasIn_cons .., ?_⟩
    exact total_cons ..
  | cons r rest ih =>
    unfold putInto at hput
    split at hput
    · next hbefore =>
      obtain rfl : new :: r :: rest = l' := by simpa using hput
      exact put_first h hlow hpos hbefore
    · split at hput
      · next hmeets =>
        obtain rfl : (⟨new.start, new.length + r.length⟩ : PageRange) :: rest = l' := by simpa using hput
        exact put_joined h hlow hpos hmeets
      · split at hput
        · next hafter =>
          obtain ⟨rest', hrec, rfl⟩ := Option.map_eq_some_iff.mp hput
          exact (ih h.2.2 hafter hpos hrec).later h hafter
        · split at hput
          · next hmeets =>
            have hjoined : InOrder r.start rest := h.2.2.mono (by omega)
            have hstart : r.start ≤ (⟨r.start, r.length + new.length⟩ : PageRange).start := Nat.le_refl _
            have hp := ih hjoined hstart (by show 0 < r.length + new.length; omega) hput
            exact hp.after h.1 hmeets
          · cases hput

/-- A range is refused only for a page of it that is there already. -/
theorem putInto_none {low : Nat} {new : PageRange} {l : List PageRange} (h : InOrder low l)
    (hpos : 0 < new.length) (hput : putInto new l = none) : ∃ page, new.Has page ∧ HasIn l page := by
  induction l generalizing low new with
  | nil => cases hput
  | cons r rest ih =>
    obtain ⟨_, hrpos, hrest⟩ := h
    unfold putInto at hput
    split at hput
    · cases hput
    · split at hput
      · cases hput
      · split at hput
        · obtain ⟨page, hn, hp⟩ := ih hrest hpos (Option.map_eq_none_iff.mp hput)
          exact ⟨page, hn, (hasIn_cons r rest page).mpr (.inr hp)⟩
        · split at hput
          · next hmeets =>
            obtain ⟨page, hn, hp⟩ := ih hrest (by show 0 < r.length + new.length; omega) hput
            rcases (has_join hmeets page).mp hn with hr | hn
            · have := hr.2
              have := hrest.le_of_hasIn hp
              omega
            · exact ⟨page, hn, (hasIn_cons r rest page).mpr (.inr hp)⟩
          · -- The two ranges meet in the later of their first pages.
            refine ⟨max new.start r.start, ⟨by omega, by omega⟩, ?_⟩
            exact (hasIn_cons r rest _).mpr (.inl ⟨by omega, by omega⟩)

/-! ### The list of the pool -/

/-- The list is in order. -/
def Ordered (f : FreeList) : Prop := InOrder 0 f.ranges

theorem ordered_empty : Ordered {} := trivial

theorem pages_eq_total (f : FreeList) : f.pages = total f.ranges := rfl

theorem not_has_empty (page : Nat) : ¬ Has {} page := hasIn_nil page

/-- An allocation takes the lowest run of free pages that is long enough. -/
theorem alloc?_spec {f f' : FreeList} {count start : Nat} (h : f.Ordered)
    (ha : f.alloc? count = some (start, f')) : Taken 0 count f.ranges start f'.ranges := by
  unfold alloc? at ha
  split at ha
  · cases ha
  · next hc =>
    obtain ⟨⟨start', rest⟩, htake, heq⟩ := Option.map_eq_some_iff.mp ha
    obtain ⟨rfl, rfl⟩ : start' = start ∧ (⟨rest⟩ : FreeList) = f' := by simpa using heq
    exact takeFrom_spec (Nat.pos_of_ne_zero hc) h htake

/-- An allocation of some pages fails only if no run is long enough. -/
theorem alloc?_none {f : FreeList} {count : Nat} (h : f.Ordered) (hc : 0 < count)
    (ha : f.alloc? count = none) (s : Nat) : ¬ Covers f.ranges s count := by
  rw [alloc?, if_neg (by omega)] at ha
  exact takeFrom_none hc h (Option.map_eq_none_iff.mp ha) s

/-- Pages are taken back only if none of them is free, and are free then. -/
theorem free?_spec {f f' : FreeList} {start count : Nat} (h : f.Ordered)
    (hf : f.free? start count = some f') :
    f'.Ordered ∧ (∀ page, start ≤ page → page < start + count → ¬ f.Has page) ∧
      (∀ page, f'.Has page ↔ (start ≤ page ∧ page < start + count) ∨ f.Has page) ∧
      f'.pages = count + f.pages := by
  unfold free? at hf
  split at hf
  · next hc =>
    obtain rfl : f = f' := by simpa using hf
    exact ⟨h, fun page _ _ => by omega, fun page => by rw [or_iff_right (by omega)], by omega⟩
  · next hc =>
    obtain ⟨l', hput, rfl⟩ := Option.map_eq_some_iff.mp hf
    rw [putBack_eq h (Nat.pos_of_ne_zero hc)] at hput
    have hp := putInto_spec h (Nat.zero_le _) (Nat.pos_of_ne_zero hc) hput
    exact ⟨hp.order, fun page hs he => hp.fresh page ⟨hs, he⟩, hp.pages, hp.total⟩

theorem free?_none {f : FreeList} {start count : Nat} (h : f.Ordered)
    (hf : f.free? start count = none) :
    ∃ page, start ≤ page ∧ page < start + count ∧ f.Has page := by
  unfold free? at hf
  split at hf
  · cases hf
  · next hc =>
    rw [putBack_eq h (Nat.pos_of_ne_zero hc)] at hf
    obtain ⟨page, hn, hp⟩ := putInto_none h (Nat.pos_of_ne_zero hc) (Option.map_eq_none_iff.mp hf)
    exact ⟨page, hn.1, hn.2, hp⟩

end FreeList

end GuestMachine.Memory
