import GuestMachine.Proofs.FreePages
import Mathlib.Data.Finset.Card
import Mathlib.Data.Set.Card
import Mathlib.Order.Interval.Finset.Nat

/-! Calls on the free list.

What calls on a free list do is fixed by the set of free pages alone (`SetStep`): pages are
taken back unless one of them is in the set, and an allocation gets the lowest run that is.
From no free page on, a list answers every sequence of calls like that set (`acts_as_set`),
and what it stores can be read off the set as well: its ranges are the maximal runs of free
pages (`MaximalRun`), in ascending order. -/
namespace GuestMachine.Memory

/-- The `count` pages from `start` on. -/
def block (start count : Nat) : Finset Nat := Finset.Ico start (start + count)

theorem mem_block (start count page : Nat) :
    page ∈ block start count ↔ start ≤ page ∧ page < start + count :=
  Finset.mem_Ico

theorem card_block (start count : Nat) : (block start count).card = count := by
  rw [block, Nat.card_Ico]
  omega

/-! ### A set of free pages -/

inductive FreeCall where
  | alloc (count : Nat)
  | free (start count : Nat)

inductive FreeAnswer where
  /-- The first of the pages, if there is a place for them. -/
  | place (start : Option Nat)
  /-- Whether the pages were taken back. -/
  | freed (ok : Bool)

/-- One call on a set of free pages, with the set after it. -/
inductive SetStep : Finset Nat → FreeCall → FreeAnswer → Finset Nat → Prop where
  | found {pages count start} : 0 < count → block start count ⊆ pages →
      (∀ s, block s count ⊆ pages → start ≤ s) →
      SetStep pages (.alloc count) (.place (some start)) (pages \ block start count)
  | noPlace {pages count} : (0 < count → ∀ s, ¬ block s count ⊆ pages) →
      SetStep pages (.alloc count) (.place none) pages
  | freed {pages start count} : Disjoint (block start count) pages →
      SetStep pages (.free start count) (.freed true) (pages ∪ block start count)
  | refused {pages start count} : ¬ Disjoint (block start count) pages →
      SetStep pages (.free start count) (.freed false) pages

/-- Calls one after another. -/
inductive SetRun : Finset Nat → List FreeCall → List FreeAnswer → Finset Nat → Prop where
  | nil {pages} : SetRun pages [] [] pages
  | cons {pages call answer next calls answers last} : SetStep pages call answer next →
      SetRun next calls answers last → SetRun pages (call :: calls) (answer :: answers) last

/-- The set has one answer to a call. -/
theorem SetStep.unique {pages next next' : Finset Nat} {call : FreeCall} {a a' : FreeAnswer}
    (h : SetStep pages call a next) (h' : SetStep pages call a' next') : a = a' ∧ next = next' := by
  cases h with
  | found hpos hin hlow =>
    cases h' with
    | found _ hin' hlow' =>
      obtain rfl := Nat.le_antisymm (hlow _ hin') (hlow' _ hin)
      exact ⟨rfl, rfl⟩
    | noPlace hnone => exact absurd hin (hnone hpos _)
  | noPlace hnone =>
    cases h' with
    | found hpos hin => exact absurd hin (hnone hpos _)
    | noPlace => exact ⟨rfl, rfl⟩
  | freed hdis =>
    cases h' with
    | freed => exact ⟨rfl, rfl⟩
    | refused hmeet => exact absurd hdis hmeet
  | refused hmeet =>
    cases h' with
    | freed hdis => exact absurd hdis hmeet
    | refused => exact ⟨rfl, rfl⟩

theorem SetRun.unique {pages last last' : Finset Nat} {calls : List FreeCall}
    {answers answers' : List FreeAnswer} (h : SetRun pages calls answers last)
    (h' : SetRun pages calls answers' last') : answers = answers' ∧ last = last' := by
  induction h generalizing answers' last' with
  | nil =>
    cases h'
    exact ⟨rfl, rfl⟩
  | cons hstep _ ih =>
    cases h' with
    | cons hstep' hrun' =>
      obtain ⟨rfl, rfl⟩ := hstep.unique hstep'
      obtain ⟨rfl, rfl⟩ := ih hrun'
      exact ⟨rfl, rfl⟩

/-- A run of pages of the set that cannot be made longer. -/
structure MaximalRun (pages : Finset Nat) (r : PageRange) : Prop where
  pos : 0 < r.length
  inside : block r.start r.length ⊆ pages
  first : ∀ page, page + 1 = r.start → page ∉ pages
  last : r.start + r.length ∉ pages

namespace FreeList

/-! ### Calls on a list -/

def call (f : FreeList) : FreeCall → FreeAnswer × FreeList
  | .alloc count =>
    match f.alloc? count with
    | some (start, f') => (.place (some start), f')
    | none => (.place none, f)
  | .free start count =>
    match f.free? start count with
    | some f' => (.freed true, f')
    | none => (.freed false, f)

/-- Calls one after another, with all answers. -/
def callAll (f : FreeList) : List FreeCall → List FreeAnswer × FreeList
  | [] => ([], f)
  | c :: rest => ((f.call c).1 :: ((f.call c).2.callAll rest).1, ((f.call c).2.callAll rest).2)

/-- A list in order, with the set of its pages. -/
structure Tracks (f : FreeList) (pages : Finset Nat) : Prop where
  order : f.Ordered
  members : ∀ page, page ∈ pages ↔ f.Has page
  count : f.pages = pages.card

theorem tracks_empty : Tracks {} ∅ :=
  ⟨ordered_empty, fun page => iff_of_false (Finset.notMem_empty page) (not_has_empty page), rfl⟩

section Tracks
variable {f : FreeList} {pages : Finset Nat}

/-- A run is in the list exactly if it is in the set. -/
theorem Tracks.covers_iff (h : f.Tracks pages) (start count : Nat) :
    Covers f.ranges start count ↔ block start count ⊆ pages := by
  constructor
  · intro hcover page hb
    obtain ⟨hs, he⟩ := (mem_block ..).mp hb
    exact (h.members page).mpr (hcover.hasIn hs he)
  · intro hsub i hi
    exact (h.members _).mp (hsub ((mem_block ..).mpr ⟨by omega, by omega⟩))

theorem Tracks.alloc (h : f.Tracks pages) (count : Nat) :
    ∃ next, SetStep pages (.alloc count) (f.call (.alloc count)).1 next ∧
      (f.call (.alloc count)).2.Tracks next := by
  cases ha : f.alloc? count with
  | none =>
    have hcall : f.call (.alloc count) = (.place none, f) := by simp only [call, ha]
    rw [hcall]
    refine ⟨pages, .noPlace fun hpos s hin => ?_, h⟩
    exact alloc?_none h.order hpos ha s ((h.covers_iff s count).mpr hin)
  | some found =>
    obtain ⟨start, f'⟩ := found
    have hcall : f.call (.alloc count) = (.place (some start), f') := by simp only [call, ha]
    rw [hcall]
    have hpos : 0 < count := Nat.pos_of_ne_zero fun h0 => by simp [alloc?, h0] at ha
    have ht := alloc?_spec h.order ha
    have hin := (h.covers_iff start count).mp ht.covers
    refine ⟨_, .found hpos hin fun s hs => ht.lowest s ((h.covers_iff s count).mpr hs), ht.order,
      fun page => ?_, ?_⟩
    · rw [Finset.mem_sdiff, h.members, mem_block]
      exact (ht.pages page).symm
    · have htotal := ht.total
      rw [← pages_eq_total, ← pages_eq_total, h.count] at htotal
      rw [Finset.card_sdiff_of_subset hin, card_block]
      show f'.pages = pages.card - count
      omega

theorem Tracks.free (h : f.Tracks pages) (start count : Nat) :
    ∃ next, SetStep pages (.free start count) (f.call (.free start count)).1 next ∧
      (f.call (.free start count)).2.Tracks next := by
  cases hf : f.free? start count with
  | none =>
    have hcall : f.call (.free start count) = (.freed false, f) := by simp only [call, hf]
    rw [hcall]
    refine ⟨pages, .refused fun hdis => ?_, h⟩
    obtain ⟨page, hs, he, hin⟩ := free?_none h.order hf
    exact Finset.disjoint_left.mp hdis ((mem_block ..).mpr ⟨hs, he⟩) ((h.members page).mpr hin)
  | some f' =>
    have hcall : f.call (.free start count) = (.freed true, f') := by simp only [call, hf]
    rw [hcall]
    obtain ⟨horder, hnot, hpages, htotal⟩ := free?_spec h.order hf
    have hdis : Disjoint (block start count) pages := Finset.disjoint_left.mpr fun page hb hin => by
      obtain ⟨hs, he⟩ := (mem_block ..).mp hb
      exact hnot page hs he ((h.members page).mp hin)
    refine ⟨_, .freed hdis, horder, fun page => ?_, ?_⟩
    · rw [Finset.mem_union, h.members, mem_block, hpages, or_comm]
    · rw [Finset.card_union_of_disjoint hdis.symm, card_block, htotal, h.count, Nat.add_comm]

theorem Tracks.call (h : f.Tracks pages) (c : FreeCall) :
    ∃ next, SetStep pages c (f.call c).1 next ∧ (f.call c).2.Tracks next := by
  cases c with
  | alloc count => exact h.alloc count
  | free start count => exact h.free start count

theorem Tracks.callAll (h : f.Tracks pages) (calls : List FreeCall) :
    ∃ last, SetRun pages calls (f.callAll calls).1 last ∧ (f.callAll calls).2.Tracks last := by
  induction calls generalizing f pages with
  | nil => exact ⟨pages, .nil, h⟩
  | cons c rest ih =>
    obtain ⟨next, hstep, hnext⟩ := h.call c
    obtain ⟨last, hrun, hlast⟩ := ih hnext
    exact ⟨last, .cons hstep hrun, hlast⟩

end Tracks

/-! ### What is stored -/

/-- A list in order keeps a gap between any two ranges, and the earlier comes first. -/
theorem InOrder.pairwise {low : Nat} {l : List PageRange} (h : InOrder low l) :
    l.Pairwise fun r s => r.start + r.length < s.start := by
  induction l generalizing low with
  | nil => exact .nil
  | cons r rest ih =>
    obtain ⟨_, _, hrest⟩ := h
    refine .cons (fun s hs => ?_) (ih hrest)
    have hpos := hrest.length_pos hs
    exact hrest.le_of_hasIn ⟨s, hs, Nat.le_refl _, by omega⟩

theorem InOrder.nodup {low : Nat} {l : List PageRange} (h : InOrder low l) : l.Nodup := by
  refine h.pairwise.imp fun {r s} hlt heq => ?_
  rw [heq] at hlt
  omega

/-- Two ranges that overlap or touch are one. -/
theorem InOrder.eq_of_meets {low : Nat} {l : List PageRange} (h : InOrder low l) {r s : PageRange}
    (hr : r ∈ l) (hs : s ∈ l) (hrs : r.start ≤ s.start + s.length)
    (hsr : s.start ≤ r.start + r.length) : r = s := by
  induction l generalizing low with
  | nil => cases hr
  | cons first rest ih =>
    obtain ⟨hbefore, _⟩ := List.pairwise_cons.mp h.pairwise
    rcases List.mem_cons.mp hr with rfl | hr'
    · rcases List.mem_cons.mp hs with rfl | hs'
      · rfl
      · have := hbefore s hs'
        omega
    · rcases List.mem_cons.mp hs with rfl | hs'
      · have := hbefore r hr'
        omega
      · exact ih h.2.2 hr' hs'

/-- The ranges of a list in order are the maximal runs of its pages. -/
theorem Tracks.mem_ranges_iff {f : FreeList} {pages : Finset Nat} (h : f.Tracks pages) (r : PageRange) :
    r ∈ f.ranges ↔ MaximalRun pages r := by
  constructor
  · intro hr
    have hpos := h.order.length_pos hr
    refine ⟨hpos, (h.covers_iff ..).mp (covers_of_within hr (Nat.le_refl _) (Nat.le_refl _)),
      fun page hpage hin => ?_, fun hin => ?_⟩
    · obtain ⟨s, hs, hlow, hhigh⟩ := (h.members page).mp hin
      obtain rfl := h.order.eq_of_meets hr hs (by omega) (by omega)
      omega
    · obtain ⟨s, hs, hlow, hhigh⟩ := (h.members _).mp hin
      obtain rfl := h.order.eq_of_meets hr hs (by omega) (by omega)
      omega
  · intro hrun
    have hcover := (h.covers_iff ..).mpr hrun.inside
    obtain ⟨s, hs, hlow, hhigh⟩ := run_within h.order hrun.pos hcover
    -- A stored range around the run that is not the run would go on past one of its ends.
    have hstart : s.start = r.start := by
      by_contra hne
      refine hrun.first (r.start - 1) (by omega) ((h.members _).mpr ⟨s, hs, ?_, ?_⟩)
      · omega
      · have := hrun.pos
        omega
    have hlength : s.length = r.length := by
      by_contra hne
      exact hrun.last ((h.members _).mpr ⟨s, hs, by omega, by omega⟩)
    obtain rfl : s = r := by
      cases s
      cases r
      exact congrArg₂ PageRange.mk hstart hlength
    exact hs

/-- A list that stores a set of pages in the fewest ranges. -/
structure Stores (f : FreeList) (pages : Finset Nat) : Prop where
  nonempty : ∀ r ∈ f.ranges, 0 < r.length
  apart : f.ranges.Pairwise fun r s => r.start + r.length < s.start
  union : ∀ page, page ∈ pages ↔ ∃ r ∈ f.ranges, page ∈ block r.start r.length
  count : f.pages = pages.card
  fragments : f.fragments = {r | MaximalRun pages r}.ncard

theorem Tracks.stores {f : FreeList} {pages : Finset Nat} (h : f.Tracks pages) : f.Stores pages := by
  have hruns : {r | MaximalRun pages r} = ↑f.ranges.toFinset := by
    ext r
    rw [Set.mem_ofPred_eq, List.coe_toFinset, Set.mem_ofPred_eq, h.mem_ranges_iff]
  refine ⟨fun r hr => h.order.length_pos hr, h.order.pairwise, fun page => ?_, h.count, ?_⟩
  · simp only [h.members, mem_block]
    rfl
  · rw [hruns, Set.ncard_coe_finset, List.toFinset_card_of_nodup h.order.nodup]
    rfl

/-- **A free list is the set of its pages.** Calls on a new list, whatever their arguments,
get the answers of the set, which has no other answers to give; and what is stored after
them is the set, cut into its maximal runs, in ascending order and with a gap between any
two. -/
theorem acts_as_set (calls : List FreeCall) :
    ∃ pages : Finset Nat,
      (∀ answers last, SetRun ∅ calls answers last ↔
        answers = (callAll {} calls).1 ∧ last = pages) ∧
      (callAll {} calls).2.Stores pages := by
  obtain ⟨pages, hrun, htracks⟩ := tracks_empty.callAll calls
  refine ⟨pages, fun answers last => ⟨fun h => h.unique hrun, ?_⟩, htracks.stores⟩
  rintro ⟨rfl, rfl⟩
  exact hrun

end FreeList

end GuestMachine.Memory
