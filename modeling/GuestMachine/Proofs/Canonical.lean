import GuestMachine.Proofs.FreeSet

/-! A set of free pages is stored in one way.

A range of one list is a run of the other's pages if these are the same, and so lies within one
of its ranges; and that lies within a range of the first, which can only be the one it began with
(`InOrder.mem_of_same`). The lists are equal therefore (`Ordered.ext`): how pages came to be free
leaves no trace. What calls do to a list is known once it is known for its pages. Ranges given
back come to the same pages in whatever order, and a range given back right after it was taken
makes up those there were. -/
namespace GuestMachine.Memory

/-- No page is in both ranges. -/
def PageRange.Apart (r s : PageRange) : Prop := ∀ page, r.Has page → ¬ s.Has page

theorem PageRange.Apart.symm {r s : PageRange} (h : r.Apart s) : s.Apart r :=
  fun page hs hr => h page hr hs

theorem PageRange.apart_iff (r s : PageRange) : r.Apart s ↔
    r.length = 0 ∨ s.length = 0 ∨ r.start + r.length ≤ s.start ∨ s.start + s.length ≤ r.start := by
  constructor
  · intro h
    have hmax := h (max r.start s.start)
    simp only [Has] at hmax
    omega
  · intro h page hr hs
    simp only [Has] at hr hs
    omega

instance (r s : PageRange) : Decidable (r.Apart s) :=
  decidable_of_iff _ (r.apart_iff s).symm

namespace FreeList

/-! ### The list of a set -/

/-- A range stored in one list is stored in every other with the same pages. -/
theorem InOrder.mem_of_same {low low' : Nat} {l l' : List PageRange} (h : InOrder low l)
    (h' : InOrder low' l') (hsame : ∀ page, HasIn l page ↔ HasIn l' page) {r : PageRange} (hr : r ∈ l) :
    r ∈ l' := by
  -- `r` lies in a range `s` of the other list, and that in a range `t` of this one.
  have hcover : Covers l' r.start r.length := fun i hi =>
    (hsame _).mp (covers_of_within hr (Nat.le_refl _) (Nat.le_refl _) i hi)
  obtain ⟨s, hs, hstart, hend⟩ := run_within h' (h.length_pos hr) hcover
  have hcover' : Covers l s.start s.length := fun i hi =>
    (hsame _).mpr (covers_of_within hs (Nat.le_refl _) (Nat.le_refl _) i hi)
  obtain ⟨t, ht, hstart', hend'⟩ := run_within h (h'.length_pos hs) hcover'
  obtain rfl : r = t := h.eq_of_meets hr ht (by omega) (by omega)
  obtain rfl : s = r := by
    cases s
    cases r
    simp only [PageRange.mk.injEq] at *
    omega
  exact hs

/-- Lists in order that have the same pages are equal. -/
theorem Ordered.ext {f g : FreeList} (hf : f.Ordered) (hg : g.Ordered)
    (hsame : ∀ page, f.Has page ↔ g.Has page) : f = g := by
  have hmem : ∀ r, r ∈ f.ranges ↔ r ∈ g.ranges := fun r =>
    ⟨hf.mem_of_same hg hsame, hg.mem_of_same hf fun page => (hsame page).symm⟩
  have hperm : f.ranges.Perm g.ranges :=
    (List.perm_ext_iff_of_nodup (InOrder.nodup hf) (InOrder.nodup hg)).mpr hmem
  have hranges : f.ranges = g.ranges :=
    hperm.eq_of_pairwise (fun r s _ _ hrs hsr => by omega) hf.pairwise hg.pairwise
  exact congrArg FreeList.mk hranges

theorem ordered_callAll (calls : List FreeCall) : (callAll {} calls).2.Ordered := by
  obtain ⟨_, _, hlast⟩ := tracks_empty.callAll calls
  exact hlast.order

/-! ### Pages given back -/

/-- Ranges given back one after another. -/
def givingBack (rs : List PageRange) : List FreeCall := rs.map fun r => .free r.start r.length

/-- Ranges apart from each other and from the free pages are all taken back. -/
theorem Ordered.takesBack {f : FreeList} (h : f.Ordered) {rs : List PageRange}
    (hrs : rs.Pairwise PageRange.Apart) (hfresh : ∀ r ∈ rs, ∀ page, r.Has page → ¬ f.Has page) :
    ∃ last : FreeList, f.callAll (givingBack rs) = (rs.map fun _ => .freed true, last) ∧ last.Ordered ∧
      ∀ page, last.Has page ↔ f.Has page ∨ HasIn rs page := by
  induction rs generalizing f with
  | nil => exact ⟨f, rfl, h, fun page => (or_iff_left (hasIn_nil page)).symm⟩
  | cons r rest ih =>
    obtain ⟨hapart, hrest⟩ := List.pairwise_cons.mp hrs
    cases hfree : f.free? r.start r.length with
    | none =>
      obtain ⟨page, hs, he, hin⟩ := free?_none h hfree
      exact absurd hin (hfresh r (List.mem_cons_self ..) page ⟨hs, he⟩)
    | some next =>
      obtain ⟨horder, _, hpages, _⟩ := free?_spec h hfree
      have hfresh' : ∀ s ∈ rest, ∀ page, s.Has page → ¬ next.Has page := by
        intro s hs page hp hin
        rcases (hpages page).mp hin with hnew | hold
        · exact hapart s hs page hnew hp
        · exact hfresh s (List.mem_cons_of_mem r hs) page hp hold
      obtain ⟨last, hcalls, hlast, hhas⟩ := ih horder hrest hfresh'
      have hstep : f.callAll (givingBack (r :: rest)) =
          (.freed true :: (next.callAll (givingBack rest)).1, (next.callAll (givingBack rest)).2) := by
        simp only [givingBack, List.map_cons, callAll, call, hfree]
      refine ⟨last, ?_, hlast, fun page => ?_⟩
      · rw [hstep, hcalls, List.map_cons]
      · rw [hhas, hpages, hasIn_cons, or_assoc, or_left_comm]
        exact Iff.rfl

/-- The order in which they are given back does not matter. -/
theorem Ordered.takesBack_any {f : FreeList} (h : f.Ordered) {rs : List PageRange}
    (hrs : rs.Pairwise PageRange.Apart) (hfresh : ∀ r ∈ rs, ∀ page, r.Has page → ¬ f.Has page) :
    ∃ last : FreeList, (∀ page, last.Has page ↔ f.Has page ∨ HasIn rs page) ∧
      ∀ rs' : List PageRange, rs'.Perm rs →
        f.callAll (givingBack rs') = (rs'.map fun _ => .freed true, last) := by
  obtain ⟨last, _, hlast, hhas⟩ := h.takesBack hrs hfresh
  refine ⟨last, hhas, fun rs' hperm => ?_⟩
  have hrs' : rs'.Pairwise PageRange.Apart := (hperm.pairwise_iff PageRange.Apart.symm).mpr hrs
  obtain ⟨last', hcalls, hlast', hhas'⟩ := h.takesBack hrs' fun r hr => hfresh r (hperm.mem_iff.mp hr)
  have hsame : ∀ page, last'.Has page ↔ last.Has page := by
    intro page
    have hin : HasIn rs' page ↔ HasIn rs page := exists_congr fun r => and_congr_left' hperm.mem_iff
    rw [hhas, hhas', hin]
  rw [hcalls, hlast'.ext hlast hsame]

/-- Pages given back right after they were taken leave the list as it was. -/
theorem Ordered.restored {f f' : FreeList} (h : f.Ordered) {count start : Nat}
    (ha : f.alloc? count = some (start, f')) : f'.free? start count = some f := by
  have htaken := alloc?_spec h ha
  have horder : f'.Ordered := htaken.order
  have hpages : ∀ page, f'.Has page ↔ f.Has page ∧ ¬ (start ≤ page ∧ page < start + count) := htaken.pages
  cases hfree : f'.free? start count with
  | none =>
    obtain ⟨page, hs, he, hin⟩ := free?_none horder hfree
    exact absurd ⟨hs, he⟩ ((hpages page).mp hin).2
  | some g =>
    obtain ⟨horder', _, hpages', _⟩ := free?_spec horder hfree
    refine congrArg some (horder'.ext h fun page => ?_)
    rw [hpages', hpages]
    constructor
    · rintro (⟨hs, he⟩ | hin)
      · exact htaken.covers.hasIn hs he
      · exact hin.1
    · intro hin
      by_cases htook : start ≤ page ∧ page < start + count
      · exact .inl htook
      · exact .inr ⟨hin, htook⟩

/-- **The free list is canonical.** Whatever calls have led to them, two lists with the same free
pages are equal, and so give the same answers from then on. Ranges that are apart from each other
and from the free pages can be given back in any order: all are taken back, and the list is the
same in the end. A range given back right after it was taken leaves the list as it was. -/
theorem pages_determine_list (calls : List FreeCall) :
    let f := (callAll {} calls).2
    (∀ calls' : List FreeCall,
      let g := (callAll {} calls').2
      (∀ page, f.Has page ↔ g.Has page) → f = g ∧ ∀ later, f.callAll later = g.callAll later) ∧
    (∀ rs : List PageRange, rs.Pairwise PageRange.Apart →
      (∀ r ∈ rs, ∀ page, r.Has page → ¬ f.Has page) →
      ∃ last : FreeList, (∀ page, last.Has page ↔ f.Has page ∨ ∃ r ∈ rs, r.Has page) ∧
        ∀ rs' : List PageRange, rs'.Perm rs →
          f.callAll (givingBack rs') = (rs'.map fun _ => .freed true, last)) ∧
    ∀ count start f', f.alloc? count = some (start, f') → f'.free? start count = some f := by
  intro f
  have hf : f.Ordered := ordered_callAll calls
  refine ⟨?_, fun rs hrs hfresh => hf.takesBack_any hrs hfresh, fun count start f' ha => hf.restored ha⟩
  intro calls' g hsame
  have heq : f = g := hf.ext (ordered_callAll calls') hsame
  exact ⟨heq, fun later => by rw [heq]⟩

/-- The pages between three free runs. -/
def gaps : List PageRange := [⟨4, 4⟩, ⟨12, 8⟩, ⟨0, 2⟩]

/-- Three runs that have come about in two ways. With the pages between them given back from the
last on they are one run, as they are from the first on. -/
theorem pages_determine_list_runs :
    let f := (callAll {} [.free 0 4, .free 8 4, .alloc 2, .free 20 3]).2
    let g := (callAll {} [.free 20 3, .free 10 2, .free 2 2, .free 8 2]).2
    f.ranges = [⟨2, 2⟩, ⟨8, 4⟩, ⟨20, 3⟩] ∧ (∀ page, f.Has page ↔ g.Has page) ∧ f = g ∧
      gaps.Pairwise PageRange.Apart ∧ (∀ r ∈ gaps, ∀ page, r.Has page → ¬ f.Has page) ∧
      f.callAll (givingBack gaps.reverse) = ([.freed true, .freed true, .freed true], ⟨[⟨0, 23⟩]⟩) ∧
      f.alloc? 4 = some (8, ⟨[⟨2, 2⟩, ⟨20, 3⟩]⟩) ∧ free? ⟨[⟨2, 2⟩, ⟨20, 3⟩]⟩ 8 4 = some f := by
  intro f g
  have hranges : f.ranges = [⟨2, 2⟩, ⟨8, 4⟩, ⟨20, 3⟩] := rfl
  have hsame : ∀ page, f.Has page ↔ g.Has page := fun page => Iff.rfl
  have hapart : gaps.Pairwise PageRange.Apart := by decide
  have hgaps : ∀ r ∈ gaps, ∀ s ∈ f.ranges, r.Apart s := by
    rw [hranges]
    decide
  have hfresh : ∀ r ∈ gaps, ∀ page, r.Has page → ¬ f.Has page := by
    rintro r hr page hp ⟨s, hs, hin⟩
    exact hgaps r hr s hs page hp hin
  have halloc : f.alloc? 4 = some (8, ⟨[⟨2, 2⟩, ⟨20, 3⟩]⟩) := rfl
  obtain ⟨hunique, hback, hrestored⟩ :=
    pages_determine_list [.free 0 4, .free 8 4, .alloc 2, .free 20 3]
  obtain ⟨heq, _⟩ := hunique [.free 20 3, .free 10 2, .free 2 2, .free 8 2] hsame
  obtain ⟨last, _, hall⟩ := hback gaps hapart hfresh
  obtain rfl : (⟨[⟨0, 23⟩]⟩ : FreeList) = last := congrArg Prod.snd (hall gaps (.refl _))
  exact ⟨hranges, hsame, heq, hapart, hfresh, hall gaps.reverse (List.reverse_perm _), halloc,
    hrestored 4 8 _ halloc⟩

end FreeList

end GuestMachine.Memory
