import GuestMachine.Proofs.Grouping
import GuestMachine.Proofs.Isolation

/-! A run announced as a whole, and page by page.

A run is to be gathered as its pages would be, one after another. Once the first page is held
back, the others follow it, each right after the page before (`followed_by_pages`); so all
depends on what becomes of the first page. It becomes the same as of the run, unless one of
the two ends where what is held back begins: then just one of them is put in front of that
(`run_as_pages`). -/
namespace GuestMachine.Memory

/-- Growing an extent twice. -/
theorem Extent.hull_assoc (a b c : Extent) : (a.hull b).hull c = a.hull (b.hull c) := by
  simp only [hull, Nat.min_assoc, Nat.max_assoc]

namespace Announcement

/-- The pages of a run, each announced by itself. -/
def pageCalls (n : Announcement) : List LayoutCall :=
  (runNotices n.host n.guest n.pages n.protection).map fun m => .notifyPage m.host m.guest m.protection

/-- The first page of a run. -/
def firstPage (n : Announcement) : Announcement := {n with pages := 1}

/-- The pages of a run after the first. -/
def laterPages (n : Announcement) : Announcement :=
  ⟨n.host + pageSize, n.guest + pageSize, n.pages - 1, n.protection⟩

/-- The announcement follows an extent in both spaces, with its protection. -/
def Follows (n : Announcement) (e : Extent) : Prop :=
  n.protection = e.protection ∧ n.host = e.host.last + 1 ∧ n.guest = e.guest.last + 1

/-- The announcement ends where an extent begins, in both spaces, and has its protection. -/
def Precedes (n : Announcement) (e : Extent) : Prop :=
  n.protection = e.protection ∧ n.host + n.size = e.host.first ∧ n.guest + n.size = e.guest.first

instance (n : Announcement) (e : Extent) : Decidable (n.Precedes e) :=
  inferInstanceAs (Decidable (_ ∧ _))

variable {n : Announcement} {e : Extent}

theorem continues_iff : n.Continues e ↔ n.Follows e ∨ n.Precedes e := by
  rw [Continues, Follows, Precedes, ← and_or_left]

theorem pageCalls_eq (hpages : 0 < n.pages) :
    n.pageCalls = .notifyPage n.host n.guest n.protection :: n.laterPages.pageCalls := by
  obtain ⟨k, hk⟩ := Nat.exists_eq_add_of_lt hpages
  have hnext : ∀ start i, start + (i + 1) * pageSize = start + pageSize + i * pageSize := fun start i => by
    rw [Nat.add_one_mul]
    omega
  rw [pageCalls, runNotices, show n.pages = n.laterPages.pages + 1 from by simp only [laterPages]; omega,
    List.range_succ_eq_map]
  simp only [List.map_cons, List.map_map, Function.comp_def, Nat.zero_mul, Nat.add_zero, Nat.succ_eq_add_one, hnext,
    pageCalls, runNotices, laterPages]

theorem firstPage_eq (hpages : n.pages = 1) : n.firstPage = n :=
  congrArg (fun count => {n with pages := count}) hpages.symm

theorem size_firstPage (n : Announcement) : n.firstPage.size = pageSize := Nat.one_mul pageSize

theorem size_laterPages (hpages : 0 < n.pages) : n.size = pageSize + n.laterPages.size := by
  simp only [size, laterPages, pageSize]
  omega

theorem Proper.firstPage (h : n.Proper) : n.firstPage.Proper := by
  have hsize := n.size_firstPage
  have hwhole : pageSize ≤ n.size := Nat.le_mul_of_pos_left _ h.pages
  obtain ⟨_, hcount, hhost, hguest⟩ := h
  refine ⟨Nat.one_pos, by omega, ?_, ?_⟩
  · show n.host + n.firstPage.size ≤ _
    omega
  · show n.guest + n.firstPage.size ≤ _
    omega

theorem Proper.laterPages (h : n.Proper) (hmore : 1 < n.pages) : n.laterPages.Proper := by
  have hsize := size_laterPages h.pages
  have hhost := h.host
  have hguest := h.guest
  have hcount := h.size
  refine ⟨Nat.sub_pos_of_lt hmore, by omega, ?_, ?_⟩
  · show n.host + pageSize + n.laterPages.size ≤ _
    omega
  · show n.guest + pageSize + n.laterPages.size ≤ _
    omega

/-- The first page of a run and the others come to the run. -/
theorem Proper.extent_parts (h : n.Proper) (hmore : 1 < n.pages) :
    n.firstPage.extent.hull n.laterPages.extent = n.extent := by
  have hsize := size_laterPages h.pages
  have hfirst := n.size_firstPage
  have hlater := (h.laterPages hmore).size_pos
  simp only [extent, Extent.hull, Extent.mk.injEq, Interval.mk.injEq, hfirst]
  simp only [Announcement.firstPage, Announcement.laterPages, and_true] at *
  omega

/-- The second page of a run begins where the first ends. -/
theorem laterPages_follows (n : Announcement) : n.laterPages.Follows n.firstPage.extent := by
  have hsize := n.size_firstPage
  refine ⟨rfl, ?_, ?_⟩
  · simp only [extent, hsize]
    simp only [laterPages, firstPage, pageSize]
  · simp only [extent, hsize]
    simp only [laterPages, firstPage, pageSize]

end Announcement

namespace Layout

variable {l : Layout} {e : Extent} {members : List Announcement} {n : Announcement}

/-- The pages of a run announced one after another, with their answers. -/
def notifyPages (l : Layout) (n : Announcement) : List (Except Error Unit) × Layout :=
  ((runWith perform n.pageCalls l).1.map Prod.snd, (runWith perform n.pageCalls l).2)

/-- The first page is announced, then the others. -/
theorem notifyPages_eq (l : Layout) (hpages : 0 < n.pages) {r : Except Error Unit} {l' : Layout}
    (hfirst : l.notifyRange n.firstPage.host n.firstPage.guest n.firstPage.pages n.firstPage.protection = (r, l')) :
    l.notifyPages n = (r :: (l'.notifyPages n.laterPages).1, (l'.notifyPages n.laterPages).2) := by
  have hperform := (l.perform_announcement (c := .notifyPage n.host n.guest n.protection) (n := n.firstPage) rfl).trans
    hfirst
  rw [notifyPages, Announcement.pageCalls_eq hpages, runWith, hperform]
  rfl

theorem notifyPages_none (l : Layout) (hpages : n.pages = 0) : l.notifyPages n = ([], l) := by
  rw [notifyPages, Announcement.pageCalls, hpages]
  rfl

/-- A page that is announced by itself is a run of one page. -/
theorem notifyPages_single (l : Layout) (hpages : n.pages = 1) :
    l.notifyPages n = ([(l.notifyRange n.host n.guest n.pages n.protection).1],
      (l.notifyRange n.host n.guest n.pages n.protection).2) := by
  have hnone : n.laterPages.pages = 0 := by
    show n.pages - 1 = 0
    omega
  rw [notifyPages_eq l (by omega) (Prod.eta _).symm, notifyPages_none _ hnone, Announcement.firstPage_eq hpages]

/-- Pages that follow what is held back join it, each right after the page before. -/
theorem followed_by_pages (hl : l.coalescer.pending = some e) (he : Gathered members e) (hn : n.Proper)
    (hfollows : n.Follows e) :
    l.notifyPages n = (List.replicate n.pages (.ok ()), l.hold (e.hull n.extent)) := by
  induction hk : n.pages generalizing l e members n with
  | zero => exact absurd hn.pages (by omega)
  | succ k ih =>
    have hfirst := hn.firstPage
    have hcontinues : n.firstPage.Continues e := Announcement.continues_iff.mpr (.inl hfollows)
    have hjoined := notifyRange_held hl he hfirst
    rw [if_pos hcontinues] at hjoined
    rcases Nat.eq_zero_or_pos k with rfl | hmore
    · rw [notifyPages_single l hk, ← Announcement.firstPage_eq hk, hjoined]
      rfl
    · have hafter : n.laterPages.Follows (e.hull n.firstPage.extent) := by
        obtain ⟨hprot, hhost, hguest⟩ := hfollows
        have hsize := n.size_firstPage
        refine ⟨hprot, ?_, ?_⟩
        · simp only [Extent.hull, Announcement.extent, hsize]
          simp only [Announcement.laterPages, Announcement.firstPage, pageSize] at *
          omega
        · simp only [Extent.hull, Announcement.extent, hsize]
          simp only [Announcement.laterPages, Announcement.firstPage, pageSize] at *
          omega
      have hlater : n.laterPages.pages = k := by
        show n.pages - 1 = k
        omega
      rw [notifyPages_eq l hn.pages hjoined, ih rfl (he.add hfirst hcontinues) (hn.laterPages (by omega)) hafter hlater,
        Extent.hull_assoc, hn.extent_parts (by omega)]
      rfl

/-- Pages of which the first is held back by itself are held back together in the end. -/
theorem notifyPages_starts (hn : n.Proper) {r : Except Error Unit} {l' : Layout}
    (hfirst : l.notifyRange n.firstPage.host n.firstPage.guest n.firstPage.pages n.firstPage.protection =
      (r, l'.hold n.firstPage.extent)) :
    l.notifyPages n = (r :: List.replicate (n.pages - 1) (.ok ()), l'.hold n.extent) := by
  rcases Nat.eq_or_lt_of_le hn.pages with hone | hmore
  · have hsingle : n.pages = 1 := hone.symm
    rw [Announcement.firstPage_eq hsingle] at hfirst
    rw [notifyPages_single l hsingle, hfirst, hsingle]
    rfl
  · rw [notifyPages_eq l hn.pages hfirst,
      followed_by_pages rfl (gathered_single hn.firstPage) (hn.laterPages hmore) n.laterPages_follows,
      hn.extent_parts hmore]
    rfl

/-- Pages are announced while nothing is held back. -/
theorem notifyPages_opens (hl : l.coalescer.pending = none) (hn : n.Proper) :
    l.notifyPages n = (.ok () :: List.replicate (n.pages - 1) (.ok ()), l.hold n.extent) := by
  exact notifyPages_starts hn (notifyRange_opens hl hn.firstPage)

/-- Pages are announced of which the first does not continue what is held back. -/
theorem notifyPages_apart (hl : l.coalescer.pending = some e) (he : Gathered members e) (hn : n.Proper)
    (hapart : ¬n.firstPage.Continues e) :
    l.notifyPages n = ((l.hand e).1 :: List.replicate (n.pages - 1) (.ok ()), (l.hand e).2.hold n.extent) := by
  refine notifyPages_starts hn ?_
  rw [notifyRange_held hl he hn.firstPage, if_neg hapart]

/-- Pages are announced of which the first ends where what is held back begins. It is put in
front of that, and the second page is no neighbour of what they make. -/
theorem notifyPages_overtaking (hl : l.coalescer.pending = some e) (he : Gathered members e) (hn : n.Proper)
    (hmore : 1 < n.pages) (hprecedes : n.firstPage.Precedes e) :
    l.notifyPages n =
      (.ok () :: ((l.hold (e.hull n.firstPage.extent)).hand (e.hull n.firstPage.extent)).1 ::
          List.replicate (n.pages - 2) (.ok ()),
        ((l.hold (e.hull n.firstPage.extent)).hand (e.hull n.firstPage.extent)).2.hold n.laterPages.extent) := by
  have hcontinues : n.firstPage.Continues e := Announcement.continues_iff.mpr (.inr hprecedes)
  have hjoined := notifyRange_held hl he hn.firstPage
  rw [if_pos hcontinues] at hjoined
  have hapart : ¬n.laterPages.firstPage.Continues (e.hull n.firstPage.extent) := by
    have hspan := he.spans.host
    have hsize := n.size_firstPage
    have hsize' := n.laterPages.size_firstPage
    obtain ⟨_, hhost, _⟩ := hprecedes
    simp only [Announcement.Continues, Extent.hull, Announcement.extent, hsize, hsize'] at *
    simp only [Announcement.laterPages, Announcement.firstPage, pageSize] at *
    omega
  rw [notifyPages_eq l hn.pages hjoined, notifyPages_apart rfl (he.add hn.firstPage hcontinues) (hn.laterPages hmore)
    hapart]
  rfl

/-- A run is not gathered as its pages would be: it has more than one page, and just one of the
run and its first page alone ends where what is held back begins. -/
def Differs (l : Layout) (n : Announcement) : Prop :=
  1 < n.pages ∧ ∃ e, l.coalescer.pending = some e ∧ (n.Precedes e ∨ n.firstPage.Precedes e)

/-- A call on the memory itself is none of the coalescer's business. -/
theorem serve_coalescer (l : Layout) (call : MemoryCall) : (l.serve call).2.coalescer = l.coalescer := by
  cases call with
  | alloc => rfl
  | release address pages =>
    show (l.release address pages).2.coalescer = _
    unfold release
    split
    · rfl
    · rfl
  | write address data =>
    show (l.write address data).2.coalescer = _
    unfold write
    split
    · rfl
    · rfl
  | read => rfl
  | readSlice => rfl
  | map => rfl

theorem Kept.afterAll {b : Books} (h : Kept l b) (calls : List GuestCall) : ∃ b', Kept (l.afterAll calls) b' := by
  induction calls generalizing l b with
  | nil => exact ⟨b, h⟩
  | cons call rest ih =>
    cases call with
    | memory call =>
      exact ih (l := (l.serve call).2) ⟨by rw [serve_coalescer]; exact h.pending, h.gathered⟩
    | layout call =>
      obtain ⟨b', _, hkept, _⟩ := h.turn call
      exact ih hkept

/-- What is held back after calls was gathered from announcements. -/
theorem gathered_of_calls {p : Pool} {t : GuestTable} {calls : List GuestCall}
    (hl : ({pool := p, table := t : Layout}.afterAll calls).coalescer.pending = some e) :
    ∃ members, Gathered members e := by
  have hstart : Kept {pool := p, table := t} {} := ⟨rfl, fun g hg => nomatch hg⟩
  obtain ⟨b, hkept⟩ := hstart.afterAll calls
  rw [hkept.pending] at hl
  obtain ⟨g, hg, rfl⟩ := Option.map_eq_some_iff.mp hl
  exact ⟨g.members, (hkept.current hg).2⟩

/-- Otherwise it makes no difference whether a run is announced as a whole or page by page. -/
theorem notifyPages_alike (hheld : ∀ e, l.coalescer.pending = some e → ∃ members, Gathered members e) (hn : n.Proper)
    (h : ¬l.Differs n) :
    l.notifyPages n =
      ((l.notifyRange n.host n.guest n.pages n.protection).1 :: List.replicate (n.pages - 1) (.ok ()),
        (l.notifyRange n.host n.guest n.pages n.protection).2) := by
  rcases Nat.eq_or_lt_of_le hn.pages with hone | hmore
  · rw [notifyPages_single l hone.symm, ← hone]
    rfl
  cases hl : l.coalescer.pending with
  | none => rw [notifyPages_opens hl hn, notifyRange_opens hl hn]
  | some e =>
    obtain ⟨members, he⟩ := hheld e hl
    have hwhole : ¬n.Precedes e := fun hprecedes => h ⟨hmore, e, hl, .inl hprecedes⟩
    have hfirst : ¬n.firstPage.Precedes e := fun hprecedes => h ⟨hmore, e, hl, .inr hprecedes⟩
    by_cases hfollows : n.Follows e
    · rw [followed_by_pages hl he hn hfollows, notifyRange_held hl he hn,
        if_pos (Announcement.continues_iff.mpr (.inl hfollows)), ← List.replicate_succ, Nat.sub_add_cancel hn.pages]
    · rw [notifyPages_apart hl he hn (by rw [Announcement.continues_iff]; exact not_or.mpr ⟨hfollows, hfirst⟩),
        notifyRange_held hl he hn, if_neg (by rw [Announcement.continues_iff]; exact not_or.mpr ⟨hfollows, hwhole⟩)]

/-- Two announcements of different sizes begin at one address. If the one ends where an extent
begins, the other does not continue that extent. -/
theorem not_continues_of_precedes {a b : Announcement} (he : Gathered members e) (ha : a.Precedes e)
    (hpos : 0 < a.size) (hhost : b.host = a.host) (hsize : b.size ≠ a.size) : ¬b.Continues e := by
  have hspan := he.spans.host
  obtain ⟨_, hends, _⟩ := ha
  intro hcontinues
  rcases Announcement.continues_iff.mp hcontinues with ⟨_, hfollows, _⟩ | ⟨_, hprecedes, _⟩
  · omega
  · omega

/-- A run that ends where what is held back begins is put in front of that; its first page is not. -/
theorem differs_whole (hl : l.coalescer.pending = some e) (he : Gathered members e) (hn : n.Proper)
    (hmore : 1 < n.pages) (hprecedes : n.Precedes e) :
    l.notifyRange n.host n.guest n.pages n.protection = (.ok (), l.hold (e.hull n.extent)) ∧
      l.notifyPages n = ((l.hand e).1 :: List.replicate (n.pages - 1) (.ok ()), (l.hand e).2.hold n.extent) := by
  refine ⟨by rw [notifyRange_held hl he hn, if_pos (Announcement.continues_iff.mpr (.inr hprecedes))],
    notifyPages_apart hl he hn (not_continues_of_precedes he hprecedes hn.size_pos rfl ?_)⟩
  rw [n.size_firstPage]
  simp only [Announcement.size, pageSize]
  omega

/-- A run of which the first page alone ends where what is held back begins does not continue
that. -/
theorem differs_first (hl : l.coalescer.pending = some e) (he : Gathered members e) (hn : n.Proper)
    (hmore : 1 < n.pages) (hprecedes : n.firstPage.Precedes e) :
    l.notifyRange n.host n.guest n.pages n.protection = ((l.hand e).1, (l.hand e).2.hold n.extent) := by
  rw [notifyRange_held hl he hn, if_neg]
  refine not_continues_of_precedes he hprecedes hn.firstPage.size_pos rfl ?_
  rw [n.size_firstPage]
  simp only [Announcement.size, pageSize]
  omega

/-- **A run is gathered as its pages are, but for two places.** Whatever calls have been made of
any pool, a run that is not rejected leaves what announcing its pages one by one leaves: the same
is held back, and the same has been handed over and mapped, whether that succeeded or not; and
the answer is that of the first page. The two places are right before what is held back, for the
run or for its first page alone, where there is more than one page. A run that ends there is put
in front, while its pages have what is held back mapped first. The first page that ends there is
put in front, and the second has both mapped; a run has the other mapped without it. -/
theorem run_as_pages (p : Pool) (t : GuestTable) (calls : List GuestCall) {n : Announcement} (hn : n.Proper) :
    let l := {pool := p, table := t : Layout}.afterAll calls
    let whole := l.notifyRange n.host n.guest n.pages n.protection
    (¬l.Differs n → l.notifyPages n = (whole.1 :: List.replicate (n.pages - 1) (.ok ()), whole.2)) ∧
    (l.Differs n → (l.notifyPages n).2.coalescer.pending ≠ whole.2.coalescer.pending) ∧
    ∀ e, l.coalescer.pending = some e → 1 < n.pages →
      (n.Precedes e → whole = (.ok (), l.hold (e.hull n.extent)) ∧
        l.notifyPages n = ((l.hand e).1 :: List.replicate (n.pages - 1) (.ok ()), (l.hand e).2.hold n.extent)) ∧
      (n.firstPage.Precedes e → whole = ((l.hand e).1, (l.hand e).2.hold n.extent) ∧
        let first := e.hull n.firstPage.extent
        l.notifyPages n = (.ok () :: ((l.hold first).hand first).1 :: List.replicate (n.pages - 2) (.ok ()),
          ((l.hold first).hand first).2.hold n.laterPages.extent)) := by
  intro l whole
  have hheld : ∀ e, l.coalescer.pending = some e → ∃ members, Gathered members e := fun _ => gathered_of_calls
  refine ⟨notifyPages_alike hheld hn, ?_, fun e hl hmore => ?_⟩
  · rintro ⟨hmore, e, hl, hprecedes | hprecedes⟩
    · obtain ⟨members, he⟩ := hheld e hl
      obtain ⟨hwhole, hpages⟩ := differs_whole hl he hn hmore hprecedes
      rw [hpages, show whole = _ from hwhole]
      -- The run goes on to the end of what is held back, which its pages do not reach.
      have hspan := he.spans.host
      have hpos := hn.size_pos
      obtain ⟨_, hhost, _⟩ := hprecedes
      simp only [hold, ne_eq, Option.some.injEq]
      intro hsame
      have hlast := congrArg (fun e => e.host.last) hsame
      simp only [Extent.hull, Announcement.extent] at hlast
      omega
    · obtain ⟨members, he⟩ := hheld e hl
      rw [notifyPages_overtaking hl he hn hmore hprecedes, show whole = _ from differs_first hl he hn hmore hprecedes]
      -- The first page has been handed over, and the run still has it.
      simp only [hold, ne_eq, Option.some.injEq]
      intro hsame
      have hfirst := congrArg (fun e => e.host.first) hsame
      simp only [Announcement.extent, Announcement.laterPages, pageSize] at hfirst
      omega
  · obtain ⟨members, he⟩ := hheld e hl
    exact ⟨differs_whole hl he hn hmore, fun hprecedes =>
      ⟨differs_first hl he hn hmore hprecedes, notifyPages_overtaking hl he hn hmore hprecedes⟩⟩

/-- Memory that grows by sixteen pages. -/
def sixteenPages : Pool :=
  {config := ⟨65536, 262144⟩, map := {base := 0x100000000000, size := 262144, host := .plain 0x100000000000}}

/-- Four pages are taken, and the third of them is announced. -/
def thirdPage : List GuestCall :=
  [.memory (.alloc 4), .layout (.notifyPage 0x100000002000 0x12000 ⟨true, true, false⟩)]

/-- The fourth page and one more. They follow the third. -/
def nextPages : Announcement := ⟨0x100000003000, 0x13000, 2, ⟨true, true, false⟩⟩

/-- The first two pages. They end where the third begins. -/
def firstPages : Announcement := ⟨0x100000000000, 0x10000, 2, ⟨true, true, false⟩⟩

/-- The pages that follow the third are gathered alike, and those before it are not. -/
theorem run_as_pages_around :
    nextPages.Proper ∧ firstPages.Proper ∧
      let l := {pool := sixteenPages, table := {} : Layout}.afterAll thirdPage
      let next := l.notifyRange nextPages.host nextPages.guest nextPages.pages nextPages.protection
      let first := l.notifyRange firstPages.host firstPages.guest firstPages.pages firstPages.protection
      l.notifyPages nextPages = (next.1 :: List.replicate (nextPages.pages - 1) (.ok ()), next.2) ∧
        (l.notifyPages firstPages).2.coalescer.pending ≠ first.2.coalescer.pending := by
  have hnext : nextPages.Proper := by decide
  have hfirst : firstPages.Proper := by decide
  obtain ⟨halike, _, _⟩ := run_as_pages sixteenPages {} thirdPage hnext
  obtain ⟨_, hunlike, _⟩ := run_as_pages sixteenPages {} thirdPage hfirst
  refine ⟨hnext, hfirst, halike ?_, hunlike ⟨by decide, _, rfl, .inl (by decide)⟩⟩
  rintro ⟨_, e, he, hprecedes⟩
  cases he
  exact absurd hprecedes (by decide)

/-- Announced as a whole, the first two pages are put in front of the third, and nothing is
mapped. Announced one by one, they have the third mapped. All of this succeeds. -/
theorem run_unlike_its_pages :
    Pool.create (.plain 0x100000000000) ⟨65536, 262144⟩ = .ok sixteenPages ∧ firstPages.Proper ∧
      let l := {pool := sixteenPages : Layout}.afterAll thirdPage
      let whole := l.notifyRange firstPages.host firstPages.guest firstPages.pages firstPages.protection
      let paged := l.notifyPages firstPages
      whole.1 = .ok () ∧ whole.2.coalescer.commits = 0 ∧ whole.2.table.operations = [] ∧
        paged.1 = [.ok (), .ok ()] ∧ paged.2.coalescer.commits = 1 ∧
        paged.2.table.operations = [.unmap 0x12000 4096, .map 0 8192 4096 0x12000 ⟨true, true, false⟩] ∧
        paged.2.coalescer.pending ≠ whole.2.coalescer.pending :=
  ⟨rfl, by decide, rfl, rfl, rfl, rfl, by decide +kernel, by decide +kernel, by decide +kernel⟩

end Layout

end GuestMachine.Memory
