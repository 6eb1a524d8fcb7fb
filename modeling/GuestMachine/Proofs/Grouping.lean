import GuestMachine.Proofs.Coalescing
import Mathlib.Algebra.GroupWithZero.Nat

/-! Every announcement is in one group, and every group is mapped once.

The coalescer keeps no record of what it was told: it has one extent, which grows. The books
kept here do (`Books`): the groups that were closed, the one that is gathered now, and for
each of them the announcements it is made of. What a call may do to the layout and to the
books is said case by case (`Turn`), and each call does one of these things (`Kept.turn`);
the extent of a group is the union of its announcements all along (`Gathered`). -/
namespace GuestMachine.Memory

/-! ### Announcements -/

/-- A run of pages, as a call announces it. -/
structure Announcement where
  host : Nat
  guest : Nat
  pages : Nat
  protection : Protection

def LayoutCall.announcement? : LayoutCall → Option Announcement
  | .notifyPage host guest prot => some ⟨host, guest, 1, prot⟩
  | .notifyRange host guest pages prot => some ⟨host, guest, pages, prot⟩
  | _ => none

namespace Announcement

def size (n : Announcement) : Nat := n.pages * pageSize

/-- There are pages, their bytes can be counted, and they lie in both address spaces. -/
structure Proper (n : Announcement) : Prop where
  pages : 0 < n.pages
  size : n.size < addressLimit
  host : n.host + n.size ≤ addressLimit
  guest : n.guest + n.size ≤ addressLimit

instance (n : Announcement) : Decidable n.Proper :=
  decidable_of_iff (0 < n.pages ∧ n.size < addressLimit ∧ n.host + n.size ≤ addressLimit ∧
      n.guest + n.size ≤ addressLimit)
    ⟨fun ⟨hp, hs, hh, hg⟩ => ⟨hp, hs, hh, hg⟩, fun h => ⟨h.pages, h.size, h.host, h.guest⟩⟩

def extent (n : Announcement) : Extent :=
  ⟨⟨n.host, n.host + (n.size - 1)⟩, ⟨n.guest, n.guest + (n.size - 1)⟩, n.protection⟩

/-- The announcement continues an extent: with the same protection, after it in both spaces or
before it in both. -/
def Continues (n : Announcement) (e : Extent) : Prop :=
  n.protection = e.protection ∧
    ((n.host = e.host.last + 1 ∧ n.guest = e.guest.last + 1) ∨
      (n.host + n.size = e.host.first ∧ n.guest + n.size = e.guest.first))

instance (n : Announcement) (e : Extent) : Decidable (n.Continues e) :=
  inferInstanceAs (Decidable (_ ∧ _))

theorem Proper.size_pos {n : Announcement} (h : n.Proper) : 0 < n.size :=
  Nat.mul_pos h.pages (by decide)

theorem Proper.make {n : Announcement} (h : n.Proper) :
    Extent.make n.host n.guest n.pages n.protection = .ok n.extent := by
  have hpos := h.size_pos
  have hhost := h.host
  have hguest := h.guest
  have hsize : n.size = n.pages * pageSize := rfl
  exact Extent.make_eq h.pages h.size (by omega) (by omega)

/-- Any other announcement is out of range. -/
theorem make_of_not_proper {n : Announcement} (hpages : 0 < n.pages) (h : ¬n.Proper) :
    ∃ e, Extent.make n.host n.guest n.pages n.protection = .error e ∧ e.isOutOfRange = true := by
  have hsize := Nat.mul_pos hpages (show 0 < pageSize by decide)
  unfold Extent.make bytesOfPages
  by_cases hbytes : n.pages * pageSize < addressLimit
  · rw [if_pos hbytes]
    simp only [bind, Except.bind, Interval.make?]
    by_cases hhost : n.host + (n.pages * pageSize - 1) < addressLimit
    · have hguest : ¬n.guest + (n.pages * pageSize - 1) < addressLimit := fun hguest =>
        h ⟨hpages, hbytes, by unfold size; omega, by unfold size; omega⟩
      rw [if_pos ⟨hsize, hhost⟩, if_neg fun hmade => hguest hmade.2]
      exact ⟨_, rfl, rfl⟩
    · rw [if_neg fun hmade => hhost hmade.2]
      exact ⟨_, rfl, rfl⟩
  · rw [if_neg hbytes]
    exact ⟨_, rfl, rfl⟩

end Announcement

/-- What a call announces, if it is not rejected. -/
def LayoutCall.accepted? (c : LayoutCall) : Option Announcement :=
  c.announcement?.filter fun n => decide n.Proper

/-! ### Groups -/

/-- The smallest extent around two. -/
def Extent.hull (e e' : Extent) : Extent :=
  ⟨⟨min e.host.first e'.host.first, max e.host.last e'.host.last⟩,
    ⟨min e.guest.first e'.guest.first, max e.guest.last e'.guest.last⟩, e.protection⟩

/-- Announcements that are mapped together, in the order they were made. -/
structure Group where
  first : Announcement
  later : List Announcement := []

namespace Group

def members (g : Group) : List Announcement := g.first :: g.later

def add (g : Group) (n : Announcement) : Group := {g with later := g.later ++ [n]}

def extent (g : Group) : Extent := g.later.foldl (fun e n => e.hull n.extent) g.first.extent

@[simp] theorem members_add (g : Group) (n : Announcement) : (g.add n).members = g.members ++ [n] := rfl

@[simp] theorem extent_add (g : Group) (n : Announcement) : (g.add n).extent = g.extent.hull n.extent := by
  rw [extent, add, List.foldl_append]
  rfl

end Group

/-- An extent is what was gathered from some announcements: as many pages of the host as of the
guest, and as many as were announced; on both sides just the addresses that were announced; one
protection; and one distance from the guest's address of a page to the host's. -/
structure Gathered (members : List Announcement) (e : Extent) : Prop where
  spans : e.Spans (members.map Announcement.pages).sum
  space : e.host.last < addressLimit ∧ e.guest.last < addressLimit
  host : ∀ a, e.host.contains a = true ↔ ∃ n ∈ members, n.host ≤ a ∧ a < n.host + n.size
  guest : ∀ a, e.guest.contains a = true ↔ ∃ n ∈ members, n.guest ≤ a ∧ a < n.guest + n.size
  protection : ∀ n ∈ members, n.protection = e.protection
  distance : ∀ n ∈ members, (n.host : Int) - n.guest = e.host.first - e.guest.first

theorem Announcement.Proper.intervals {n : Announcement} (h : n.Proper) :
    n.extent.host.Proper ∧ n.extent.guest.Proper := by
  have hpos := h.size_pos
  have hhost := h.host
  have hguest := h.guest
  refine ⟨⟨Nat.le_add_right .., ?_⟩, ⟨Nat.le_add_right .., ?_⟩⟩
  · show n.host + (n.size - 1) < addressLimit
    omega
  · show n.guest + (n.size - 1) < addressLimit
    omega

theorem Announcement.Proper.contains {n : Announcement} (h : n.Proper) (a : Nat) :
    (n.extent.host.contains a ↔ n.host ≤ a ∧ a < n.host + n.size) ∧
      (n.extent.guest.contains a ↔ n.guest ≤ a ∧ a < n.guest + n.size) := by
  have hpos := h.size_pos
  simp only [Interval.contains_iff, Announcement.extent]
  omega

theorem Gathered.intervals {members : List Announcement} {e : Extent} (h : Gathered members e) :
    e.host.Proper ∧ e.guest.Proper := by
  have hbytes := Nat.mul_pos h.spans.pos (show 0 < pageSize by decide)
  have hhost := h.spans.host
  have hguest := h.spans.guest
  exact ⟨⟨by omega, h.space.1⟩, ⟨by omega, h.space.2⟩⟩

theorem Announcement.Continues.meets {n : Announcement} {e : Extent} (h : n.Continues e) (hpos : 0 < n.size) :
    ∃ side, e.host.Meets n.extent.host side ∧ e.guest.Meets n.extent.guest side := by
  obtain ⟨_, hafter | hbefore⟩ := h
  · exact ⟨.after, hafter⟩
  · refine ⟨.before, ?_, ?_⟩
    · show e.host.first = n.host + (n.size - 1) + 1
      omega
    · show e.guest.first = n.guest + (n.size - 1) + 1
      omega

/-- Extents that meet on one side are joined to the extent around them. -/
theorem Extent.join?_of_meets {e next : Extent} {side : Side} (he : e.host.Proper ∧ e.guest.Proper)
    (hnext : next.host.Proper ∧ next.guest.Proper) (hprot : next.protection = e.protection)
    (hhost : e.host.Meets next.host side) (hguest : e.guest.Meets next.guest side) :
    e.join? next = some (e.hull next) := by
  rw [hull, ← Interval.extend_eq he.1 hnext.1 hhost, ← Interval.extend_eq he.2 hnext.2 hguest]
  simp [join?, hprot, (Interval.adjoins_iff he.1 hnext.1 side).mpr hhost,
    (Interval.adjoins_iff he.2 hnext.2 side).mpr hguest]

theorem Announcement.Proper.spans {n : Announcement} (h : n.Proper) : n.extent.Spans n.pages :=
  ⟨h.pages, rfl, rfl⟩

theorem gathered_single {n : Announcement} (h : n.Proper) : Gathered [n] n.extent := by
  refine ⟨by simpa using h.spans, ⟨h.intervals.1.space, h.intervals.2.space⟩, fun a => ?_, fun a => ?_, ?_, ?_⟩
  · simp only [(h.contains a).1, List.mem_singleton, exists_eq_left]
  · simp only [(h.contains a).2, List.mem_singleton, exists_eq_left]
  · simp [Announcement.extent]
  · simp [Announcement.extent]

/-- An announcement that continues what was gathered is joined with it. -/
theorem Gathered.join? {members : List Announcement} {e : Extent} (h : Gathered members e) {n : Announcement}
    (hn : n.Proper) (hcontinues : n.Continues e) : e.join? n.extent = some (e.hull n.extent) := by
  obtain ⟨side, hhost, hguest⟩ := hcontinues.meets hn.size_pos
  exact Extent.join?_of_meets h.intervals hn.intervals hcontinues.1 hhost hguest

/-- An announcement that continues what was gathered is gathered too. -/
theorem Gathered.add {members : List Announcement} {e : Extent} (h : Gathered members e) {n : Announcement}
    (hn : n.Proper) (hcontinues : n.Continues e) : Gathered (members ++ [n]) (e.hull n.extent) := by
  obtain ⟨he, hge⟩ := h.intervals
  obtain ⟨hne, hgne⟩ := hn.intervals
  obtain ⟨side, hh, hg⟩ := hcontinues.meets hn.size_pos
  have hspans := h.spans.join hn.spans (h.join? hn hcontinues)
  have hsum : ((members ++ [n]).map Announcement.pages).sum = (members.map Announcement.pages).sum + n.pages := by
    simp
  refine ⟨hsum ▸ hspans, ?_, fun a => ?_, fun a => ?_, ?_, ?_⟩
  · rw [Extent.hull, ← Interval.extend_eq he hne hh, ← Interval.extend_eq hge hgne hg]
    exact ⟨(Interval.proper_extend he hne hh).space, (Interval.proper_extend hge hgne hg).space⟩
  · rw [Extent.hull, ← Interval.extend_eq he hne hh, Interval.contains_extend he hne hh, h.host, (hn.contains a).1]
    simp only [List.mem_append, List.mem_singleton, or_and_right, exists_or, exists_eq_left]
  · rw [Extent.hull, ← Interval.extend_eq hge hgne hg, Interval.contains_extend hge hgne hg, h.guest,
      (hn.contains a).2]
    simp only [List.mem_append, List.mem_singleton, or_and_right, exists_or, exists_eq_left]
  · intro m hm
    rcases List.mem_append.mp hm with hold | hnew
    · exact h.protection m hold
    · rw [List.mem_singleton.mp hnew]
      exact hcontinues.1
  · -- What continues an extent on the same side in both spaces is as far from it in both.
    have hhost := h.spans.host
    have hguest := h.spans.guest
    have hfirst := he.nonempty
    have hpos := hn.size_pos
    obtain ⟨_, hside⟩ := hcontinues
    have hstart : ((e.hull n.extent).host.first : Int) - (e.hull n.extent).guest.first =
        e.host.first - e.guest.first := by
      simp only [Extent.hull, Announcement.extent]
      omega
    rw [hstart]
    intro m hm
    rcases List.mem_append.mp hm with hold | hnew
    · exact h.distance m hold
    · rw [List.mem_singleton.mp hnew]
      omega

/-! ### Extents that are joined -/

/-- An extent is joined with the next exactly if that continues it, and covers both then. -/
theorem Gathered.join?_eq {members : List Announcement} {e : Extent} (h : Gathered members e)
    {n : Announcement} (hn : n.Proper) :
    e.join? n.extent = if n.Continues e then some (e.hull n.extent) else none := by
  have hpos := hn.size_pos
  by_cases hcontinues : n.Continues e
  · rw [if_pos hcontinues]
    exact h.join? hn hcontinues
  · rw [if_neg hcontinues]
    cases hjoin : e.join? n.extent with
    | none => rfl
    | some joined =>
      obtain ⟨hprot, hside⟩ := Extent.join?_eq_some hjoin
      simp only [Announcement.extent] at hside
      exact absurd ⟨hprot, by omega⟩ hcontinues

/-! ### The books -/

/-- The groups that announcements were put in, in order. -/
structure Books where
  closed : List Group := []
  current : Option Group := none

namespace Books

def groups (b : Books) : List Group := b.closed ++ b.current.toList

def members (b : Books) : List Announcement := b.groups.flatMap Group.members

end Books

namespace Layout

/-- Hands an extent over to be mapped. Nothing is held back then, whatever comes of it. -/
def hand (l : Layout) (e : Extent) : Except Error Unit × Layout :=
  let (r, l') := l.map e.host.first e.guest.first e.pages e.protection
  (r, {l' with coalescer := ⟨none, if r.isOk then l.coalescer.commits + 1 else l.coalescer.commits⟩})

/-- The layout with an extent held back. -/
def hold (l : Layout) (e : Extent) : Layout := {l with coalescer := {l.coalescer with pending := some e}}

/-- What one call does, with its answer, to a layout and to the books on it. -/
inductive Turn (l : Layout) (b : Books) : LayoutCall → Except Error Unit → Layout → Books → Prop where
  /-- A call that is about the pool alone. -/
  | pool {c r} (q : Pool) : c.isLayout = false → Turn l b c r {l with pool := q} b
  | empty {c n} : c.announcement? = some n → n.pages = 0 → Turn l b c (.ok ()) l b
  | rejected {c n e} : c.announcement? = some n → 0 < n.pages → ¬n.Proper → e.isOutOfRange = true →
      Turn l b c (.error e) l b
  | opens {c n} : c.announcement? = some n → n.Proper → b.current = none →
      Turn l b c (.ok ()) (l.hold n.extent) {b with current := some {first := n}}
  | continues {c n g} : c.announcement? = some n → n.Proper → b.current = some g → n.Continues g.extent →
      Turn l b c (.ok ()) (l.hold (g.add n).extent) {b with current := some (g.add n)}
  /-- The group is closed and handed over, and the announcement opens the next one. -/
  | closes {c n g} : c.announcement? = some n → n.Proper → b.current = some g → ¬n.Continues g.extent →
      Turn l b c (l.hand g.extent).1 ((l.hand g.extent).2.hold n.extent) ⟨b.closed ++ [g], some {first := n}⟩
  | commits {g} : b.current = some g →
      Turn l b .commit (l.hand g.extent).1 (l.hand g.extent).2 ⟨b.closed ++ [g], none⟩
  | idle : b.current = none → Turn l b .commit (.ok ()) l b

/-- Calls one after another, with their answers. -/
inductive Turns : Layout → Books → List (LayoutCall × Except Error Unit) → Layout → Books → Prop where
  | nil {l b} : Turns l b [] l b
  | cons {l l' l'' b b' b'' c r history} : Turn l b c r l' b' → Turns l' b' history l'' b'' →
      Turns l b ((c, r) :: history) l'' b''

/-- The books are those of the layout: what is held back is the current group's extent. -/
structure Kept (l : Layout) (b : Books) : Prop where
  pending : l.coalescer.pending = b.current.map Group.extent
  gathered : ∀ g ∈ b.groups, Gathered g.members g.extent

theorem commit_idle {l : Layout} (h : l.coalescer.pending = none) : l.commit = (.ok (), l) := by
  rw [commit, Coalescer.commit, h]

theorem commit_hand {l : Layout} {e : Extent} (h : l.coalescer.pending = some e) : l.commit = l.hand e := by
  rw [commit, Coalescer.commit, h, hand, map]
  dsimp only
  rcases l.pool.mapToGuest l.table e.host.first e.guest.first e.pages e.protection with ⟨r, t⟩
  cases r with
  | ok => rfl
  | error => rfl

theorem notifyRange_rejected (l : Layout) {n : Announcement} (hpages : 0 < n.pages) (hn : ¬n.Proper) :
    ∃ e, l.notifyRange n.host n.guest n.pages n.protection = (.error e, l) ∧ e.isOutOfRange = true := by
  obtain ⟨e, hmake, he⟩ := Announcement.make_of_not_proper hpages hn
  refine ⟨e, ?_, he⟩
  rw [notifyRange, Coalescer.notifyRange, if_neg (by omega), hmake]

/-- An announcement that joins what is held back. -/
theorem notifyRange_joined {l : Layout} {n : Announcement} (hn : n.Proper) {joined : Extent}
    (h : l.coalescer.pending.bind (·.join? n.extent) = some joined) :
    l.notifyRange n.host n.guest n.pages n.protection = (.ok (), l.hold joined) := by
  have hpages := hn.pages
  rw [notifyRange, Coalescer.notifyRange, if_neg (by omega), hn.make]
  dsimp only
  rw [Coalescer.gather, h]
  rfl

/-- Any other announcement has what is held back mapped, and is held back itself. -/
theorem notifyRange_apart {l : Layout} {n : Announcement} (hn : n.Proper)
    (h : l.coalescer.pending.bind (·.join? n.extent) = none) :
    l.notifyRange n.host n.guest n.pages n.protection = (l.commit.1, l.commit.2.hold n.extent) := by
  have hpages := hn.pages
  rw [notifyRange, Coalescer.notifyRange, if_neg (by omega), hn.make]
  dsimp only
  rw [Coalescer.gather, h]
  rfl

/-- An announcement while nothing is held back. -/
theorem notifyRange_opens {l : Layout} {n : Announcement} (hl : l.coalescer.pending = none) (hn : n.Proper) :
    l.notifyRange n.host n.guest n.pages n.protection = (.ok (), l.hold n.extent) := by
  rw [notifyRange_apart hn (by rw [hl]; rfl), commit_idle hl]

/-- An announcement while an extent is held back. -/
theorem notifyRange_held {l : Layout} {e : Extent} {members : List Announcement} {n : Announcement}
    (hl : l.coalescer.pending = some e) (he : Gathered members e) (hn : n.Proper) :
    l.notifyRange n.host n.guest n.pages n.protection =
      if n.Continues e then (.ok (), l.hold (e.hull n.extent)) else ((l.hand e).1, (l.hand e).2.hold n.extent) := by
  have hjoin : l.coalescer.pending.bind (·.join? n.extent) = if n.Continues e then some (e.hull n.extent) else none := by
    rw [hl, Option.bind_some, he.join?_eq hn]
  split
  next hcontinues =>
    rw [if_pos hcontinues] at hjoin
    exact notifyRange_joined hn hjoin
  next hapart =>
    rw [if_neg hapart] at hjoin
    rw [notifyRange_apart hn hjoin, commit_hand hl]

/-- A call that announces something is one that announces a run. -/
theorem perform_announcement (l : Layout) {c : LayoutCall} {n : Announcement} (h : c.announcement? = some n) :
    l.perform c = l.notifyRange n.host n.guest n.pages n.protection := by
  cases c with
  | notifyPage host guest prot =>
    cases h
    show l.notifyPage host guest prot = _
    rw [notifyPage, notifyRange, Coalescer.notifyPage]
  | notifyRange =>
    cases h
    rfl
  | alloc => cases h
  | release => cases h
  | commit => cases h

/-! ### Keeping the books -/

variable {l : Layout} {b : Books}

theorem Kept.current (h : Kept l b) {g : Group} (hg : b.current = some g) :
    l.coalescer.pending = some g.extent ∧ Gathered g.members g.extent := by
  refine ⟨by rw [h.pending, hg]; rfl, h.gathered g ?_⟩
  simp [Books.groups, hg]

theorem Kept.of_pool (h : Kept l b) (q : Pool) : Kept {l with pool := q} b := ⟨h.pending, h.gathered⟩

/-- The current group is closed. -/
theorem Kept.hand (h : Kept l b) {g : Group} (hg : b.current = some g) (e : Extent) :
    Kept (l.hand e).2 ⟨b.closed ++ [g], none⟩ := by
  refine ⟨rfl, fun g' hg' => h.gathered g' ?_⟩
  simpa [Books.groups, hg] using hg'

/-- A group is opened. -/
theorem Kept.opens (h : Kept l b) (hb : b.current = none) {n : Announcement} (hn : n.Proper) :
    Kept (l.hold n.extent) {b with current := some {first := n}} := by
  refine ⟨rfl, fun g hg => ?_⟩
  rcases List.mem_append.mp hg with hold | hnew
  · exact h.gathered g (by simp [Books.groups, hb, hold])
  · obtain rfl : g = {first := n} := by simpa using hnew
    exact gathered_single hn

theorem Kept.continues (h : Kept l b) {g : Group} (hg : b.current = some g) {n : Announcement} (hn : n.Proper)
    (hcontinues : n.Continues g.extent) :
    Kept (l.hold (g.add n).extent) {b with current := some (g.add n)} := by
  refine ⟨rfl, fun g' hg' => ?_⟩
  rcases List.mem_append.mp hg' with hold | hnew
  · exact h.gathered g' (by simp [Books.groups, hold])
  · obtain rfl : g' = g.add n := by simpa using hnew
    rw [Group.members_add, Group.extent_add]
    exact (h.current hg).2.add hn hcontinues

/-- An announcement that is accepted is in a group then, the last of all. -/
theorem Kept.accept (h : Kept l b) {c : LayoutCall} {n : Announcement} (hc : c.announcement? = some n)
    (hn : n.Proper) :
    ∃ b', Turn l b c (l.perform c).1 (l.perform c).2 b' ∧ Kept (l.perform c).2 b' ∧
      b'.members = b.members ++ [n] := by
  rw [perform_announcement l hc]
  cases hb : b.current with
  | none =>
    have hpending : l.coalescer.pending = none := by rw [h.pending, hb]; rfl
    rw [notifyRange_opens hpending hn]
    exact ⟨_, .opens hc hn hb, h.opens hb hn, by simp [Books.members, Books.groups, Group.members, hb]⟩
  | some g =>
    obtain ⟨hpending, hgathered⟩ := h.current hb
    rw [notifyRange_held hpending hgathered hn]
    split
    next hcontinues =>
      rw [← Group.extent_add]
      exact ⟨_, .continues hc hn hb hcontinues, h.continues hb hn hcontinues, by
        simp [Books.members, Books.groups, hb]⟩
    next hapart =>
      exact ⟨_, .closes hc hn hb hapart, (h.hand hb g.extent).opens rfl hn, by
        simp [Books.members, Books.groups, Group.members, hb]⟩

/-- Every call does one of the things listed, and leaves books that are kept. -/
theorem Kept.turn (h : Kept l b) (c : LayoutCall) :
    ∃ b', Turn l b c (l.perform c).1 (l.perform c).2 b' ∧ Kept (l.perform c).2 b' ∧
      b'.members = b.members ++ c.accepted?.toList := by
  cases hc : c.announcement? with
  | some n =>
    by_cases hn : n.Proper
    · rw [LayoutCall.accepted?, hc, Option.filter_some, if_pos (decide_eq_true hn)]
      exact h.accept hc hn
    rw [LayoutCall.accepted?, hc, Option.filter_some, if_neg (by simpa using hn), perform_announcement l hc]
    rcases Nat.eq_zero_or_pos n.pages with hzero | hpages
    · rw [notifyRange, Coalescer.notifyRange, if_pos hzero]
      exact ⟨b, .empty hc hzero, h, (List.append_nil _).symm⟩
    · obtain ⟨e, hanswer, he⟩ := notifyRange_rejected l hpages hn
      rw [hanswer]
      exact ⟨b, .rejected hc hpages hn he, h, (List.append_nil _).symm⟩
  | none =>
    rw [LayoutCall.accepted?, hc, Option.filter_none, Option.toList_none, List.append_nil]
    cases c with
    | notifyPage => cases hc
    | notifyRange => cases hc
    | alloc pages => exact ⟨b, .pool _ rfl, h.of_pool _, rfl⟩
    | release address pages =>
      show ∃ b', Turn l b _ (l.release address pages).1 (l.release address pages).2 b' ∧
        Kept (l.release address pages).2 b' ∧ _
      unfold release
      split
      next q _ => exact ⟨b, .pool q rfl, h.of_pool q, rfl⟩
      next => exact ⟨b, .pool l.pool rfl, h, rfl⟩
    | commit =>
      show ∃ b', Turn l b .commit l.commit.1 l.commit.2 b' ∧ Kept l.commit.2 b' ∧ _
      cases hb : b.current with
      | none =>
        rw [commit_idle (by rw [h.pending, hb]; rfl)]
        exact ⟨b, .idle hb, h, rfl⟩
      | some g =>
        rw [commit_hand (h.current hb).1]
        exact ⟨_, .commits hb, h.hand hb g.extent, by simp [Books.members, Books.groups, hb]⟩

theorem Kept.turns (h : Kept l b) (calls : List LayoutCall) :
    ∃ b', Turns l b (runWith perform calls l).1 (runWith perform calls l).2 b' ∧
      Kept (runWith perform calls l).2 b' ∧ b'.members = b.members ++ calls.filterMap LayoutCall.accepted? := by
  induction calls generalizing l b with
  | nil => exact ⟨b, .nil, h, (List.append_nil _).symm⟩
  | cons c rest ih =>
    obtain ⟨b', hturn, hkept, hmembers⟩ := h.turn c
    obtain ⟨b'', hturns, hkept', hmembers'⟩ := ih hkept
    refine ⟨b'', .cons hturn hturns, hkept', ?_⟩
    rw [hmembers', hmembers, List.append_assoc, List.filterMap_cons]
    cases c.accepted? <;> rfl

/-- **Nothing announced is lost, mapped twice or put in the wrong group.** Whatever calls are
made of any pool, and whether mappings succeed or fail: each call does what `Turn` says, so
a group is closed by a commit or by an announcement that does not continue it, and is handed
over then, once; the groups hold the announcements that were not rejected, in order; and the
extent of each is just what its announcements make together. -/
theorem announcements_grouped (p : Pool) (t : GuestTable) (calls : List LayoutCall) :
    ∃ b, Turns {pool := p, table := t} {} (runWith perform calls {pool := p, table := t}).1
        (runWith perform calls {pool := p, table := t}).2 b ∧
      b.groups.flatMap Group.members = calls.filterMap LayoutCall.accepted? ∧
      (∀ g ∈ b.groups, Gathered g.members g.extent) ∧
      (runWith perform calls {pool := p, table := t}).2.coalescer.pending = b.current.map Group.extent := by
  have hstart : Kept {pool := p, table := t} {} := ⟨rfl, fun g hg => nomatch hg⟩
  obtain ⟨b, hturns, hkept, hmembers⟩ := hstart.turns calls
  exact ⟨b, hturns, hmembers, hkept.gathered, hkept.pending⟩

end Layout

end GuestMachine.Memory
