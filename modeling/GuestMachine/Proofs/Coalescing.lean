import GuestMachine.Memory.Layout
import GuestMachine.Proofs.Adjacency
import GuestMachine.Proofs.GuestMapping

/-! Coalescing is transparent.

The coalescer holds mappings back to do them at once. What it holds back is one overlay
(`Holds`): the guest's pages are mapped as they should be once the pending extent is laid
over them. An extent that joins the pending one is laid over pages that the pending one
does not touch, so the two are one overlay (`overlay_join`); any other has the pending
one mapped first. `coalescing_transparent` follows by induction over the calls. -/
namespace GuestMachine.Memory

/-! ### Calls, held back or not -/

/-- A page announced. -/
structure Notice where
  host : Nat
  guest : Nat
  protection : Protection

inductive LayoutCall where
  | alloc (pages : Nat)
  | release (address pages : Nat)
  | notifyPage (host guest : Nat) (protection : Protection)
  | notifyRange (host guest pages : Nat) (protection : Protection)
  | commit

/-- The pages of a run, in ascending order. -/
def runNotices (host guest pages : Nat) (prot : Protection) : List Notice :=
  (List.range pages).map fun i => ⟨host + i * pageSize, guest + i * pageSize, prot⟩

namespace LayoutCall

/-- The pages that a call announces, in order. -/
def notices : LayoutCall → List Notice
  | .notifyPage host guest prot => [⟨host, guest, prot⟩]
  | .notifyRange host guest pages prot => runNotices host guest pages prot
  | _ => []

/-- The call is about the guest's layout, and not only about the pool. -/
def isLayout : LayoutCall → Bool
  | .alloc _ | .release _ _ => false
  | _ => true

end LayoutCall

namespace Layout

/-- A call as it is. -/
def perform (l : Layout) : LayoutCall → Except Error Unit × Layout
  | .alloc pages => ((l.alloc pages).1.map fun _ => (), (l.alloc pages).2)
  | .release address pages => l.release address pages
  | .notifyPage host guest prot => l.notifyPage host guest prot
  | .notifyRange host guest pages prot => l.notifyRange host guest pages prot
  | .commit => l.commit

/-- Goes on with the layout unless the step before has failed. -/
def andThen (r : Except Error Unit × Layout) (next : Layout → Except Error Unit × Layout) :
    Except Error Unit × Layout :=
  match r with
  | (.ok _, l) => next l
  | (.error e, l) => (.error e, l)

/-- Maps pages one by one, up to the first that fails. -/
def mapEach : List Notice → Layout → Except Error Unit × Layout
  | [], l => (.ok (), l)
  | n :: rest, l => andThen (l.map n.host n.guest 1 n.protection) (mapEach rest)

/-- A call with nothing held back: every page is mapped when it is announced. -/
def performAtOnce (l : Layout) : LayoutCall → Except Error Unit × Layout
  | .alloc pages => l.perform (.alloc pages)
  | .release address pages => l.perform (.release address pages)
  | c => mapEach c.notices l

/-- Calls one after another, each with its answer. -/
def runWith (step : Layout → LayoutCall → Except Error Unit × Layout) :
    List LayoutCall → Layout → List (LayoutCall × Except Error Unit) × Layout
  | [], l => ([], l)
  | c :: rest, l =>
    let (answers, l') := runWith step rest (step l c).2
    ((c, (step l c).1) :: answers, l')

/-- A page that can be mapped by itself: guest and host pages lie in their address
spaces, and the host page is one of a slice unless no access is asked for. -/
structure Acceptable (p : Pool) (n : Notice) : Prop where
  aligned : isAligned n.guest = true
  guest : n.guest + pageSize < addressLimit
  host : n.host + (pageSize - 1) < addressLimit
  backed : n.protection.isNone = true ∨ (isAligned n.host = true ∧
    ∃ s ∈ p.slices, s.base ≤ n.host ∧ n.host + pageSize ≤ s.base + s.size)

instance (p : Pool) (n : Notice) : Decidable (Acceptable p n) :=
  decidable_of_iff (isAligned n.guest = true ∧ n.guest + pageSize < addressLimit ∧
      n.host + (pageSize - 1) < addressLimit ∧
      (n.protection.isNone = true ∨ (isAligned n.host = true ∧
        ∃ s ∈ p.slices, s.base ≤ n.host ∧ n.host + pageSize ≤ s.base + s.size)))
    ⟨fun ⟨ha, hg, hh, hb⟩ => ⟨ha, hg, hh, hb⟩, fun h => ⟨h.aligned, h.guest, h.host, h.backed⟩⟩

/-- Every page is acceptable when it is announced. -/
def AllAcceptable : List LayoutCall → Layout → Prop
  | [], _ => True
  | c :: rest, l => (∀ n ∈ c.notices, Acceptable l.pool n) ∧ AllAcceptable rest (l.perform c).2

instance : (calls : List LayoutCall) → (l : Layout) → Decidable (AllAcceptable calls l)
  | [], _ => .isTrue trivial
  | c :: rest, l =>
    let := instDecidableAllAcceptable rest (l.perform c).2
    inferInstanceAs (Decidable (_ ∧ _))

end Layout

namespace Pool

/-! ### Overlays of several pages -/

/-- Pages laid over one after another. -/
def overlayEach (p : Pool) (notices : List Notice) (v : Nat → Option Mapping) : Nat → Option Mapping :=
  notices.foldl (fun v n => p.overlay n.host n.guest 1 n.protection v) v

theorem overlay_congr {p q : Pool} (h : q.base = p.base) (host guest pages : Nat) (prot : Protection)
    (v : Nat → Option Mapping) : q.overlay host guest pages prot v = p.overlay host guest pages prot v := by
  funext page
  simp only [overlay, mappingOf, h]

theorem mappingOf_add {p : Pool} {host : Nat} {prot : Protection}
    (hhost : prot.isNone = true ∨ p.base ≤ host) (n i : Nat) :
    p.mappingOf (host + n * pageSize) prot i = p.mappingOf host prot (n + i) := by
  rw [mappingOf, mappingOf]
  split
  · rfl
  · next hn =>
    have hbase := hhost.resolve_left hn
    rw [Nat.sub_add_comm hbase, Nat.add_mul_div_right _ _ (by decide), Nat.add_assoc]

theorem page_add (guest n : Nat) : (guest + n * pageSize) / pageSize = guest / pageSize + n :=
  Nat.add_mul_div_right _ _ (by decide)

/-- Two overlays, the second right after the first in host and guest, are one. -/
theorem overlay_append {p : Pool} {host guest n : Nat} {prot : Protection}
    (hhost : prot.isNone = true ∨ p.base ≤ host) (k : Nat) (v : Nat → Option Mapping) :
    p.overlay (host + n * pageSize) (guest + n * pageSize) k prot (p.overlay host guest n prot v) =
      p.overlay host guest (n + k) prot v := by
  funext page
  simp only [overlay, page_add, mappingOf_add hhost]
  by_cases hlater : guest / pageSize + n ≤ page ∧ page < guest / pageSize + n + k
  · rw [if_pos hlater, if_pos (by omega)]
    congr 1
    omega
  · rw [if_neg hlater]
    by_cases hearlier : guest / pageSize ≤ page ∧ page < guest / pageSize + n
    · rw [if_pos hearlier, if_pos (by omega)]
    · rw [if_neg hearlier, if_neg (by omega)]

/-- Two overlays that touch no page in common can be laid in either order. -/
theorem overlay_comm (p : Pool) {host guest n host' guest' n' : Nat} {prot prot' : Protection}
    (h : guest / pageSize + n ≤ guest' / pageSize) (v : Nat → Option Mapping) :
    p.overlay host guest n prot (p.overlay host' guest' n' prot' v) =
      p.overlay host' guest' n' prot' (p.overlay host guest n prot v) := by
  funext page
  simp only [overlay]
  by_cases hfirst : guest / pageSize ≤ page ∧ page < guest / pageSize + n
  · rw [if_pos hfirst, if_neg (by omega), if_pos hfirst]
  · rw [if_neg hfirst, if_neg hfirst]

theorem overlay_zero (p : Pool) (host guest : Nat) (prot : Protection) (v : Nat → Option Mapping) :
    p.overlay host guest 0 prot v = v := by
  funext page
  rw [overlay, if_neg (by omega)]

/-- An overlay of a run is that of its pages in ascending order. -/
theorem overlayEach_run {p : Pool} {host guest : Nat} {prot : Protection}
    (hhost : prot.isNone = true ∨ p.base ≤ host) (pages : Nat)
    (v : Nat → Option Mapping) :
    p.overlayEach (runNotices host guest pages prot) v = p.overlay host guest pages prot v := by
  induction pages with
  | zero => exact (overlay_zero ..).symm
  | succ n ih =>
    rw [← overlay_append hhost 1, ← ih, runNotices, List.range_succ, List.map_append,
      overlayEach, List.foldl_append]
    rfl

end Pool

/-! ### Extents -/

/-- The extent has `n` pages, on both sides. -/
structure Extent.Spans (e : Extent) (n : Nat) : Prop where
  pos : 0 < n
  host : e.host.last = e.host.first + (n * pageSize - 1)
  guest : e.guest.last = e.guest.first + (n * pageSize - 1)

theorem Extent.Spans.pages {e : Extent} {n : Nat} (h : e.Spans n) : e.pages = n := by
  have hpos := h.pos
  have hhost := h.host
  simp only [Extent.pages, Interval.size, pageSize] at *
  omega

/-- What is laid over the guest's pages when an extent is mapped. -/
def Pool.overlayExtent (p : Pool) (e : Extent) (n : Nat) (v : Nat → Option Mapping) :
    Nat → Option Mapping :=
  p.overlay e.host.first e.guest.first n e.protection v

/-- An extent of `n` pages that can be mapped. -/
structure Pool.Ready (p : Pool) (e : Extent) (n : Nat) : Prop where
  spans : e.Spans n
  mappable : p.Mappable e.host.first e.guest.first n e.protection

theorem Pool.Mappable.base_le {p : Pool} {host guest pages : Nat} {prot : Protection}
    (h : p.Mappable host guest pages prot) : prot.isNone = true ∨ p.base ≤ host :=
  h.backed.imp_right fun hb => hb.2.1

/-- What can be mapped still can be when the pool is backed further. -/
theorem Pool.Mappable.follows {p q : Pool} (hf : Follows p q) {host guest pages : Nat}
    {prot : Protection} (h : p.Mappable host guest pages prot) : q.Mappable host guest pages prot := by
  refine ⟨h.aligned, h.room, h.backed.imp_right fun hb => ?_⟩
  rw [hf.base]
  exact ⟨hb.1, hb.2.1, Nat.le_trans hb.2.2 (Nat.mul_le_mul_right _ hf.le)⟩

/-- Two runs, one right after the other in host and guest, can be mapped as one. -/
theorem Pool.Mappable.append {p : Pool} {host guest n k : Nat} {prot : Protection}
    (h : p.Mappable host guest n prot)
    (h' : p.Mappable (host + n * pageSize) (guest + n * pageSize) k prot) :
    p.Mappable host guest (n + k) prot := by
  refine ⟨h.aligned, ?_, ?_⟩
  · have := h'.room
    rwa [Nat.add_mul, ← Nat.add_assoc]
  · rcases h'.backed with hn | ⟨_, _, hend⟩
    · exact .inl hn
    · refine h.backed.imp_right fun hb => ⟨hb.1, hb.2.1, ?_⟩
      rwa [Nat.add_mul, ← Nat.add_assoc, ← Nat.sub_add_comm hb.2.1]

/-- The extents that can be joined: one follows the other on both sides. -/
theorem Extent.join?_eq_some {e next joined : Extent} (h : e.join? next = some joined) :
    next.protection = e.protection ∧
      ((next.host.first = e.host.last + 1 ∧ next.guest.first = e.guest.last + 1 ∧
          joined = ⟨⟨e.host.first, next.host.last⟩, ⟨e.guest.first, next.guest.last⟩, e.protection⟩) ∨
        (e.host.first = next.host.last + 1 ∧ e.guest.first = next.guest.last + 1 ∧
          joined = ⟨⟨next.host.first, e.host.last⟩, ⟨next.guest.first, e.guest.last⟩, e.protection⟩)) := by
  unfold Extent.join? at h
  split at h
  · cases h
  next hprot =>
  split at h
  next side side' hh hg =>
    split at h
    next heq =>
      cases heq
      cases h
      refine ⟨Decidable.not_not.mp hprot, ?_⟩
      cases side with
      | after => exact .inl ⟨Interval.meets_of_adjoins hh, Interval.meets_of_adjoins hg, rfl⟩
      | before => exact .inr ⟨Interval.meets_of_adjoins hh, Interval.meets_of_adjoins hg, rfl⟩
    next => cases h
  next => cases h

/-- Extents that are joined have the pages of both. -/
theorem Extent.Spans.join {e next joined : Extent} {n k : Nat} (he : e.Spans n) (hnext : next.Spans k)
    (h : e.join? next = some joined) : joined.Spans (n + k) := by
  obtain ⟨_, hside⟩ := Extent.join?_eq_some h
  obtain ⟨hpos, hh, hg⟩ := he
  obtain ⟨hpos', hh', hg'⟩ := hnext
  have hsize := Nat.mul_pos hpos (show 0 < pageSize by decide)
  have hsize' := Nat.mul_pos hpos' (show 0 < pageSize by decide)
  have hsum := Nat.add_mul n k pageSize
  rcases hside with ⟨hhost, hguest, rfl⟩ | ⟨hhost, hguest, rfl⟩
  · exact ⟨by omega, by simp only; omega, by simp only; omega⟩
  · exact ⟨by omega, by simp only; omega, by simp only; omega⟩

/-- An extent that begins where another ends begins that many pages after it. -/
theorem Extent.Spans.follows {e next : Extent} {n : Nat} (he : e.Spans n)
    (hhost : next.host.first = e.host.last + 1) (hguest : next.guest.first = e.guest.last + 1) :
    next.host.first = e.host.first + n * pageSize ∧ next.guest.first = e.guest.first + n * pageSize := by
  have hsize := Nat.mul_pos he.pos (show 0 < pageSize by decide)
  have hh := he.host
  have hg := he.guest
  omega

/-- An extent joined with the next can be mapped, and maps what the two do in turn. -/
theorem Pool.Ready.join {p : Pool} {e next joined : Extent} {n k : Nat} (he : p.Ready e n)
    (hn : p.Ready next k) (h : e.join? next = some joined) :
    p.Ready joined (n + k) ∧ ∀ v,
      p.overlayExtent joined (n + k) v = p.overlayExtent next k (p.overlayExtent e n v) := by
  obtain ⟨hs, hm⟩ := he
  obtain ⟨hs', hm'⟩ := hn
  have hspans := hs.join hs' h
  obtain ⟨hprot, ⟨hhost, hguest, rfl⟩ | ⟨hhost, hguest, rfl⟩⟩ := Extent.join?_eq_some h
  · obtain ⟨hhost', hguest'⟩ := hs.follows hhost hguest
    rw [hprot, hhost', hguest'] at hm'
    refine ⟨⟨hspans, hm.append hm'⟩, fun v => ?_⟩
    rw [overlayExtent, overlayExtent, overlayExtent, hprot, hhost', hguest']
    exact (overlay_append hm.base_le k v).symm
  · obtain ⟨hhost', hguest'⟩ := hs'.follows hhost hguest
    rw [hprot] at hm'
    rw [hhost', hguest'] at hm
    refine ⟨⟨hspans, by rw [Nat.add_comm]; exact hm'.append hm⟩, fun v => ?_⟩
    rw [overlayExtent, overlayExtent, overlayExtent, hprot, hhost', hguest', Nat.add_comm n k,
      overlay_comm p (Nat.le_of_eq (page_add ..).symm)]
    exact (overlay_append hm'.base_le n v).symm

theorem Extent.make_eq {host guest pages : Nat} {prot : Protection} (hpos : 0 < pages)
    (hbytes : pages * pageSize < addressLimit) (hhost : host + (pages * pageSize - 1) < addressLimit)
    (hguest : guest + (pages * pageSize - 1) < addressLimit) :
    Extent.make host guest pages prot =
      .ok ⟨⟨host, host + (pages * pageSize - 1)⟩, ⟨guest, guest + (pages * pageSize - 1)⟩, prot⟩ := by
  have hsize := Nat.mul_pos hpos (show 0 < pageSize by decide)
  have hcounted : bytesOfPages pages = .ok (pages * pageSize) := bytesOfPages_eq_ok_iff.mpr ⟨hbytes, rfl⟩
  simp only [Extent.make, hcounted, Interval.make?, hsize, hhost, hguest, true_and, if_true, bind, Except.bind]
  rfl

/-! ### What is held back -/

/-- What a pending extent adds to the pages of the guest. -/
def Coalescer.Owes (c : Coalescer) (p : Pool) (mapped v : Nat → Option Mapping) : Prop :=
  match c.pending with
  | none => v = mapped
  | some e => ∃ n, p.Ready e n ∧ v = p.overlayExtent e n mapped

namespace Layout

/-- The pages of the guest are mapped as in `v`, once nothing is held back any more. -/
structure Holds (l : Layout) (v : Nat → Option Mapping) : Prop where
  sound : l.pool.Sound
  owes : l.coalescer.Owes l.pool l.table.lookup v

theorem holds_create {host : Host} {c : PoolConfig} {l : Layout} (h : Layout.create host c = .ok l) :
    l.Holds l.table.lookup := by
  unfold Layout.create at h
  cases hp : Pool.create host c with
  | error e =>
    rw [hp] at h
    cases h
  | ok p =>
    rw [hp] at h
    cases h
    exact ⟨Pool.create_sound hp, rfl⟩

theorem Holds.of_pool {l : Layout} {v : Nat → Option Mapping} (h : l.Holds v) {q : Pool}
    (hq : q.Sound) (hf : Pool.Follows l.pool q) : Holds {l with pool := q} v := by
  refine ⟨hq, ?_⟩
  have howes := h.owes
  unfold Coalescer.Owes at howes
  show Coalescer.Owes l.coalescer q l.table.lookup v
  unfold Coalescer.Owes
  split at howes
  next => exact howes
  next e _ =>
    obtain ⟨n, hready, rfl⟩ := howes
    refine ⟨n, ⟨hready.spans, hready.mappable.follows hf⟩, ?_⟩
    exact (Pool.overlay_congr hf.base ..).symm

theorem Holds.alloc {l : Layout} {v : Nat → Option Mapping} (h : l.Holds v) (pages : Nat) :
    (l.alloc pages).2.Holds v :=
  h.of_pool (Pool.alloc_sound h.sound pages).1 (Pool.alloc_sound h.sound pages).2

theorem Holds.release {l : Layout} {v : Nat → Option Mapping} (h : l.Holds v) (address pages : Nat) :
    (l.release address pages).2.Holds v := by
  rw [Layout.release]
  split
  next q hq => exact h.of_pool (Pool.release_sound h.sound hq).1 (Pool.release_sound h.sound hq).2
  next => exact h

/-- A commit maps what is held back, and that cannot fail. -/
theorem Holds.commit {l : Layout} {v : Nat → Option Mapping} (h : l.Holds v) :
    ∃ l', l.commit = (.ok (), l') ∧ l'.pool = l.pool ∧ l'.coalescer.pending = none ∧
      l'.table.lookup = v := by
  have howes := h.owes
  unfold Coalescer.Owes at howes
  rw [Layout.commit, Coalescer.commit]
  cases hpending : l.coalescer.pending with
  | none =>
    rw [hpending] at howes
    exact ⟨l, rfl, rfl, hpending, howes.symm⟩
  | some e =>
    rw [hpending] at howes
    obtain ⟨n, hready, rfl⟩ := howes
    obtain ⟨t, ht, hlook⟩ := Pool.mapToGuest_overlay h.sound hready.mappable l.table
    simp only [hready.spans.pages, ht]
    exact ⟨_, rfl, rfl, rfl, hlook⟩

/-- An extent that can be mapped is held back, after all that was held back before it. -/
theorem Holds.gather {l : Layout} {v : Nat → Option Mapping} (h : l.Holds v) {e : Extent} {n : Nat}
    (he : l.pool.Ready e n) :
    ∃ c t, l.coalescer.gather l.pool l.table e = (.ok (), c, t) ∧
      c.Owes l.pool t.lookup (l.pool.overlayExtent e n v) := by
  have howes := h.owes
  unfold Coalescer.Owes at howes
  rw [Coalescer.gather]
  split
  next joined hjoined =>
    obtain ⟨pending, hpending, hjoin⟩ := Option.bind_eq_some_iff.mp hjoined
    rw [hpending] at howes
    obtain ⟨k, hready, rfl⟩ := howes
    obtain ⟨hboth, hlaid⟩ := hready.join he hjoin
    exact ⟨_, _, rfl, k + n, hboth, (hlaid _).symm⟩
  next =>
    obtain ⟨l', hcommit, _, _, rfl⟩ := h.commit
    rw [Layout.commit] at hcommit
    obtain ⟨hok, rfl⟩ := Prod.mk.inj hcommit
    refine ⟨_, _, Prod.ext hok rfl, n, he, rfl⟩

/-- A run of pages that can be mapped is laid over the pages of the guest. -/
theorem Holds.notifyRange {l : Layout} {v : Nat → Option Mapping} (h : l.Holds v)
    {host guest pages : Nat} {prot : Protection} (hm : l.pool.Mappable host guest pages prot)
    (hhost : 0 < pages → host + (pages * pageSize - 1) < addressLimit) :
    ∃ l', l.notifyRange host guest pages prot = (.ok (), l') ∧ l'.pool = l.pool ∧
      l'.Holds (l.pool.overlay host guest pages prot v) := by
  rw [Layout.notifyRange, Coalescer.notifyRange]
  rcases Nat.eq_zero_or_pos pages with rfl | hpos
  · rw [if_pos rfl, Pool.overlay_zero]
    exact ⟨l, rfl, rfl, h⟩
  have hroom := hm.room
  rw [if_neg (by omega), Extent.make_eq hpos (by omega) (hhost hpos) (by omega)]
  have hready : l.pool.Ready ⟨⟨host, host + (pages * pageSize - 1)⟩,
      ⟨guest, guest + (pages * pageSize - 1)⟩, prot⟩ pages := ⟨⟨hpos, rfl, rfl⟩, hm⟩
  obtain ⟨c, t, hgather, howes⟩ := h.gather hready
  simp only [hgather]
  exact ⟨_, rfl, rfl, h.sound, howes⟩

/-! ### Pages mapped at once -/

theorem Acceptable.mappable {p : Pool} (hp : p.Sound) {n : Notice} (h : Acceptable p n) :
    p.Mappable n.host n.guest 1 n.protection := by
  refine ⟨h.aligned, by simpa using h.guest, h.backed.imp_right ?_⟩
  rintro ⟨haligned, s, hs, hfirst, hlast⟩
  obtain ⟨hbase, hend⟩ := hp.slice_bounds hs
  refine ⟨haligned, by omega, by omega⟩

/-- Pages that can be mapped one by one can be mapped as a run. -/
theorem mappable_of_acceptable {p : Pool} (hp : p.Sound) {host guest pages : Nat} {prot : Protection}
    (hpos : 0 < pages) (h : ∀ n ∈ runNotices host guest pages prot, Acceptable p n) :
    p.Mappable host guest pages prot ∧ host + (pages * pageSize - 1) < addressLimit := by
  have hnotice : ∀ i < pages, Acceptable p ⟨host + i * pageSize, guest + i * pageSize, prot⟩ :=
    fun i hi => h _ (List.mem_map.mpr ⟨i, List.mem_range.mpr hi, rfl⟩)
  have hfirst := (hnotice 0 hpos).mappable hp
  obtain ⟨last, rfl⟩ : ∃ last, pages = last + 1 := ⟨pages - 1, by omega⟩
  have hlast := (hnotice last (by omega)).mappable hp
  simp only [Nat.zero_mul, Nat.add_zero] at hfirst
  have hwrap := (hnotice last (by omega)).host
  have hsize := Nat.add_one_mul last pageSize
  dsimp only at hwrap
  refine ⟨⟨hfirst.aligned, ?_, ?_⟩, ?_⟩
  · have hroom : guest + last * pageSize + 1 * pageSize < addressLimit := hlast.room
    omega
  · rcases hlast.backed with hn | ⟨_, hbase, hend⟩
    · exact .inl hn
    · refine hfirst.backed.imp_right fun hb => ⟨hb.1, hb.2.1, ?_⟩
      dsimp only at hend
      have := hb.2.1
      omega
  · simp only [pageSize] at *
    omega

/-- Acceptable pages are mapped one after another, and all of them are. -/
theorem mapEach_spec {l : Layout} (hp : l.pool.Sound) (notices : List Notice)
    (h : ∀ n ∈ notices, Acceptable l.pool n) :
    ∃ l', mapEach notices l = (.ok (), l') ∧ l'.pool = l.pool ∧
      l'.table.lookup = l.pool.overlayEach notices l.table.lookup := by
  induction notices generalizing l with
  | nil => exact ⟨l, rfl, rfl, rfl⟩
  | cons n rest ih =>
    have hfirst := (h n (List.mem_cons_self ..)).mappable hp
    obtain ⟨t, ht, hlook⟩ := Pool.mapToGuest_overlay hp hfirst l.table
    have hrest : ∀ n ∈ rest, Acceptable l.pool n := fun n hn => h n (List.mem_cons_of_mem _ hn)
    have hmap : l.map n.host n.guest 1 n.protection = (.ok (), {l with table := t}) := by
      rw [Layout.map, ht]
    obtain ⟨l', hl', hpool, hlook'⟩ := @ih {l with table := t} hp hrest
    refine ⟨l', ?_, hpool, ?_⟩
    · rw [mapEach, hmap]
      exact hl'
    · rw [hlook', hlook]
      rfl

/-! ### Both ways -/

/-- One layout holds pages back and the other has them mapped at once; the pool is one. -/
structure Matches (deferred eager : Layout) : Prop where
  holds : deferred.Holds eager.table.lookup
  pool : eager.pool = deferred.pool

/-- Acceptable pages are held back, or mapped at once, and neither fails. -/
theorem Matches.notify {l m : Layout} (h : Matches l m) {host guest pages : Nat} {prot : Protection}
    (hacc : ∀ n ∈ runNotices host guest pages prot, Acceptable l.pool n) :
    ∃ l' m', l.notifyRange host guest pages prot = (.ok (), l') ∧
      mapEach (runNotices host guest pages prot) m = (.ok (), m') ∧ Matches l' m' := by
  obtain ⟨hholds, hpool⟩ := h
  have hsound : m.pool.Sound := hpool ▸ hholds.sound
  obtain ⟨m', hm', hpool', hlook⟩ := mapEach_spec hsound _ (hpool ▸ hacc)
  rcases Nat.eq_zero_or_pos pages with rfl | hpos
  · cases hm'
    exact ⟨l, m, rfl, rfl, hholds, hpool⟩
  · obtain ⟨hmappable, hhost⟩ := mappable_of_acceptable hholds.sound hpos hacc
    obtain ⟨l', hl', hsame, hholds'⟩ := hholds.notifyRange hmappable fun _ => hhost
    refine ⟨l', m', hl', hm', ?_, by rw [hpool', hpool, hsame]⟩
    rwa [hlook, hpool, Pool.overlayEach_run hmappable.base_le]

theorem Matches.alloc {l m : Layout} (h : Matches l m) (pages : Nat) :
    Matches (l.alloc pages).2 (m.alloc pages).2 ∧ (l.alloc pages).1 = (m.alloc pages).1 := by
  obtain ⟨hholds, hpool⟩ := h
  refine ⟨⟨hholds.alloc pages, ?_⟩, ?_⟩
  · show (m.pool.alloc pages).2 = (l.pool.alloc pages).2
    rw [hpool]
  · show (l.pool.alloc pages).1 = (m.pool.alloc pages).1
    rw [hpool]

theorem Matches.release {l m : Layout} (h : Matches l m) (address pages : Nat) :
    Matches (l.release address pages).2 (m.release address pages).2 ∧
      (l.release address pages).1 = (m.release address pages).1 := by
  obtain ⟨hholds, hpool⟩ := h
  have hboth : (m.release address pages).1 = (l.release address pages).1 ∧
      (m.release address pages).2.pool = (l.release address pages).2.pool ∧
      (m.release address pages).2.table = m.table := by
    rw [Layout.release, Layout.release, hpool]
    split
    · exact ⟨rfl, rfl, rfl⟩
    · exact ⟨rfl, hpool, rfl⟩
  refine ⟨⟨?_, hboth.2.1⟩, hboth.1.symm⟩
  rw [hboth.2.2]
  exact hholds.release address pages

/-- A call that is given acceptable pages is answered alike both ways, and does not fail
if it is about the layout. -/
theorem Matches.after_call {l m : Layout} (h : Matches l m) (c : LayoutCall)
    (hc : ∀ n ∈ c.notices, Acceptable l.pool n) :
    Matches (l.perform c).2 (m.performAtOnce c).2 ∧
      (l.perform c).1 = (m.performAtOnce c).1 ∧ (c.isLayout = true → (l.perform c).1 = .ok ()) := by
  cases c with
  | alloc pages =>
    obtain ⟨hmatch, hanswer⟩ := h.alloc pages
    refine ⟨hmatch, ?_, fun hlayout => by cases hlayout⟩
    show (l.alloc pages).1.map _ = (m.alloc pages).1.map _
    rw [hanswer]
  | release address pages =>
    obtain ⟨hmatch, hanswer⟩ := h.release address pages
    exact ⟨hmatch, hanswer, fun hlayout => by cases hlayout⟩
  | notifyPage host guest prot =>
    have hone : runNotices host guest 1 prot = [⟨host, guest, prot⟩] := by
      simp only [runNotices, List.range_one, List.map_cons, List.map_nil, Nat.zero_mul, Nat.add_zero]
    have hacc : ∀ n ∈ runNotices host guest 1 prot, Acceptable l.pool n := by
      rw [hone]
      exact hc
    obtain ⟨l', m', hl', hm', hmatch⟩ := h.notify hacc
    rw [hone] at hm'
    have hl : l.perform (.notifyPage host guest prot) = (.ok (), l') := by
      rw [← hl']
      show l.notifyPage host guest prot = _
      rw [Layout.notifyPage, Layout.notifyRange, Coalescer.notifyPage]
    have hm : m.performAtOnce (.notifyPage host guest prot) = (.ok (), m') := hm'
    rw [hl, hm]
    exact ⟨hmatch, rfl, fun _ => rfl⟩
  | notifyRange host guest pages prot =>
    obtain ⟨l', m', hl', hm', hmatch⟩ := h.notify hc
    have hl : l.perform (.notifyRange host guest pages prot) = (.ok (), l') := hl'
    have hm : m.performAtOnce (.notifyRange host guest pages prot) = (.ok (), m') := hm'
    rw [hl, hm]
    exact ⟨hmatch, rfl, fun _ => rfl⟩
  | commit =>
    obtain ⟨hholds, hpool⟩ := h
    obtain ⟨l', hl', hsame, hpending, hlook⟩ := hholds.commit
    have hl : l.perform .commit = (.ok (), l') := hl'
    rw [hl]
    refine ⟨⟨⟨hsame ▸ hholds.sound, ?_⟩, hpool.trans hsame.symm⟩, rfl, fun _ => rfl⟩
    rw [Coalescer.Owes, hpending]
    exact hlook.symm

/-- The same for calls one after another. -/
theorem Matches.after_calls {l m : Layout} (h : Matches l m) (calls : List LayoutCall)
    (hcalls : AllAcceptable calls l) :
    Matches (runWith perform calls l).2 (runWith performAtOnce calls m).2 ∧
      (runWith perform calls l).1 = (runWith performAtOnce calls m).1 ∧
      ∀ answer ∈ (runWith perform calls l).1, answer.1.isLayout = true → answer.2 = .ok () := by
  induction calls generalizing l m with
  | nil => exact ⟨h, rfl, fun answer hanswer => by cases hanswer⟩
  | cons c rest ih =>
    obtain ⟨hmatch, hsame, hok⟩ := h.after_call c hcalls.1
    obtain ⟨hmatch', hsame', hok'⟩ := ih hmatch hcalls.2
    refine ⟨hmatch', ?_, fun answer hanswer => ?_⟩
    · show (c, (l.perform c).1) :: _ = (c, (m.performAtOnce c).1) :: _
      rw [hsame, hsame']
    · rcases List.mem_cons.mp hanswer with rfl | hlater
      · exact hok
      · exact hok' answer hlater

theorem allAcceptable_commit {calls : List LayoutCall} {l : Layout} (h : AllAcceptable calls l) :
    AllAcceptable (calls ++ [.commit]) l := by
  induction calls generalizing l with
  | nil => exact ⟨fun n hn => (by cases hn), trivial⟩
  | cons c rest ih => exact ⟨h.1, ih h.2⟩

/-- After calls that end with a commit nothing is held back. -/
theorem runWith_commit_pending (calls : List LayoutCall) (l : Layout) :
    (runWith perform (calls ++ [.commit]) l).2.coalescer.pending = none := by
  induction calls generalizing l with
  | nil =>
    show (l.coalescer.commit l.pool l.table).2.1.pending = none
    rw [Coalescer.commit]
    split
    next h => exact h
    next => split <;> rfl
  | cons c rest ih => exact ih _

/-- **Coalescing is transparent.** Whatever calls are made, with acceptable pages and a
commit at the end, and whether the host backs the slices or refuses: none that is about the
layout fails, and every page of the guest is mapped as it is when every page is mapped at
once, in order. -/
theorem coalescing_transparent {host : Host} {base : Nat} {c : PoolConfig} (hc : c.validate = .ok ())
    (hreserved : host.reserve c.mapSize = .ok base) (calls : List LayoutCall) :
    ∃ l, Layout.create host c = .ok l ∧ (AllAcceptable calls l →
      (runWith perform (calls ++ [.commit]) l).1 =
        (runWith performAtOnce (calls ++ [.commit]) l).1 ∧
      (∀ answer ∈ (runWith perform (calls ++ [.commit]) l).1,
        answer.1.isLayout = true → answer.2 = .ok ()) ∧
      ∀ page, (runWith perform (calls ++ [.commit]) l).2.table.lookup page =
        (runWith performAtOnce (calls ++ [.commit]) l).2.table.lookup page) := by
  have hcreate : Layout.create host c = .ok {pool := {config := c, map := {base, size := c.mapSize, host}}} := by
    rw [Layout.create, Pool.create_ok hc hreserved]
    rfl
  refine ⟨_, hcreate, fun hcalls => ?_⟩
  obtain ⟨hmatch, hsame, hok⟩ := Matches.after_calls ⟨holds_create hcreate, rfl⟩ _
    (allAcceptable_commit hcalls)
  refine ⟨hsame, hok, fun page => ?_⟩
  have howes := hmatch.holds.owes
  rw [Coalescer.Owes, runWith_commit_pending] at howes
  exact (congrFun howes page).symm

/-- Three pages over two slices, announced in ascending order, and the one in the middle
given up again. -/
def holeCalls : List LayoutCall :=
  [.alloc 3, .notifyRange 4096 40960 2 ⟨true, true, false⟩, .notifyPage 12288 49152 ⟨true, true, false⟩,
    .notifyPage 0 45056 .none]

theorem coalescing_transparent_hole :
    PoolConfig.validate ⟨8192, 16384⟩ = .ok () ∧ (Host.plain 4096).reserve 16384 = .ok 4096 ∧
      ∃ l, Layout.create (.plain 4096) ⟨8192, 16384⟩ = .ok l ∧ AllAcceptable holeCalls l ∧
        (runWith perform (holeCalls ++ [.commit]) l).2.table.lookup 11 = none ∧
        (runWith perform (holeCalls ++ [.commit]) l).2.table.lookup 12 =
          some ⟨12288, ⟨true, true, false⟩⟩ := by
  obtain ⟨l, hl, h⟩ := @coalescing_transparent (.plain 4096) 4096 ⟨8192, 16384⟩ rfl rfl holeCalls
  obtain rfl := Except.ok.inj (hl.symm.trans rfl)
  have hcalls : AllAcceptable holeCalls
      ⟨⟨⟨8192, 16384⟩, {base := 4096, size := 16384, host := .plain 4096}, [], {}, 0⟩, {}, {}⟩ := by decide
  obtain ⟨_, _, hlookup⟩ := h hcalls
  exact ⟨rfl, rfl, _, hl, hcalls, (hlookup 11).trans rfl, (hlookup 12).trans rfl⟩

end Layout

end GuestMachine.Memory
