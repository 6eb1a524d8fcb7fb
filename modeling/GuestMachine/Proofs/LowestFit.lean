import GuestMachine.Proofs.FreeSet
import GuestMachine.Proofs.PoolGrowth

/-! The pool as an allocator over the whole map.

A map that is backed from the start needs nothing but the set of pages handed out: an
allocation gets the lowest run of other pages, and pages are taken back if all of them
are in the set (`EagerStep`). The pool, which backs its map only as far as it must,
answers every sequence of calls just so (`calls_eager`). How far it has grown, and in
slices of which size, cannot be told from its allocations. -/
namespace GuestMachine.Memory

/-! ### The eager allocator -/

/-- `count` pages from `start` on lie in a map of `mapPages` pages and are not taken. -/
def Fits (mapPages : Nat) (taken : Finset Nat) (count start : Nat) : Prop :=
  start + count ≤ mapPages ∧ Disjoint (block start count) taken

inductive PoolCall where
  | alloc (pages : Nat)
  | release (address pages : Nat)

inductive PoolAnswer where
  | allocated (r : Except Error Nat)
  /-- Whether the pages were taken back. -/
  | released (ok : Bool)

def PoolAnswer.allocated? : PoolAnswer → Option (Except Error Nat)
  | .allocated r => some r
  | .released _ => none

/-- The address that `pages` pages at the start of the map would leave off at, as far as
it can be told. -/
def addressPast (base pages : Nat) : Nat :=
  let top := addressLimit - 1
  min (base + min (min pages top * pageSize) top) top

/-- One call on a map of `mapPages` pages at `base`, with the pages taken before and
after it. Whether an empty range is taken back is left open: no page depends on it. -/
inductive EagerStep (base mapPages : Nat) :
    Finset Nat → PoolCall → PoolAnswer → Finset Nat → Prop where
  | nothing {taken} : EagerStep base mapPages taken (.alloc 0)
      (.allocated (.error (.allocationFailed "cannot allocate zero pages"))) taken
  | tooMany {taken n} : 0 < n → mapPages < taken.card + n →
      EagerStep base mapPages taken (.alloc n)
        (.allocated (.error (.outOfRange (addressPast base (taken.card + n))))) taken
  | found {taken n start} : 0 < n → taken.card + n ≤ mapPages → Fits mapPages taken n start →
      (∀ s, Fits mapPages taken n s → start ≤ s) →
      EagerStep base mapPages taken (.alloc n)
        (.allocated (.ok (base + start * pageSize))) (taken ∪ block start n)
  | noPlace {taken n} : 0 < n → taken.card + n ≤ mapPages → (∀ s, ¬ Fits mapPages taken n s) →
      EagerStep base mapPages taken (.alloc n)
        (.allocated (.error (Pool.noPlace n (mapPages - taken.card)))) taken
  | released {taken n start} : 0 < n → block start n ⊆ taken →
      EagerStep base mapPages taken (.release (base + start * pageSize) n)
        (.released true) (taken \ block start n)
  | refused {taken n address} : 0 < n →
      (∀ start, address = base + start * pageSize → ¬ block start n ⊆ taken) →
      EagerStep base mapPages taken (.release address n) (.released false) taken
  | empty {taken address ok} :
      EagerStep base mapPages taken (.release address 0) (.released ok) taken

/-- Calls one after another, from no page taken. -/
inductive EagerRun (base mapPages : Nat) : List PoolCall → List PoolAnswer → Finset Nat → Prop where
  | nil : EagerRun base mapPages [] [] ∅
  | snoc {calls answers taken call answer taken'} : EagerRun base mapPages calls answers taken →
      EagerStep base mapPages taken call answer taken' →
      EagerRun base mapPages (calls ++ [call]) (answers ++ [answer]) taken'

/-- The eager allocator has one way to go: what it takes is determined, and so are the
answers to allocations. -/
theorem EagerStep.unique {base mapPages : Nat} {taken t t' : Finset Nat} {call : PoolCall}
    {a a' : PoolAnswer} (h : EagerStep base mapPages taken call a t)
    (h' : EagerStep base mapPages taken call a' t') : t = t' ∧ a.allocated? = a'.allocated? := by
  cases h with
  | nothing =>
    cases h' with
    | nothing => exact ⟨rfl, rfl⟩
    | tooMany hn => exact absurd hn (Nat.lt_irrefl 0)
    | found hn => exact absurd hn (Nat.lt_irrefl 0)
    | noPlace hn => exact absurd hn (Nat.lt_irrefl 0)
  | tooMany hn hm =>
    cases h' with
    | nothing => exact absurd hn (Nat.lt_irrefl 0)
    | tooMany => exact ⟨rfl, rfl⟩
    | found _ hm' => omega
    | noPlace _ hm' => omega
  | found hn hm hfit hlow =>
    cases h' with
    | nothing => exact absurd hn (Nat.lt_irrefl 0)
    | tooMany _ hm' => omega
    | found _ _ hfit' hlow' =>
      obtain rfl := Nat.le_antisymm (hlow _ hfit') (hlow' _ hfit)
      exact ⟨rfl, rfl⟩
    | noPlace _ _ hnone => exact absurd hfit (hnone _)
  | noPlace hn hm hnone =>
    cases h' with
    | nothing => exact absurd hn (Nat.lt_irrefl 0)
    | tooMany _ hm' => omega
    | found _ _ hfit' => exact absurd hfit' (hnone _)
    | noPlace => exact ⟨rfl, rfl⟩
  | @released n start hn hsub =>
    generalize haddress : base + start * pageSize = address at h'
    cases h' with
    | @released n start' _ hsub' =>
      have hstart : start * pageSize = start' * pageSize := by omega
      obtain rfl := Nat.eq_of_mul_eq_mul_right (show 0 < pageSize by decide) hstart
      exact ⟨rfl, rfl⟩
    | refused _ hnone => exact absurd hsub (hnone start haddress.symm)
    | empty => exact absurd hn (Nat.lt_irrefl 0)
  | @refused n address hn hnone =>
    cases h' with
    | released _ hsub' => exact absurd hsub' (hnone _ rfl)
    | refused => exact ⟨rfl, rfl⟩
    | empty => exact absurd hn (Nat.lt_irrefl 0)
  | empty =>
    cases h' with
    | released hn => exact absurd hn (Nat.lt_irrefl 0)
    | refused hn => exact absurd hn (Nat.lt_irrefl 0)
    | empty => exact ⟨rfl, rfl⟩

theorem EagerRun.unique {base mapPages : Nat} {calls : List PoolCall} {answers answers' : List PoolAnswer}
    {t t' : Finset Nat} (h : EagerRun base mapPages calls answers t)
    (h' : EagerRun base mapPages calls answers' t') :
    t = t' ∧ answers.map PoolAnswer.allocated? = answers'.map PoolAnswer.allocated? := by
  induction h generalizing answers' t' with
  | nil =>
    generalize hnil : ([] : List PoolCall) = calls at h'
    cases h' with
    | nil => exact ⟨rfl, rfl⟩
    | snoc => exact absurd hnil.symm (List.append_ne_nil_of_right_ne_nil _ (List.cons_ne_nil _ _))
  | @snoc calls answers taken call answer taken' _ hstep ih =>
    generalize hsnoc : calls ++ [call] = all at h'
    cases h' with
    | nil => exact absurd hsnoc (List.append_ne_nil_of_right_ne_nil _ (List.cons_ne_nil _ _))
    | snoc hrun' hstep' =>
      obtain ⟨rfl, hcall⟩ := List.append_inj' hsnoc rfl
      obtain rfl := List.singleton_inj.mp hcall
      obtain ⟨rfl, hanswers⟩ := ih hrun'
      obtain ⟨rfl, hanswer⟩ := hstep.unique hstep'
      exact ⟨rfl, by rw [List.map_append, List.map_append, hanswers, List.map_singleton,
        List.map_singleton, hanswer]⟩

/-! ### Calls on the pool -/

namespace Pool

def call (p : Pool) : PoolCall → PoolAnswer × Pool
  | .alloc pages =>
    let (r, q) := p.alloc pages
    (.allocated r, q)
  | .release address pages =>
    match p.release address pages with
    | .ok q => (.released true, q)
    | .error _ => (.released false, p)

/-- Calls one after another, with all answers. -/
def callAll (p : Pool) : List PoolCall → List PoolAnswer × Pool
  | [] => ([], p)
  | c :: rest =>
    let (a, q) := p.call c
    let (answers, last) := q.callAll rest
    (a :: answers, last)

theorem callAll_snoc (p : Pool) (calls : List PoolCall) (c : PoolCall) :
    p.callAll (calls ++ [c]) =
      ((p.callAll calls).1 ++ [((p.callAll calls).2.call c).1], ((p.callAll calls).2.call c).2) := by
  induction calls generalizing p with
  | nil => rfl
  | cons c' rest ih =>
    simp only [List.cons_append, callAll]
    rw [ih]

/-- The pages handed out by a pool: those that are backed and not free. -/
structure Holds (p : Pool) (taken : Finset Nat) : Prop where
  sound : p.Sound
  pages : ∀ page, page ∈ taken ↔ page < p.materialized ∧ ¬ p.free.Has page
  count : p.reserved = taken.card

/-- Growth hands out nothing. -/
theorem Holds.grown {p q : Pool} {n : Nat} {taken : Finset Nat} (h : p.Holds taken)
    (hq : q.Sound) (hg : Grows p n q) : q.Holds taken := by
  refine ⟨hq, fun page => ?_, hg.reserved.trans h.count⟩
  have hle := hg.le
  rw [h.pages, hg.free]
  constructor
  · rintro ⟨hlt, hfree⟩
    exact ⟨by omega, fun hor => hor.elim hfree (by omega)⟩
  · rintro ⟨hlt, hfree⟩
    rw [not_or] at hfree
    exact ⟨by omega, hfree.1⟩

/-- In the backed part of the map a run is free exactly if none of it is taken. -/
theorem Holds.covers_iff {p : Pool} {taken : Finset Nat} (h : p.Holds taken) {start count : Nat}
    (hend : start + count ≤ p.materialized) :
    FreeList.Covers p.free.ranges start count ↔ Disjoint (block start count) taken := by
  rw [Finset.disjoint_left]
  constructor
  · intro hcover page hb ht
    obtain ⟨hs, he⟩ := (mem_block ..).mp hb
    exact ((h.pages page).mp ht).2 (hcover.hasIn hs he)
  · intro hdis i hi
    have ht := hdis ((mem_block start count (start + i)).mpr ⟨by omega, by omega⟩)
    rw [h.pages, not_and, not_not] at ht
    exact ht (by omega)

/-- The place that the free list finds in the backed part is the lowest of the map. -/
theorem Holds.lowest {p : Pool} {taken : Finset Nat} (h : p.Holds taken) {start count : Nat}
    {f : FreeList} (hc : 0 < count) (ha : p.free.alloc? count = some (start, f)) :
    Fits p.config.mapPages taken count start ∧
      ∀ s, Fits p.config.mapPages taken count s → start ≤ s := by
  have ht := FreeList.alloc?_spec h.sound.order ha
  have hlast := h.sound.within _ (ht.covers (count - 1) (by omega))
  have hbounded := h.sound.bounded
  refine ⟨⟨by omega, (h.covers_iff (by omega)).mp ht.covers⟩, fun s hs => ?_⟩
  -- A place below `start` ends in the backed part, so the free list would have found it.
  refine Nat.le_of_not_lt fun hlt => ?_
  have := ht.lowest s ((h.covers_iff (by omega)).mpr hs.2)
  omega

/-- With the whole map backed, no place in the free list is no place at all. -/
theorem Holds.full {p : Pool} {taken : Finset Nat} (h : p.Holds taken) {count : Nat} (hc : 0 < count)
    (hall : p.materialized = p.config.mapPages) (ha : p.free.alloc? count = none) (s : Nat) :
    ¬ Fits p.config.mapPages taken count s := by
  rintro ⟨hend, hdis⟩
  rw [← hall] at hend
  exact FreeList.alloc?_none h.sound.order hc ha s ((h.covers_iff hend).mpr hdis)

/-- Pages handed out are taken. -/
theorem Holds.take {p : Pool} {taken : Finset Nat} (h : p.Holds taken) {start count : Nat}
    {f : FreeList} (ha : p.free.alloc? count = some (start, f)) :
    Holds {p with free := f, reserved := p.reserved + count} (taken ∪ block start count) := by
  have ht := FreeList.alloc?_spec h.sound.order ha
  have hs := h.sound
  have hin : ∀ page, start ≤ page → page < start + count → p.free.Has page :=
    fun page hlow hhigh => ht.covers.hasIn hlow hhigh
  have hfree : ∀ page, f.Has page ↔ p.free.Has page ∧ ¬ (start ≤ page ∧ page < start + count) := ht.pages
  have hdis : Disjoint taken (block start count) := by
    rw [Finset.disjoint_left]
    intro page hpage hb
    obtain ⟨hlow, hhigh⟩ := (mem_block ..).mp hb
    exact ((h.pages page).mp hpage).2 (hin page hlow hhigh)
  refine ⟨hs.take ha, fun page => ?_, ?_⟩
  · show page ∈ taken ∪ block start count ↔ page < p.materialized ∧ ¬ f.Has page
    rw [Finset.mem_union, h.pages, mem_block, hfree]
    constructor
    · rintro (⟨hlt, hnot⟩ | hb)
      · exact ⟨hlt, fun hf => hnot hf.1⟩
      · exact ⟨hs.within page (hin page hb.1 hb.2), fun hf => hf.2 hb⟩
    · rintro ⟨hlt, hnot⟩
      by_cases hb : start ≤ page ∧ page < start + count
      · exact .inr hb
      · exact .inl ⟨hlt, fun hf => hnot ⟨hf, hb⟩⟩
  · show p.reserved + count = (taken ∪ block start count).card
    rw [Finset.card_union_of_disjoint hdis, card_block, h.count]

/-- Pages taken back are free. -/
theorem Holds.giveBack {p : Pool} {taken : Finset Nat} (h : p.Holds taken) {start count : Nat}
    {f : FreeList} (hend : start + count ≤ p.materialized) (hsub : block start count ⊆ taken)
    (hf : p.free.free? start count = some f) :
    Holds {p with free := f, reserved := p.reserved - count} (taken \ block start count) := by
  obtain ⟨_, _, hfree, _⟩ := FreeList.free?_spec h.sound.order hf
  refine ⟨h.sound.giveBack hend hf, fun page => ?_, ?_⟩
  · show page ∈ taken \ block start count ↔ page < p.materialized ∧ ¬ f.Has page
    rw [Finset.mem_sdiff, h.pages, mem_block, hfree, not_or, and_assoc, and_comm (b := ¬ (start ≤ page ∧ page < start + count))]
  · show p.reserved - count = (taken \ block start count).card
    rw [Finset.card_sdiff_of_subset hsub, card_block, h.count]

/-- A range of taken pages is one that the pool finds and can take back. -/
theorem Holds.release_taken {p : Pool} {taken : Finset Nat} (h : p.Holds taken)
    (hbase : isAligned p.base = true) {start count : Nat} (hc : 0 < count)
    (hsub : block start count ⊆ taken) :
    ∃ f, p.free.free? start count = some f ∧ p.release (p.base + start * pageSize) count =
      .ok {p with free := f, reserved := p.reserved - count} := by
  have hin : ∀ page, start ≤ page → page < start + count →
      page < p.materialized ∧ ¬ p.free.Has page := fun page hlow hhigh =>
    (h.pages page).mp (hsub ((mem_block ..).mpr ⟨hlow, hhigh⟩))
  have hend := (hin (start + (count - 1)) (by omega) (by omega)).1
  have hpage : p.backedPage (p.base + start * pageSize) count = .ok start := by
    have hids := h.sound.config.ids
    have hbounded := h.sound.bounded
    rw [isAligned_iff] at hbase
    rw [backedPage_eq_ok_iff, isAligned_iff]
    simp only [pageSize, chunkPages, addressLimit, UInt32.size, UInt64.size] at *
    omega
  cases hf : p.free.free? start count with
  | none =>
    obtain ⟨page, hlow, hhigh, hp⟩ := FreeList.free?_none h.sound.order hf
    exact absurd hp (hin page hlow hhigh).2
  | some f =>
    refine ⟨f, rfl, ?_⟩
    rw [release, bind_eq_ok_iff]
    refine ⟨start, hpage, ?_⟩
    rw [hf]

/-- The pool takes back only pages that are taken. -/
theorem Holds.taken_of_release {p q : Pool} {taken : Finset Nat} (h : p.Holds taken)
    (hbase : isAligned p.base = true) {address count : Nat} (hr : p.release address count = .ok q) :
    ∃ start, address = p.base + start * pageSize ∧ block start count ⊆ taken ∧
      q.Holds (taken \ block start count) := by
  obtain ⟨start, f, hpage, hf, rfl⟩ := release_eq hr
  obtain ⟨haligned, _, hlow, _, hstart⟩ := backedPage_eq_ok_iff.mp hpage
  have haddress : address = p.base + start * pageSize := by
    rw [isAligned_iff] at hbase haligned
    simp only [pageSize] at *
    omega
  have hend := backedPage_end hpage
  obtain ⟨_, hnot, _, _⟩ := FreeList.free?_spec h.sound.order hf
  have hsub : block start count ⊆ taken := by
    intro page hb
    obtain ⟨hs, he⟩ := (mem_block ..).mp hb
    exact (h.pages page).mpr ⟨by omega, hnot page hs he⟩
  exact ⟨start, haddress, hsub, h.giveBack hend hsub hf⟩

/-! ### Refinement -/

/-- An allocation is a step of the eager allocator. -/
theorem Holds.alloc_eager {p : Pool} {taken : Finset Nat} (h : p.Holds taken) (hback : p.Backed) (pages : Nat) :
    ∃ taken', EagerStep p.base p.config.mapPages taken (.alloc pages) (p.call (.alloc pages)).1 taken' ∧
      (p.call (.alloc pages)).2.Holds taken' := by
  show ∃ taken', EagerStep _ _ _ _ (.allocated (p.alloc pages).1) _ ∧ (p.alloc pages).2.Holds _
  rcases Nat.eq_zero_or_pos pages with rfl | hpos
  · exact ⟨taken, .nothing, h⟩
  rcases Nat.lt_or_ge p.config.mapPages (p.reserved + pages) with hmany | hroom
  · rw [alloc, if_neg (by omega), if_pos hmany]
    have hpast : p.beyond pages = addressPast p.base (taken.card + pages) := by
      rw [← h.count]
      rfl
    rw [hpast]
    exact ⟨taken, .tooMany hpos (h.count ▸ hmany), h⟩
  obtain ⟨n, q, hq, hg, hanswer⟩ := alloc_spec h.sound hback hpos hroom
  have hheld := h.grown hq hg
  have hmap : q.config.mapPages = p.config.mapPages := by rw [hg.config]
  rw [h.count] at hroom
  split at hanswer
  · next start f hf =>
    obtain ⟨hfit, hlow⟩ := hheld.lowest hpos hf
    rw [hmap] at hfit hlow
    rw [hanswer]
    exact ⟨_, .found hpos hroom hfit hlow, hheld.take hf⟩
  · next hf =>
    obtain ⟨hall, hanswer⟩ := hanswer
    have hnone := hheld.full hpos (hall.trans hmap.symm) hf
    rw [hmap] at hnone
    have hfree : q.free.pages = p.config.mapPages - taken.card := by
      have := hq.counted
      have := hheld.count
      omega
    rw [hanswer, hfree]
    exact ⟨taken, .noPlace hpos hroom hnone, hheld⟩

/-- And so is a release. -/
theorem Holds.release_eager {p : Pool} {taken : Finset Nat} (h : p.Holds taken)
    (hbase : isAligned p.base = true) (address pages : Nat) :
    ∃ taken', EagerStep p.base p.config.mapPages taken (.release address pages)
        (p.call (.release address pages)).1 taken' ∧
      (p.call (.release address pages)).2.Holds taken' := by
  cases hr : p.release address pages with
  | ok q =>
    have hcall : p.call (.release address pages) = (.released true, q) := by
      simp only [call, hr]
    obtain ⟨start, haddress, hsub, hholds⟩ := h.taken_of_release hbase hr
    rw [hcall]
    rcases Nat.eq_zero_or_pos pages with rfl | hpos
    · rw [show block start 0 = ∅ from by simp [block], Finset.sdiff_empty] at hholds
      exact ⟨taken, .empty, hholds⟩
    · rw [haddress]
      exact ⟨_, .released hpos hsub, hholds⟩
  | error e =>
    have hcall : p.call (.release address pages) = (.released false, p) := by
      simp only [call, hr]
    rw [hcall]
    rcases Nat.eq_zero_or_pos pages with rfl | hpos
    · exact ⟨taken, .empty, h⟩
    · refine ⟨taken, .refused hpos fun start haddress hsub => ?_, h⟩
      obtain ⟨f, _, hok⟩ := h.release_taken hbase hpos hsub
      rw [← haddress, hr] at hok
      cases hok

theorem create_holds {host : Host} {c : PoolConfig} {p : Pool} (hp : create host c = .ok p) :
    p.Holds ∅ := by
  have hs := create_sound hp
  obtain ⟨_, _, _, rfl⟩ := create_eq hp
  refine ⟨hs, fun page => ?_, rfl⟩
  simp [materialized]

/-- A call leaves the map where it is. -/
theorem call_follows {p : Pool} (h : p.Sound) (call : PoolCall) : Follows p (p.call call).2 := by
  cases call with
  | alloc pages => exact (alloc_sound h pages).2
  | release address pages =>
    rw [Pool.call]
    split
    next hr => exact (release_sound h hr).2
    next => exact .refl p

/-- Every run of calls on a pool that holds nothing is one of the eager allocator, as long as the
host backs the slices. -/
theorem Holds.callAll_eager {p : Pool} (h : p.Holds ∅) (hback : p.Backed) (hbase : isAligned p.base = true)
    (calls : List PoolCall) :
    ∃ taken, EagerRun p.base p.config.mapPages calls (p.callAll calls).1 taken ∧
      (p.callAll calls).2.Holds taken ∧ Follows p (p.callAll calls).2 := by
  induction calls using List.reverseRecOn with
  | nil => exact ⟨∅, .nil, h, .refl p⟩
  | append_singleton calls call ih =>
    obtain ⟨taken, hrun, hholds, hfollows⟩ := ih
    have hstep : ∃ taken', EagerStep p.base p.config.mapPages taken call ((p.callAll calls).2.call call).1 taken' ∧
        ((p.callAll calls).2.call call).2.Holds taken' := by
      rw [← hfollows.base, ← hfollows.config]
      cases call with
      | alloc pages => exact hholds.alloc_eager (hfollows.backed hback) pages
      | release address pages => exact hholds.release_eager (hfollows.base.symm ▸ hbase) address pages
    obtain ⟨taken', hstep, hholds'⟩ := hstep
    rw [callAll_snoc]
    exact ⟨taken', .snoc hrun hstep, hholds', hfollows.trans (call_follows hholds.sound call)⟩

/-- **A pool that grows on demand allocates like one backed as a whole.** Every sequence
of calls gets the answers of the eager allocator, whose set of taken pages the pool
counts; and pools of one size whose slices differ in size answer every allocation
alike. The host is relied on to reserve the map at a page and to back its slices. -/
theorem calls_eager {host : Host} {base : Nat} {c : PoolConfig} (hbase : isAligned base = true)
    (hc : c.validate = .ok ()) (hreserved : host.reserve c.mapSize = .ok base)
    (hback : host.Backs base c.mapSize) (calls : List PoolCall) :
    ∃ p, create host c = .ok p ∧
      (∃ taken, EagerRun base c.mapPages calls (p.callAll calls).1 taken ∧
        taken ⊆ Finset.range c.mapPages ∧ (p.callAll calls).2.reserved = taken.card) ∧
      ∀ c' : PoolConfig, c'.validate = .ok () → c'.mapSize = c.mapSize →
        ∃ p', create host c' = .ok p' ∧ (p'.callAll calls).1.map PoolAnswer.allocated? =
          (p.callAll calls).1.map PoolAnswer.allocated? := by
  have hp := create_ok hc hreserved
  obtain ⟨taken, hrun, hholds, hfollows⟩ := (create_holds hp).callAll_eager hback hbase calls
  refine ⟨_, hp, ⟨taken, hrun, fun page hpage => ?_, hholds.count⟩, fun c' hc' hsize => ?_⟩
  · have hlt := ((hholds.pages page).mp hpage).1
    have hbounded := hholds.sound.bounded
    rw [hfollows.config] at hbounded
    exact Finset.mem_range.mpr (Nat.lt_of_lt_of_le hlt hbounded)
  · rw [← hsize] at hreserved hback
    have hp' := create_ok hc' hreserved
    obtain ⟨taken', hrun', _⟩ := (create_holds hp').callAll_eager hback hbase calls
    have hmap : c'.mapPages = c.mapPages := by rw [PoolConfig.mapPages, hsize]; rfl
    change EagerRun base c'.mapPages _ _ _ at hrun'
    rw [hmap] at hrun'
    exact ⟨_, hp', (hrun'.unique hrun).2⟩

/-- Four pages in slices of two. The last allocation needs two pages in a row, and of the
first slice only the second page is free: its place is across the slices' border. -/
theorem calls_eager_two_slices :
    isAligned 4096 = true ∧ PoolConfig.validate ⟨8192, 16384⟩ = .ok () ∧
      (Host.plain 4096).reserve 16384 = .ok 4096 ∧ (Host.plain 4096).Backs 4096 16384 ∧
      ∃ p, create (.plain 4096) ⟨8192, 16384⟩ = .ok p ∧
        (p.callAll [.alloc 1, .alloc 1, .release 8192 1, .alloc 2]).1 =
          [.allocated (.ok 4096), .allocated (.ok 8192), .released true, .allocated (.ok 8192)] ∧
        ∃ taken, EagerRun 4096 4 [.alloc 1, .alloc 1, .release 8192 1, .alloc 2]
            [.allocated (.ok 4096), .allocated (.ok 8192), .released true, .allocated (.ok 8192)] taken ∧
          taken.card = 3 := by
  have hback : (Host.plain 4096).Backs 4096 16384 := Host.plain_backs rfl 16384
  obtain ⟨p, hp, ⟨taken, hrun, _, hcard⟩, _⟩ := @calls_eager (.plain 4096) 4096 ⟨8192, 16384⟩ rfl rfl rfl hback
    [.alloc 1, .alloc 1, .release 8192 1, .alloc 2]
  obtain rfl := Except.ok.inj (hp.symm.trans rfl)
  exact ⟨rfl, rfl, rfl, hback, _, hp, rfl, taken, hrun, hcard.symm⟩

end Pool

end GuestMachine.Memory
