import GuestMachine.Proofs.LowestFit

/-! How far an allocation makes the pool grow.

An allocation backs the map in two loops. The first goes on as long as there are too few
pages in all, the second as long as the free list has no place for those asked for.
`Allocates` states them turn by turn, with no bound on the turns, and an allocation is what
they end with. A turn adds a slice to a pool without a place, so that every place there is
afterwards reaches into the last slice (`Reaches`): with fewer slices there would be none. -/
namespace GuestMachine.Memory

namespace PoolConfig

/-- Slices that it takes to back a number of pages from the start of the map. -/
def slicesFor (c : PoolConfig) (pages : Nat) : Nat := (pages + (c.slicePages - 1)) / c.slicePages

theorem slicesFor_le_iff {c : PoolConfig} (h : 0 < c.slicePages) {pages n : Nat} :
    c.slicesFor pages ≤ n ↔ pages ≤ n * c.slicePages := by
  rw [slicesFor, ← Nat.lt_succ_iff, Nat.div_lt_iff_lt_mul h, Nat.succ_mul]
  omega

end PoolConfig

/-! ### Loops -/

/-- What a turn of a loop on a pool comes to. -/
inductive LoopTurn (α : Type) where
  | again (p : Pool)
  | done (r : Except Error α) (p : Pool)

/-- The loop from a pool ends, with a result and a pool. -/
inductive Ends {α : Type} (turn : Pool → LoopTurn α) : Pool → Except Error α → Pool → Prop where
  | done {p r q} : turn p = .done r q → Ends turn p r q
  | again {p next r q} : turn p = .again next → Ends turn next r q → Ends turn p r q

section Loops
variable {α : Type} {turn : Pool → LoopTurn α} {p q : Pool} {r : Except Error α}

/-- A loop ends in one way. -/
theorem Ends.unique {r' : Except Error α} {q' : Pool} (h : Ends turn p r q) (h' : Ends turn p r' q') :
    r = r' ∧ q = q' := by
  induction h with
  | done hdone =>
    cases h' with
    | done hdone' =>
      cases hdone.symm.trans hdone'
      exact ⟨rfl, rfl⟩
    | again hagain' => cases hdone.symm.trans hagain'
  | again hagain _ ih =>
    cases h' with
    | done hdone' => cases hagain.symm.trans hdone'
    | again hagain' hends' =>
      cases hagain.symm.trans hagain'
      exact ih hends'

/-- What every turn keeps holds of the pool that the last turn is made on. -/
theorem Ends.invariant {Inv : Pool → Prop} (h : Ends turn p r q) (hp : Inv p)
    (hstep : ∀ a b, Inv a → turn a = .again b → Inv b) : ∃ last, Inv last ∧ turn last = .done r q := by
  induction h with
  | done hdone => exact ⟨_, hp, hdone⟩
  | again hagain _ ih => exact ih (hstep _ _ hp hagain)

end Loops

namespace Pool

/-- A turn of the loop that backs enough pages. -/
def backTurn (enough : Nat) (p : Pool) : LoopTurn Unit :=
  if p.materialized < enough then
    match p.addSlice with
    | .ok q => .again q
    | .error e => .done (.error e) p
  else .done (.ok ()) p

/-- A turn of the search for a place. -/
def searchTurn (pages : Nat) (p : Pool) : LoopTurn Nat :=
  match p.free.alloc? pages with
  | some (start, free) => .done (.ok start) {p with free}
  | none =>
    if p.config.mapPages < p.materialized + p.config.slicePages then
      .done (.error (noPlace pages p.free.pages)) p
    else
      match p.addSlice with
      | .ok q => .again q
      | .error e => .done (.error e) p

/-- What the result of a search is made into: the pages found are handed out. -/
def concluded (p : Pool) (pages : Nat) : Except Error Nat → Pool → Except Error Nat × Pool
  | .ok start, q => (.ok (p.base + start * pageSize), {q with reserved := q.reserved + pages})
  | .error e, q => (.error e, q)

/-- An allocation, loop by loop. -/
inductive Allocates (p : Pool) (pages : Nat) : Except Error Nat × Pool → Prop where
  | nothing : pages = 0 →
      Allocates p pages (.error (.allocationFailed "cannot allocate zero pages"), p)
  | tooMany : 0 < pages → p.config.mapPages < p.reserved + pages →
      Allocates p pages (.error (.outOfRange (p.beyond pages)), p)
  | unbacked {e q} : 0 < pages → p.reserved + pages ≤ p.config.mapPages →
      Ends (backTurn (p.reserved + pages)) p (.error e) q → Allocates p pages (.error e, q)
  | searched {q r last} : 0 < pages → p.reserved + pages ≤ p.config.mapPages →
      Ends (backTurn (p.reserved + pages)) p (.ok ()) q → Ends (searchTurn pages) q r last →
      Allocates p pages (p.concluded pages r last)

/-! ### Turns -/

theorem backTurn_again {enough : Nat} {p q : Pool} (h : backTurn enough p = .again q) :
    p.materialized < enough ∧ p.addSlice = .ok q := by
  unfold backTurn at h
  split at h
  · next hlt =>
    split at h
    · next hadd =>
      cases h
      exact ⟨hlt, hadd⟩
    · cases h
  · cases h

theorem backTurn_done {enough : Nat} {p q : Pool} {r : Except Error Unit}
    (h : backTurn enough p = .done r q) : q = p := by
  unfold backTurn at h
  split at h
  · split at h
    · cases h
    · cases h
      rfl
  · cases h
    rfl

theorem searchTurn_again {pages : Nat} {p q : Pool} (h : searchTurn pages p = .again q) :
    p.free.alloc? pages = none ∧ p.addSlice = .ok q := by
  unfold searchTurn at h
  split at h
  · cases h
  · next hnone =>
    split at h
    · cases h
    · split at h
      · next hadd =>
        cases h
        exact ⟨hnone, hadd⟩
      · cases h

/-- A map that ends at a slice's border has room for a slice unless it is backed to its
end. -/
theorem Sound.backed_of_no_room {p : Pool} (h : p.Sound)
    (hfull : p.config.mapPages < p.materialized + p.config.slicePages) :
    p.materialized = p.config.mapPages := by
  have hfits := room_spec h
  rcases Nat.eq_zero_or_pos p.room with h0 | hroom
  · rw [h0] at hfits
    omega
  · have := Nat.mul_le_mul_right p.config.slicePages hroom
    omega

/-- The search ends where there is a place, or with the whole map backed. -/
theorem searchTurn_done {pages : Nat} {p q : Pool} {r : Except Error Nat} (h : p.Sound) (hback : p.Backed)
    (hdone : searchTurn pages p = .done r q) :
    (∃ start f, p.free.alloc? pages = some (start, f) ∧ r = .ok start ∧ q = {p with free := f}) ∨
    (p.free.alloc? pages = none ∧ p.materialized = p.config.mapPages ∧
      r = .error (noPlace pages p.free.pages) ∧ q = p) := by
  unfold searchTurn at hdone
  split at hdone
  · next start f hfound =>
    cases hdone
    exact .inl ⟨start, f, hfound, rfl, rfl⟩
  · next hnone =>
    split at hdone
    · next hfull =>
      cases hdone
      exact .inr ⟨hnone, h.backed_of_no_room hfull, rfl, rfl⟩
    · next hfits =>
      obtain ⟨b, hadd, _⟩ := addSlice_spec h hback (Nat.not_lt.mp hfits)
      rw [hadd] at hdone
      cases hdone

/-! ### The loops end -/

/-- The slices that an allocation sets out to add are those the first loop adds: fewer are
not enough. -/
theorem addSlices_ends (n : Nat) {p : Pool} (h : p.Sound) (hback : p.Backed) {enough : Nat}
    (hroom : p.materialized + n * p.config.slicePages ≤ p.config.mapPages)
    (hfew : ∀ k, k < n → p.materialized + k * p.config.slicePages < enough)
    (henough : enough ≤ p.materialized + n * p.config.slicePages) :
    Ends (backTurn enough) p (p.addSlices n).1 (p.addSlices n).2 := by
  induction n generalizing p with
  | zero =>
    refine .done ?_
    rw [backTurn, if_neg (by omega)]
    rfl
  | succ n ih =>
    rw [Nat.succ_mul] at hroom henough
    have hshort := hfew 0 (Nat.succ_pos n)
    obtain ⟨p', hadd, hp', hg⟩ := addSlice_spec h hback (by omega)
    have hmat := hg.materialized
    rw [Nat.one_mul] at hmat
    have hturn : backTurn enough p = .again p' := by
      rw [backTurn, if_pos (by omega), hadd]
    rw [addSlices, hadd]
    refine .again hturn (ih hp' (hg.backed hback) ?_ ?_ ?_)
    · rw [hg.config, hmat]
      omega
    · intro k hk
      have := hfew (k + 1) (Nat.succ_lt_succ hk)
      rw [Nat.succ_mul] at this
      rw [hg.config, hmat]
      omega
    · rw [hg.config, hmat]
      omega

/-- The search goes on until the map is backed to its end, and no further. -/
theorem place_ends (pages more : Nat) {p : Pool} (h : p.Sound) (hback : p.Backed)
    (hroom : p.materialized + more * p.config.slicePages = p.config.mapPages) :
    Ends (searchTurn pages) p (place pages more p).1 (place pages more p).2 := by
  have hpos := h.config.slicePages_pos
  induction more generalizing p with
  | zero =>
    refine .done ?_
    unfold searchTurn place
    cases hf : p.free.alloc? pages with
    | some found => rfl
    | none =>
      dsimp only
      rw [if_pos (by omega)]
      rfl
  | succ more ih =>
    rw [Nat.succ_mul] at hroom
    cases hf : p.free.alloc? pages with
    | some found =>
      refine .done ?_
      simp only [searchTurn, place, hf]
    | none =>
      obtain ⟨p', hadd, hp', hg⟩ := addSlice_spec h hback (by omega)
      have hmat := hg.materialized
      have hturn : searchTurn pages p = .again p' := by
        have hroom' : ¬ p.config.mapPages < p.materialized + p.config.slicePages := by omega
        simp only [searchTurn, hf, hadd, if_neg hroom']
      have hplace : place pages (more + 1) p = place pages more p' := by
        simp only [place, hf, hadd]
      rw [hplace]
      refine .again hturn (ih hp' (hg.backed hback) ?_ hp'.config.slicePages_pos)
      rw [hg.config, hmat]
      omega

/-- An allocation that the map has pages for ends both loops, and answers with what the
second has found. -/
theorem alloc_ends {p : Pool} (h : p.Sound) (hback : p.Backed) {pages : Nat} (hpos : 0 < pages)
    (htotal : p.reserved + pages ≤ p.config.mapPages) :
    ∃ q r last, Ends (backTurn (p.reserved + pages)) p (.ok ()) q ∧ Ends (searchTurn pages) q r last ∧
      p.alloc pages = p.concluded pages r last := by
  obtain ⟨hlack, hlack'⟩ := lacking_spec h htotal
  obtain ⟨q, hadd, hq, hg⟩ := addSlices_spec _ h hback hlack'
  have hfew : ∀ k, k < p.lacking (p.reserved + pages) →
      p.materialized + k * p.config.slicePages < p.reserved + pages := by
    intro k hk
    have hk' : ¬ p.config.slicesFor (p.reserved + pages - p.materialized) ≤ k := Nat.not_le.mpr hk
    rw [PoolConfig.slicesFor_le_iff h.config.slicePages_pos] at hk'
    omega
  have hends := addSlices_ends _ h hback hlack' hfew hlack
  rw [hadd] at hends
  refine ⟨q, _, _, hends, place_ends pages q.room hq (hg.backed hback) (room_spec hq), ?_⟩
  rw [alloc, if_neg (by omega), if_neg (by omega)]
  simp only [hadd]
  split
  · next hplace => rw [hplace]; rfl
  · next hplace => rw [hplace]; rfl

/-- An allocation is what its loops come to. -/
theorem allocates_iff {p : Pool} (h : p.Sound) (hback : p.Backed) (pages : Nat) (out : Except Error Nat × Pool) :
    p.Allocates pages out ↔ out = p.alloc pages := by
  rcases Nat.eq_zero_or_pos pages with rfl | hpos
  · constructor
    · intro hout
      cases hout with
      | nothing => rfl
      | tooMany hn => exact absurd hn (Nat.lt_irrefl 0)
      | unbacked hn => exact absurd hn (Nat.lt_irrefl 0)
      | searched hn => exact absurd hn (Nat.lt_irrefl 0)
    · rintro rfl
      exact .nothing rfl
  rcases Nat.lt_or_ge p.config.mapPages (p.reserved + pages) with hmany | htotal
  · have halloc : p.alloc pages = (.error (.outOfRange (p.beyond pages)), p) := by
      rw [alloc, if_neg (by omega), if_pos hmany]
    rw [halloc]
    constructor
    · intro hout
      cases hout with
      | nothing hn => omega
      | tooMany => rfl
      | unbacked _ hle => omega
      | searched _ hle => omega
    · rintro rfl
      exact .tooMany hpos hmany
  · obtain ⟨q, r, last, hfirst, hsearch, halloc⟩ := alloc_ends h hback hpos htotal
    rw [halloc]
    constructor
    · intro hout
      cases hout with
      | nothing hn => omega
      | tooMany _ hmany => omega
      | unbacked _ _ hfirst' => cases (hfirst.unique hfirst').1
      | searched _ _ hfirst' hsearch' =>
        obtain ⟨_, rfl⟩ := hfirst.unique hfirst'
        obtain ⟨rfl, rfl⟩ := hsearch.unique hsearch'
        rfl
    · rintro rfl
      exact .searched hpos htotal hfirst hsearch

/-! ### Every slice is needed -/

/-- A place for `pages` pages there is only with the last slice. -/
def Reaches (pages : Nat) (p : Pool) : Prop :=
  ∀ s, FreeList.Covers p.free.ranges s pages → p.materialized < s + pages + p.config.slicePages

/-- `q` is `p`, grown no further than it takes to have a place for `pages` pages. -/
structure Stretched (pages : Nat) (p q : Pool) : Prop where
  sound : q.Sound
  grown : ∃ n, Grows p n q
  needed : q.slices.length = p.slices.length ∨ Reaches pages q

theorem Stretched.refl {p : Pool} (h : p.Sound) (pages : Nat) : Stretched pages p p :=
  ⟨h, ⟨0, .refl p⟩, .inl rfl⟩

/-- A place in the pool grown by a slice that does not reach into it was there before. -/
theorem reaches_of_grows {p q : Pool} {pages : Nat} (h : p.Sound) (hpos : 0 < pages)
    (hnone : p.free.alloc? pages = none) (hg : Grows p 1 q) : Reaches pages q := by
  intro s hcover
  have hmat := hg.materialized
  rw [Nat.one_mul] at hmat
  rw [hg.config, hmat]
  refine Nat.lt_of_not_le fun hend => FreeList.alloc?_none h.order hpos hnone s fun i hi => ?_
  rcases (hg.free (s + i)).mp (hcover i hi) with hfree | ⟨hnew, _⟩
  · exact hfree
  · omega

theorem Stretched.step {p a b : Pool} {pages : Nat} (h : Stretched pages p a) (hpos : 0 < pages)
    (hnone : a.free.alloc? pages = none) (hadd : a.addSlice = .ok b) : Stretched pages p b := by
  obtain ⟨n, hgrown⟩ := h.grown
  obtain ⟨hb, hg⟩ := addSlice_grows h.sound hadd
  exact ⟨hb, ⟨n + 1, hgrown.trans hg⟩, .inr (reaches_of_grows h.sound hpos hnone hg)⟩

/-- A list has no place for more pages than are in it. -/
theorem Sound.alloc?_short {p : Pool} (h : p.Sound) {pages : Nat}
    (hshort : p.materialized < p.reserved + pages) : p.free.alloc? pages = none := by
  cases ha : p.free.alloc? pages with
  | none => rfl
  | some found =>
    have htotal := (FreeList.alloc?_spec h.order ha).total
    have hcounted := h.counted
    rw [FreeList.pages_eq_total] at hcounted
    omega

/-- The pool that an allocation takes its pages from, or finds no place in, has grown no
further than it takes to have one. -/
theorem alloc_stretched {p : Pool} (h : p.Sound) (hback : p.Backed) {pages : Nat} (hpos : 0 < pages)
    (htotal : p.reserved + pages ≤ p.config.mapPages) :
    ∃ q, Stretched pages p q ∧
      ((∃ start f, q.free.alloc? pages = some (start, f) ∧ p.alloc pages =
        (.ok (p.base + start * pageSize), {q with free := f, reserved := q.reserved + pages})) ∨
      (q.materialized = p.config.mapPages ∧
        p.alloc pages = (.error (noPlace pages q.free.pages), q))) := by
  obtain ⟨_, r, last, hfirst, hsearch, halloc⟩ := alloc_ends h hback hpos htotal
  -- The first loop goes on only while there are fewer free pages than are asked for.
  obtain ⟨a, ha, hdone⟩ := hfirst.invariant (Stretched.refl h pages) fun a b ha hagain => by
    obtain ⟨n, hgrown⟩ := ha.grown
    obtain ⟨hshort, hadd⟩ := backTurn_again hagain
    rw [← hgrown.reserved] at hshort
    exact ha.step hpos (ha.sound.alloc?_short hshort) hadd
  obtain rfl := backTurn_done hdone
  obtain ⟨q, hq, hdone⟩ := hsearch.invariant ha fun a b ha hagain => by
    obtain ⟨hnone, hadd⟩ := searchTurn_again hagain
    exact ha.step hpos hnone hadd
  obtain ⟨n, hgrown⟩ := hq.grown
  refine ⟨q, hq, ?_⟩
  rw [halloc]
  rcases searchTurn_done hq.sound (hgrown.backed hback) hdone with ⟨start, f, hfound, rfl, rfl⟩ | ⟨_, hall, rfl, rfl⟩
  · exact .inl ⟨start, f, hfound, rfl⟩
  · exact .inr ⟨hall.trans (by rw [hgrown.config]), rfl⟩

/-- A pool grown for a place holds no more slices than that place takes. -/
theorem Stretched.count {p q : Pool} {pages start : Nat} (h : Stretched pages p q) (hpos : 0 < pages)
    (hcover : FreeList.Covers q.free.ranges start pages) :
    q.slices.length = max p.slices.length (p.config.slicesFor (start + pages)) := by
  obtain ⟨n, hgrown⟩ := h.grown
  have hslice : 0 < p.config.slicePages := hgrown.config ▸ h.sound.config.slicePages_pos
  have hmat : q.materialized = q.slices.length * p.config.slicePages := by
    rw [materialized, hgrown.config]
  have hlast := h.sound.within _ (hcover (pages - 1) (by omega))
  have hbacked : p.config.slicesFor (start + pages) ≤ q.slices.length := by
    rw [PoolConfig.slicesFor_le_iff hslice]
    omega
  have hcount := hgrown.count
  rcases h.needed with hsame | hreaches
  · omega
  · have hneeded := hreaches start hcover
    rw [hmat, hgrown.config] at hneeded
    have hmore : ¬ p.config.slicesFor (start + pages) ≤ q.slices.length - 1 := by
      rw [PoolConfig.slicesFor_le_iff hslice, Nat.sub_mul, Nat.one_mul]
      omega
    omega

/-- With fewer slices every run of so many pages has one that is handed out. -/
theorem Stretched.minimal {p q : Pool} {pages m s : Nat} (h : Stretched pages p q)
    (hm : p.slices.length ≤ m) (hfewer : m < q.slices.length) (hend : s + pages ≤ m * p.config.slicePages) :
    ∃ page, s ≤ page ∧ page < s + pages ∧ page < p.materialized ∧ ¬ p.free.Has page := by
  obtain ⟨n, hgrown⟩ := h.grown
  have hreaches := h.needed.resolve_left (by omega)
  have hmat : q.materialized = q.slices.length * p.config.slicePages := by
    rw [materialized, hgrown.config]
  have hbefore := Nat.mul_le_mul_right p.config.slicePages (Nat.succ_le_of_lt hfewer)
  rw [Nat.succ_mul, ← hmat] at hbefore
  by_contra hfree
  have hcover : FreeList.Covers q.free.ranges s pages := by
    intro i hi
    refine (hgrown.free (s + i)).mpr ?_
    by_contra hnot
    rw [not_or] at hnot
    exact hfree ⟨s + i, by omega, by omega, by omega, hnot.1⟩
  have := hreaches s hcover
  rw [hgrown.config] at this
  omega

/-! ### Calls -/

/-- Calls lead from one pool to another. -/
theorem Reachable.call {p : Pool} (h : p.Reachable) (c : PoolCall) : (p.call c).2.Reachable := by
  cases c with
  | alloc pages => exact .alloc h pages
  | release address pages =>
    cases hr : p.release address pages with
    | ok q =>
      simp only [Pool.call, hr]
      exact .release h hr
    | error e =>
      simp only [Pool.call, hr]
      exact h

theorem Reachable.callAll {p : Pool} (h : p.Reachable) (calls : List PoolCall) :
    (p.callAll calls).2.Reachable := by
  induction calls generalizing p with
  | nil => exact h
  | cons c rest ih => exact ih (h.call c)

theorem call_release_slices (p : Pool) (address pages : Nat) :
    (p.call (.release address pages)).2.slices = p.slices := by
  cases hr : p.release address pages with
  | ok q =>
    simp only [Pool.call, hr]
    obtain ⟨_, _, _, _, rfl⟩ := release_eq hr
    rfl
  | error e => simp only [Pool.call, hr]

/-- What calls do to the slices of a pool: an allocation of `pages` pages, and releases. -/
structure GrowsAsNeeded (p : Pool) (pages : Nat) : Prop where
  /-- The two loops end, in one way. -/
  ends : ∀ out, p.Allocates pages out ↔ out = p.alloc pages
  kept : p.slices <+: (p.alloc pages).2.slices
  found : ∀ address, (p.alloc pages).1 = .ok address → ∃ start, address = p.base + start * pageSize ∧
    (p.alloc pages).2.slices.length = max p.slices.length (p.config.slicesFor (start + pages))
  nothing : pages = 0 → (p.alloc pages).2.slices = p.slices
  outOfRange : ∀ e, (p.alloc pages).1 = .error e → e.isOutOfRange = true →
    (p.alloc pages).2.slices = p.slices
  noPlace : ∀ e, (p.alloc pages).1 = .error e → 0 < pages → e.isAllocationFailed = true →
    (p.alloc pages).2.materialized = p.config.mapPages
  /-- With fewer slices every run of so many pages has one that is handed out. -/
  minimal : ∀ m s, p.slices.length ≤ m → m < (p.alloc pages).2.slices.length →
    s + pages ≤ m * p.config.slicePages →
    ∃ page, s ≤ page ∧ page < s + pages ∧ page < p.materialized ∧ ¬ p.free.Has page
  released : ∀ address count, (p.call (.release address count)).2.slices = p.slices

/-- An allocation that is refused at once changes nothing. -/
theorem GrowsAsNeeded.of_refused {p : Pool} (h : p.Sound) (hback : p.Backed) {pages : Nat} {e : Error}
    (halloc : p.alloc pages = (.error e, p)) (he : pages = 0 ∨ e.isAllocationFailed = false) :
    p.GrowsAsNeeded pages := by
  refine ⟨allocates_iff h hback pages, (alloc_sound h pages).2.slices, fun address hok => ?_, fun _ => ?_,
    fun _ _ _ => ?_, fun e' he' hpos hfailed => ?_, fun m s hm hfewer _ => ?_, call_release_slices p⟩
  · rw [halloc] at hok
    cases hok
  · rw [halloc]
  · rw [halloc]
  · rw [halloc] at he'
    cases he'
    rcases he with rfl | hother
    · exact absurd hpos (Nat.lt_irrefl 0)
    · rw [hfailed] at hother
      cases hother
  · rw [halloc] at hfewer
    exact absurd hfewer (Nat.not_lt.mpr hm)

/-- With the pages found, the pool has the slices that their place takes. -/
theorem GrowsAsNeeded.of_found {p q : Pool} {pages start : Nat} {f : FreeList} (h : p.Sound)
    (hback : p.Backed) (hpos : 0 < pages) (hq : Stretched pages p q) (hfound : q.free.alloc? pages = some (start, f))
    (halloc : p.alloc pages =
      (.ok (p.base + start * pageSize), {q with free := f, reserved := q.reserved + pages})) :
    p.GrowsAsNeeded pages := by
  have hslices : (p.alloc pages).2.slices = q.slices := by rw [halloc]
  have hok : ∀ e, (p.alloc pages).1 ≠ .error e := by
    rw [halloc]
    exact fun e he => by cases he
  refine ⟨allocates_iff h hback pages, (alloc_sound h pages).2.slices, fun address haddress => ?_,
    fun h0 => absurd h0 (Nat.ne_of_gt hpos), fun e he => absurd he (hok e), fun e he => absurd he (hok e),
    fun m s hm hfewer hend => hq.minimal hm (hslices ▸ hfewer) hend, call_release_slices p⟩
  rw [halloc] at haddress
  cases haddress
  rw [hslices]
  exact ⟨start, rfl, hq.count hpos (FreeList.alloc?_spec hq.sound.order hfound).covers⟩

/-- With no place found, the whole map is backed. -/
theorem GrowsAsNeeded.of_noPlace {p q : Pool} {pages : Nat} (h : p.Sound) (hback : p.Backed) (hpos : 0 < pages)
    (hq : Stretched pages p q) (hall : q.materialized = p.config.mapPages)
    (halloc : p.alloc pages = (.error (Pool.noPlace pages q.free.pages), q)) : p.GrowsAsNeeded pages := by
  refine ⟨allocates_iff h hback pages, (alloc_sound h pages).2.slices, fun address hok => ?_,
    fun h0 => absurd h0 (Nat.ne_of_gt hpos), fun e he hout => ?_, fun e _ _ _ => ?_,
    fun m s hm hfewer hend => ?_, call_release_slices p⟩
  · rw [halloc] at hok
    cases hok
  · rw [halloc] at he
    cases he
    cases hout
  · rw [halloc]
    exact hall
  · rw [halloc] at hfewer
    exact hq.minimal hm hfewer hend

/-- **The pool grows no further than an allocation takes, and never shrinks.** The loops of
an allocation end. If it finds its pages, the slices are those there were or as many as it
takes to back the map up to the last of the pages; if it finds no place, the whole map is
backed; if it is refused for want of pages in all, or asks for none, no slice is added. With
fewer slices there would have been no place. Pages taken back leave the slices as they are.
The host is relied on to back the slices. -/
theorem growth_minimal {p : Pool} (h : p.Reachable) (hback : p.Backed) (pages : Nat) : p.GrowsAsNeeded pages := by
  have hs := h.sound
  rcases Nat.eq_zero_or_pos pages with rfl | hpos
  · exact .of_refused hs hback rfl (.inl rfl)
  rcases Nat.lt_or_ge p.config.mapPages (p.reserved + pages) with hmany | htotal
  · refine .of_refused hs hback (e := .outOfRange (p.beyond pages)) ?_ (.inr rfl)
    rw [alloc, if_neg (by omega), if_pos hmany]
  obtain ⟨q, hq, ⟨start, f, hfound, halloc⟩ | ⟨hall, halloc⟩⟩ := alloc_stretched hs hback hpos htotal
  · exact .of_found hs hback hpos hq hfound halloc
  · exact .of_noPlace hs hback hpos hq hall halloc

/-- Six pages in slices of two. Of the first two slices only every other page is free, so
that two pages in a row take a third. -/
def holed : Pool :=
  (callAll {config := ⟨8192, 24576⟩, map := {base := 4096, size := 24576, host := .plain 4096}}
    [.alloc 4, .release 4096 1, .release 12288 1]).2

theorem growth_minimal_holed :
    holed.Reachable ∧ holed.Backed ∧ holed.free.ranges = [⟨0, 1⟩, ⟨2, 1⟩] ∧ holed.slices.length = 2 ∧
      (holed.alloc 2).1 = .ok 20480 ∧ (holed.alloc 2).2.slices.length = 3 ∧
      holed.GrowsAsNeeded 2 := by
  have hreachable : holed.Reachable := .callAll (.created (create_ok rfl rfl)) _
  have hback : holed.Backed := Host.plain_backs rfl 24576
  have hgrows := growth_minimal hreachable hback 2
  obtain ⟨start, hstart, hcount⟩ := hgrows.found 20480 rfl
  obtain rfl : start = 4 := by
    change 20480 = 4096 + start * 4096 at hstart
    omega
  exact ⟨hreachable, hback, rfl, rfl, rfl, hcount, hgrows⟩

end Pool

end GuestMachine.Memory
