import GuestMachine.Proofs.Accounting
import GuestMachine.Proofs.Coalescing
import GuestMachine.Proofs.FailedMapping

/-! A guest reaches its own memory and nothing else.

A page of the guest is mapped to a page that the pool has backed (`Lends`), or to nothing.
No page of a range is checked by itself, and the coalescer checks none at all: it is
`mapToGuest` that checks a range as a whole, when it is mapped and not when it was announced.
What is backed stays so (`Lends.follows`), hence every call keeps the pages that are mapped
among the pool's (`Guarded`), whether it succeeds or fails; a mapping that fails can only
have revoked. -/
namespace GuestMachine.Memory

/-! ### Pages that are lent -/

namespace Pool

/-- A page of the guest may be mapped so: to a whole page that is backed, with some access. -/
structure Lends (p : Pool) (m : Mapping) : Prop where
  aligned : isAligned m.host = true
  base : p.base ≤ m.host
  backed : m.host + pageSize ≤ p.base + p.materialized * pageSize
  access : m.protection.isNone = false

variable {p q : Pool} {m : Mapping}

theorem Lends.follows (h : p.Lends m) (hf : Follows p q) : q.Lends m := by
  have hmore := Nat.mul_le_mul_right pageSize hf.le
  have hbacked := h.backed
  exact ⟨h.aligned, hf.base ▸ h.base, by rw [hf.base]; omega, h.access⟩

/-- A page that is lent lies in one slice: no slice begins or ends inside a page. -/
theorem Lends.slice (h : p.Lends m) (hp : p.Sound) (hbase : isAligned p.base = true) :
    ∃ s ∈ p.slices, s.base ≤ m.host ∧ m.host + pageSize ≤ s.base + s.size := by
  have hfrom := h.base
  have hto := h.backed
  have haligned := (isAligned_iff _).mp h.aligned
  rw [isAligned_iff] at hbase
  obtain ⟨page, hpage⟩ : ∃ page, m.host = p.base + page * pageSize :=
    ⟨(m.host - p.base) / pageSize, by simp only [pageSize] at *; omega⟩
  have hlt : page < p.materialized := by
    simp only [pageSize] at *
    omega
  have hslice := hp.slice_of_page hlt
  refine ⟨_, List.mem_of_getElem? hslice, ?_⟩
  -- The page is counted within its slice, and a slice is a number of whole pages.
  have hsplit := Nat.div_add_mod' page p.config.slicePages
  have hwithin := Nat.mod_lt page hp.config.slicePages_pos
  have hstart : (p.sliceAt (page / p.config.slicePages)).base =
      p.base + page / p.config.slicePages * p.config.slicePages * pageSize := by
    rw [sliceAt, hp.config.sliceSize, Nat.mul_assoc]
  have hsize : (p.sliceAt (page / p.config.slicePages)).size = p.config.slicePages * pageSize :=
    hp.config.sliceSize
  rw [hstart, hsize, hpage]
  simp only [pageSize] at *
  omega

/-- What the pages of a mappable range are mapped to is lent. -/
theorem lends_of_mappingOf (hbase : isAligned p.base = true) {host guest pages i : Nat} {prot : Protection}
    (hm : p.Mappable host guest pages prot) (hi : i < pages) (h : p.mappingOf host prot i = some m) :
    p.Lends m := by
  unfold mappingOf at h
  split at h
  · cases h
  next haccess =>
  obtain ⟨haligned, hfrom, hto⟩ := hm.backed.resolve_left haccess
  cases h
  rw [isAligned_iff] at haligned hbase
  refine ⟨(isAligned_iff _).mpr ?_, Nat.le_add_right .., ?_, Bool.eq_false_iff.mpr haccess⟩
  · simp only [pageSize] at *
    omega
  · simp only [pageSize] at *
    omega

end Pool

/-! ### Tables that keep to a pool -/

/-- Every page that a table maps is lent by the pool. -/
def GuestTable.KeepsTo (t : GuestTable) (p : Pool) : Prop :=
  ∀ page m, t.lookup page = some m → p.Lends m

section Table
variable {p : Pool} {t : GuestTable}

theorem GuestTable.KeepsTo.unmap (h : t.KeepsTo p) (guest size : Nat) : (t.unmap guest size).KeepsTo p := by
  intro page m hm
  rw [lookup_unmap] at hm
  split at hm
  · cases hm
  · exact h page m hm

/-- A call of `mapToGuest` changes nothing, or it revokes the range, or the range can be mapped
as a whole. -/
theorem Pool.mapToGuest_cases (hp : p.Sound) (t : GuestTable) (host guest pages : Nat) (prot : Protection) :
    (p.mapToGuest t host guest pages prot).2 = t ∨
      (p.mapToGuest t host guest pages prot).2 = t.unmap guest (pages * pageSize) ∨
      p.Mappable host guest pages prot := by
  unfold mapToGuest
  split
  next => exact .inl rfl
  next hpages =>
  split
  next => exact .inl rfl
  next size hbytes =>
  obtain ⟨_, rfl⟩ := bytesOfPages_eq_ok_iff.mp hbytes
  split
  next => exact .inl rfl
  next hroom =>
  split
  next => exact .inr (.inl rfl)
  next haccess =>
  split
  next => exact .inl rfl
  next page hpage =>
  rcases mappable_or_strays (Nat.pos_of_ne_zero hpages) hbytes hroom haccess hpage with hm | hs
  · exact .inr (.inr hm)
  · rw [mapPieces_inside hp hs.inside prot hs.count (backedPage_end hpage)]
    exact .inr (.inl rfl)

theorem GuestTable.KeepsTo.mapToGuest (h : t.KeepsTo p) (hp : p.Sound) (hbase : isAligned p.base = true)
    (host guest pages : Nat) (prot : Protection) : (p.mapToGuest t host guest pages prot).2.KeepsTo p := by
  rcases Pool.mapToGuest_cases hp t host guest pages prot with hsame | hrevoked | hm
  · rwa [hsame]
  · rw [hrevoked]
    exact h.unmap guest _
  · obtain ⟨t', hmapped, hlookup⟩ := Pool.mapToGuest_overlay hp hm t
    rw [hmapped]
    intro page m hpage
    rw [hlookup, Pool.overlay] at hpage
    split at hpage
    next => exact Pool.lends_of_mappingOf hbase hm (by omega) hpage
    next => exact h page m hpage

theorem Coalescer.commit_keepsTo (c : Coalescer) (h : t.KeepsTo p) (hp : p.Sound)
    (hbase : isAligned p.base = true) : (c.commit p t).2.2.KeepsTo p := by
  unfold commit
  split
  next => exact h
  next e _ =>
  have hmapped := h.mapToGuest hp hbase e.host.first e.guest.first e.pages e.protection
  split
  next hm => rwa [hm] at hmapped
  next hm => rwa [hm] at hmapped

theorem Coalescer.notifyRange_keepsTo (c : Coalescer) (h : t.KeepsTo p) (hp : p.Sound)
    (hbase : isAligned p.base = true) (host guest pages : Nat) (prot : Protection) :
    (c.notifyRange p t host guest pages prot).2.2.KeepsTo p := by
  unfold notifyRange gather
  split
  next => exact h
  next =>
  split
  next => exact h
  next =>
  split
  next => exact h
  next => exact c.commit_keepsTo h hp hbase

end Table

/-! ### Calls -/

/-- A call on a guest's memory, or one that announces changes to its layout. -/
inductive GuestCall where
  | memory (call : MemoryCall)
  | layout (call : LayoutCall)

namespace Layout

/-- What a call leaves, whatever its answer. -/
def after (l : Layout) : GuestCall → Layout
  | .memory call => (l.serve call).2
  | .layout call => (l.perform call).2

def afterAll (l : Layout) (calls : List GuestCall) : Layout := calls.foldl after l

/-- A sound pool at a page's address, and a guest that is mapped to nothing else. -/
structure Guarded (l : Layout) : Prop where
  sound : l.pool.Sound
  base : isAligned l.pool.base = true
  table : l.table.KeepsTo l.pool

/-- What a call does to the pool leaves the guest its pages. -/
theorem Guarded.of_pool {l : Layout} (h : l.Guarded) {q : Pool} (hq : q.Sound) (hf : Pool.Follows l.pool q) :
    Guarded {l with pool := q} :=
  ⟨hq, hf.base ▸ h.base, fun page m hm => (h.table page m hm).follows hf⟩

theorem Guarded.of_table {l : Layout} (h : l.Guarded) {t : GuestTable} (ht : t.KeepsTo l.pool)
    (c : Coalescer) : Guarded {l with coalescer := c, table := t} :=
  ⟨h.sound, h.base, ht⟩

theorem Guarded.alloc {l : Layout} (h : l.Guarded) (pages : Nat) : (l.alloc pages).2.Guarded :=
  h.of_pool (Pool.alloc_sound h.sound pages).1 (Pool.alloc_sound h.sound pages).2

theorem Guarded.release {l : Layout} (h : l.Guarded) (address pages : Nat) :
    (l.release address pages).2.Guarded := by
  unfold Layout.release
  split
  next hr => exact h.of_pool (Pool.release_sound h.sound hr).1 (Pool.release_sound h.sound hr).2
  next => exact h

theorem Guarded.write {l : Layout} (h : l.Guarded) (address : Nat) (data : List UInt8) :
    (l.write address data).2.Guarded := by
  unfold Layout.write
  split
  next hw => exact h.of_pool (Pool.write_sound h.sound hw).1 (Pool.write_sound h.sound hw).2
  next => exact h

theorem Guarded.notifyRange {l : Layout} (h : l.Guarded) (host guest pages : Nat) (prot : Protection) :
    (l.notifyRange host guest pages prot).2.Guarded :=
  h.of_table (l.coalescer.notifyRange_keepsTo h.table h.sound h.base host guest pages prot) _

theorem Guarded.notifyPage {l : Layout} (h : l.Guarded) (host guest : Nat) (prot : Protection) :
    (l.notifyPage host guest prot).2.Guarded := by
  have hone : l.notifyPage host guest prot = l.notifyRange host guest 1 prot := by
    rw [Layout.notifyPage, Layout.notifyRange, Coalescer.notifyPage]
  rw [hone]
  exact h.notifyRange host guest 1 prot

theorem Guarded.commit {l : Layout} (h : l.Guarded) : l.commit.2.Guarded :=
  h.of_table (l.coalescer.commit_keepsTo h.table h.sound h.base) _

theorem Guarded.map {l : Layout} (h : l.Guarded) (host guest pages : Nat) (prot : Protection) :
    (l.map host guest pages prot).2.Guarded :=
  h.of_table (h.table.mapToGuest h.sound h.base host guest pages prot) l.coalescer

theorem Guarded.serve {l : Layout} (h : l.Guarded) (call : MemoryCall) : (l.serve call).2.Guarded := by
  cases call with
  | alloc pages => exact h.alloc pages
  | release address pages => exact h.release address pages
  | write address data => exact h.write address data
  | read => exact h
  | readSlice => exact h
  | map host guest pages prot => exact h.map host guest pages prot

theorem Guarded.perform {l : Layout} (h : l.Guarded) (call : LayoutCall) : (l.perform call).2.Guarded := by
  cases call with
  | alloc pages => exact h.alloc pages
  | release address pages => exact h.release address pages
  | notifyPage host guest prot => exact h.notifyPage host guest prot
  | notifyRange host guest pages prot => exact h.notifyRange host guest pages prot
  | commit => exact h.commit

theorem Guarded.afterAll {l : Layout} (h : l.Guarded) (calls : List GuestCall) :
    (l.afterAll calls).Guarded := by
  induction calls generalizing l with
  | nil => exact h
  | cons call rest ih =>
    cases call with
    | memory call => exact ih (h.serve call)
    | layout call => exact ih (h.perform call)

/-! ### Addresses of the guest -/

/-- All that a guest can reach through its page table is memory of its pool. -/
structure Isolated (l : Layout) : Prop where
  pages : ∀ page m, l.table.lookup page = some m → l.pool.Lends m
  addresses : ∀ address, l.table.translate address = none ∨
    ∃ m, l.table.translate address = some m ∧ m.host % pageSize = address % pageSize ∧
      ∃ s ∈ l.pool.slices, s.contains m.host = true

theorem Guarded.isolated {l : Layout} (h : l.Guarded) : l.Isolated := by
  refine ⟨h.table, fun address => ?_⟩
  cases hm : l.table.lookup (address / pageSize) with
  | none =>
    left
    rw [GuestTable.translate, hm]
    rfl
  | some m =>
    right
    have hlent := h.table _ m hm
    have haligned := (isAligned_iff _).mp hlent.aligned
    obtain ⟨s, hs, hfirst, hlast⟩ := hlent.slice h.sound h.base
    have hoffset := Nat.mod_lt address (show 0 < pageSize by decide)
    refine ⟨{m with host := m.host + address % pageSize}, by rw [GuestTable.translate, hm]; rfl, ?_, s, hs, ?_⟩
    · show (m.host + address % pageSize) % pageSize = _
      rw [Nat.add_mod, haligned, Nat.zero_add, Nat.mod_mod, Nat.mod_mod]
    · simp only [Slice.contains, Bool.and_eq_true, decide_eq_true_eq]
      omega

/-- **The guest is isolated.** A guest starts with nothing mapped. After any calls, with any
arguments and whether they succeed or fail, each of its pages is mapped to a whole page that
its pool has backed, with some access, or to nothing; so an address of the guest is mapped
to nothing, or to an address of an attached slice at the same place in its page. -/
theorem guest_isolated {host : Host} {base : Nat} (hbase : isAligned base = true) {c : PoolConfig}
    (hc : c.validate = .ok ()) (hreserved : host.reserve c.mapSize = .ok base) (calls : List GuestCall) :
    ∃ l, Layout.create host c = .ok l ∧ (∀ page, l.table.lookup page = none) ∧
      (l.afterAll calls).Isolated := by
  have hp := Pool.create_ok hc hreserved
  have hcreate : Layout.create host c = .ok {pool := {config := c, map := {base, size := c.mapSize, host}}} := by
    rw [Layout.create, hp]
    rfl
  have hguarded : Guarded {pool := {config := c, map := {base, size := c.mapSize, host}}} :=
    ⟨Pool.create_sound hp, hbase, fun _ _ hm => by cases hm⟩
  exact ⟨_, hcreate, fun _ => rfl, (hguarded.afterAll calls).isolated⟩

/-- Four pages in slices of two. Two pages are announced before there is memory behind them,
and once more for a commit that finds them backed. A mapping that strays has revoked the
second of them when it fails; the other mappings that fail, one of them from inside a page
and one of too many pages, revoke nothing. -/
def earlyCalls : List GuestCall :=
  [.layout (.notifyRange 4096 65536 2 ⟨true, true, false⟩), .layout .commit,
    .layout (.notifyRange 4096 65536 2 ⟨true, true, false⟩), .memory (.alloc 1), .layout .commit,
    .memory (.map 4096 69633 1 ⟨true, false, false⟩), .memory (.map 4097 65536 1 ⟨true, false, false⟩),
    .memory (.map 4096 65536 3 ⟨true, false, false⟩)]

theorem guest_isolated_early :
    isAligned 4096 = true ∧ PoolConfig.validate ⟨8192, 16384⟩ = .ok () ∧
      (Host.plain 4096).reserve 16384 = .ok 4096 ∧
      ∃ l, Layout.create (.plain 4096) ⟨8192, 16384⟩ = .ok l ∧ (l.afterAll earlyCalls).Isolated ∧
        (l.afterAll earlyCalls).table.translate 65543 = some ⟨4103, ⟨true, true, false⟩⟩ ∧
        (l.afterAll earlyCalls).table.translate 69632 = none := by
  obtain ⟨l, hl, _, hisolated⟩ := @guest_isolated (.plain 4096) 4096 rfl ⟨8192, 16384⟩ rfl rfl earlyCalls
  obtain rfl := Except.ok.inj (hl.symm.trans rfl)
  exact ⟨rfl, rfl, rfl, _, hl, hisolated, rfl, rfl⟩

end Layout

end GuestMachine.Memory
