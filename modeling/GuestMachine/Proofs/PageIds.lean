import GuestMachine.Proofs.Accounting

/-! Page ids and the pages of a pool.

A page of the pool has an id of 32 bits, and an id names a page by where it lies in the
map. The two agree for every address and every id (`PagesNamed`), whatever has been done
with the pool: ids come from where the map begins and how large it may be, and a valid
configuration leaves room for all of them above the chunk that names no page. -/
namespace GuestMachine.Memory

namespace PageId

/-- An id is its chunk and its place in it. -/
theorem chunk_index (id : PageId) : id.index < chunkPages ∧ id.chunk * chunkPages + id.index = id.raw :=
  ⟨Nat.mod_lt _ (by decide), Nat.div_add_mod' ..⟩

/-- Ids from the first that names a page on are not in the chunk that names none. -/
theorem chunk_ne_nil {id : PageId} (h : chunkPages ≤ id.raw) : id.chunk ≠ nil.chunk :=
  Nat.ne_of_gt (Nat.div_pos h (by decide))

end PageId

namespace Pool

/-- Nothing is lost when an id is cut to 32 bits. -/
theorem pageId_eq_ok_iff {p : Pool} (h : p.config.Valid) {address : Nat} {id : PageId} :
    p.pageId address = .ok id ↔ p.base ≤ address ∧ address < p.base + p.config.mapSize ∧
      id.raw = (address - p.base) / pageSize + chunkPages := by
  unfold pageId
  split
  · next hout =>
    refine iff_of_false (fun heq => by cases heq) fun hin => ?_
    omega
  · next hin =>
    have hindex : (address - p.base) / pageSize < p.config.mapPages := by
      rw [Nat.div_lt_iff_lt_mul (by decide), ← h.mapSize]
      omega
    have hids := h.ids
    rw [Nat.mod_eq_of_lt (by omega)]
    constructor
    · intro heq
      cases heq
      exact ⟨by omega, by omega, rfl⟩
    · rintro ⟨_, _, hraw⟩
      rw [← hraw]

theorem addressOf_eq_ok_iff {p : Pool} {id : PageId} {address : Nat} :
    p.addressOf id = .ok address ↔ chunkPages ≤ id.raw ∧ id.raw < chunkPages + p.config.mapPages ∧
      address = p.base + (id.raw - chunkPages) * pageSize := by
  unfold addressOf
  split
  · next hout =>
    refine iff_of_false (fun heq => by cases heq) fun hin => ?_
    omega
  · next hin =>
    rw [Except.ok.injEq, eq_comm]
    exact ⟨fun heq => ⟨by omega, by omega, heq⟩, fun h => h.2.2⟩

section Named
variable {p : Pool} (h : p.config.Valid)
include h

/-- The page with the id of an address is the one that the address is in. -/
theorem addressOf_of_pageId (hbase : isAligned p.base = true) {address : Nat} {id : PageId}
    (hid : p.pageId address = .ok id) : p.addressOf id = .ok (address / pageSize * pageSize) := by
  obtain ⟨hlow, hhigh, hraw⟩ := (pageId_eq_ok_iff h).mp hid
  have hsize := h.mapSize
  rw [isAligned_iff] at hbase
  simp only [addressOf_eq_ok_iff, pageSize, chunkPages] at *
  omega

theorem pageId_of_addressOf {id : PageId} {address : Nat} (haddress : p.addressOf id = .ok address) :
    p.pageId address = .ok id := by
  have hsize := h.mapSize
  simp only [addressOf_eq_ok_iff, pageId_eq_ok_iff h, pageSize, chunkPages] at *
  omega

/-- Ids rise with the pages. -/
theorem pageId_lt_iff (hbase : isAligned p.base = true) {a b : Nat} {i j : PageId}
    (hi : p.pageId a = .ok i) (hj : p.pageId b = .ok j) : i.raw < j.raw ↔ a / pageSize < b / pageSize := by
  obtain ⟨ha, _, hi⟩ := (pageId_eq_ok_iff h).mp hi
  obtain ⟨hb, _, hj⟩ := (pageId_eq_ok_iff h).mp hj
  rw [isAligned_iff] at hbase
  rw [hi, hj]
  simp only [pageSize] at *
  omega

end Named

/-- The ids of the pages of a map of configuration `c` at `base`. -/
structure PagesNamed (base : Nat) (c : PoolConfig) (p : Pool) : Prop where
  named : ∀ a, (∃ id, p.pageId a = .ok id) ↔ base ≤ a ∧ a < base + c.mapSize
  unnamed : ∀ a, ¬ (base ≤ a ∧ a < base + c.mapSize) → p.pageId a = .error (.outOfRange a)
  found : ∀ id, (∃ a, p.addressOf id = .ok a) ↔ chunkPages ≤ id.raw ∧ id.raw < chunkPages + c.mapPages
  missed : ∀ id, ¬ (chunkPages ≤ id.raw ∧ id.raw < chunkPages + c.mapPages) →
    p.addressOf id = .error (.outOfRange id.raw)
  rounds : ∀ a id, p.pageId a = .ok id → p.addressOf id = .ok (a / pageSize * pageSize)
  returns : ∀ id a, p.addressOf id = .ok a → p.pageId a = .ok id
  rises : ∀ a b i j, p.pageId a = .ok i → p.pageId b = .ok j →
    (i.raw < j.raw ↔ a / pageSize < b / pageSize)
  /-- An id counts pages from the base on, and has no more than 32 bits. -/
  counts : ∀ a id, p.pageId a = .ok id →
    id.raw = (a - base) / pageSize + chunkPages ∧ id.raw < UInt32.size
  proper : ∀ a id, p.pageId a = .ok id → id.chunk ≠ PageId.nil.chunk
  parts : ∀ id : PageId, id.index < chunkPages ∧ id.chunk * chunkPages + id.index = id.raw

theorem pagesNamed_of_valid {p : Pool} (h : p.config.Valid) (hbase : isAligned p.base = true) :
    p.PagesNamed p.base p.config := by
  refine ⟨fun a => ?_, fun a hout => ?_, fun id => ?_, fun id hout => ?_,
    fun _ _ => addressOf_of_pageId h hbase, fun _ _ => pageId_of_addressOf h,
    fun _ _ _ _ => pageId_lt_iff h hbase, fun a id hid => ?_, fun a id hid => ?_, PageId.chunk_index⟩
  · simp only [pageId_eq_ok_iff h]
    exact ⟨fun ⟨_, hlow, hhigh, _⟩ => ⟨hlow, hhigh⟩, fun ⟨hlow, hhigh⟩ => ⟨⟨_⟩, hlow, hhigh, rfl⟩⟩
  · rw [pageId, if_pos (by omega)]
  · simp only [addressOf_eq_ok_iff]
    exact ⟨fun ⟨_, hlow, hhigh, _⟩ => ⟨hlow, hhigh⟩, fun ⟨hlow, hhigh⟩ => ⟨_, hlow, hhigh, rfl⟩⟩
  · rw [addressOf, if_pos (by omega)]
  · obtain ⟨_, hhigh, _⟩ := addressOf_eq_ok_iff.mp (addressOf_of_pageId h hbase hid)
    obtain ⟨_, _, hraw⟩ := (pageId_eq_ok_iff h).mp hid
    have := h.ids
    exact ⟨hraw, by omega⟩
  · obtain ⟨_, _, hraw⟩ := (pageId_eq_ok_iff h).mp hid
    exact PageId.chunk_ne_nil (hraw ▸ Nat.le_add_left ..)

/-- **Page ids name the pages of the pool, one each.** After any calls on a pool of a valid
configuration whose map begins at a page: the addresses of the map have ids and the ids of
its pages have addresses, and nothing else has; from an address and back is the beginning of
its page, from an id and back is the id; ids rise with the pages, fit in 32 bits and keep
clear of the chunk that names no page. -/
theorem pages_named {host : Host} {base : Nat} {c : PoolConfig} (hbase : isAligned base = true)
    (hc : c.validate = .ok ()) (hreserved : host.reserve c.mapSize = .ok base) (calls : List MemoryCall) :
    ∃ l, Layout.create host c = .ok l ∧ (l.served calls).pool.PagesNamed base c := by
  obtain ⟨l, hl, hp⟩ := Layout.create_pool hc hreserved
  obtain ⟨rfl, rfl, _⟩ := create_place hp hreserved
  obtain ⟨hsound, hfollows⟩ := Layout.served_sound (create_sound hp) calls
  have hnamed := pagesNamed_of_valid hsound.config (by rw [hfollows.base]; exact hbase)
  rw [hfollows.base, hfollows.config] at hnamed
  exact ⟨l, hl, hnamed⟩

/-- The largest map there may be. The id of its last byte is the last there is. -/
theorem pages_named_largest :
    isAligned 0x100000000000 = true ∧ PoolConfig.validate ⟨0x200000, 0xfffffe00000⟩ = .ok () ∧
      (Host.plain 0x100000000000).reserve 0xfffffe00000 = .ok 0x100000000000 ∧
      ∃ l, Layout.create (.plain 0x100000000000) ⟨0x200000, 0xfffffe00000⟩ = .ok l ∧
        (l.served [.alloc 3]).pool.pageId 0x1fffffdfffff = .ok ⟨0xffffffff⟩ ∧
        (l.served [.alloc 3]).pool.addressOf ⟨0xffffffff⟩ = .ok 0x1fffffdff000 := by
  obtain ⟨l, hl, hnamed⟩ := @pages_named (.plain 0x100000000000) 0x100000000000 ⟨0x200000, 0xfffffe00000⟩ rfl rfl rfl
    [.alloc 3]
  obtain ⟨id, hid⟩ := (hnamed.named 0x1fffffdfffff).mpr ⟨by decide, by decide⟩
  obtain ⟨hraw, _⟩ := hnamed.counts _ _ hid
  obtain rfl : id = ⟨0xffffffff⟩ := by
    cases id
    exact congrArg PageId.mk hraw
  exact ⟨rfl, rfl, rfl, l, hl, hid, hnamed.rounds _ _ hid⟩

end Pool

end GuestMachine.Memory
