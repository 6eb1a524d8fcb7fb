import GuestMachine.Proofs.GuestMapping

/-! Mappings that fail.

A range that cannot be mapped is to be refused before anything is revoked. All that can be
wrong with it is found in time, but for one thing: that it does not begin at a page of the
guest is only found out when its first piece is mapped. Such a range (`Strays`) has been
revoked by then, and stays so (`mapToGuest_strays`). Every other failure leaves the table
as it was (`failed_mapping`). -/
namespace GuestMachine.Memory.Pool

/-- Backed pages that are to go to the guest at an address inside a page. -/
structure Strays (p : Pool) (host guest pages : Nat) (prot : Protection) : Prop where
  count : 0 < pages
  inside : isAligned guest = false
  room : guest + pages * pageSize < addressLimit
  access : prot.isNone = false
  aligned : isAligned host = true
  base : p.base ≤ host
  backed : host - p.base + pages * pageSize ≤ p.materialized * pageSize

variable {p : Pool} {host guest pages : Nat} {prot : Protection}

theorem Strays.bytes (h : p.Strays host guest pages prot) : bytesOfPages pages = .ok (pages * pageSize) :=
  bytesOfPages_eq_ok_iff.mpr ⟨Nat.lt_of_le_of_lt (Nat.le_add_left ..) h.room, rfl⟩

theorem Strays.page (h : p.Strays host guest pages prot) :
    p.backedPage host pages = .ok ((host - p.base) / pageSize) :=
  backedPage_eq_ok_iff.mpr ⟨h.aligned, (bytesOfPages_eq_ok_iff.mp h.bytes).1, h.base, h.backed, rfl⟩

/-- The first of some pieces is refused by a table if they are to go to an address inside a
page, however well they lie in their slices. -/
theorem mapPieces_inside (hp : p.Sound) (hguest : isAligned guest = false) (prot : Protection) {page count : Nat}
    (hcount : 0 < count) (hend : page + count ≤ p.materialized) (t : GuestTable) :
    p.mapPieces guest prot (pieces p.config.sliceSize (page * pageSize) (count * pageSize)) t =
      (.error (GuestTable.misaligned "guest address" guest), t) := by
  obtain ⟨k, _, _, _, hslice, hpieces⟩ := hp.pieces_pages hcount hend
  have hwhole : ∀ n, isAligned (n * pageSize) = true := fun n => (isAligned_iff _).mpr (Nat.mul_mod_left ..)
  rw [hpieces, mapPieces, sliceOf]
  simp only [hslice, GuestTable.map, hwhole, hguest, Nat.add_zero, Bool.not_true, Bool.not_false,
    Bool.false_eq_true, if_false, if_true]

/-- A range that strays has been revoked when it is refused. -/
theorem mapToGuest_strays (hp : p.Sound) (h : p.Strays host guest pages prot) (t : GuestTable) :
    p.mapToGuest t host guest pages prot =
      (.error (GuestTable.misaligned "guest address" guest), t.unmap guest (pages * pageSize)) := by
  have hpages := h.count
  have haccess := Bool.eq_false_iff.mp h.access
  rw [mapToGuest, if_neg (by omega), h.bytes]
  dsimp only
  rw [if_neg (Nat.not_le.mpr h.room), if_neg haccess, h.page]
  exact mapPieces_inside hp h.inside prot hpages (backedPage_end h.page) _

/-- A range of backed pages can be mapped, or it strays. -/
theorem mappable_or_strays {size page : Nat} (hpages : 0 < pages) (hbytes : bytesOfPages pages = .ok size)
    (hroom : ¬addressLimit ≤ guest + size) (haccess : ¬prot.isNone = true)
    (hpage : p.backedPage host pages = .ok page) :
    p.Mappable host guest pages prot ∨ p.Strays host guest pages prot := by
  obtain ⟨_, rfl⟩ := bytesOfPages_eq_ok_iff.mp hbytes
  obtain ⟨haligned, _, hbase, hend, _⟩ := backedPage_eq_ok_iff.mp hpage
  have hroom := Nat.not_le.mp hroom
  cases hguest : isAligned guest with
  | true => exact .inl ⟨hguest, hroom, .inr ⟨haligned, hbase, hend⟩⟩
  | false => exact .inr ⟨hpages, hguest, hroom, Bool.eq_false_iff.mpr haccess, haligned, hbase, hend⟩

/-- Any other range that is refused is refused before anything is revoked. -/
theorem table_of_error (hp : p.Sound) (h : ¬p.Strays host guest pages prot) {t t' : GuestTable} {e : Error}
    (hfails : p.mapToGuest t host guest pages prot = (.error e, t')) : t' = t := by
  have hwhole := hfails
  unfold mapToGuest at hfails
  split at hfails
  · cases hfails
  next hpages =>
  split at hfails
  next => exact (Prod.mk.inj hfails).2.symm
  next size hbytes =>
  split at hfails
  next => exact (Prod.mk.inj hfails).2.symm
  next hroom =>
  split at hfails
  next => cases hfails
  next haccess =>
  split at hfails
  next => exact (Prod.mk.inj hfails).2.symm
  next page hpage =>
  -- All checks are passed, so the range is mapped.
  have hmappable := (mappable_or_strays (Nat.pos_of_ne_zero hpages) hbytes hroom haccess hpage).resolve_right h
  obtain ⟨_, hok, _⟩ := mapToGuest_overlay hp hmappable t
  cases hok.symm.trans hwhole

/-- **When a mapping that fails is atomic.** Whatever is asked of a pool, and whatever the
guest's table is: a failure leaves the table and its recorded operations as they were,
unless the range strays. A range that strays always fails, when it has been revoked. -/
theorem failed_mapping (hp : p.Reachable) (t : GuestTable) (host guest pages : Nat) (prot : Protection) :
    (¬p.Strays host guest pages prot → ∀ e t', p.mapToGuest t host guest pages prot = (.error e, t') → t' = t) ∧
    (p.Strays host guest pages prot → p.mapToGuest t host guest pages prot =
      (.error (GuestTable.misaligned "guest address" guest), t.unmap guest (pages * pageSize))) :=
  ⟨fun h _ _ hfails => table_of_error hp.sound h hfails, fun h => mapToGuest_strays hp.sound h t⟩

/-- Four pages in slices of two, with the first page handed out. -/
def onePage : Pool :=
  (Pool.alloc {config := ⟨8192, 16384⟩, map := {base := 4096, size := 16384, host := .plain 4096}} 1).2

theorem reachable_onePage : onePage.Reachable := .alloc (.created (create_ok rfl rfl)) 1

/-- The guest's table once that page is at its page 16. -/
def onePageMapped : GuestTable := (onePage.mapToGuest {} 4096 65536 1 ⟨true, true, false⟩).2

/-- The page cannot be mapped into the middle of the guest's page 16, and a page that is not
backed cannot be mapped at all. Only the first of these revokes. -/
theorem failed_mapping_one_page :
    onePage.Reachable ∧ onePageMapped.translate 65536 = some ⟨4096, ⟨true, true, false⟩⟩ ∧
      (∃ e t, onePage.mapToGuest onePageMapped 4096 67584 1 ⟨true, true, false⟩ = (.error e, t) ∧
        t.translate 65536 = none) ∧
      ∃ e t, onePage.mapToGuest onePageMapped 16384 65536 1 ⟨true, true, false⟩ = (.error e, t) ∧ t = onePageMapped := by
  have hstrays : onePage.Strays 4096 67584 1 ⟨true, true, false⟩ :=
    ⟨by decide, rfl, by decide, rfl, rfl, Nat.le_refl _, by decide⟩
  have hunbacked : ¬onePage.Strays 16384 65536 1 ⟨true, true, false⟩ := fun h => absurd h.inside (by decide)
  refine ⟨reachable_onePage, rfl, ⟨_, _, (failed_mapping reachable_onePage onePageMapped ..).2 hstrays, rfl⟩, ?_⟩
  exact ⟨_, _, rfl, (failed_mapping reachable_onePage onePageMapped ..).1 hunbacked _ _ rfl⟩

/-- A page that is mapped is revoked by a mapping that fails. -/
theorem failure_revokes :
    ∃ (p : Pool) (t t' : GuestTable) (e : Error), p.Reachable ∧
      p.mapToGuest t 4096 67584 1 ⟨true, true, false⟩ = (.error e, t') ∧
      t.translate 65536 = some ⟨4096, ⟨true, true, false⟩⟩ ∧ t'.translate 65536 = none ∧
      t'.operations ≠ t.operations :=
  ⟨onePage, onePageMapped, onePageMapped.unmap 67584 4096, GuestTable.misaligned "guest address" 67584,
    reachable_onePage, rfl, rfl, rfl, by decide⟩

end GuestMachine.Memory.Pool
