import GuestMachine.Proofs.FailedMapping
import GuestMachine.Proofs.FlatMemory

/-! What a mapping does that succeeds.

What was mapped in the range is revoked, in one operation. With some access the range is then
laid out piece by piece (`Laid`), one operation for each slice it meets, and the guest finds
every byte of it where it is in the host; without access nothing follows. Pages that share no
byte with the range keep what they were mapped to (`mapping_effect`). What is recorded is read
off the loop over the pieces (`mapPieces_operations`), and what pages are mapped to off the
overlay that the loop comes to. -/
namespace GuestMachine.Memory

/-- The operation that maps a piece of a range to its place in the guest. -/
def Piece.operation (guest : Nat) (prot : Protection) (piece : Piece) : MapOperation :=
  .map piece.slice piece.within piece.length (guest + piece.before) prot

theorem Piece.operation_after (guest n : Nat) (prot : Protection) (piece : Piece) :
    (piece.after n).operation guest prot = piece.operation (guest + n) prot :=
  congrArg (MapOperation.map _ _ _ · prot) (Nat.add_assoc ..).symm

/-- A page has no byte in common with a range. -/
def Apart (guest size page : Nat) : Prop :=
  (page + 1) * pageSize ≤ guest ∨ guest + size ≤ page * pageSize

/-- A slice has a byte in common with a range of the host. -/
def Slice.Meets (host size : Nat) (s : Slice) : Bool :=
  decide (s.base < host + size) && decide (host < s.base + s.size)

theorem Slice.meets_iff {host size : Nat} {s : Slice} :
    s.Meets host size = true ↔ s.base < host + size ∧ host < s.base + s.size := by
  rw [Slice.Meets, Bool.and_eq_true, decide_eq_true_eq, decide_eq_true_eq]

/-- The operation that maps what a slice holds of a range of the host to its place in the guest. -/
def Slice.share (host guest size : Nat) (prot : Protection) (s : Slice) : MapOperation :=
  .map s.index (max host s.base - s.base) (min (host + size) (s.base + s.size) - max host s.base)
    (guest + (max host s.base - host)) prot

namespace Pool

/-- Operations that map a range of the host to the guest, part by part and in ascending order.
Every part is in one slice and has some bytes, and the next part begins where it ends, in the
host and in the guest. -/
inductive Laid (p : Pool) (prot : Protection) : Nat → Nat → Nat → List MapOperation → Prop where
  | done (host guest : Nat) : Laid p prot host guest 0 []
  | part {host guest size within length : Nat} {s : Slice} {rest : List MapOperation}
    (slice : p.slices[s.index]? = some s) (count : 0 < length) (whole : length ≤ size)
    (inside : within + length ≤ s.size) (place : s.base + within = host)
    (next : Laid p prot (host + length) (guest + length) (size - length) rest) :
    Laid p prot host guest size (.map s.index within length guest prot :: rest)

variable {p : Pool} {host guest pages : Nat} {prot : Protection} {t t' : GuestTable}

/-! ### What is recorded -/

/-- Mapping pieces records an operation for each of them. -/
theorem mapPieces_operations (hp : p.Sound) {l : List Piece} (hok : p.mapPieces guest prot l t = (.ok (), t')) :
    t'.operations = t.operations ++ l.map (Piece.operation guest prot) := by
  induction l generalizing t with
  | nil =>
    cases hok
    exact (List.append_nil _).symm
  | cons piece rest ih =>
    rw [mapPieces, sliceOf] at hok
    cases hs : p.slices[piece.slice]? with
    | none =>
      rw [hs] at hok
      cases hok
    | some s =>
      simp only [hs] at hok
      split at hok
      next => cases hok
      next u hmap =>
      obtain ⟨_, _, _, _, rfl⟩ := GuestTable.map_eq_ok_iff.mp hmap
      have hindex : s.index = piece.slice := congrArg Slice.index (hp.slices _ _ hs)
      rw [ih hok, List.map_cons, GuestTable.mapped, hindex, List.append_assoc]
      rfl

/-- The pieces of a backed range lay it out. -/
theorem Sound.laid (hp : p.Sound) (guest : Nat) (prot : Protection) {offset length : Nat}
    (hend : offset + length ≤ p.materialized * pageSize) :
    p.Laid prot (p.base + offset) guest length
      ((pieces p.config.sliceSize offset length).map (Piece.operation guest prot)) := by
  induction length using Nat.strongRecOn generalizing offset guest with
  | ind length ih =>
    rcases Nat.eq_zero_or_pos length with rfl | hpos
    · exact .done _ _
    obtain ⟨k, hk, hle, hinside, _, hpieces⟩ := hp.pieces_split hpos hend
    have hslice := (hp.slice_of_piece hend (hpieces ▸ List.mem_cons_self ..)).1
    have hrest := @ih (length - k) (by omega) (guest + k) (offset + k) (by omega)
    rw [← Nat.add_assoc] at hrest
    rw [hpieces, List.map_cons, List.map_map]
    simp only [Function.comp_def, Piece.operation_after]
    exact .part hslice hk hle hinside (p.sliceAt_base offset) hrest

/-! ### One operation for each slice -/

theorem Sound.slices_eq (hp : p.Sound) : p.slices = (List.range p.slices.length).map p.sliceAt := by
  refine List.ext_getElem (by rw [List.length_map, List.length_range]) fun i hi _ => ?_
  rw [List.getElem_map, List.getElem_range]
  exact hp.slices i _ (List.getElem?_eq_getElem hi)

/-- The slices that a backed range meets are those with the numbers of its pieces. -/
theorem Sound.slices_met (hp : p.Sound) {offset length : Nat} (hpos : 0 < length)
    (hend : offset + length ≤ p.materialized * pageSize) :
    p.slices.filter (Slice.Meets (p.base + offset) length) =
      (List.range' (offset / p.config.sliceSize) ((offset + (length - 1)) / p.config.sliceSize -
        offset / p.config.sliceSize + 1)).map p.sliceAt := by
  have hsize := hp.sliceSize_pos
  rw [← hp.slices_end] at hend
  generalize hfirst : offset / p.config.sliceSize = first
  generalize hlast : (offset + (length - 1)) / p.config.sliceSize = last
  have hle : first ≤ last := hfirst ▸ hlast ▸ Nat.div_le_div_right (Nat.le_add_right ..)
  have hlt : last < p.slices.length := hlast ▸ (Nat.div_lt_iff_lt_mul hsize).mpr (by omega)
  have hmeets : ∀ i, (p.sliceAt i).Meets (p.base + offset) length = true ↔ first ≤ i ∧ i ≤ last := by
    intro i
    have hfrom : offset < (i + 1) * p.config.sliceSize ↔ first < i + 1 :=
      hfirst ▸ (Nat.div_lt_iff_lt_mul hsize).symm
    have hto : i * p.config.sliceSize ≤ offset + (length - 1) ↔ i ≤ last :=
      hlast ▸ (Nat.le_div_iff_mul_le hsize).symm
    rw [Nat.add_one_mul] at hfrom
    rw [Slice.meets_iff]
    simp only [sliceAt]
    omega
  -- The slices below the range are left out, those it meets are kept, and those above left out.
  have hsplit : List.range p.slices.length = List.range' 0 first ++
      (List.range' first (last - first + 1) ++ List.range' (last + 1) (p.slices.length - (last + 1))) := by
    rw [List.range_eq_range', show last + 1 = first + (last - first + 1) from by omega,
      List.range'_append_1, show List.range' first _ = List.range' (0 + first) _ from by rw [Nat.zero_add],
      List.range'_append_1]
    congr 1
    omega
  have hfilter : p.slices.filter (Slice.Meets (p.base + offset) length) =
      ((List.range p.slices.length).map p.sliceAt).filter (Slice.Meets (p.base + offset) length) := by
    rw [← hp.slices_eq]
  rw [hfilter, List.filter_map, hsplit, List.filter_append, List.filter_append,
    List.filter_eq_nil_iff.mpr, List.filter_eq_self.mpr, List.filter_eq_nil_iff.mpr, List.append_nil,
    List.nil_append]
  all_goals
    intro i hi
    have hrange := List.mem_range'_1.mp hi
    simp only [Function.comp_apply, hmeets]
    omega

/-- The pieces of a backed range are mapped by one operation for each slice that the range
meets. -/
theorem Sound.shares (hp : p.Sound) (guest : Nat) (prot : Protection) {offset length : Nat} (hpos : 0 < length)
    (hend : offset + length ≤ p.materialized * pageSize) :
    (pieces p.config.sliceSize offset length).map (Piece.operation guest prot) =
      (p.slices.filter (Slice.Meets (p.base + offset) length)).map
        (Slice.share (p.base + offset) guest length prot) := by
  rw [hp.slices_met hpos hend, pieces_eq hp.sliceSize_pos hpos, List.map_map, List.map_map]
  refine List.map_congr_left fun i _ => ?_
  simp only [Function.comp_apply, Piece.operation, pieceIn, Slice.share, sliceAt, MapOperation.map.injEq,
    Nat.add_one_mul, and_true, true_and]
  omega

/-- Slices are numbered in the order they have in the pool. -/
theorem Sound.ascending (hp : p.Sound) (q : Slice → Bool) :
    ((p.slices.filter q).map Slice.index).Pairwise (· < ·) := by
  have hall : (p.slices.map Slice.index).Pairwise (· < ·) := by
    rw [hp.slices_eq, List.map_map]
    exact (List.map_id (List.range _)).symm ▸ List.pairwise_lt_range
  exact hall.sublist (List.filter_sublist.map _)

/-! ### What pages are mapped to -/

/-- What has succeeded if a range was mapped with some access: the range could be mapped, it was
revoked, and then its pieces were mapped. -/
theorem pieces_of_ok (hp : p.Sound) (hpages : 0 < pages) (haccess : ¬prot.isNone = true)
    (hok : p.mapToGuest t host guest pages prot = (.ok (), t')) :
    p.Mappable host guest pages prot ∧
      p.mapPieces guest prot
        (pieces p.config.sliceSize ((host - p.base) / pageSize * pageSize) (pages * pageSize))
        (t.unmap guest (pages * pageSize)) = (.ok (), t') := by
  have hwhole := hok
  unfold mapToGuest at hok
  rw [if_neg (by omega)] at hok
  split at hok
  next => cases hok
  next size hbytes =>
  split at hok
  next => cases hok
  next hroom =>
  split at hok
  next => cases hok
  next page hpage =>
  obtain ⟨_, rfl⟩ := bytesOfPages_eq_ok_iff.mp hbytes
  obtain ⟨_, _, _, _, rfl⟩ := backedPage_eq_ok_iff.mp hpage
  refine ⟨(mappable_or_strays hpages hbytes hroom haccess hpage).resolve_right fun hstrays => ?_, hok⟩
  cases (mapToGuest_strays hp hstrays t).symm.trans hwhole

/-- What has succeeded if a range was mapped without access: it was revoked. -/
theorem unmap_of_ok (hpages : 0 < pages) (hnone : prot.isNone = true)
    (hok : p.mapToGuest t host guest pages prot = (.ok (), t')) : t' = t.unmap guest (pages * pageSize) := by
  unfold mapToGuest at hok
  rw [if_neg (by omega)] at hok
  split at hok
  next => cases hok
  next size hbytes =>
  split at hok
  next => cases hok
  next =>
  obtain ⟨_, rfl⟩ := bytesOfPages_eq_ok_iff.mp hbytes
  exact (Prod.mk.inj hok).2.symm

end Pool

/-- Pages apart from a range keep what they were mapped to when the range is revoked. -/
theorem GuestTable.translate_unmap_apart {guest size address : Nat} (h : Apart guest size (address / pageSize))
    (t : GuestTable) : (t.unmap guest size).translate address = t.translate address := by
  have hend : ¬(guest / pageSize ≤ address / pageSize ∧ address / pageSize < pagesOfBytes (guest + size)) := by
    simp only [Apart, pagesOfBytes, pageSize] at *
    omega
  rw [translate, lookup_unmap, if_neg hend]
  rfl

/-- No byte of a range that was revoked is mapped. -/
theorem GuestTable.translate_unmap {guest size address : Nat} (hfrom : guest ≤ address) (hto : address < guest + size)
    (t : GuestTable) : (t.unmap guest size).translate address = none := by
  rw [translate, lookup_unmap, if_pos ((revoked_iff ..).mpr (.inl ⟨address, hfrom, hto, rfl⟩))]
  rfl

namespace Pool

variable {p : Pool} {host guest pages : Nat} {prot : Protection} {t t' : GuestTable}

/-- Every byte of a range that is laid over a table is mapped to the byte at its place in the
host. -/
theorem translate_overlay (hbase : isAligned p.base = true) (hm : p.Mappable host guest pages prot)
    (haccess : ¬prot.isNone = true) {v : Nat → Option Mapping} (hlookup : t'.lookup = p.overlay host guest pages prot v)
    {x : Nat} (hx : x < pages * pageSize) : t'.translate (guest + x) = some ⟨host + x, prot⟩ := by
  obtain ⟨hhost, hfrom, _⟩ := hm.backed.resolve_left haccess
  have hguest := hm.aligned
  rw [isAligned_iff] at hbase hhost hguest
  have hpage : guest / pageSize ≤ (guest + x) / pageSize ∧ (guest + x) / pageSize < guest / pageSize + pages := by
    simp only [pageSize] at *
    omega
  have hbyte : p.base + ((host - p.base) / pageSize + ((guest + x) / pageSize - guest / pageSize)) * pageSize +
      (guest + x) % pageSize = host + x := by
    simp only [pageSize] at *
    omega
  rw [GuestTable.translate, hlookup, overlay, if_pos hpage, mappingOf, if_neg haccess]
  exact congrArg (fun host => some (Mapping.mk host prot)) hbyte

/-- Pages apart from a range are those that nothing is laid over. -/
theorem translate_overlay_apart (hm : p.Mappable host guest pages prot)
    (hlookup : t'.lookup = p.overlay host guest pages prot t.lookup) {address : Nat}
    (h : Apart guest (pages * pageSize) (address / pageSize)) : t'.translate address = t.translate address := by
  have hguest := (isAligned_iff _).mp hm.aligned
  have hpage : ¬(guest / pageSize ≤ address / pageSize ∧ address / pageSize < guest / pageSize + pages) := by
    simp only [Apart, pageSize] at *
    omega
  rw [GuestTable.translate, hlookup, overlay, if_neg hpage]
  rfl

/-- **What a mapping does.** Let some pages of a pool be mapped to a guest, whatever was mapped
before, and let this succeed. Without access the range is revoked, and nothing else is recorded
or changed. With some access the range is one of whole pages in the host and in the guest; it
is revoked, then mapped by one operation for each slice that it meets, in ascending order and
without a gap; after that every byte of it translates to the byte at its place in the host.
In either case pages apart from the range translate as before. -/
theorem mapping_effect (hp : p.Reachable) (hbase : isAligned p.base = true) (hpages : 0 < pages)
    (hok : p.mapToGuest t host guest pages prot = (.ok (), t')) :
    (prot.isNone = true →
      t'.operations = t.operations ++ [.unmap guest (pages * pageSize)] ∧
      ∀ address, guest ≤ address → address < guest + pages * pageSize → t'.translate address = none) ∧
    (prot.isNone = false →
      isAligned guest = true ∧ isAligned host = true ∧
      (∃ slices, slices = p.slices.filter (Slice.Meets host (pages * pageSize)) ∧
        (slices.map Slice.index).Pairwise (· < ·) ∧
        t'.operations = t.operations ++ .unmap guest (pages * pageSize) ::
          slices.map (Slice.share host guest (pages * pageSize) prot) ∧
        p.Laid prot host guest (pages * pageSize)
          (slices.map (Slice.share host guest (pages * pageSize) prot))) ∧
      ∀ x < pages * pageSize, t'.translate (guest + x) = some ⟨host + x, prot⟩) ∧
    ∀ address, Apart guest (pages * pageSize) (address / pageSize) → t'.translate address = t.translate address := by
  have hsound := hp.sound
  by_cases haccess : prot.isNone = true
  · obtain rfl := unmap_of_ok hpages haccess hok
    refine ⟨fun _ => ⟨rfl, fun address hfrom hto => GuestTable.translate_unmap hfrom hto t⟩, fun h => ?_,
      fun address hapart => GuestTable.translate_unmap_apart hapart t⟩
    rw [haccess] at h
    cases h
  · obtain ⟨hm, hmapped⟩ := pieces_of_ok hsound hpages haccess hok
    obtain ⟨hhost, hfrom, hend⟩ := hm.backed.resolve_left haccess
    obtain ⟨_, hoverlay, hlookup⟩ := mapToGuest_overlay hsound hm t
    obtain rfl := (Prod.mk.inj (hoverlay.symm.trans hok)).2
    -- The range begins at a page of the pool, counted from a base that is at a page itself.
    obtain ⟨offset, rfl⟩ := Nat.exists_eq_add_of_le hfrom
    have hoffset : (p.base + offset - p.base) / pageSize * pageSize = offset := by
      rw [isAligned_iff] at hbase hhost
      simp only [pageSize] at *
      omega
    rw [hoffset] at hmapped
    rw [Nat.add_sub_cancel_left] at hend
    have hsize : 0 < pages * pageSize := Nat.mul_pos hpages (by decide)
    have hoperations := mapPieces_operations hsound hmapped
    have hlaid := hsound.laid guest prot hend
    rw [hsound.shares guest prot hsize hend] at hoperations hlaid
    refine ⟨fun h => absurd h haccess, fun _ => ⟨hm.aligned, hhost, ⟨_, rfl, hsound.ascending _, ?_, hlaid⟩,
      fun x hx => translate_overlay hbase hm haccess hlookup hx⟩,
      fun address hapart => translate_overlay_apart hm hlookup hapart⟩
    rw [hoperations, GuestTable.unmap, List.append_assoc]
    rfl

/-- Four pages in slices of two, with three pages handed out. -/
def twoSlices : Pool :=
  (Pool.alloc {config := ⟨8192, 16384⟩, map := {base := 4096, size := 16384, host := .plain 4096}} 3).2

theorem reachable_twoSlices : twoSlices.Reachable := .alloc (.created (create_ok rfl rfl)) 3

/-- The guest's table once the second and the third of these pages are at its pages 16 and 17. -/
def acrossBorder : GuestTable := (twoSlices.mapToGuest {} 8192 65536 2 ⟨true, true, false⟩).2

/-- Two pages on both sides of a slice's border take two operations. Revoking one page from the
middle of the first of them on takes both away, and a page beside them is not touched. -/
theorem mapping_effect_border :
    twoSlices.Reachable ∧ isAligned twoSlices.base = true ∧
      twoSlices.mapToGuest {} 8192 65536 2 ⟨true, true, false⟩ = (.ok (), acrossBorder) ∧
      acrossBorder.operations = [.unmap 65536 8192, .map 0 4096 4096 65536 ⟨true, true, false⟩,
        .map 1 0 4096 69632 ⟨true, true, false⟩] ∧
      acrossBorder.translate 70000 = some ⟨12656, ⟨true, true, false⟩⟩ ∧
      acrossBorder.translate 61440 = none ∧
      ∃ t, twoSlices.mapToGuest acrossBorder 0 67584 1 .none = (.ok (), t) ∧
        t.translate 70000 = none ∧ t.translate 73728 = acrossBorder.translate 73728 := by
  have hmap : twoSlices.mapToGuest {} 8192 65536 2 ⟨true, true, false⟩ = (.ok (), acrossBorder) := rfl
  have hunmap : twoSlices.mapToGuest acrossBorder 0 67584 1 .none = (.ok (), acrossBorder.unmap 67584 4096) := rfl
  obtain ⟨_, hmapped, hapart⟩ := mapping_effect reachable_twoSlices rfl (by decide) hmap
  obtain ⟨_, _, ⟨_, rfl, _, hoperations, _⟩, hbytes⟩ := hmapped rfl
  obtain ⟨hrevoked, _, hkept⟩ := mapping_effect reachable_twoSlices rfl (by decide) hunmap
  exact ⟨reachable_twoSlices, rfl, hmap, hoperations, hbytes 4464 (by decide), hapart 61440 (.inl (by decide)),
    _, hunmap, (hrevoked rfl).2 70000 (by decide) (by decide), hkept 73728 (.inr (by decide))⟩

end Pool

end GuestMachine.Memory
