import GuestMachine.Memory.Interval

/-! Adjacency of intervals.

An interval is as good as the set of its addresses, and two of them adjoin just when the
addresses of both are again an interval, with none of them in both. Where one begins right
after the other ends is said by `Meets`, for each side; the test for a side finds what meets
there (`adjoins_iff`), and an interval that grows there spans both (`extend_eq`), which is
all that the rest goes by. The ends of the address space are ends here: nothing follows its
last address. -/
namespace GuestMachine.Memory.Interval

/-- There is an address in the interval, and the last in it is one. -/
structure Proper (i : Interval) : Prop where
  nonempty : i.first ≤ i.last
  space : i.last < addressLimit

theorem contains_iff (i : Interval) (a : Nat) : i.contains a = true ↔ i.first ≤ a ∧ a ≤ i.last := by
  simp [contains]

theorem proper_of_make? {start size : Nat} {i : Interval} (h : make? start size = some i) : i.Proper := by
  unfold make? at h
  split at h
  · next hmade =>
    cases h
    exact ⟨Nat.le_add_right .., hmade.2⟩
  · cases h

/-- Only the whole space has more addresses than an address can count. -/
theorem Proper.size_lt_or_whole {i : Interval} (h : i.Proper) :
    i.size < addressLimit ∨ i = ⟨0, addressLimit - 1⟩ := by
  obtain ⟨hne, hspace⟩ := h
  cases i
  simp only [size, mk.injEq] at *
  omega

/-- `j` begins right after `i` ends, or ends right before `i` begins. -/
def Meets (i j : Interval) : Side → Prop
  | .after => j.first = i.last + 1
  | .before => i.first = j.last + 1

/-- Intervals that adjoin on a side meet there. -/
theorem meets_of_adjoins {i j : Interval} {side : Side} (h : i.adjoins j = some side) : i.Meets j side := by
  unfold adjoins at h
  split at h
  · next hafter =>
    cases h
    exact hafter.1.symm
  · split at h
    · next hbefore =>
      cases h
      exact hbefore.1.symm
    · cases h

theorem Meets.ends {i j : Interval} {side : Side} (h : i.Meets j side) :
    j.first = i.last + 1 ∨ i.first = j.last + 1 := by
  cases side with
  | after => exact .inl h
  | before => exact .inr h

section Proper
variable {i j : Interval} (hi : i.Proper) (hj : j.Proper)
include hi hj

theorem adjoins_iff (side : Side) : i.adjoins j = some side ↔ i.Meets j side := by
  refine ⟨meets_of_adjoins, fun h => ?_⟩
  obtain ⟨hne, hspace⟩ := hi
  obtain ⟨hne', hspace'⟩ := hj
  cases side with
  | after =>
    have hmeets : j.first = i.last + 1 := h
    rw [adjoins, if_pos ⟨hmeets.symm, by omega⟩]
  | before =>
    have hmeets : i.first = j.last + 1 := h
    rw [adjoins, if_neg (by omega), if_pos ⟨hmeets.symm, by omega⟩]

/-- Grown on the side where the other meets it, an interval goes from the lower of both
beginnings to the upper of both ends. -/
theorem extend_eq {side : Side} (h : i.Meets j side) :
    i.extend j side = ⟨min i.first j.first, max i.last j.last⟩ := by
  have hne := hi.nonempty
  have hne' := hj.nonempty
  cases side with
  | after =>
    have hmeets : j.first = i.last + 1 := h
    simp only [extend, mk.injEq]
    omega
  | before =>
    have hmeets : i.first = j.last + 1 := h
    simp only [extend, mk.injEq]
    omega

/-- Intervals that meet have no address in common. -/
theorem apart_of_meets {side : Side} (h : i.Meets j side) (a : Nat) : ¬ (i.contains a ∧ j.contains a) := by
  have hne := hi.nonempty
  have hne' := hj.nonempty
  have hends := h.ends
  rw [contains_iff, contains_iff]
  omega

theorem contains_extend {side : Side} (h : i.Meets j side) (a : Nat) :
    (i.extend j side).contains a ↔ i.contains a ∨ j.contains a := by
  have hne := hi.nonempty
  have hne' := hj.nonempty
  have hends := h.ends
  rw [extend_eq hi hj h]
  simp only [contains_iff]
  omega

theorem proper_extend {side : Side} (h : i.Meets j side) : (i.extend j side).Proper := by
  rw [extend_eq hi hj h]
  obtain ⟨hne, hspace⟩ := hi
  obtain ⟨hne', hspace'⟩ := hj
  exact ⟨by simp only; omega, by simp only; omega⟩

theorem size_extend {side : Side} (h : i.Meets j side) : (i.extend j side).size = i.size + j.size := by
  have hne := hi.nonempty
  have hne' := hj.nonempty
  have hends := h.ends
  rw [extend_eq hi hj h]
  simp only [size]
  omega

/-- Grown on the other side it would be empty, and lose the addresses it had. -/
theorem side_unique {side side' : Side} (h : i.Meets j side) (hown : (i.extend j side').contains i.first) :
    side' = side := by
  have hne := hi.nonempty
  have hne' := hj.nonempty
  rw [contains_iff] at hown
  cases side with
  | after =>
    have hmeets : j.first = i.last + 1 := h
    cases side' with
    | after => rfl
    | before =>
      simp only [extend] at hown
      omega
  | before =>
    have hmeets : i.first = j.last + 1 := h
    cases side' with
    | before => rfl
    | after =>
      simp only [extend] at hown
      omega

/-- Intervals apart whose addresses are those of one interval meet: the address right after
the end of the lower one is in that interval, and can only be the first of the upper one. -/
theorem meets_of_union {k : Interval} (happart : ∀ a, ¬ (i.contains a ∧ j.contains a))
    (hunion : ∀ a, k.contains a ↔ i.contains a ∨ j.contains a) : ∃ side, i.Meets j side := by
  have hne := hi.nonempty
  have hne' := hj.nonempty
  simp only [contains_iff] at happart hunion
  have hfirst := (hunion i.first).mpr (.inl ⟨Nat.le_refl _, hne⟩)
  have hlast := (hunion i.last).mpr (.inl ⟨hne, Nat.le_refl _⟩)
  have hfirst' := (hunion j.first).mpr (.inr ⟨Nat.le_refl _, hne'⟩)
  have hlast' := (hunion j.last).mpr (.inr ⟨hne', Nat.le_refl _⟩)
  rcases Nat.lt_or_ge i.last j.first with hbelow | hmeet
  · have hnext := (hunion (i.last + 1)).mp (by omega)
    refine ⟨.after, ?_⟩
    show j.first = i.last + 1
    omega
  · have habove : j.last < i.first := by
      have hmax := happart (max i.first j.first)
      omega
    have hnext := (hunion (j.last + 1)).mp (by omega)
    refine ⟨.before, ?_⟩
    show i.first = j.last + 1
    omega

end Proper

/-- **Adjacency is exact.** Two intervals adjoin just when they have no address in common
and the addresses of both are those of one interval. The second is after the first exactly
if the first is before the second, and the side on which they adjoin is the only one where
the first grows to just the addresses of both. It is then as long as the two together, which
an address can count unless they are the whole space. -/
theorem adjacency_exact {i j : Interval} (hi : i.Proper) (hj : j.Proper) :
    ((∃ side, i.adjoins j = some side) ↔
      (∀ a, ¬ (i.contains a ∧ j.contains a)) ∧
        ∃ k : Interval, k.Proper ∧ ∀ a, k.contains a ↔ i.contains a ∨ j.contains a) ∧
    (i.adjoins j = some .after ↔ j.adjoins i = some .before) ∧
    ∀ side, i.adjoins j = some side →
      (∀ side', (∀ a, (i.extend j side').contains a ↔ i.contains a ∨ j.contains a) ↔ side' = side) ∧
      (i.extend j side).Proper ∧ (i.extend j side).size = i.size + j.size ∧
      (i.size + j.size < addressLimit ∨ i.extend j side = ⟨0, addressLimit - 1⟩) := by
  refine ⟨⟨?_, ?_⟩, ?_, fun side hside => ?_⟩
  · rintro ⟨side, hside⟩
    have hmeets := meets_of_adjoins hside
    exact ⟨apart_of_meets hi hj hmeets,
      i.extend j side, proper_extend hi hj hmeets, contains_extend hi hj hmeets⟩
  · rintro ⟨happart, k, _, hunion⟩
    obtain ⟨side, hmeets⟩ := meets_of_union hi hj happart hunion
    exact ⟨side, (adjoins_iff hi hj side).mpr hmeets⟩
  · rw [adjoins_iff hi hj, adjoins_iff hj hi]
    exact Iff.rfl
  · have hmeets := meets_of_adjoins hside
    have hproper := proper_extend hi hj hmeets
    have hsize := size_extend hi hj hmeets
    have hfirst : i.contains i.first := (contains_iff ..).mpr ⟨Nat.le_refl _, hi.nonempty⟩
    refine ⟨fun side' => ⟨fun hunion => ?_, ?_⟩, hproper, hsize, hsize ▸ hproper.size_lt_or_whole⟩
    · exact side_unique hi hj hmeets ((hunion i.first).mpr (.inl hfirst))
    · rintro rfl
      exact contains_extend hi hj hmeets

/-- The halves of the address space adjoin in the middle, not at its ends, and make it up. -/
theorem adjacency_exact_halves :
    let lower : Interval := ⟨0, 0x7fffffffffffffff⟩
    let upper : Interval := ⟨0x8000000000000000, 0xffffffffffffffff⟩
    make? 0x8000000000000000 0x8000000000000000 = some upper ∧ make? 0 0x8000000000000000 = some lower ∧
      upper.Proper ∧ lower.Proper ∧ upper.adjoins lower = some .before ∧ lower.adjoins upper = some .after ∧
      (∀ a, (upper.extend lower .before).contains a ↔ upper.contains a ∨ lower.contains a) ∧
      ¬ (∀ a, (upper.extend lower .after).contains a ↔ upper.contains a ∨ lower.contains a) := by
  intro lower upper
  have hmade : make? 0x8000000000000000 0x8000000000000000 = some upper := by decide
  have hmade' : make? 0 0x8000000000000000 = some lower := by decide
  have hupper := proper_of_make? hmade
  have hlower := proper_of_make? hmade'
  obtain ⟨_, _, hgrown⟩ := adjacency_exact hupper hlower
  obtain ⟨hside, _⟩ := hgrown .before rfl
  obtain ⟨_, hconverse, _⟩ := adjacency_exact hlower hupper
  refine ⟨hmade, hmade', hupper, hlower, rfl, hconverse.mpr rfl, (hside .before).mpr rfl, fun hall => ?_⟩
  cases (hside .after).mp hall

end GuestMachine.Memory.Interval
