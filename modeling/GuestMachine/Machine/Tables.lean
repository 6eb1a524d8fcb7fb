import GuestMachine.Vcpu.Handler

/-! The tables of a machine.

A machine keeps its vCPUs, each of which carries its number; its registry has for each
number the place of the vCPU that exits are routed to; and the hypervisor keeps a context
for each number. Whoever creates, unregisters or changes a vCPU writes these tables one by
one, and nothing but what he writes keeps them together (`InStep`). -/
namespace GuestMachine

/-- A vCPU with its handler, as the machine keeps it. -/
structure Resident (σ : Type) where
  /-- The number that the vCPU carries. -/
  id : Exit.VcpuId
  handler : Handler σ
  /-- The handler's memory. -/
  memory : σ
  vcpu : Vcpu := {}

@[ext]
structure Tables (σ κ : Type) where
  /-- The vCPUs that have been created, which others refer to by place. -/
  vcpus : List (Resident σ) := []
  /-- The registry. It has a slot for every call to create a vCPU. -/
  slots : List (Option Nat) := []
  /-- The contexts of the hypervisor, by number. -/
  contexts : List (Exit.VcpuId × κ) := []

namespace Tables
variable {σ κ : Type}

/-- How many numbers have been given out. -/
def given (t : Tables σ κ) : Nat := min t.slots.length UInt32.size

/-- The number of the next vCPU, of which 32 bits are kept. -/
def nextId (t : Tables σ κ) : Exit.VcpuId := t.slots.length % UInt32.size

/-- The place of the vCPU that exits are routed to by a number. -/
def resolve? (t : Tables σ κ) (id : Exit.VcpuId) : Option Nat := t.slots[id]?.join

def context? (t : Tables σ κ) (id : Exit.VcpuId) : Option κ := t.contexts.lookup id

def modifyVcpu (t : Tables σ κ) (place : Nat) (f : Vcpu → Vcpu) : Tables σ κ :=
  {t with vcpus := t.vcpus.modify place fun v => {v with vcpu := f v.vcpu}}

def setMemory (t : Tables σ κ) (place : Nat) (memory : σ) : Tables σ κ :=
  {t with vcpus := t.vcpus.modify place fun v => {v with memory}}

def modifyContext (t : Tables σ κ) (id : Exit.VcpuId) (f : κ → κ) : Tables σ κ :=
  {t with contexts := t.contexts.map fun x => if x.1 = id then (x.1, f x.2) else x}

/-- Exits are no longer routed by a number. -/
def unregister (t : Tables σ κ) (id : Exit.VcpuId) : Tables σ κ := {t with slots := t.slots.set id none}

/-- Where the next vCPU is put. Once the numbers have come round, it takes the place of the one
that has had its number before, of which no more is kept. -/
def nextPlace (t : Tables σ κ) : Nat := min t.nextId t.vcpus.length

/-- Takes the next number, and registers a new vCPU by it. A context that is there for the
number stays; else a new one is added. -/
def enroll (handler : Handler σ) (memory : σ) (context : κ) (t : Tables σ κ) : Tables σ κ :=
  let id := t.nextId
  let place := t.nextPlace
  let v : Resident σ := {id, handler, memory}
  { vcpus := if place < t.vcpus.length then t.vcpus.set place v else t.vcpus ++ [v]
    slots := (t.slots ++ [none]).set id (some place)
    contexts := if (t.context? id).isSome then t.contexts else t.contexts ++ [(id, context)] }

theorem resolve?_unregister (t : Tables σ κ) (id other : Exit.VcpuId) :
    (t.unregister id).resolve? other = if id = other then none else t.resolve? other := by
  rw [resolve?, resolve?, unregister, List.getElem?_set]
  split
  next hother =>
    subst hother
    split
    · rfl
    · rfl
  next => rfl

@[simp] theorem length_slots_enroll (t : Tables σ κ) (handler : Handler σ) (memory : σ) (context : κ) :
    (t.enroll handler memory context).slots.length = t.slots.length + 1 := by
  simp [enroll]

/-! ### In step -/

/-- The tables are in step: each number that has been given out has one vCPU, which carries it
and has the place of that number, and one context; and what the registry routes by a number
goes to its vCPU. -/
structure InStep (t : Tables σ κ) : Prop where
  vcpus : t.vcpus.map (·.id) = List.range t.given
  contexts : t.contexts.map Prod.fst = List.range t.given
  slots : ∀ id place, t.resolve? id = some place → place = id ∧ id < t.given

/-- Keys that count from a number on are found at their places. -/
theorem lookup_of_keys {l : List (Nat × κ)} {first n : Nat} (h : l.map Prod.fst = List.range' first n) (id : Nat) :
    l.lookup id = if first ≤ id then l[id - first]?.map Prod.snd else none := by
  induction l generalizing first n with
  | nil => simp
  | cons x rest ih =>
    obtain ⟨key, c⟩ := x
    cases n with
    | zero => cases h
    | succ n =>
      rw [List.range'_succ, List.map_cons] at h
      obtain ⟨rfl, hrest⟩ := List.cons.inj h
      rw [List.lookup_cons, ih hrest]
      dsimp only
      rcases Nat.lt_trichotomy id key with hlt | rfl | hgt
      · rw [beq_false_of_ne (Nat.ne_of_lt hlt), if_neg (by omega), if_neg (by omega)]
      · simp
      · obtain ⟨k, rfl⟩ : ∃ k, id = key + 1 + k := ⟨id - (key + 1), by omega⟩
        rw [beq_false_of_ne (Nat.ne_of_gt hgt), if_pos (by omega), if_pos (by omega),
          show key + 1 + k - key = k + 1 by omega, show key + 1 + k - (key + 1) = k by omega, List.getElem?_cons_succ]

/-- A change of one entry that keeps a part of it keeps that part of the list. -/
theorem map_modify_of_eq {α β : Type} {f : α → α} {g : α → β} (h : ∀ a, g (f a) = g a) (l : List α) (i : Nat) :
    (l.modify i f).map g = l.map g := by
  refine List.ext_getElem? fun j => ?_
  rw [List.getElem?_map, List.getElem?_map, List.getElem?_modify]
  cases l[j]? with
  | none => rfl
  | some a =>
    show some (g (if i = j then f a else a)) = some (g a)
    split
    · rw [h]
    · rfl

namespace InStep
variable {t : Tables σ κ}

theorem begin : InStep ({} : Tables σ κ) := ⟨rfl, rfl, nofun⟩

theorem vcpus_length (h : t.InStep) : t.vcpus.length = t.given := by
  simpa using congrArg List.length h.vcpus

theorem contexts_length (h : t.InStep) : t.contexts.length = t.given := by
  simpa using congrArg List.length h.contexts

/-- A vCPU has the place of its number. -/
theorem id_eq (h : t.InStep) {place : Nat} {v : Resident σ} (hv : t.vcpus[place]? = some v) : v.id = place := by
  have hid := congrArg (·[place]?) h.vcpus
  simp only [List.getElem?_map, hv, Option.map_some] at hid
  obtain ⟨hlt, hplace⟩ := List.getElem?_eq_some_iff.mp hid.symm
  rw [← hplace, List.getElem_range]

theorem context?_eq (h : t.InStep) (id : Exit.VcpuId) : t.context? id = t.contexts[id]?.map Prod.snd := by
  have hkeys : t.contexts.map Prod.fst = List.range' 0 t.given := by rw [h.contexts, List.range_eq_range']
  rw [context?, lookup_of_keys hkeys, if_pos (Nat.zero_le _), Nat.sub_zero]

theorem key_eq (h : t.InStep) {place : Nat} {x : Exit.VcpuId × κ} (hx : t.contexts[place]? = some x) :
    x.1 = place := by
  have hid := congrArg (·[place]?) h.contexts
  simp only [List.getElem?_map, hx, Option.map_some] at hid
  obtain ⟨hlt, hplace⟩ := List.getElem?_eq_some_iff.mp hid.symm
  rw [← hplace, List.getElem_range]

/-! Every operation on the tables keeps them in step. -/

theorem modifyVcpu (h : t.InStep) (place : Nat) (f : Vcpu → Vcpu) : (t.modifyVcpu place f).InStep := by
  refine ⟨Eq.trans ?_ h.vcpus, h.contexts, h.slots⟩
  refine map_modify_of_eq ?_ t.vcpus place
  exact fun _ => rfl

theorem setMemory (h : t.InStep) (place : Nat) (memory : σ) : (t.setMemory place memory).InStep := by
  refine ⟨Eq.trans ?_ h.vcpus, h.contexts, h.slots⟩
  refine map_modify_of_eq ?_ t.vcpus place
  exact fun _ => rfl

theorem modifyContext (h : t.InStep) (id : Exit.VcpuId) (f : κ → κ) : (t.modifyContext id f).InStep := by
  refine ⟨h.vcpus, ?_, h.slots⟩
  rw [← show t.contexts.map Prod.fst = List.range (t.modifyContext id f).given from h.contexts, Tables.modifyContext,
    List.map_map]
  refine congrArg (List.map · _) (funext fun x => ?_)
  dsimp only [Function.comp]
  split <;> rfl

theorem unregister (h : t.InStep) (id : Exit.VcpuId) : (t.unregister id).InStep := by
  have hgiven : (t.unregister id).given = t.given := by simp [Tables.unregister, given]
  refine ⟨h.vcpus.trans (congrArg _ hgiven.symm), h.contexts.trans (congrArg _ hgiven.symm),
    fun other place hplace => ?_⟩
  rw [resolve?_unregister] at hplace
  split at hplace
  · cases hplace
  · exact hgiven.symm ▸ h.slots other place hplace

/-- As long as there are numbers left, a new vCPU gets a place, a slot and a context of its own. -/
theorem enroll_eq (h : t.InStep) (hroom : t.slots.length < UInt32.size) (handler : Handler σ) (memory : σ)
    (context : κ) :
    t.enroll handler memory context =
      { vcpus := t.vcpus ++ [{id := t.slots.length, handler, memory}]
        slots := t.slots ++ [some t.slots.length]
        contexts := t.contexts ++ [(t.slots.length, context)] } := by
  have hgiven : t.given = t.slots.length := Nat.min_eq_left (Nat.le_of_lt hroom)
  have hid : t.nextId = t.slots.length := Nat.mod_eq_of_lt hroom
  have hvcpus : t.vcpus.length = t.slots.length := h.vcpus_length.trans hgiven
  have hnone : t.context? t.slots.length = none := by
    rw [h.context?_eq, List.getElem?_eq_none (Nat.le_of_eq (h.contexts_length.trans hgiven)), Option.map_none]
  have hslots : (t.slots ++ [none]).set t.slots.length (some t.slots.length) = t.slots ++ [some t.slots.length] := by
    rw [List.set_append_right _ _ (Nat.le_refl _), Nat.sub_self]
    rfl
  simp [Tables.enroll, nextPlace, hid, hvcpus, hnone, hslots]

/-- Once the numbers have come round, a new vCPU takes the place and the slot of its number. -/
theorem enroll_wrapped (h : t.InStep) (hfull : UInt32.size ≤ t.slots.length) (handler : Handler σ) (memory : σ)
    (context : κ) :
    t.enroll handler memory context =
      { vcpus := t.vcpus.set t.nextId {id := t.nextId, handler, memory}
        slots := t.slots.set t.nextId (some t.nextId) ++ [none]
        contexts := t.contexts } := by
  have hgiven : t.given = UInt32.size := Nat.min_eq_right hfull
  have hid : t.nextId < t.given := hgiven ▸ Nat.mod_lt _ (by decide)
  have hsome : (t.context? t.nextId).isSome = true := by
    rw [h.context?_eq, Option.isSome_map, List.getElem?_eq_getElem (h.contexts_length ▸ hid), Option.isSome_some]
  have hslot : t.nextId < t.slots.length := Nat.lt_of_lt_of_le hid (Nat.min_le_left ..)
  have hplace : t.nextPlace = t.nextId := Nat.min_eq_left (h.vcpus_length ▸ Nat.le_of_lt hid)
  simp [Tables.enroll, hplace, h.vcpus_length, hid, hsome, List.set_append_left _ _ hslot]

/-- Exits are routed to a new vCPU by the next number. -/
theorem resolve?_enroll (h : t.InStep) (handler : Handler σ) (memory : σ) (context : κ) (id : Exit.VcpuId) :
    (t.enroll handler memory context).resolve? id = if id = t.nextId then some id else t.resolve? id := by
  rcases Nat.lt_or_ge t.slots.length UInt32.size with hroom | hfull
  · rw [resolve?, h.enroll_eq hroom, nextId, Nat.mod_eq_of_lt hroom]
    dsimp only
    rcases Nat.lt_trichotomy id t.slots.length with hlt | rfl | hgt
    · rw [List.getElem?_append_left hlt, if_neg (Nat.ne_of_lt hlt)]
      rfl
    · rw [List.getElem?_concat_length, if_pos rfl]
      rfl
    · rw [List.getElem?_eq_none (by simp; omega), if_neg (Nat.ne_of_gt hgt), resolve?,
        List.getElem?_eq_none (Nat.le_of_lt hgt)]
  · have hnext : t.nextId < t.slots.length := Nat.lt_of_lt_of_le (Nat.mod_lt _ (by decide)) hfull
    rw [resolve?, h.enroll_wrapped hfull]
    dsimp only
    rcases Nat.lt_or_ge id t.slots.length with hlt | hge
    · rw [List.getElem?_append_left (by rwa [List.length_set])]
      by_cases hid : id = t.nextId
      · rw [if_pos hid, hid, List.getElem?_set_self hnext]
        rfl
      · rw [if_neg hid, List.getElem?_set_ne (Ne.symm hid)]
        rfl
    · rw [List.getElem?_append_right (by rwa [List.length_set]),
        if_neg (Nat.ne_of_gt (Nat.lt_of_lt_of_le hnext hge)), resolve?, List.getElem?_eq_none hge,
        List.getElem?_singleton]
      split
      · rfl
      · rfl

theorem enroll (h : t.InStep) (handler : Handler σ) (memory : σ) (context : κ) :
    (t.enroll handler memory context).InStep := by
  have hadded : (t.enroll handler memory context).given = min (t.slots.length + 1) UInt32.size := by
    rw [given, length_slots_enroll]
  have hslots : ∀ id place, (t.enroll handler memory context).resolve? id = some place →
      place = id ∧ id < (t.enroll handler memory context).given := by
    intro id place hplace
    rw [hadded]
    rw [h.resolve?_enroll] at hplace
    split at hplace
    next hid =>
      rw [hid] at hplace ⊢
      exact ⟨(Option.some.inj hplace).symm,
        Nat.lt_min.mpr ⟨Nat.lt_succ_of_le (Nat.mod_le ..), Nat.mod_lt _ (by decide)⟩⟩
    next =>
      obtain ⟨hid, hlt⟩ := h.slots id place hplace
      exact ⟨hid, Nat.lt_min.mpr ⟨Nat.lt_succ_of_lt (Nat.lt_min.mp hlt).1, (Nat.lt_min.mp hlt).2⟩⟩
  rcases Nat.lt_or_ge t.slots.length UInt32.size with hroom | hfull
  · have hgiven : t.given = t.slots.length := Nat.min_eq_left (Nat.le_of_lt hroom)
    rw [Nat.min_eq_left hroom] at hadded
    refine ⟨?_, ?_, hslots⟩
    · rw [hadded, h.enroll_eq hroom, List.map_append, h.vcpus, hgiven, List.range_succ]
      rfl
    · rw [hadded, h.enroll_eq hroom, List.map_append, h.contexts, hgiven, List.range_succ]
      rfl
  · have hgiven : t.given = UInt32.size := Nat.min_eq_right hfull
    have hid : t.nextId < t.given := hgiven ▸ Nat.mod_lt _ (by decide)
    rw [Nat.min_eq_right (Nat.le_succ_of_le hfull), ← hgiven] at hadded
    refine ⟨?_, ?_, hslots⟩
    · rw [hadded, h.enroll_wrapped hfull, List.map_set, h.vcpus]
      refine List.ext_getElem? fun i => ?_
      rw [List.getElem?_set, List.length_range, if_pos hid]
      split
      next hi => rw [← hi, List.getElem?_range hid]
      next => rfl
    · rw [hadded, h.enroll_wrapped hfull]
      exact h.contexts

end InStep

end Tables

end GuestMachine
