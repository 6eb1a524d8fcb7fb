import GuestMachine.Machine.Seats

/-! Tables and seats.

The tables of a machine can be told from its seats (`ext_seats`), and each operation on a
table changes one seat (`modifyVcpu_eq` and the lemmas after it). So a change of a machine is
reasoned about as a change of one seat (`modify`); the laws of such changes are at the end.
That a vCPU is found where the badge of its exits leads to (`resolve?_make`) is owed to the
tables being in step. -/
namespace GuestMachine

theorem modify_append_length {α : Type} (l : List α) (a : α) (f : α → α) :
    (l ++ [a]).modify l.length f = l ++ [f a] := by
  induction l with
  | nil => rfl
  | cons b l ih => exact congrArg (b :: ·) ih

namespace Tables
variable {σ κ : Type}

/-- The tables of seats, after a number of calls to create them. -/
def ofSeats (calls : Nat) (l : List (Seat σ κ)) : Tables σ κ where
  vcpus := l.zipIdx.map fun x => x.1.resident x.2
  slots := (l.zipIdx.map fun x => if x.1.registered then some x.2 else none) ++ List.replicate (calls - l.length) none
  contexts := l.zipIdx.map fun x => (x.2, x.1.context)

theorem length_ofSeats {calls : Nat} {l : List (Seat σ κ)} (h : l.length ≤ calls) :
    (ofSeats calls l).slots.length = calls := by
  simp [ofSeats, h]

theorem given_ofSeats {calls : Nat} {l : List (Seat σ κ)} (h : l.length = min calls UInt32.size) :
    (ofSeats calls l).given = l.length := by
  rw [given, length_ofSeats (h ▸ Nat.min_le_left ..), h]

theorem resolve?_ofSeats (calls : Nat) (l : List (Seat σ κ)) (id : Exit.VcpuId) :
    (ofSeats calls l).resolve? id = (l[id]?.filter (·.registered)).map fun _ => id := by
  rw [resolve?, ofSeats]
  dsimp only
  rcases Nat.lt_or_ge id l.length with hlt | hge
  · rw [List.getElem?_append_left (by simpa), List.getElem?_map, List.getElem?_zipIdx]
    cases l[id]? with
    | none => rfl
    | some s =>
      cases hreg : s.registered with
      | true => simp [hreg, Option.filter_some]
      | false => simp [hreg, Option.filter_some]
  · rw [List.getElem?_append_right (by simpa), List.getElem?_replicate, List.getElem?_eq_none hge]
    split
    · rfl
    · rfl

theorem inStep_ofSeats {calls : Nat} {l : List (Seat σ κ)} (h : l.length = min calls UInt32.size) :
    (ofSeats calls l).InStep := by
  refine ⟨?_, ?_, fun id place hplace => ?_⟩
  · rw [given_ofSeats h, ofSeats, List.map_map]
    exact (List.zipIdx_map_snd 0 l).trans List.range_eq_range'.symm
  · rw [given_ofSeats h, ofSeats, List.map_map]
    exact (List.zipIdx_map_snd 0 l).trans List.range_eq_range'.symm
  · rw [given_ofSeats h]
    rw [resolve?_ofSeats] at hplace
    obtain ⟨s, hs, rfl⟩ := Option.map_eq_some_iff.mp hplace
    exact ⟨rfl, (List.getElem?_eq_some_iff.mp (Option.filter_eq_some_iff.mp hs).1).1⟩

theorem seats_ofSeats (calls : Nat) (l : List (Seat σ κ)) : (ofSeats calls l).seats = l := by
  refine List.ext_getElem? fun i => ?_
  rw [seats, List.getElem?_zipWith]
  simp only [resolve?_ofSeats]
  simp only [ofSeats, List.getElem?_map, List.getElem?_zipIdx]
  cases hs : l[i]? with
  | none => rfl
  | some s => simp [hs, Seat.resident]

/-- What the tables have for a number. -/
theorem seat_eq (t : Tables σ κ) (id : Exit.VcpuId) :
    t.seats[id]? = (t.vcpus[id]?).bind fun v => (t.contexts[id]?).map fun x =>
      { vcpu := v.vcpu, handler := v.handler, memory := v.memory
        registered := (t.resolve? v.id).isSome, context := x.2 } := by
  rw [seats, List.getElem?_zipWith]
  cases t.vcpus[id]? with
  | none => rfl
  | some v =>
    cases t.contexts[id]? with
    | none => rfl
    | some x => rfl

section InStep
variable {t : Tables σ κ}

theorem InStep.seats_length (h : t.InStep) : t.seats.length = t.given := by
  rw [seats, List.length_zipWith, h.vcpus_length, h.contexts_length, Nat.min_self]

/-- The registry routes a number to its vCPU or nowhere. -/
theorem InStep.resolve?_eq (h : t.InStep) (id : Exit.VcpuId) :
    t.resolve? id = (t.seats[id]?.filter (·.registered)).map fun _ => id := by
  cases hplace : t.resolve? id with
  | none =>
    rw [eq_comm, Option.map_eq_none_iff, Option.filter_eq_none_iff, seat_eq]
    intro s hs
    obtain ⟨v, hv, hs⟩ := Option.bind_eq_some_iff.mp hs
    obtain ⟨x, _, rfl⟩ := Option.map_eq_some_iff.mp hs
    simp [h.id_eq hv, hplace]
  | some place =>
    obtain ⟨rfl, hid⟩ := h.slots id place hplace
    have hv : ∃ v, t.vcpus[place]? = some v := ⟨_, List.getElem?_eq_getElem (h.vcpus_length ▸ hid)⟩
    have hx : ∃ x, t.contexts[place]? = some x := ⟨_, List.getElem?_eq_getElem (h.contexts_length ▸ hid)⟩
    obtain ⟨v, hv⟩ := hv
    obtain ⟨x, hx⟩ := hx
    simp [seat_eq, hv, hx, h.id_eq hv, hplace, Option.filter_some]

theorem InStep.vcpu?_eq (h : t.InStep) (place : Nat) : t.vcpus[place]? = t.seats[place]?.map (·.resident place) := by
  rw [seat_eq]
  cases hv : t.vcpus[place]? with
  | none => rfl
  | some v =>
    have hid := (List.getElem?_eq_some_iff.mp hv).1
    rw [h.vcpus_length, ← h.contexts_length] at hid
    obtain rfl : place = v.id := (h.id_eq hv).symm
    simp [List.getElem?_eq_getElem hid, Seat.resident]

theorem InStep.contexts_eq (h : t.InStep) (place : Nat) :
    t.contexts[place]? = t.seats[place]?.map fun s => (place, s.context) := by
  rw [seat_eq]
  cases hx : t.contexts[place]? with
  | none => cases t.vcpus[place]? <;> rfl
  | some x =>
    have hid := (List.getElem?_eq_some_iff.mp hx).1
    rw [h.contexts_length, ← h.vcpus_length] at hid
    rw [List.getElem?_eq_getElem hid]
    exact congrArg some (Prod.ext (h.key_eq hx) rfl)

/-- Tables that are in step are those of their seats. -/
theorem InStep.ofSeats_seats (h : t.InStep) : ofSeats t.slots.length t.seats = t := by
  have hvcpus : (ofSeats t.slots.length t.seats).vcpus = t.vcpus := List.ext_getElem? fun i => by
    simp [ofSeats, h.vcpu?_eq, List.getElem?_zipIdx, Function.comp_def]
  have hcontexts : (ofSeats t.slots.length t.seats).contexts = t.contexts := List.ext_getElem? fun i => by
    simp [ofSeats, h.contexts_eq, List.getElem?_zipIdx, Function.comp_def]
  have hlength : t.seats.length ≤ t.slots.length := h.seats_length ▸ Nat.min_le_left ..
  have hslots : (ofSeats t.slots.length t.seats).slots = t.slots := List.ext_getElem? fun i => by
    have hresolve := (resolve?_ofSeats t.slots.length t.seats i).trans (h.resolve?_eq i).symm
    rw [resolve?, resolve?] at hresolve
    rcases Nat.lt_or_ge i t.slots.length with hlt | hge
    · rw [List.getElem?_eq_getElem hlt, List.getElem?_eq_getElem (by rwa [length_ofSeats hlength])] at *
      exact congrArg some hresolve
    · rw [List.getElem?_eq_none hge, List.getElem?_eq_none (by rwa [length_ofSeats hlength])]
  exact Tables.ext hvcpus hslots hcontexts

/-! Each operation on a table changes one seat. -/

theorem seats_modifyVcpu (t : Tables σ κ) (place : Nat) (f : Vcpu → Vcpu) :
    (t.modifyVcpu place f).seats = t.seats.modify place fun s => {s with vcpu := f s.vcpu} := by
  refine List.ext_getElem? fun i => ?_
  rw [List.getElem?_modify, seat_eq, seat_eq]
  simp only [modifyVcpu, List.getElem?_modify]
  cases t.vcpus[i]? with
  | none => rfl
  | some v =>
    cases t.contexts[i]? with
    | none => rfl
    | some x =>
      by_cases hi : place = i
      · simp [hi, resolve?]
      · simp [hi, resolve?]

theorem seats_setMemory (t : Tables σ κ) (place : Nat) (memory : σ) :
    (t.setMemory place memory).seats = t.seats.modify place fun s => {s with memory} := by
  refine List.ext_getElem? fun i => ?_
  rw [List.getElem?_modify, seat_eq, seat_eq]
  simp only [setMemory, List.getElem?_modify]
  cases t.vcpus[i]? with
  | none => rfl
  | some v =>
    cases t.contexts[i]? with
    | none => rfl
    | some x =>
      by_cases hi : place = i
      · simp [hi, resolve?]
      · simp [hi, resolve?]

theorem InStep.seats_modifyContext (h : t.InStep) (id : Exit.VcpuId) (f : κ → κ) :
    (t.modifyContext id f).seats = t.seats.modify id fun s => {s with context := f s.context} := by
  refine List.ext_getElem? fun i => ?_
  rw [List.getElem?_modify, seat_eq, seat_eq]
  simp only [Tables.modifyContext, List.getElem?_map]
  cases t.vcpus[i]? with
  | none => rfl
  | some v =>
    cases hx : t.contexts[i]? with
    | none => rfl
    | some x =>
      have hkey := h.key_eq hx
      by_cases hi : id = i
      · simp [hi, hkey, resolve?]
      · simp [hi, hkey, Ne.symm hi, resolve?]

theorem InStep.seats_unregister (h : t.InStep) (id : Exit.VcpuId) :
    (t.unregister id).seats = t.seats.modify id fun s => {s with registered := false} := by
  refine List.ext_getElem? fun i => ?_
  rw [List.getElem?_modify, seat_eq, seat_eq]
  simp only [resolve?_unregister]
  simp only [Tables.unregister]
  cases hv : t.vcpus[i]? with
  | none => rfl
  | some v =>
    have hid := h.id_eq hv
    cases t.contexts[i]? with
    | none => rfl
    | some x =>
      by_cases hi : id = i
      · simp [hi, hid]
      · simp [hi, hid]

theorem InStep.seats_enroll (h : t.InStep) (hroom : t.slots.length < UInt32.size) (handler : Handler σ) (memory : σ)
    (context : κ) : (t.enroll handler memory context).seats =
      t.seats ++ [{handler := handler, memory := memory, context := context}] := by
  have hgiven : t.given = t.slots.length := Nat.min_eq_left (Nat.le_of_lt hroom)
  have hseats : t.seats.length = t.slots.length := h.seats_length.trans hgiven
  have hvcpus : t.vcpus.length = t.slots.length := h.vcpus_length.trans hgiven
  have hcontexts : t.contexts.length = t.slots.length := h.contexts_length.trans hgiven
  refine List.ext_getElem? fun i => ?_
  rw [seat_eq, h.enroll_eq hroom]
  dsimp only
  rcases Nat.lt_trichotomy i t.slots.length with hlt | rfl | hgt
  · rw [List.getElem?_append_left (hvcpus ▸ hlt), List.getElem?_append_left (hcontexts ▸ hlt),
      List.getElem?_append_left (hseats ▸ hlt), seat_eq]
    cases hv : t.vcpus[i]? with
    | none => rfl
    | some v =>
      have hid : v.id < t.slots.length := h.id_eq hv ▸ hlt
      simp [resolve?, List.getElem?_append_left hid]
  · rw [← hvcpus, List.getElem?_concat_length, hvcpus, ← hcontexts, List.getElem?_concat_length, hcontexts, ← hseats,
      List.getElem?_concat_length, hseats]
    simp [resolve?]
  · have hvcpus' : (t.vcpus ++ [({id := t.slots.length, handler, memory} : Resident σ)])[i]? = none :=
      List.getElem?_eq_none (by simp; omega)
    rw [hvcpus', Option.bind_none, List.getElem?_eq_none (by simp; omega)]

/-- As many slots are taken as seats are registered. -/
theorem InStep.countP_slots (h : t.InStep) : t.slots.countP (·.isSome) = t.seats.countP (·.registered) := by
  have hflags : ((fun slot : Option Nat => slot.isSome) ∘
      fun x : Seat σ κ × Nat => if x.1.registered then some x.2 else none) =
        (fun s : Seat σ κ => s.registered) ∘ Prod.fst := by
    refine funext fun x => ?_
    dsimp only [Function.comp]
    cases x.1.registered with
    | true => rfl
    | false => rfl
  calc t.slots.countP (·.isSome)
      = (ofSeats t.slots.length t.seats).slots.countP (·.isSome) := by rw [h.ofSeats_seats]
    _ = t.seats.zipIdx.countP ((fun s : Seat σ κ => s.registered) ∘ Prod.fst) := by
        rw [ofSeats, List.countP_append, List.countP_map, List.countP_replicate, hflags]
        rfl
    _ = t.seats.countP (·.registered) := by
        rw [← List.countP_map, List.zipIdx_map_fst]

end InStep

end Tables

namespace Machine
variable {σ κ φ : Type}

/-- The seat of a number whose vCPU takes exits and calls. -/
def find? (m : Machine σ κ φ) (id : Exit.VcpuId) : Option (Seat σ κ) := m.seats[id]?.filter (·.registered)

/-- A machine with other seats. -/
def withSeats (m : Machine σ κ φ) (l : List (Seat σ κ)) (h : l.length = m.seats.length) : Machine σ κ φ :=
  {m with
    tables := .ofSeats m.calls l
    inStep := Tables.inStep_ofSeats (h.trans m.inStep.seats_length) }

/-- A change of one seat. -/
def modify (m : Machine σ κ φ) (id : Exit.VcpuId) (f : Seat σ κ → Seat σ κ) : Machine σ κ φ :=
  m.withSeats (m.seats.modify id f) (List.length_modify ..)

/-- A machine with one more seat. -/
def append (m : Machine σ κ φ) (s : Seat σ κ) (h : m.HasRoom) : Machine σ κ φ where
  tables := .ofSeats (m.calls + 1) (m.seats ++ [s])
  inStep := by
    have hlength : m.seats.length = min m.calls UInt32.size := m.inStep.seats_length
    refine Tables.inStep_ofSeats ?_
    rw [List.length_append, List.length_singleton, hlength, Nat.min_eq_left (Nat.le_of_lt h), Nat.min_eq_left h]
  owned := m.owned
  shared := m.shared

/-- A machine is known by its seats. -/
theorem ext_seats {m m' : Machine σ κ φ} (hseats : m.seats = m'.seats) (hcalls : m.calls = m'.calls)
    (howned : m.owned = m'.owned) (hshared : m.shared = m'.shared) : m = m' := by
  have htables : m.tables = m'.tables := by
    rw [← m.inStep.ofSeats_seats, ← m'.inStep.ofSeats_seats]
    show Tables.ofSeats m.calls m.seats = Tables.ofSeats m'.calls m'.seats
    rw [hcalls, hseats]
  cases m
  cases m'
  cases htables
  cases howned
  cases hshared
  rfl

theorem seats_length (m : Machine σ κ φ) : m.seats.length = min m.calls UInt32.size := m.inStep.seats_length

theorem contexts_fst (m : Machine σ κ φ) : m.tables.contexts.map Prod.fst = List.range m.seats.length := by
  rw [m.inStep.contexts, m.inStep.seats_length.symm]
  rfl

/-- Numbers have 32 bits. -/
theorem lt_of_seat {m : Machine σ κ φ} {id : Exit.VcpuId} {s : Seat σ κ} (hs : m.seats[id]? = some s) :
    id < UInt32.size :=
  Nat.lt_of_lt_of_le (List.getElem?_eq_some_iff.mp hs).1 (m.seats_length ▸ Nat.min_le_right ..)

@[simp] theorem seats_modify (m : Machine σ κ φ) (id : Exit.VcpuId) (f : Seat σ κ → Seat σ κ) :
    (m.modify id f).seats = m.seats.modify id f := Tables.seats_ofSeats ..

@[simp] theorem calls_modify (m : Machine σ κ φ) (id : Exit.VcpuId) (f : Seat σ κ → Seat σ κ) :
    (m.modify id f).calls = m.calls := by
  refine Tables.length_ofSeats ?_
  rw [List.length_modify, m.seats_length]
  exact Nat.min_le_left ..

@[simp] theorem owned_modify (m : Machine σ κ φ) (id : Exit.VcpuId) (f : Seat σ κ → Seat σ κ) :
    (m.modify id f).owned = m.owned := rfl

@[simp] theorem shared_modify (m : Machine σ κ φ) (id : Exit.VcpuId) (f : Seat σ κ → Seat σ κ) :
    (m.modify id f).shared = m.shared := rfl

@[simp] theorem seats_append (m : Machine σ κ φ) (s : Seat σ κ) (h : m.HasRoom) :
    (m.append s h).seats = m.seats ++ [s] := Tables.seats_ofSeats ..

@[simp] theorem calls_append (m : Machine σ κ φ) (s : Seat σ κ) (h : m.HasRoom) :
    (m.append s h).calls = m.calls + 1 := by
  refine Tables.length_ofSeats ?_
  rw [List.length_append, List.length_singleton, m.seats_length]
  exact Nat.succ_le_succ (Nat.min_le_left ..)

/-! ### Tables and seats -/

theorem modifyVcpu_eq (m : Machine σ κ φ) (place : Nat) (f : Vcpu → Vcpu) :
    m.modifyVcpu place f = m.modify place fun s => {s with vcpu := f s.vcpu} :=
  ext_seats ((m.tables.seats_modifyVcpu place f).trans (m.seats_modify place _).symm)
    (m.calls_modify place _).symm rfl rfl

theorem setMemory_eq (m : Machine σ κ φ) (place : Nat) (memory : σ) :
    m.setMemory place memory = m.modify place fun s => {s with memory} :=
  ext_seats ((m.tables.seats_setMemory place memory).trans (m.seats_modify place _).symm)
    (m.calls_modify place _).symm rfl rfl

theorem modifyContext_eq (m : Machine σ κ φ) (id : Exit.VcpuId) (f : κ → κ) :
    m.modifyContext id f = m.modify id fun s => {s with context := f s.context} :=
  ext_seats ((m.inStep.seats_modifyContext id f).trans (m.seats_modify id _).symm) (m.calls_modify id _).symm rfl rfl

/-- A number that has been given out stays so. -/
@[simp] theorem calls_unregister (m : Machine σ κ φ) (id : Exit.VcpuId) : (m.unregister id).calls = m.calls :=
  List.length_set ..

theorem unregister_eq (m : Machine σ κ φ) (id : Exit.VcpuId) :
    m.unregister id = m.modify id fun s => {s with registered := false} := by
  refine ext_seats ((m.inStep.seats_unregister id).trans (m.seats_modify id _).symm) ?_ rfl rfl
  exact (m.calls_unregister id).trans (m.calls_modify id _).symm

theorem resolve?_unregister (m : Machine σ κ φ) (id other : Exit.VcpuId) :
    (m.unregister id).resolve? other = if id = other then none else m.resolve? other :=
  m.tables.resolve?_unregister id other

theorem resolve?_eq (m : Machine σ κ φ) (id : Exit.VcpuId) : m.resolve? id = (m.find? id).map fun _ => id :=
  m.inStep.resolve?_eq id

/-- The badge of an exit leads to the vCPU with the number that it was made of. -/
theorem resolve?_make {m : Machine σ κ φ} {id : Exit.VcpuId} {s : Seat σ κ} (hs : m.seats[id]? = some s)
    (r : Exit.Reason) : m.resolve? (Exit.Badge.make id r).vcpu = if s.registered then some id else none := by
  rw [Exit.Badge.vcpu_make_of_lt (lt_of_seat hs), resolve?_eq, find?, hs]
  cases hreg : s.registered with
  | true => simp [hreg, Option.filter_some]
  | false => simp [hreg, Option.filter_some]

theorem vcpu?_eq (m : Machine σ κ φ) (place : Nat) : m.vcpu? place = m.seats[place]?.map (·.resident place) :=
  m.inStep.vcpu?_eq place

theorem context?_eq (m : Machine σ κ φ) (id : Exit.VcpuId) : m.context? id = m.seats[id]?.map (·.context) := by
  rw [context?, m.inStep.context?_eq, m.inStep.contexts_eq, Option.map_map]
  rfl

theorem get?_eq (m : Machine σ κ φ) (id : Exit.VcpuId) : m.get? id = (m.find? id).map (·.resident id) := by
  rw [get?, resolve?_eq]
  cases hfind : m.find? id with
  | none => rfl
  | some s =>
    have hs : m.seats[id]? = some s := (Option.filter_eq_some_iff.mp hfind).1
    simp [vcpu?_eq, hs]

theorem get?_make {m : Machine σ κ φ} {id : Exit.VcpuId} {s : Seat σ κ} (hs : m.seats[id]? = some s)
    (r : Exit.Reason) : m.get? (Exit.Badge.make id r).vcpu = if s.registered then some (s.resident id) else none := by
  rw [get?, resolve?_make hs]
  split
  · rw [Option.bind_some, vcpu?_eq, hs, Option.map_some]
  · rfl

theorem editState_eq (m : Machine σ κ φ) (id : Exit.VcpuId) (f : Register.State → Register.State) :
    m.editState id f = match m.find? id with
      | none => (.error (.unknownVcpu id), m)
      | some _ => (.ok (), m.modify id fun s => {s with vcpu := {s.vcpu with state := f s.vcpu.state}}) := by
  rw [editState, resolve?_eq]
  cases m.find? id with
  | none => rfl
  | some s => exact congrArg _ (m.modifyVcpu_eq id _)

theorem registeredCount_eq (m : Machine σ κ φ) : m.registeredCount = m.seats.countP (·.registered) :=
  m.inStep.countP_slots

theorem nextId_eq {m : Machine σ κ φ} (h : m.HasRoom) : m.nextId = m.seats.length := by
  rw [seats_length, Nat.min_eq_left (Nat.le_of_lt h)]
  exact Nat.mod_eq_of_lt h

theorem nextPlace_eq (m : Machine σ κ φ) : m.nextPlace = m.nextId := by
  refine Nat.min_eq_left ?_
  rw [m.inStep.vcpus_length]
  exact Nat.le_min_of_le_of_le (Nat.mod_le ..) (Nat.le_of_lt (Nat.mod_lt _ (by decide)))

@[simp] theorem calls_enroll (m : Machine σ κ φ) (handler : Handler σ) (memory : σ) (context : κ) :
    (m.enroll handler memory context).calls = m.calls + 1 := m.tables.length_slots_enroll handler memory context

theorem enroll_eq {m : Machine σ κ φ} (h : m.HasRoom) (handler : Handler σ) (memory : σ) (context : κ) :
    m.enroll handler memory context = m.append {handler := handler, memory := memory, context := context} h := by
  refine ext_seats ?_ ?_ rfl rfl
  · rw [seats_append]
    exact m.inStep.seats_enroll h handler memory context
  · rw [calls_enroll, calls_append]

/-! ### Changes of seats -/

theorem seat_modify (m : Machine σ κ φ) (id : Exit.VcpuId) (f : Seat σ κ → Seat σ κ) :
    (m.modify id f).seats[id]? = m.seats[id]?.map f := by
  rw [seats_modify]
  exact List.getElem?_modify_eq f id m.seats

theorem seat_modify_of_some {m : Machine σ κ φ} {id : Exit.VcpuId} {s : Seat σ κ} (hs : m.seats[id]? = some s)
    (f : Seat σ κ → Seat σ κ) : (m.modify id f).seats[id]? = some (f s) := by
  rw [seat_modify, hs, Option.map_some]

theorem seat_modify_of_ne (m : Machine σ κ φ) {id other : Exit.VcpuId} (f : Seat σ κ → Seat σ κ)
    (h : id ≠ other) : (m.modify id f).seats[other]? = m.seats[other]? := by
  rw [seats_modify]
  exact List.getElem?_modify_ne f m.seats h

theorem modify_modify (m : Machine σ κ φ) (id : Exit.VcpuId) (f g : Seat σ κ → Seat σ κ) :
    (m.modify id f).modify id g = m.modify id (g ∘ f) :=
  ext_seats (by simp only [seats_modify, List.modify_modify_eq]) (by simp only [calls_modify]) rfl rfl

/-- Changes of two seats are made in either order. -/
theorem modify_comm (m : Machine σ κ φ) {id other : Exit.VcpuId} (h : id ≠ other) (f g : Seat σ κ → Seat σ κ) :
    (m.modify id f).modify other g = (m.modify other g).modify id f := by
  refine ext_seats (List.ext_getElem? fun i => ?_) (by simp only [calls_modify]) rfl rfl
  simp only [seats_modify, List.getElem?_modify]
  by_cases hi : id = i
  · subst hi
    simp [h.symm]
  · simp [hi]

/-- Only what a function makes of the seat that is there counts. -/
theorem modify_congr {m : Machine σ κ φ} {id : Exit.VcpuId} {s : Seat σ κ} {f g : Seat σ κ → Seat σ κ}
    (hs : m.seats[id]? = some s) (h : f s = g s) : m.modify id f = m.modify id g := by
  refine ext_seats (List.ext_getElem? fun i => ?_) (by simp only [calls_modify]) rfl rfl
  rw [seats_modify, seats_modify, List.getElem?_modify, List.getElem?_modify]
  by_cases hi : id = i
  · subst hi
    simp [hs, h]
  · simp [hi]

theorem modify_id (m : Machine σ κ φ) (id : Exit.VcpuId) : m.modify id (fun s => s) = m :=
  ext_seats ((m.seats_modify id _).trans (List.modify_id id m.seats)) (m.calls_modify id _) rfl rfl

/-- Putting a seat back undoes a change. -/
theorem modify_back {m : Machine σ κ φ} {id : Exit.VcpuId} {s : Seat σ κ} (hs : m.seats[id]? = some s)
    (f : Seat σ κ → Seat σ κ) : (m.modify id f).modify id (fun _ => s) = m := by
  rw [modify_modify]
  exact (@modify_congr σ κ φ m id s ((fun _ => s) ∘ f) (fun s => s) hs rfl).trans (modify_id m id)

/-- A seat that is not there is not changed. -/
theorem modify_of_none {m : Machine σ κ φ} {id : Exit.VcpuId} (h : m.seats[id]? = none)
    (f : Seat σ κ → Seat σ κ) : m.modify id f = m := by
  refine ext_seats ?_ (m.calls_modify id f) rfl rfl
  rw [seats_modify, List.modify_eq_self (List.getElem?_eq_none_iff.mp h)]

/-- A change of the seat that has been added last. -/
theorem modify_append (m : Machine σ κ φ) (s : Seat σ κ) (h : m.HasRoom) (f : Seat σ κ → Seat σ κ) :
    (m.append s h).modify m.seats.length f = m.append (f s) h := by
  refine ext_seats ?_ (by simp only [calls_modify, calls_append]) rfl rfl
  rw [seats_modify, seats_append, seats_append, modify_append_length]

/-- A seat that is there is changed before or after another has been added. -/
theorem append_modify {m : Machine σ κ φ} {id : Exit.VcpuId} (hid : id < m.seats.length) (g : Seat σ κ → Seat σ κ)
    (s : Seat σ κ) (h : m.HasRoom) (h' : (m.modify id g).HasRoom) :
    (m.modify id g).append s h' = (m.append s h).modify id g := by
  refine ext_seats (List.ext_getElem? fun i => ?_) (by simp only [calls_modify, calls_append]) rfl rfl
  rw [seats_append, seats_modify, seats_modify, seats_append, List.getElem?_modify, List.getElem?_append,
    List.getElem?_append, List.length_modify, List.getElem?_modify]
  by_cases hi : id = i
  · subst hi
    rw [if_pos hid, if_pos hid]
  · split
    · rfl
    · simp

end Machine

end GuestMachine
