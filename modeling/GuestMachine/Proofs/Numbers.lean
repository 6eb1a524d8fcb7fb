import GuestMachine.Proofs.Reachable
import GuestMachine.Stepped.Hypervisor
import Mathlib.Data.List.Nodup

/-! The numbers of vCPUs.

A vCPU is found by its number through the registry, whose slots only grow in number; the
hypervisor has a context for the number, and the machine a list of the vCPUs that it owns. Over
any life of a machine, of creations and shutdowns in any order, these tables and the vCPUs
themselves stay in step (`Counted`): a creation takes the next number whether it succeeds or
not, and a vCPU is found by its number from its creation to the next shutdown (`lookups_exact`).

Numbers have 32 bits, and come round when all have been given out. What a creation returns is
known for any life; what is found by a number, for one that has not had more creations than
there are numbers.

All a hypervisor has to do for this is to leave the vCPUs and the registry to the machine
(`Orderly`); it may refuse portals, a start or a release. -/
namespace GuestMachine
open Register

variable {σ κ φ : Type}

/-! ### The roster -/

namespace Tables

/-- Where nothing is routed by a number, the registry has nothing to forget. -/
theorem slots_unregister_of_none {t : Tables σ κ} {id : Exit.VcpuId} (h : t.resolve? id = none) :
    (t.unregister id).slots = t.slots := by
  refine List.ext_getElem? fun i => ?_
  rw [show (t.unregister id).slots = t.slots.set id none from rfl, List.getElem?_set]
  split
  next hi =>
    subst hi
    split
    next hlt =>
      rw [resolve?, List.getElem?_eq_getElem hlt] at h
      rw [List.getElem?_eq_getElem hlt]
      exact congrArg some h.symm
    next hge => exact (List.getElem?_eq_none (Nat.le_of_not_lt hge)).symm
  next => rfl

/-- The slots are what is routed by the numbers. -/
theorem slots_eq (t : Tables σ κ) : t.slots = (List.range t.slots.length).map t.resolve? := by
  refine List.ext_getElem? fun i => ?_
  rw [List.getElem?_map]
  rcases Nat.lt_or_ge i t.slots.length with hlt | hge
  · rw [List.getElem?_range hlt, Option.map_some, resolve?, List.getElem?_eq_getElem hlt]
    rfl
  · rw [List.getElem?_eq_none hge, List.getElem?_eq_none (by simpa using hge), Option.map_none]

end Tables

namespace Machine

theorem handlers_eq (m : Machine σ κ φ) : m.tables.vcpus.map (·.handler) = m.seats.map (·.handler) :=
  List.ext_getElem? fun i => by
    rw [List.getElem?_map, List.getElem?_map, m.inStep.vcpu?_eq, Option.map_map]
    rfl

/-- Two machines have the same vCPUs and route exits to them by the same numbers, whatever these
have done in between. -/
structure SameRoster (m m' : Machine σ κ φ) : Prop where
  handlers : m'.tables.vcpus.map (·.handler) = m.tables.vcpus.map (·.handler)
  slots : m'.tables.slots = m.tables.slots
  owned : m'.owned = m.owned

namespace SameRoster
variable {m m' m'' : Machine σ κ φ}

theorem refl (m : Machine σ κ φ) : SameRoster m m := ⟨rfl, rfl, rfl⟩

theorem trans (h : SameRoster m m') (h' : SameRoster m' m'') : SameRoster m m'' :=
  ⟨h'.handlers.trans h.handlers, h'.slots.trans h.slots, h'.owned.trans h.owned⟩

theorem calls (h : SameRoster m m') : m'.calls = m.calls := congrArg List.length h.slots

theorem resolve? (h : SameRoster m m') (id : Exit.VcpuId) : m'.resolve? id = m.resolve? id :=
  congrArg (fun slots => slots[id]?.join) h.slots

end SameRoster

/-- What is done to one seat, without changing its handler or its registration. -/
theorem sameRoster_modify {m : Machine σ κ φ} {id : Exit.VcpuId} {f : Seat σ κ → Seat σ κ}
    (h : ∀ s, m.seats[id]? = some s → (f s).handler = s.handler ∧ (f s).registered = s.registered) :
    m.SameRoster (m.modify id f) := by
  have hseat : ∀ i : Nat, ((m.modify id f).seats[i]?).map (·.handler) = (m.seats[i]?).map (·.handler) ∧
      (m.modify id f).resolve? i = m.resolve? i := by
    intro i
    rw [resolve?_eq, resolve?_eq, find?, find?]
    by_cases hi : id = i
    · subst hi
      rw [seat_modify]
      cases hs : m.seats[id]? with
      | none => exact ⟨rfl, rfl⟩
      | some s =>
        obtain ⟨hhandler, hregistered⟩ := h s hs
        refine ⟨congrArg some hhandler, ?_⟩
        rw [Option.map_some, Option.filter_some, Option.filter_some, hregistered]
        split
        · rfl
        · rfl
    · rw [seat_modify_of_ne m f hi]
      exact ⟨rfl, rfl⟩
  refine ⟨?_, ?_, rfl⟩
  · rw [handlers_eq, handlers_eq]
    exact List.ext_getElem? fun i => by
      rw [List.getElem?_map, List.getElem?_map]
      exact (hseat i).1
  · rw [Tables.slots_eq, m.tables.slots_eq]
    have hcalls : (m.modify id f).tables.slots.length = m.tables.slots.length := m.calls_modify id f
    rw [hcalls]
    exact congrArg (List.map · _) (funext fun i => (hseat i).2)

theorem sameRoster_modifyContext (m : Machine σ κ φ) (id : Exit.VcpuId) (f : κ → κ) :
    m.SameRoster (m.modifyContext id f) := ⟨rfl, rfl, rfl⟩

theorem sameRoster_modifyVcpu (m : Machine σ κ φ) (place : Nat) (f : Vcpu → Vcpu) :
    m.SameRoster (m.modifyVcpu place f) := by
  refine ⟨Tables.map_modify_of_eq ?_ m.tables.vcpus place, rfl, rfl⟩
  exact fun _ => rfl

/-- Some numbers have been taken off the register, and all else is as before. -/
structure Unregistered (ids : List Exit.VcpuId) (m m' : Machine σ κ φ) : Prop where
  handlers : m'.tables.vcpus.map (·.handler) = m.tables.vcpus.map (·.handler)
  calls : m'.calls = m.calls
  owned : m'.owned = m.owned
  resolve? : ∀ id : Nat, m'.resolve? id = if id ∈ ids then none else m.resolve? id

end Machine

/-! ### Creation and destruction -/

namespace Hypervisor

/-- The hypervisor leaves the vCPUs and the registry to the machine. -/
structure Orderly (h : Hypervisor σ κ φ) : Prop where
  install : ∀ id slot mask (m : Machine σ κ φ), m.SameRoster (h.install id slot mask m).2
  start : ∀ id (m : Machine σ κ φ), m.SameRoster (h.start id m).2
  release : ∀ id (m : Machine σ κ φ), m.SameRoster (h.release id m).2

variable {h : Hypervisor σ κ φ}

theorem Orderly.installAll (ho : h.Orderly) (id : Exit.VcpuId) (l : List (Exit.Slot × Mask)) (m : Machine σ κ φ) :
    m.SameRoster (h.installAll id l m).2 := by
  induction l generalizing m with
  | nil => exact .refl m
  | cons x rest ih =>
    have hinstall := ho.install id x.1 x.2 m
    unfold Hypervisor.installAll
    split
    next m' heq =>
      rw [heq] at hinstall
      exact hinstall.trans (ih m')
    next e m' heq =>
      rw [heq] at hinstall
      exact hinstall

/-- A creation enrolls a vCPU by the next number. The machine owns the vCPU, and routes exits to
it, just if the creation has succeeded. -/
theorem Orderly.create (ho : h.Orderly) (handler : Handler σ) (memory : σ) (context : κ) (m : Machine σ κ φ) :
    ∃ m₂ : Machine σ κ φ, (m.enroll handler memory context).SameRoster m₂ ∧
      (h.create handler memory context m = (.ok m.nextId, {m₂ with owned := m₂.owned ++ [m.nextPlace]}) ∨
        ∃ e, h.create handler memory context m = (.error e, m₂.unregister m.nextId)) := by
  have hinstalled := ho.installAll m.nextId (Exit.plan handler.interest) (m.enroll handler memory context)
  unfold Hypervisor.create
  dsimp only
  cases hinstall : h.installAll m.nextId (Exit.plan handler.interest) (m.enroll handler memory context) with
  | mk installed m₁ =>
    rw [hinstall] at hinstalled
    cases installed with
    | error e => exact ⟨m₁, hinstalled, .inr ⟨e, rfl⟩⟩
    | ok _ =>
      have hstarted := ho.start m.nextId m₁
      cases hstart : h.start m.nextId m₁ with
      | mk started m₂ =>
        rw [hstart] at hstarted
        refine ⟨m₂, hinstalled.trans hstarted, ?_⟩
        cases started with
        | ok _ => exact .inl rfl
        | error e => exact .inr ⟨e, rfl⟩

/-- Exits are no longer routed to what is destroyed. -/
theorem Orderly.destroy (ho : h.Orderly) (place : Nat) (m : Machine σ κ φ) :
    (m.unregister place).SameRoster (h.destroy place m).2 := by
  unfold Hypervisor.destroy
  cases hv : m.vcpu? place with
  | none =>
    have hnone : m.resolve? place = none := by
      rw [Machine.vcpu?_eq, Option.map_eq_none_iff] at hv
      rw [Machine.resolve?_eq, Machine.find?, hv]
      rfl
    exact ⟨rfl, (Tables.slots_unregister_of_none hnone).symm, rfl⟩
  | some v =>
    -- The vCPU carries the number of its place.
    obtain rfl : v.id = place := m.inStep.id_eq hv
    exact (Machine.sameRoster_modifyVcpu (m.unregister v.id) v.id Vcpu.destroy).trans (ho.release v.id _)

theorem Orderly.destroyAll (ho : h.Orderly) (places : List Nat) (m : Machine σ κ φ) :
    m.Unregistered places (h.destroyAll places m).2 := by
  induction places generalizing m with
  | nil => exact ⟨rfl, rfl, rfl, fun _ => rfl⟩
  | cons place rest ih =>
    have hdestroy := ho.destroy place m
    obtain ⟨hhandlers, hcalls, howned, hresolve⟩ := ih (h.destroy place m).2
    refine ⟨hhandlers.trans hdestroy.handlers, (hcalls.trans hdestroy.calls).trans (m.calls_unregister place),
      howned.trans hdestroy.owned, fun id => (hresolve id).trans ?_⟩
    rw [hdestroy.resolve?, Machine.resolve?_unregister]
    by_cases hid : id = place
    · simp [hid]
    · simp [hid, Ne.symm hid]

theorem Orderly.shutdown (ho : h.Orderly) (m : Machine σ κ φ) :
    Machine.Unregistered m.owned {m with owned := []} (h.shutdown m).2 :=
  ho.destroyAll m.owned {m with owned := []}

/-- With nothing to destroy, a shutdown does nothing. -/
theorem shutdown_of_owned_nil (h : Hypervisor σ κ φ) {m : Machine σ κ φ} (howned : m.owned = []) :
    h.shutdown m = (.ok (), m) := by
  obtain ⟨tables, inStep, owned, shared⟩ := m
  subst howned
  rfl

end Hypervisor

/-! ### The life of a machine -/

/-- The life of a machine: the handlers of all creations so far, the numbers that those which
succeeded have returned, and those returned since the last shutdown. In between, whatever is
done to the machine leaves it the same vCPUs. -/
inductive Lifetime (h : Hypervisor σ κ φ) :
    List (Handler σ) → List Exit.VcpuId → List Exit.VcpuId → Machine σ κ φ → Prop where
  | begin (shared : φ) : Lifetime h [] [] [] {shared}
  | created {made : List (Handler σ)} {kept live : List Exit.VcpuId} {m m' : Machine σ κ φ}
    (hm : Lifetime h made kept live m) {handler : Handler σ} {memory : σ} {context : κ} {id : Exit.VcpuId}
    (hcreate : h.create handler memory context m = (.ok id, m')) :
    Lifetime h (made ++ [handler]) (kept ++ [id]) (live ++ [id]) m'
  | refused {made : List (Handler σ)} {kept live : List Exit.VcpuId} {m m' : Machine σ κ φ}
    (hm : Lifetime h made kept live m) {handler : Handler σ} {memory : σ} {context : κ} {e : Error}
    (hcreate : h.create handler memory context m = (.error e, m')) : Lifetime h (made ++ [handler]) kept live m'
  | shutdown {made : List (Handler σ)} {kept live : List Exit.VcpuId} {m : Machine σ κ φ}
    (hm : Lifetime h made kept live m) : Lifetime h made kept [] (h.shutdown m).2
  | between {made : List (Handler σ)} {kept live : List Exit.VcpuId} {m m' : Machine σ κ φ}
    (hm : Lifetime h made kept live m) (hsame : m.SameRoster m') : Lifetime h made kept live m'

/-- The registry has a slot for every creation, those that were refused included. -/
theorem Lifetime.calls {h : Hypervisor σ κ φ} (ho : h.Orderly) {made : List (Handler σ)} {kept live : List Exit.VcpuId}
    {m : Machine σ κ φ} (hm : Lifetime h made kept live m) : m.calls = made.length := by
  induction hm with
  | begin shared => rfl
  | @created _ _ _ m m' _ handler memory context id hcreate ih =>
    obtain ⟨m₂, hsame, hok | ⟨e, herror⟩⟩ := ho.create handler memory context m
    · obtain ⟨-, rfl⟩ := Prod.mk.inj (hok.symm.trans hcreate)
      show m₂.calls = _
      rw [hsame.calls, Machine.calls_enroll, ih, List.length_append, List.length_singleton]
    · cases herror.symm.trans hcreate
  | @refused _ _ _ m m' _ handler memory context e hcreate ih =>
    obtain ⟨m₂, hsame, hok | ⟨e, herror⟩⟩ := ho.create handler memory context m
    · cases hok.symm.trans hcreate
    · obtain ⟨-, rfl⟩ := Prod.mk.inj (herror.symm.trans hcreate)
      rw [Machine.calls_unregister, hsame.calls, Machine.calls_enroll, ih, List.length_append, List.length_singleton]
  | @shutdown _ _ _ m _ ih => exact (ho.shutdown m).calls.trans ih
  | between _ hsame ih => exact hsame.calls.trans ih

/-- The vCPUs, the registry and the list of what is owned are in step, as long as no number has
been given out twice. -/
structure Counted (made : List (Handler σ)) (kept live : List Exit.VcpuId) (m : Machine σ κ φ) : Prop where
  handlers : m.tables.vcpus.map (·.handler) = made
  routes : ∀ id : Nat, m.resolve? id = if id ∈ live then some id else none
  owned : m.owned = live
  rising : kept.Sublist (List.range made.length)
  recent : live <:+ kept

namespace Counted
variable {made : List (Handler σ)} {kept live : List Exit.VcpuId} {m m' : Machine σ κ φ}

theorem vcpus_length (hc : Counted made kept live m) : m.tables.vcpus.length = made.length := by
  rw [← hc.handlers, List.length_map]

theorem live_sublist (hc : Counted made kept live m) : live.Sublist (List.range made.length) :=
  hc.recent.sublist.trans hc.rising

theorem lt_of_mem (hc : Counted made kept live m) {id : Exit.VcpuId} (hid : id ∈ live) : id < made.length :=
  List.mem_range.mp (hc.live_sublist.subset hid)

/-- A number leads to the vCPU that carries it, with the handler that it was created for. -/
theorem get?_live (hc : Counted made kept live m) {id : Exit.VcpuId} (hid : id ∈ live) :
    ∃ v, m.get? id = some v ∧ v.id = id ∧ made[id]? = some v.handler := by
  obtain ⟨v, hv⟩ : ∃ v, m.tables.vcpus[id]? = some v :=
    ⟨_, List.getElem?_eq_getElem (hc.vcpus_length ▸ hc.lt_of_mem hid)⟩
  refine ⟨v, ?_, m.inStep.id_eq hv, ?_⟩
  · rw [Machine.get?, hc.routes, if_pos hid]
    exact hv
  · rw [← hc.handlers, List.getElem?_map, hv, Option.map_some]

/-- The hypervisor has a context for it. -/
theorem context?_live (hc : Counted made kept live m) {id : Exit.VcpuId} (hid : id ∈ live) :
    ∃ c, m.context? id = some c := by
  have hlt : id < m.tables.contexts.length := by
    rw [m.inStep.contexts_length, ← m.inStep.vcpus_length, hc.vcpus_length]
    exact hc.lt_of_mem hid
  refine ⟨m.tables.contexts[id].2, ?_⟩
  rw [Machine.context?, m.inStep.context?_eq, List.getElem?_eq_getElem hlt, Option.map_some]

/-- As many vCPUs are registered as are owned. -/
theorem registeredCount (hc : Counted made kept live m) (hcalls : m.calls = made.length) :
    m.registeredCount = live.length := by
  have hperm : ((List.range made.length).filter fun i => decide (i ∈ live)).Perm live := by
    refine (List.perm_ext_iff_of_nodup (List.nodup_range.filter _) (List.nodup_range.sublist hc.live_sublist)).mpr ?_
    intro i
    rw [List.mem_filter, decide_eq_true_eq, and_iff_right_iff_imp]
    exact fun hi => hc.live_sublist.subset hi
  have hslots : m.tables.slots = (List.range made.length).map fun id => if id ∈ live then some id else none := by
    rw [m.tables.slots_eq, show m.tables.slots.length = made.length from hcalls]
    exact congrArg (List.map · _) (funext hc.routes)
  calc m.registeredCount
      = (List.range made.length).countP fun i => decide (i ∈ live) := by
        rw [Machine.registeredCount, hslots, List.countP_map]
        refine congrArg (List.countP · _) (funext fun i => ?_)
        by_cases hi : i ∈ live
        · simp [hi]
        · simp [hi]
    _ = ((List.range made.length).filter fun i => decide (i ∈ live)).length := List.countP_eq_length_filter
    _ = live.length := hperm.length_eq

/-! Each event keeps the count. -/

theorem sameRoster (hc : Counted made kept live m) (hsame : m.SameRoster m') : Counted made kept live m' :=
  ⟨hsame.handlers.trans hc.handlers, fun id => (hsame.resolve? id).trans (hc.routes id), hsame.owned.trans hc.owned,
    hc.rising, hc.recent⟩

/-- A vCPU has been enrolled by the next number, and is routed to by it. -/
theorem enrolled (hc : Counted made kept live m) (hroom : made.length < UInt32.size) (hcalls : m.calls = made.length)
    (handler : Handler σ) (memory : σ) (context : κ) :
    m.nextId = made.length ∧ m.nextPlace = made.length ∧
      (m.enroll handler memory context).tables.vcpus.map (·.handler) = made ++ [handler] ∧
      ∀ id : Nat, (m.enroll handler memory context).resolve? id =
        if id ∈ live ++ [made.length] then some id else none := by
  have hroom : m.HasRoom := by rwa [Machine.HasRoom, hcalls]
  have hid : m.nextId = made.length := by
    rw [← hcalls]
    exact Nat.mod_eq_of_lt hroom
  refine ⟨hid, m.nextPlace_eq.trans hid, ?_, fun id => ?_⟩
  · show (m.tables.enroll handler memory context).vcpus.map (·.handler) = _
    rw [m.inStep.enroll_eq hroom, List.map_append, hc.handlers]
    rfl
  · show (m.tables.enroll handler memory context).resolve? id = _
    rw [m.inStep.resolve?_enroll, show m.tables.nextId = made.length from hid,
      show m.tables.resolve? id = _ from hc.routes id]
    by_cases hnew : id = made.length
    · simp [hnew]
    · simp [hnew]

theorem created (hc : Counted made kept live m) (hroom : made.length < UInt32.size) (hcalls : m.calls = made.length)
    {h : Hypervisor σ κ φ} (ho : h.Orderly) {handler : Handler σ} {memory : σ} {context : κ} {id : Exit.VcpuId}
    (hcreate : h.create handler memory context m = (.ok id, m')) :
    Counted (made ++ [handler]) (kept ++ [id]) (live ++ [id]) m' := by
  obtain ⟨m₂, hsame, hok | ⟨e, herror⟩⟩ := ho.create handler memory context m
  · obtain ⟨hid, hplace, hhandlers, hroutes⟩ := hc.enrolled hroom hcalls handler memory context
    obtain ⟨hresult, rfl⟩ := Prod.mk.inj (hok.symm.trans hcreate)
    obtain rfl : made.length = id := hid.symm.trans (Except.ok.inj hresult)
    refine ⟨hsame.handlers.trans hhandlers, fun id => (hsame.resolve? id).trans (hroutes id), ?_, ?_, ?_⟩
    · rw [hplace, hsame.owned]
      exact congrArg (· ++ [made.length]) hc.owned
    · rw [List.length_append, List.length_singleton, List.range_succ]
      exact hc.rising.append (.refl _)
    · obtain ⟨earlier, hearlier⟩ := hc.recent
      exact ⟨earlier, by rw [← List.append_assoc, hearlier]⟩
  · cases herror.symm.trans hcreate

theorem refused (hc : Counted made kept live m) (hroom : made.length < UInt32.size) (hcalls : m.calls = made.length)
    {h : Hypervisor σ κ φ} (ho : h.Orderly) {handler : Handler σ} {memory : σ} {context : κ} {e : Error}
    (hcreate : h.create handler memory context m = (.error e, m')) : Counted (made ++ [handler]) kept live m' := by
  obtain ⟨m₂, hsame, hok | ⟨e', herror⟩⟩ := ho.create handler memory context m
  · cases hok.symm.trans hcreate
  · obtain ⟨hid, -, hhandlers, hroutes⟩ := hc.enrolled hroom hcalls handler memory context
    obtain ⟨-, rfl⟩ := Prod.mk.inj (herror.symm.trans hcreate)
    have hnew : made.length ∉ live := fun hmem => Nat.lt_irrefl _ (hc.lt_of_mem hmem)
    refine ⟨hsame.handlers.trans hhandlers, fun i => ?_, hsame.owned.trans hc.owned, ?_, hc.recent⟩
    · rw [hid, Machine.resolve?_unregister, hsame.resolve?, hroutes]
      by_cases hi : made.length = i
      · subst hi
        simp [hnew]
      · simp [hi, Ne.symm hi]
    · rw [List.length_append, List.length_singleton, List.range_succ]
      exact hc.rising.trans (List.sublist_append_left ..)

theorem shutdown (hc : Counted made kept live m) {h : Hypervisor σ κ φ} (ho : h.Orderly) :
    Counted made kept [] (h.shutdown m).2 := by
  obtain ⟨hhandlers, -, howned, hresolve⟩ := ho.shutdown m
  refine ⟨hhandlers.trans hc.handlers, fun id => ?_, howned, hc.rising, List.nil_suffix⟩
  rw [hresolve, show Machine.resolve? {m with owned := []} id = _ from hc.routes id, hc.owned]
  by_cases hid : id ∈ live
  · simp [hid]
  · simp [hid]

end Counted

/-- A machine keeps count of its vCPUs, as long as there have not been more creations than
there are numbers. -/
theorem Lifetime.counted {h : Hypervisor σ κ φ} (ho : h.Orderly) {made : List (Handler σ)}
    {kept live : List Exit.VcpuId} {m : Machine σ κ φ} (hm : Lifetime h made kept live m)
    (hbound : made.length ≤ UInt32.size) : Counted made kept live m := by
  induction hm with
  | begin shared => exact ⟨rfl, fun _ => rfl, rfl, .refl _, List.suffix_rfl⟩
  | created hm hcreate ih =>
    rw [List.length_append, List.length_singleton] at hbound
    exact (ih (Nat.le_of_lt hbound)).created hbound (hm.calls ho) ho hcreate
  | refused hm hcreate ih =>
    rw [List.length_append, List.length_singleton] at hbound
    exact (ih (Nat.le_of_lt hbound)).refused hbound (hm.calls ho) ho hcreate
  | shutdown _ ih => exact (ih hbound).shutdown ho
  | between _ hsame ih => exact (ih hbound).sameRoster hsame

/-! ### Simulated machines

Every state of a simulated machine belongs to a life of it. Handlers may shut it down in
their work on an exit, which so is a shutdown among changes that leave the vCPUs alone. -/

namespace Simulated

theorem hypervisor_orderly : (@hypervisor σ).Orderly := by
  refine ⟨fun id slot mask m => Machine.sameRoster_modifyContext m id _, fun id m => ?_, fun id m => ?_⟩
  · show m.SameRoster (if m.shared.deferred then m else m.modifyContext id Context.launch)
    split
    · exact .refl m
    · exact Machine.sameRoster_modifyContext m id _
  · simp only [hypervisor]
    split
    · exact .refl m
    · exact Machine.sameRoster_modifyContext m id _

section Lives
variable {made : List (Handler σ)} {kept live : List Exit.VcpuId} {m m' : State σ}

theorem demand_sameRoster (step : Vcpu → Vcpu × Option Request) (id : Exit.VcpuId) (m : State σ) :
    m.SameRoster (hypervisor.demand step id m) := by
  rw [demand_eq]
  refine Machine.sameRoster_modify fun s _ => ?_
  unfold demanded
  split
  · exact ⟨rfl, rfl⟩
  · exact ⟨rfl, rfl⟩

theorem demandById_sameRoster (step : Nat → Vcpu → Vcpu × Option Request) (id : Exit.VcpuId) (m : State σ) :
    m.SameRoster (hypervisor.demandById step id m).2 := by
  rcases demandById_cases step id m with ⟨_, heq⟩ | heq
  · rw [heq]
    exact .refl m
  · rw [heq]
    exact demand_sameRoster (step id) id m

/-- The calls of a handler are part of a life. -/
theorem perform_lifetime (hm : Lifetime hypervisor made kept live m) (id : Exit.VcpuId) (c : Call) :
    ∃ live', Lifetime hypervisor made kept live' (hypervisor.perform id m c).2 := by
  cases c with
  | run => exact ⟨live, hm.between (demand_sameRoster (Vcpu.run true) id m)⟩
  | pause => exact ⟨live, hm.between (demand_sameRoster (Vcpu.pause true) id m)⟩
  | remoteRun => exact ⟨live, hm.between (demand_sameRoster (Vcpu.run false) id m)⟩
  | remotePause => exact ⟨live, hm.between (demand_sameRoster (Vcpu.pause false) id m)⟩
  | runVcpu target => exact ⟨live, hm.between (demandById_sameRoster (fun p => Vcpu.run (p == id)) target m)⟩
  | pauseVcpu target => exact ⟨live, hm.between (demandById_sameRoster (fun p => Vcpu.pause (p == id)) target m)⟩
  | shutdown => exact ⟨[], hm.shutdown⟩
  | probe => exact ⟨live, hm⟩

theorem exec_lifetime (hm : Lifetime hypervisor made kept live m) (id : Exit.VcpuId) (p : Program σ) :
    ∃ live', Lifetime hypervisor made kept live' (hypervisor.exec id p m).2 := by
  induction p generalizing m live with
  | done memory state failure => exact ⟨live, hm⟩
  | call c next ih =>
    obtain ⟨live', hperformed⟩ := perform_lifetime hm id c
    exact ih _ hperformed

/-- The steps of vCPUs are part of a life. -/
theorem moves_lifetime (hm : Lifetime hypervisor made kept live m) {id : Exit.VcpuId} (hmoves : Moves m id m') :
    ∃ live', Lifetime hypervisor made kept live' m' := by
  obtain ⟨s, hs, ⟨f, rfl, hsame⟩ | ⟨_, e, r, f, hhandler, hregistered, rfl⟩⟩ := moves_cases hmoves
  · refine ⟨live, hm.between (Machine.sameRoster_modify fun s' hs' => ?_)⟩
    cases hs.symm.trans hs'
    exact hsame
  · have hentered : m.SameRoster (m.modify id fun _ => e) := by
      refine Machine.sameRoster_modify fun s' hs' => ?_
      cases hs.symm.trans hs'
      exact ⟨hhandler, hregistered⟩
    obtain ⟨live', hworked⟩ := exec_lifetime (hm.between hentered) id (s.handler.handle s.memory e.vcpu.state)
    exact ⟨live', hworked.between (Machine.sameRoster_modify fun w _ =>
      ⟨concluded_handler .., concluded_registered ..⟩)⟩

/-- What is done from outside is part of a life, in which numbers are not given out twice. -/
theorem apply_lifetime (hm : Lifetime hypervisor made kept live m) (hbound : made.length ≤ UInt32.size)
    (o : Operation σ) :
    ∃ made' kept' live', Lifetime hypervisor made' kept' live' (o.apply m) ∧ made'.length ≤ UInt32.size := by
  cases o with
  | create handler memory =>
    by_cases hroom : m.HasRoom
    · have hcreate : hypervisor.create handler memory {} m =
          (.ok m.seats.length, (Operation.create handler memory).apply m) :=
        Prod.ext (by rw [create_eq hroom]) (by rw [Operation.apply, if_pos hroom])
      refine ⟨_, _, _, hm.created hcreate, ?_⟩
      rw [List.length_append, List.length_singleton, ← hm.calls hypervisor_orderly]
      exact hroom
    · rw [Operation.apply, if_neg hroom]
      exact ⟨_, _, _, hm, hbound⟩
  | run id => exact ⟨_, _, _, hm.between (demandById_sameRoster (fun _ => Vcpu.run false) id m), hbound⟩
  | pause id => exact ⟨_, _, _, hm.between (demandById_sameRoster (fun _ => Vcpu.pause false) id m), hbound⟩
  | edit id f =>
    refine ⟨_, _, _, hm.between ?_, hbound⟩
    show m.SameRoster (m.editState id f).2
    unfold Machine.editState
    split
    · exact .refl m
    · exact Machine.sameRoster_modifyVcpu m _ _
  | shutdown => exact ⟨_, _, _, hm.shutdown, hbound⟩
  | launch id | inject id r | forceExit id | setRegisters id f | setUnits id f | takeOutcome id =>
    exact ⟨_, _, _, hm.between (Machine.sameRoster_modifyContext m id _), hbound⟩

end Lives

theorem reachable_lifetime {m : State σ} (h : Reachable m) :
    ∃ made kept live, Lifetime hypervisor made kept live m ∧ made.length ≤ UInt32.size := by
  obtain ⟨deferred, hleads⟩ := h
  induction hleads with
  | refl => exact ⟨[], [], [], .begin _, Nat.zero_le _⟩
  | operation _ o ih =>
    obtain ⟨_, _, _, hm, hbound⟩ := ih
    exact apply_lifetime hm hbound o
  | step _ hstep ih =>
    obtain ⟨made, kept, _, hm, hbound⟩ := ih
    obtain ⟨live, hmoved⟩ := moves_lifetime hm hstep
    exact ⟨made, kept, live, hmoved, hbound⟩

/-- The vCPUs that are registered are those that the machine owns. -/
theorem reachable_counted {m : State σ} (h : Reachable m) : ∃ made kept, Counted made kept m.owned m := by
  obtain ⟨made, kept, live, hm, hbound⟩ := reachable_lifetime h
  have hc := hm.counted hypervisor_orderly hbound
  exact ⟨made, kept, hc.owned ▸ hc⟩

end Simulated

/-! ### A creation that is refused -/

namespace Stepped

/-- However it forces exits, the hypervisor that is stepped by hand leaves the registry alone. -/
theorem withForce_orderly (force : Exit.VcpuId → State σ → State σ) : (withForce force).Orderly := by
  refine ⟨fun id slot mask m => ?_, fun id m => ?_, fun id m => .refl m⟩
  · show m.SameRoster (install id slot mask m).2
    unfold install
    split
    · exact .refl m
    · exact Machine.sameRoster_modifyContext m id _
  · show m.SameRoster (start id m).2
    unfold start
    split
    · exact .refl m
    · exact Machine.sameRoster_modifyContext m id _

/-- A handler that does nothing, and declares no interest. -/
def silentHandler : Handler Unit := ⟨fun _ => none, fun memory state => .done memory state none⟩

/-- Has the hypervisor refuse to start vCPUs, or start them again. -/
def refusing (refusesStart : Bool) (m : State Unit) : State Unit :=
  {m with shared := {m.shared with refusesStart}}

/-- Creates a vCPU, which the hypervisor may refuse to start. -/
def creation (refusesStart : Bool) (m : State Unit) : Except Error Exit.VcpuId × State Unit :=
  (withForce flag).create silentHandler () {} (refusing refusesStart m)

theorem Lifetime.refusing {made : List (Handler Unit)} {kept live : List Exit.VcpuId} {m : State Unit}
    (hm : Lifetime (withForce flag) made kept live m) (refusesStart : Bool) :
    Lifetime (withForce flag) made kept live (refusing refusesStart m) := hm.between ⟨rfl, rfl, rfl⟩

/-- A machine whose first creation has been refused. -/
def refusedOnce : State Unit := (creation true {shared := {}}).2

theorem refusedOnce_lifetime : Lifetime (withForce flag) [silentHandler] [] [] refusedOnce := by
  have hrefused : (creation true {shared := {}}).1 = .error (.hypervisor "cannot start 0") := by decide +kernel
  have hcreate : creation true {shared := {}} = (.error (.hypervisor "cannot start 0"), refusedOnce) :=
    Prod.ext hrefused rfl
  have hbegun : Lifetime (withForce flag) [] [] [] (refusing true {shared := {}}) :=
    Lifetime.refusing (.begin {}) true
  exact .refused hbegun hcreate

theorem creation_lifetime {made : List (Handler Unit)} {kept live : List Exit.VcpuId} {m : State Unit}
    {id : Exit.VcpuId} (hm : Lifetime (withForce flag) made kept live m) (hid : (creation false m).1 = .ok id) :
    Lifetime (withForce flag) (made ++ [silentHandler]) (kept ++ [id]) (live ++ [id]) (creation false m).2 := by
  have hcreate : creation false m = (.ok id, (creation false m).2) := Prod.ext hid rfl
  exact .created (Lifetime.refusing hm false) hcreate

/-- The machine when another vCPU has been created, the machine shut down, and one more
created. -/
def recreated : State Unit := (creation false ((withForce flag).shutdown (creation false refusedOnce).2).2).2

theorem recreated_lifetime :
    Lifetime (withForce flag) [silentHandler, silentHandler, silentHandler] [1, 2] [2] recreated := by
  have hfirst : (creation false refusedOnce).1 = .ok 1 := by decide +kernel
  have hsecond : (creation false ((withForce flag).shutdown (creation false refusedOnce).2).2).1 = .ok 2 := by
    decide +kernel
  exact creation_lifetime (.shutdown (creation_lifetime refusedOnce_lifetime hfirst)) hsecond

end Stepped

/-! ### Lookups -/

namespace Hypervisor

/-- A number leads to a vCPU, which carries it, has a context and takes calls. -/
structure Finds (h : Hypervisor σ κ φ) (id : Exit.VcpuId) (m : Machine σ κ φ) (v : Resident σ) : Prop where
  found : m.get? id = some v
  carried : v.id = id
  context : ∃ c, m.context? id = some c
  run : (h.run id m).1 = .ok ()
  pause : (h.pause id m).1 = .ok ()
  state : m.state id = .ok v.vcpu.state

/-- A number leads nowhere, and calls by it do nothing. -/
structure Misses (h : Hypervisor σ κ φ) (id : Exit.VcpuId) (m : Machine σ κ φ) : Prop where
  found : m.get? id = none
  run : h.run id m = (.error (.unknownVcpu id), m)
  pause : h.pause id m = (.error (.unknownVcpu id), m)
  state : m.state id = .error (.unknownVcpu id)

theorem finds_of_get? (h : Hypervisor σ κ φ) {id : Exit.VcpuId} {m : Machine σ κ φ} {v : Resident σ}
    (hfound : m.get? id = some v) (hid : v.id = id) (hcontext : ∃ c, m.context? id = some c) : h.Finds id m v := by
  obtain ⟨place, hplace, -⟩ := Option.bind_eq_some_iff.mp hfound
  refine ⟨hfound, hid, hcontext, ?_, ?_, ?_⟩
  · rw [Hypervisor.run, demandById, hplace]
  · rw [Hypervisor.pause, demandById, hplace]
  · rw [Machine.state, hfound]

theorem misses_of_resolve? (h : Hypervisor σ κ φ) {id : Exit.VcpuId} {m : Machine σ κ φ}
    (hmissed : m.resolve? id = none) : h.Misses id m := by
  have hget : m.get? id = none := by rw [Machine.get?, hmissed, Option.bind_none]
  refine ⟨hget, ?_, ?_, ?_⟩
  · rw [Hypervisor.run, demandById, hmissed]
  · rw [Hypervisor.pause, demandById, hmissed]
  · rw [Machine.state, hget]

/-- **Numbers are given out in order, and lookups are exact.** In any life of a machine the
creation number `k`, from zero and with those counted that were refused, returns the last 32 bits
of `k` if it succeeds. As long as there have been no more creations than there are such numbers,
no number is used twice. Then a vCPU is found by its number, which it carries, with its own
handler, and takes calls just if its creation has succeeded since the last shutdown; and the
machine owns these vCPUs and routes exits to them, and to no others. A second shutdown changes
nothing and succeeds. -/
theorem lookups_exact {h : Hypervisor σ κ φ} (ho : h.Orderly) {made : List (Handler σ)}
    {kept live : List Exit.VcpuId} {m : Machine σ κ φ} (hm : Lifetime h made kept live m) :
    (∀ handler memory context id m', h.create handler memory context m = (.ok id, m') →
      id = made.length % UInt32.size) ∧
    (made.length ≤ UInt32.size →
      kept.Sublist (List.range made.length) ∧ live.Sublist kept ∧
      (∀ id ∈ live, ∃ v, h.Finds id m v ∧ made[id]? = some v.handler) ∧ (∀ id ∉ live, h.Misses id m) ∧
      m.count = live.length ∧ m.registeredCount = live.length) ∧
    h.shutdown (h.shutdown m).2 = (.ok (), (h.shutdown m).2) := by
  have hcalls := hm.calls ho
  refine ⟨fun handler memory context id m' hcreate => ?_, fun hbound => ?_, h.shutdown_of_owned_nil (ho.shutdown m).owned⟩
  · obtain ⟨m₂, -, hok | ⟨e, herror⟩⟩ := ho.create handler memory context m
    · obtain ⟨hresult, -⟩ := Prod.mk.inj (hok.symm.trans hcreate)
      rw [← Except.ok.inj hresult, ← hcalls]
      rfl
    · cases herror.symm.trans hcreate
  · have hc := hm.counted ho hbound
    refine ⟨hc.rising, hc.recent.sublist, fun id hid => ?_, fun id hid => ?_, congrArg List.length hc.owned,
      hc.registeredCount hcalls⟩
    · obtain ⟨v, hfound, hcarried, hmade⟩ := hc.get?_live hid
      exact ⟨v, h.finds_of_get? hfound hcarried (hc.context?_live hid), hmade⟩
    · exact h.misses_of_resolve? ((hc.routes id).trans (if_neg hid))

theorem lookups_exact_recreated :
    (∃ v, (Stepped.withForce Stepped.flag).Finds 2 Stepped.recreated v) ∧
      (Stepped.withForce Stepped.flag).Misses 0 Stepped.recreated ∧
      (Stepped.withForce Stepped.flag).Misses 1 Stepped.recreated ∧
      Stepped.recreated.count = 1 ∧ Stepped.recreated.registeredCount = 1 := by
  obtain ⟨_, hcounted, _⟩ := lookups_exact (Stepped.withForce_orderly Stepped.flag) Stepped.recreated_lifetime
  obtain ⟨_, _, hfound, hmissed, hcount, hregistered⟩ := hcounted (by decide)
  obtain ⟨v, hv, _⟩ := hfound 2 (List.mem_singleton_self 2)
  exact ⟨⟨v, hv⟩, hmissed 0 (by decide), hmissed 1 (by decide), hcount, hregistered⟩

/-- A creation that is refused uses its number up: the first vCPU that is created after it
is not number zero. -/
theorem refused_creation_takes_number :
    ¬∀ (made : List (Handler Unit)) (kept live : List Exit.VcpuId) (m : Stepped.State Unit),
      Lifetime (Stepped.withForce Stepped.flag) made kept live m → ∀ handler memory context id m',
        (Stepped.withForce Stepped.flag).create handler memory context m = (.ok id, m') → id = kept.length := by
  intro hcounts
  have hstarts := Stepped.Lifetime.refusing Stepped.refusedOnce_lifetime false
  have hid : (Stepped.creation false Stepped.refusedOnce).1 = .ok 1 := by decide +kernel
  have hcreate : Stepped.creation false Stepped.refusedOnce = (.ok 1, (Stepped.creation false Stepped.refusedOnce).2) :=
    Prod.ext hid rfl
  exact absurd (hcounts _ _ _ _ hstarts _ _ _ 1 _ hcreate) (by decide)

end Hypervisor

end GuestMachine
