import GuestMachine.Machine.Dispatch

/-! Hypervisors that serve exits alike.

An exit is handled by the machine, which works on its hypervisor by a handful of operations.
If these keep a relation between the machines of two hypervisors (`Relates`), so does all that
the machine does for an exit: the handler sees the same on both, and the exit has the same
answer (`Relates.route`). -/
namespace GuestMachine
open Register

variable {σ κ κ' φ φ' : Type}

/-- The same result, on machines in a relation. -/
def Paired {α : Type} (R : Machine σ κ φ → Machine σ κ' φ' → Prop) (x : α × Machine σ κ φ)
    (y : α × Machine σ κ' φ') : Prop := y.1 = x.1 ∧ R x.2 y.2

/-- What two hypervisors owe to a relation between their machines: machines that are related
look the same to a handler, and stay related whatever is done to both of them. The exit is
handled on a thread whose unit they have in common. -/
structure Hypervisor.Relates (h : Hypervisor σ κ φ) (h' : Hypervisor σ κ' φ') (thread : Exit.VcpuId)
    (R : Machine σ κ φ → Machine σ κ' φ' → Prop) : Prop where
  owned : ∀ {m n}, R m n → n.owned = m.owned
  vcpu? : ∀ {m n}, R m n → ∀ place, n.vcpu? place = m.vcpu? place
  resolve? : ∀ {m n}, R m n → ∀ id, n.resolve? id = m.resolve? id
  modifyVcpu : ∀ {m n}, R m n → ∀ place f, R (m.modifyVcpu place f) (n.modifyVcpu place f)
  setMemory : ∀ {m n}, R m n → ∀ place memory, R (m.setMemory place memory) (n.setMemory place memory)
  unregister : ∀ {m n}, R m n → ∀ id, R (m.unregister id) (n.unregister id)
  disown : ∀ {m n}, R m n → R {m with owned := []} {n with owned := []}
  forceExit : ∀ {m n}, R m n → ∀ id, R (h.forceExit id m) (h'.forceExit id n)
  release : ∀ {m n}, R m n → ∀ {place v}, m.vcpu? place = some v →
    Paired R (h.release v.id m) (h'.release v.id n)
  fpu : ∀ {m n}, R m n → h'.fpu thread n = h.fpu thread m
  setFpu : ∀ {m n}, R m n → ∀ u, R (h.setFpu thread u m) (h'.setFpu thread u n)

/-! ### What a machine does for an exit -/

namespace Hypervisor.Relates
variable {h : Hypervisor σ κ φ} {h' : Hypervisor σ κ' φ'} {thread : Exit.VcpuId}
  {R : Machine σ κ φ → Machine σ κ' φ' → Prop} {m : Machine σ κ φ} {n : Machine σ κ' φ'}

theorem demand (B : Relates h h' thread R) (hR : R m n) (step : Vcpu → Vcpu × Option Request) (place : Nat) :
    R (h.demand step place m) (h'.demand step place n) := by
  rw [Hypervisor.demand, Hypervisor.demand, B.vcpu? hR]
  cases m.vcpu? place with
  | none => exact hR
  | some v =>
    dsimp only
    obtain ⟨v', _ | r⟩ := step v.vcpu
    · exact B.modifyVcpu hR ..
    · exact B.modifyVcpu (B.forceExit (B.modifyVcpu (B.modifyVcpu hR ..) ..) ..) ..

theorem demandById (B : Relates h h' thread R) (hR : R m n) (step : Nat → Vcpu → Vcpu × Option Request)
    (id : Exit.VcpuId) : Paired R (h.demandById step id m) (h'.demandById step id n) := by
  rw [Hypervisor.demandById, Hypervisor.demandById, B.resolve? hR]
  cases m.resolve? id with
  | none => exact ⟨rfl, hR⟩
  | some place => exact ⟨rfl, B.demand hR (step place) place⟩

theorem destroy (B : Relates h h' thread R) (hR : R m n) (place : Nat) :
    Paired R (h.destroy place m) (h'.destroy place n) := by
  rw [Hypervisor.destroy, Hypervisor.destroy, B.vcpu? hR]
  cases hv : m.vcpu? place with
  | none => exact ⟨rfl, hR⟩
  | some v =>
    have hgone : ((m.unregister v.id).modifyVcpu place Vcpu.destroy).vcpu? place =
        some {v with vcpu := v.vcpu.destroy} := by
      show (m.tables.vcpus.modify place _)[place]? = _
      rw [List.getElem?_modify_eq, show m.tables.vcpus[place]? = some v from hv]
      rfl
    have hreleased := B.release (B.modifyVcpu (B.unregister hR v.id) place Vcpu.destroy) hgone
    exact hreleased

theorem destroyAll (B : Relates h h' thread R) (places : List Nat) (hR : R m n) :
    Paired R (h.destroyAll places m) (h'.destroyAll places n) := by
  induction places generalizing m n with
  | nil => exact ⟨rfl, hR⟩
  | cons place rest ih =>
    obtain ⟨hfirst, hR'⟩ := B.destroy hR place
    obtain ⟨hothers, hR''⟩ := ih hR'
    refine ⟨?_, hR''⟩
    rw [Hypervisor.destroyAll, Hypervisor.destroyAll]
    dsimp only
    rw [hfirst, hothers]

theorem shutdown (B : Relates h h' thread R) (hR : R m n) : Paired R (h.shutdown m) (h'.shutdown n) := by
  rw [Hypervisor.shutdown, Hypervisor.shutdown, B.owned hR]
  exact B.destroyAll m.owned (B.disown hR)

/-- A handler has the same reply to each of its calls. -/
theorem perform (B : Relates h h' thread R) (hR : R m n) (place : Nat) (c : Call) :
    Paired R (h.perform place m c) (h'.perform place n c) := by
  cases c with
  | run => exact ⟨rfl, B.demand hR (Vcpu.run true) place⟩
  | pause => exact ⟨rfl, B.demand hR (Vcpu.pause true) place⟩
  | remoteRun => exact ⟨rfl, B.demand hR (Vcpu.run false) place⟩
  | remotePause => exact ⟨rfl, B.demand hR (Vcpu.pause false) place⟩
  | runVcpu target =>
    obtain ⟨hreply, hR'⟩ := B.demandById hR (fun p => Vcpu.run (p == place)) target
    exact ⟨congrArg Reply.result hreply, hR'⟩
  | pauseVcpu target =>
    obtain ⟨hreply, hR'⟩ := B.demandById hR (fun p => Vcpu.pause (p == place)) target
    exact ⟨congrArg Reply.result hreply, hR'⟩
  | shutdown =>
    obtain ⟨hreply, hR'⟩ := B.shutdown hR
    exact ⟨congrArg Reply.result hreply, hR'⟩
  | probe =>
    refine ⟨?_, hR⟩
    rw [Hypervisor.perform, Hypervisor.perform, B.vcpu? hR]

theorem exec (B : Relates h h' thread R) (place : Nat) (p : Program σ) (hR : R m n) :
    Paired R (h.exec place p m) (h'.exec place p n) := by
  induction p generalizing m n with
  | done memory state failure => exact ⟨rfl, hR⟩
  | call c next ih =>
    obtain ⟨hreply, hR'⟩ := B.perform hR place c
    rw [Hypervisor.exec, Hypervisor.exec]
    dsimp only
    rw [hreply]
    exact ih _ hR'

theorem dispatch (B : Relates h h' thread R) (hR : R m n) (place : Nat) (v : Resident σ) (f : Frame) :
    Paired R (h.dispatch thread place v f m) (h'.dispatch thread place v f n) := by
  have hentered := B.modifyVcpu (B.setFpu hR (v.vcpu.enter f (h.fpu thread m)).2) place
    fun _ => (v.vcpu.enter f (h.fpu thread m)).1
  obtain ⟨houtcome, hworked⟩ := B.exec place
    (v.handler.handle v.memory (v.vcpu.enter f (h.fpu thread m)).1.state) hentered
  rw [Hypervisor.dispatch, Hypervisor.dispatch, B.fpu hR]
  dsimp only
  rw [houtcome]
  generalize h.exec place _ _ = worked at *
  generalize h'.exec place _ _ = worked' at *
  obtain ⟨o, m₁⟩ := worked
  obtain ⟨_, n₁⟩ := worked'
  have hleft : R ((m₁.modifyVcpu place (·.leave o.state)).setMemory place o.memory)
      ((n₁.modifyVcpu place (·.leave o.state)).setMemory place o.memory) :=
    B.setMemory (B.modifyVcpu hworked ..) ..
  dsimp only
  rcases o.failure with _ | cause | _
  · dsimp only
    rw [B.vcpu? hleft, B.fpu hleft]
    split
    · exact ⟨rfl, hleft⟩
    split
    · exact ⟨rfl, hleft⟩
    · exact ⟨rfl, B.modifyVcpu (B.setFpu hleft _) ..⟩
  · exact ⟨rfl, hleft⟩
  · exact ⟨rfl, hleft⟩

theorem handleExit (B : Relates h h' thread R) (hR : R m n) (place : Nat) (f : Frame) :
    Paired R (h.handleExit thread place f m) (h'.handleExit thread place f n) := by
  rw [Hypervisor.handleExit, Hypervisor.handleExit, B.vcpu? hR, B.fpu hR]
  cases m.vcpu? place with
  | none => exact ⟨rfl, hR⟩
  | some v =>
    dsimp only
    split
    · split
      · exact ⟨rfl, B.modifyVcpu (B.setFpu hR _) ..⟩
      · exact B.dispatch hR ..
    · exact B.dispatch hR ..

/-- **A routed exit has the same answer.** Machines that are related answer an exit alike, and
are related afterwards, whatever the handler does and whomever it calls. -/
theorem route (B : Relates h h' thread R) (hR : R m n) (badge : Exit.Badge) (f : Frame) :
    Paired R (h.route thread badge f m) (h'.route thread badge f n) := by
  rw [Hypervisor.route, Hypervisor.route, B.resolve? hR]
  cases m.resolve? badge.vcpu with
  | none => exact ⟨rfl, hR⟩
  | some place => exact B.handleExit hR place f

end Hypervisor.Relates

end GuestMachine
