import GuestMachine.Proofs.Locality

/-! vCPUs that keep to themselves.

The vCPUs of a machine share its registry, and their exits are routed by badges; they share the
hypervisor's table of contexts, and units that are told apart by threads. A badge leads back to
the vCPU whose loop has made it (`visit?_vcpu`), and what the tables have for another vCPU is
not touched on the way (`SameAt`). So when handlers act on no vCPU but their own, nothing that
is done to one vCPU gets beyond its seat (`Alone.only`), and what is done to two of them comes
to the same in either order (`vcpus_independent`). For each of the two goes on as if the other
had not been changed. -/
namespace GuestMachine.Simulated
open Register

variable {σ : Type}

/-- An operation on one vCPU. -/
def Operation.On (id : Exit.VcpuId) : Operation σ → Prop
  | .create .. | .shutdown => False
  | .run target | .pause target | .edit target _ | .launch target | .inject target _ | .forceExit target
  | .setRegisters target _ | .setUnits target _ | .takeOutcome target => target = id

/-! ### One seat -/

/-- At most one seat has been changed. -/
def Only (id : Exit.VcpuId) (m m' : State σ) : Prop := ∃ f, m' = m.modify id f

section Only
variable {m m' m'' : State σ} {id other : Exit.VcpuId} {s : Seat σ (Context Unit)}

theorem Only.refl (id : Exit.VcpuId) (m : State σ) : Only id m m := ⟨_, (Machine.modify_id m id).symm⟩

theorem Only.trans (h : Only id m m') (h' : Only id m' m'') : Only id m m'' := by
  obtain ⟨f, rfl⟩ := h
  obtain ⟨f', rfl⟩ := h'
  exact ⟨f' ∘ f, Machine.modify_modify ..⟩

theorem only_modify (m : State σ) (id : Exit.VcpuId) (f : Seat σ (Context Unit) → Seat σ (Context Unit)) :
    Only id m (m.modify id f) := ⟨f, rfl⟩

theorem Only.seat (h : Only id m m') (hne : other ≠ id) : m'.seats[other]? = m.seats[other]? := by
  obtain ⟨f, rfl⟩ := h
  exact Machine.seat_modify_of_ne m f hne.symm

/-- Putting the seat back undoes the change. -/
theorem Only.undo (h : Only id m m') (hs : m.seats[id]? = some s) : m'.modify id (fun _ => s) = m := by
  obtain ⟨f, rfl⟩ := h
  exact Machine.modify_back hs f

/-- What matters is the seat that is there afterwards. -/
theorem Only.eq_const (h : Only id m m') (hs : m'.seats[id]? = some s) : m' = m.modify id fun _ => s := by
  obtain ⟨f, rfl⟩ := h
  rw [Machine.seat_modify] at hs
  obtain ⟨s₀, hs₀, hsame⟩ := Option.map_eq_some_iff.mp hs
  exact Machine.modify_congr hs₀ hsame

theorem demand_only (step : Vcpu → Vcpu × Option Request) (id : Exit.VcpuId) (m : State σ) :
    Only id m (hypervisor.demand step id m) := by
  rw [demand_eq]
  exact only_modify m id _

theorem demandById_only (step : Nat → Vcpu → Vcpu × Option Request) (id : Exit.VcpuId) (m : State σ) :
    Only id m (hypervisor.demandById step id m).2 := by
  rcases demandById_cases step id m with ⟨_, heq⟩ | heq
  · rw [heq]
    exact .refl id m
  · rw [heq]
    exact demand_only (step id) id m

theorem modifyContext_only (m : State σ) (id : Exit.VcpuId) (f : Context Unit → Context Unit) :
    Only id m (m.modifyContext id f) := by
  rw [Machine.modifyContext_eq]
  exact only_modify m id _

/-! ### Handlers that act on their own vCPU -/

theorem perform_only {c : Call} (hc : c.Own id) (m : State σ) : Only id m (hypervisor.perform id m c).2 := by
  cases c with
  | run => exact demand_only (Vcpu.run true) id m
  | pause => exact demand_only (Vcpu.pause true) id m
  | remoteRun => exact demand_only (Vcpu.run false) id m
  | remotePause => exact demand_only (Vcpu.pause false) id m
  | runVcpu target =>
    obtain rfl : target = id := hc
    exact demandById_only (fun p => Vcpu.run (p == target)) target m
  | pauseVcpu target =>
    obtain rfl : target = id := hc
    exact demandById_only (fun p => Vcpu.pause (p == target)) target m
  | shutdown => exact hc.elim
  | probe => exact .refl id m

theorem exec_only {p : Program σ} (h : ∀ c ∈ calls id p m, c.Own id) : Only id m (hypervisor.exec id p m).2 := by
  induction p generalizing m with
  | done memory state failure => exact .refl id m
  | call c next ih =>
    have hcall : c.Own id := h c (List.mem_cons_self ..)
    exact (perform_only hcall m).trans (ih _ fun c' hc' => h c' (List.mem_cons_of_mem c hc'))

theorem Moves.only (h : Moves m id m') (hs : m.seats[id]? = some s) (hown : ActsOnOwn id s.handler) : Only id m m' := by
  obtain ⟨s', hs', ⟨f, rfl, _⟩ | ⟨_, e, r, f, _, _, rfl⟩⟩ := moves_cases h
  · exact only_modify m id f
  · cases hs.symm.trans hs'
    exact ((only_modify m id _).trans (exec_only (hown _ _ _))).trans (only_modify _ id _)

/-! ### Operations on one vCPU -/

theorem Operation.On.only {o : Operation σ} (ho : o.On id) (m : State σ) : Only id m (o.apply m) := by
  cases o with
  | create handler memory | shutdown => exact ho.elim
  | run target =>
    obtain rfl : target = id := ho
    exact demandById_only (fun _ => Vcpu.run false) target m
  | pause target =>
    obtain rfl : target = id := ho
    exact demandById_only (fun _ => Vcpu.pause false) target m
  | edit target f =>
    obtain rfl : target = id := ho
    show Only target m (m.editState target f).2
    rw [Machine.editState_eq]
    split
    · exact .refl target m
    · exact only_modify m target _
  | launch target | inject target r | forceExit target | setRegisters target f | setUnits target f | takeOutcome target =>
    obtain rfl : target = id := ho
    exact modifyContext_only m target _

/-- An operation on one vCPU is as if another had not been changed, and leaves the change. -/
theorem Operation.On.modified {o : Operation σ} (ho : o.On id) (hne : id ≠ other)
    (g : Seat σ (Context Unit) → Seat σ (Context Unit)) (m : State σ) :
    o.apply (m.modify other g) = (o.apply m).modify other g := by
  cases o with
  | create handler memory | shutdown => exact ho.elim
  | run target =>
    obtain rfl : target = id := ho
    exact congrArg Prod.snd (demandById_modified hne (fun _ => Vcpu.run false) m)
  | pause target =>
    obtain rfl : target = id := ho
    exact congrArg Prod.snd (demandById_modified hne (fun _ => Vcpu.pause false) m)
  | edit target f =>
    obtain rfl : target = id := ho
    show ((m.modify other g).editState target f).2 = (m.editState target f).2.modify other g
    rw [Machine.editState_eq, Machine.editState_eq, find?_modify_of_ne hne.symm]
    split
    · rfl
    · exact Machine.modify_comm m hne.symm ..
  | launch target | inject target r | forceExit target | setRegisters target f | setUnits target f | takeOutcome target =>
    obtain rfl : target = id := ho
    rw [Operation.apply, Operation.apply, Machine.modifyContext_eq, Machine.modifyContext_eq]
    exact Machine.modify_comm m hne.symm ..

end Only

/-! ### Runs -/

/-- All that the tables have for a vCPU is the same in two machines: the vCPU itself, its
handler's memory and its context, the place that the registry has for its number, and the unit
of its thread. -/
structure SameAt (id : Exit.VcpuId) (m m' : State σ) : Prop where
  vcpu : m'.vcpu? id = m.vcpu? id
  context : m'.context? id = m.context? id
  place : m'.resolve? id = m.resolve? id
  fpu : hypervisor.fpu id m' = hypervisor.fpu id m

theorem sameAt_of_seat {m m' : State σ} {id : Exit.VcpuId} (h : m'.seats[id]? = m.seats[id]?) : SameAt id m m' := by
  refine ⟨?_, ?_, ?_, ?_⟩
  · rw [Machine.vcpu?_eq, Machine.vcpu?_eq, h]
  · rw [Machine.context?_eq, Machine.context?_eq, h]
  · rw [Machine.resolve?_eq, Machine.resolve?_eq, Machine.find?, Machine.find?, h]
  · simp only [hypervisor, Machine.context?_eq, h]

/-- The handler of a vCPU acts on no other. -/
def KeepsToItself (id : Exit.VcpuId) (m : State σ) : Prop := ∃ s, m.seats[id]? = some s ∧ ActsOnOwn id s.handler

/-- The loops of one vCPU go on, and no others. -/
inductive Alone (id : Exit.VcpuId) (m : State σ) : List (Visit σ) → State σ → Prop where
  | refl : Alone id m [] m
  | step {visits : List (Visit σ)} {m' m'' : State σ} {visit : Option (Visit σ)} (h : Alone id m visits m')
    (hstep : Steps m' id visit m'') : Alone id m (visits ++ visit.toList) m''

/-- A vCPU is taken to rest. -/
def Rests (id : Exit.VcpuId) (m : State σ) (visits : List (Visit σ)) (m' : State σ) : Prop :=
  Alone id m visits m' ∧ advance m' id = none

section Runs
variable {m m₀ m' : State σ} {i j : Exit.VcpuId} {visits visits' : List (Visit σ)} {o o' : Operation σ}

theorem Alone.becomes (h : Alone i m visits m') : Becomes m m' := by
  induction h with
  | refl => exact (Spares.refl m).becomes
  | step _ hstep ih => exact fun id => (ih id).trans (moves_becomes hstep.moves id)

theorem KeepsToItself.becomes (h : KeepsToItself i m) (hbecomes : Becomes m m') : KeepsToItself i m' := by
  obtain ⟨s, hs, hown⟩ := h
  obtain ⟨s', hs', hevolves⟩ := hbecomes.seat hs
  exact ⟨s', hs', hevolves.handler ▸ hown⟩

/-- A vCPU whose handler acts on no other goes on by itself as if others had not been
changed. -/
theorem Alone.only (h : Alone i m visits m') (hi : KeepsToItself i m) :
    Only i m m' ∧ (∀ v ∈ visits, v.vcpu = i) ∧ ∀ j g, i ≠ j → Alone i (m.modify j g) visits (m'.modify j g) := by
  induction h with
  | refl => exact ⟨.refl i m, nofun, fun _ _ _ => .refl⟩
  | step halone hstep ih =>
    obtain ⟨honly, hvisits, hmodified⟩ := ih
    obtain ⟨s, hs, hown⟩ := hi.becomes halone.becomes
    refine ⟨honly.trans (hstep.moves.only hs hown), fun v hv => ?_, fun j g hne => ?_⟩
    · rcases List.mem_append.mp hv with hv | hv
      · exact hvisits v hv
      · obtain rfl := Option.mem_toList.mp hv
        exact hstep.vcpu
    · refine (hmodified j g hne).step (hstep.modified hne (.inr fun s' hs' => ?_))
      cases hs.symm.trans hs'
      exact hown.avoids hne

/-- One seat of a machine at rest has been changed. Then only this vCPU moves. -/
theorem Runs.alone (h : Runs m₀ visits m') (hrest : AtRest m) (hstart : Only i m m₀) (hi : KeepsToItself i m₀) :
    Alone i m₀ visits m' := by
  induction h with
  | refl => exact .refl
  | @step visits m₁ m₂ id visit hruns hstep ih =>
    have hid : id = i := Classical.byContradiction fun hne =>
      advance_eq_none_iff.mp (still_of_seat ((hstart.trans (ih.only hi).1).seat hne) (hrest id)) m₂ hstep.moves
    subst hid
    exact ih.step hstep

/-- Operations on two vCPUs are done in either order. -/
theorem Operation.On.comm (hne : i ≠ j) (ho : o.On i) (ho' : o'.On j) (m : State σ) :
    o'.apply (o.apply m) = o.apply (o'.apply m) := by
  obtain ⟨f, hf⟩ := ho.only m
  obtain ⟨f', hf'⟩ := ho'.only m
  calc o'.apply (o.apply m)
      = (m.modify j f').modify i f := by rw [hf, ho'.modified hne.symm, hf']
    _ = (m.modify i f).modify j f' := Machine.modify_comm m hne.symm f' f
    _ = o.apply (o'.apply m) := by rw [hf', ho.modified hne, hf]

/-- What is done to two vCPUs one after the other can be done in the other order. -/
theorem Rests.swap {m₁ m₂ : State σ} (hne : i ≠ j) (hi : KeepsToItself i m) (hj : KeepsToItself j m) (ho : o.On i)
    (ho' : o'.On j) (h₁ : Rests i (o.apply m) visits m₁) (h₂ : Rests j (o'.apply m₁) visits' m₂) :
    ∃ m₁', Rests j (o'.apply m) visits' m₁' ∧ Rests i (o.apply m₁') visits m₂ := by
  obtain ⟨s, hs⟩ : ∃ s, m.seats[i]? = some s := hi.imp fun _ hown => hown.1
  obtain ⟨honly₁, _, hmodified₁⟩ := h₁.1.only (hi.becomes (apply_becomes o m))
  have hj₁ : KeepsToItself j (o'.apply m₁) :=
    ((hj.becomes (apply_becomes o m)).becomes h₁.1.becomes).becomes (apply_becomes o' m₁)
  obtain ⟨honly₂, _, hmodified₂⟩ := h₂.1.only hj₁
  obtain ⟨t, ht, _⟩ := hj₁.becomes h₂.1.becomes
  have hown₁ : Only i m m₁ := (ho.only m).trans honly₁
  have hown₂ : Only j m₁ m₂ := (ho'.only m₁).trans honly₂
  -- The first vCPU is put back to where it was, and then the second is the only one changed.
  have hback : m₁.modify i (fun _ => s) = m := hown₁.undo hs
  have hmiddle : m₂.modify i (fun _ => s) = m.modify j fun _ => t := by
    rw [hown₂.eq_const ht, Machine.modify_comm m₁ hne.symm, hback]
  refine ⟨m₂.modify i fun _ => s, ⟨?_, ?_⟩, ?_, ?_⟩
  · have hruns := hmodified₂ i (fun _ => s) hne.symm
    rwa [← ho'.modified hne.symm, hback] at hruns
  · exact still_of_seat (Machine.seat_modify_of_ne m₂ _ hne) h₂.2
  · have hruns := hmodified₁ j (fun _ => t) hne
    rwa [← ho.modified hne, ← hmiddle, ← hown₂.eq_const ht] at hruns
  · exact still_of_seat (hown₂.seat hne) h₁.2

/-- **vCPUs of one machine do not interfere.** The handlers of two vCPUs act on their own vCPU
only. What is done to the one, and what its loops then do, visits no handler but its own, by
whatever badges its exits go, and leaves all others as they are in every table. What is done to
the two comes to the same machine in either order, at once and with each of them taken to rest,
then with the same visits. In a machine at rest no other vCPU moves, whatever is done to the
one. -/
theorem vcpus_independent (hne : i ≠ j) (hi : KeepsToItself i m) (hj : KeepsToItself j m) :
    (∀ o : Operation σ, o.On i → ∀ visits m', Alone i (o.apply m) visits m' →
      (∀ v ∈ visits, v.vcpu = i) ∧ ∀ k : Nat, k ≠ i → SameAt k m m') ∧
    (∀ o o' : Operation σ, o.On i → o'.On j → o'.apply (o.apply m) = o.apply (o'.apply m) ∧ ∀ visits visits' m₂,
      (∃ m₁, Rests i (o.apply m) visits m₁ ∧ Rests j (o'.apply m₁) visits' m₂) ↔
        ∃ m₁, Rests j (o'.apply m) visits' m₁ ∧ Rests i (o.apply m₁) visits m₂) ∧
    (AtRest m → ∀ o : Operation σ, o.On i → ∀ visits m', Runs (o.apply m) visits m' → Alone i (o.apply m) visits m') := by
  refine ⟨?_, ?_, ?_⟩
  · intro o ho visits m' halone
    obtain ⟨honly, hvisits, _⟩ := halone.only (hi.becomes (apply_becomes o m))
    exact ⟨hvisits, fun k hk => sameAt_of_seat (((ho.only m).trans honly).seat hk)⟩
  · intro o o' ho ho'
    refine ⟨ho.comm hne ho' m, fun visits visits' m₂ => ⟨?_, ?_⟩⟩
    · rintro ⟨m₁, h₁, h₂⟩
      exact h₁.swap hne hi hj ho ho' h₂
    · rintro ⟨m₁, h₁, h₂⟩
      exact h₁.swap hne.symm hj hi ho' ho h₂
  · intro hrest o ho visits m' hruns
    exact hruns.alone hrest (ho.only m) (hi.becomes (apply_becomes o m))

end Runs

theorem callingHandler_actsOnOwn {cs : List Call} {id : Exit.VcpuId} (h : ∀ c ∈ cs, c.Own id) :
    ActsOnOwn id (callingHandler cs) := by
  intro memory state m c hc
  by_cases hrecalled : state.reason = .recalled
  · unfold callingHandler at hc
    dsimp only at hc
    rw [if_pos hrecalled] at hc
    cases hc
  · rw [(callingHandler_works cs id m hrecalled).1] at hc
    exact h c hc

/-- Two vCPUs at rest: the one has blocked at its startup exit, the other has been run by its
handler. -/
def pair : State Unit := settle 6 ((Operation.create (callingHandler [.run]) ()).apply (calling []))

theorem rest_pair : AtRest pair := atRest_of_seats (by decide +kernel)

theorem pair_keepsToItself : KeepsToItself 0 pair ∧ KeepsToItself 1 pair := by
  have hsettled := leads_becomes (leads_settle 6 ((Operation.create (callingHandler [.run]) ()).apply (calling [])))
  have hfirst : KeepsToItself 0 (calling []) :=
    ⟨_, seat_calling [], callingHandler_actsOnOwn nofun⟩
  have hsecond : KeepsToItself 1 ((Operation.create (callingHandler [.run]) ()).apply (calling [])) := by
    refine ⟨newSeat false (callingHandler [.run]) (), ?_, callingHandler_actsOnOwn fun c hc => ?_⟩
    · have hlength : (calling []).seats.length = 1 := by decide +kernel
      rw [seats_create (by decide +kernel), ← hlength, List.getElem?_concat_length]
      rfl
    · obtain rfl := List.mem_singleton.mp hc
      trivial
  exact ⟨(hfirst.becomes (apply_becomes _ _)).becomes hsettled, hsecond.becomes hsettled⟩

/-- The machine when the first of them has been run and rests again. -/
def ran : State Unit := settle 6 ((Operation.run 0).apply pair)

theorem rest_ran : AtRest ran := atRest_of_seats (by decide +kernel)

theorem vcpus_independent_pair : ∃ visits visits' m₁' m₂,
    Rests 0 ((Operation.run 0).apply pair) visits ran ∧ Rests 1 ((Operation.pause 1).apply ran) visits' m₂ ∧
      (∀ v ∈ visits, v.vcpu = 0) ∧ SameAt 1 pair ran ∧
      Rests 1 ((Operation.pause 1).apply pair) visits' m₁' ∧ Rests 0 ((Operation.run 0).apply m₁') visits m₂ := by
  have hbecomes := leads_becomes ((Leads.refl.operation (.run 0)).trans (leads_settle 6 ((Operation.run 0).apply pair)))
  obtain ⟨hfirst, hsecond⟩ := pair_keepsToItself
  obtain ⟨visits, hruns⟩ := runs_settle 6 ((Operation.run 0).apply pair)
  obtain ⟨visits', hruns'⟩ := runs_settle 6 ((Operation.pause 1).apply ran)
  have hrest : advance (settle 6 ((Operation.pause 1).apply ran)) 1 = none := Option.isNone_iff_eq_none.mp (by decide +kernel)
  obtain ⟨hframe, hswap, halone⟩ := vcpus_independent (show (0 : Nat) ≠ 1 by decide) hfirst hsecond
  obtain ⟨_, _, halone'⟩ := vcpus_independent (show (1 : Nat) ≠ 0 by decide) (hsecond.becomes hbecomes) (hfirst.becomes hbecomes)
  have h₁ : Rests 0 ((Operation.run 0).apply pair) visits ran := ⟨halone rest_pair (.run 0) rfl visits ran hruns, rest_ran 0⟩
  have h₂ : Rests 1 ((Operation.pause 1).apply ran) visits' _ := ⟨halone' rest_ran (.pause 1) rfl visits' _ hruns', hrest⟩
  obtain ⟨hvisits, hsame⟩ := hframe (.run 0) rfl visits ran h₁.1
  obtain ⟨m₁', h₁', h₂'⟩ := ((hswap (.run 0) (.pause 1) rfl rfl).2 visits visits' _).mp ⟨ran, h₁, h₂⟩
  exact ⟨visits, visits', m₁', _, h₁, h₂, hvisits, hsame 1 (by decide), h₁', h₂'⟩

end GuestMachine.Simulated
