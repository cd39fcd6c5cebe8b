import SpiritFox.Kernel.Runs
import SpiritFox.Kernel.Birth

/-!
# Isolation of address spaces

Every state of a run has its spaces (`reach_spaced`): the birth of a task adds one, its end takes it away, and
everything else leaves them. What the processor can reach from the tables of a live task is read off the spaces:
`address_space_isolation`.
-/

namespace SpiritFox.Core

open ByteMem Proc Relation Function

section Isolation

variable {L : Layout} {k k' : Kernel} {j : TaskId} {σ : TaskId → Option (Space L)}

/-- Some spaces are the ones in memory. -/
def Spaced (L : Layout) (k : Kernel) : Prop := ∃ σ, Isolated L k σ

theorem Isolated.spaced (h : Isolated L k σ) : Spaced L k := ⟨σ, h⟩

theorem Spaced.calm (h : Spaced L k) (hc : Calm k k') : Spaced L k' := by
  obtain ⟨σ, hσ⟩ := h
  exact ⟨σ, hσ.calm hc⟩

theorem Spaced.mild (h : Spaced L k) (hm : Mild k k') : Spaced L k' := h.calm hm.calm

/-- A task that runs or waits has a space. -/
theorem Isolated.space (hk : Isolated L k σ) (hl : (k.tasks j).state = .ready ∨ (k.tasks j).state = .blocked) :
    ∃ s, σ j = some s :=
  Option.ne_none_iff_exists'.1 (hk.live j hl)

/-! ## Birth -/

/-- The slot is taken, with a pid that no task has. -/
theorem Isolated.occupy (hk : Isolated L k σ) (hvacant : (k.tasks j).state = .empty ∨ (k.tasks j).state = .dead)
    (hpid : k.nextPid ≠ 0 ∧ k.nextPid ≤ 0x7fffffff) (pages : Nat) :
    Bare L (update σ j none) j (occupy k j k.nextPid pages) := by
  have hdrop := hk.drop (j := j) (by rcases hvacant with h | h <;> rw [h] <;> exact ⟨nofun, nofun⟩)
  have htask : ∀ j', j' ≠ j → (SpiritFox.Core.occupy k j k.nextPid pages).tasks j' = k.tasks j' := fun j' hj =>
    update_of_ne hj _ _
  have hself : ((SpiritFox.Core.occupy k j k.nextPid pages).tasks j).pid = k.nextPid ∧
      ((SpiritFox.Core.occupy k j k.nextPid pages).tasks j).state = .empty := by
    unfold SpiritFox.Core.occupy Kernel.setTask
    dsimp only
    rw [update_self]
    exact ⟨rfl, rfl⟩
  have hother : ∀ j' s, update σ j none j' = some s → j' ≠ j := fun j' s hs hj => by
    rw [hj, update_self] at hs
    cases hs
  refine ⟨⟨hdrop.represents, fun j' s hs => ?_, fun j' s hs i hi => ?_, fun j' s hs v x hx => ?_, fun j' hl => ?_,
    fun j' s hs hb => ?_,
    fun j' hs => ?_, fun j₁ j₂ he h0 => ?_, fun j' => ?_⟩, hself.2, by rw [hself.1]; exact hpid.1,
      by rw [hself.1]; exact hpid.2⟩
  · rw [htask j' (hother j' s hs)]
    exact hdrop.cr3 j' s hs
  · rw [htask j' (hother j' s hs)]
    exact hdrop.owned j' s hs i hi
  · exact (hdrop.granted j' s hs v x hx).device rfl rfl (by rw [htask j' (hother j' s hs)])
  · by_cases hj : j' = j
    · rw [hj, hself.2] at hl
      rcases hl with hl | hl <;> cases hl
    · rw [htask j' hj] at hl
      exact hdrop.live j' hl
  · rw [htask j' (hother j' s hs)] at hb ⊢
    exact hdrop.buffer j' s hs hb
  · have hj : j' ≠ j := fun hj => hs (by rw [hj, update_self])
    rw [htask j' hj]
    exact hdrop.named j' hs
  · by_cases h₁ : j₁ = j <;> by_cases h₂ : j₂ = j
    · rw [h₁, h₂]
    · rw [h₁, hself.1, htask j₂ h₂] at he
      exact absurd (hk.bounded j₂) (by omega)
    · rw [h₂, hself.1, htask j₁ h₁] at he
      exact absurd (hk.bounded j₁) (by omega)
    · rw [htask j₁ h₁] at he h0
      rw [htask j₂ h₂] at he
      exact hk.distinct j₁ j₂ he h0
  · by_cases hj : j' = j
    · rw [hj, hself.1]
      exact Nat.lt_succ_self _
    · rw [htask j' hj]
      exact Nat.lt_succ_of_lt (hk.bounded j')

theorem Broken.rollback (h : Broken L σ j k) (e : SfError) : Isolated L (rollback L j e k) (update σ j none) := by
  have hclean := h.calm ((mild_deviceRelease k j).trans (mild_ipcCleanup _ j)).calm
  unfold SpiritFox.Core.rollback
  generalize ipcCleanup (deviceRelease k j).2 j = k₁ at hclean ⊢
  obtain ⟨hstate, τ, hτ⟩ := hclean
  have hfree := hτ.free (j := j) (by rw [hstate]; exact ⟨nofun, nofun⟩)
  rw [update_idem] at hfree
  exact (hfree.forget (update_self _ _ _)).bury j e.code

/-- The parent, when there is one, has a space. -/
def Parented (σ : TaskId → Option (Space L)) (parent : Option TaskId) (k : Kernel) : Prop :=
  ∀ q, parent = some q → (k.tasks q).state = .ready ∧ ∃ s, σ q = some s

/-- What a plan was checked for is there when its segments are copied. -/
theorem sourced_of_valid {parent : Option TaskId} {p : SfLoadPlan} (hk : Isolated L k σ) (hparent : Parented σ parent k)
    (hvacant : (k.tasks j).state = .empty ∨ (k.tasks j).state = .dead) (hvalid : validPlan L k p parent = true) :
    ∀ s ∈ p.segments.take p.count, Sourced (update σ j none) parent j s := by
  rintro s hs q rfl
  obtain ⟨hready, sq, hsq⟩ := hparent q rfl
  have hne : q ≠ j := by
    rintro rfl
    rw [hready] at hvacant
    rcases hvacant with h | h <;> cases h
  have hsource := ((validPlan_segments hvalid).2.1 s hs).2
  exact ⟨hne, sq, by rw [update_of_ne hne, hsq],
    covers_of_userRange (hk.cr3 q sq hsq) (hk.represents q sq hsq) hsource⟩

/-- Why a spawn fails. -/
inductive SpawnFails (L : Layout) (parent : Option TaskId) (p : SfLoadPlan) (pages : Nat) (k : Kernel) : SfError →
    Kernel → Prop
  | invalid (h : 4096 < pages ∨ validPlan L k p parent = false ∨
    (parent = none ∧ p.imageBase ≠ 0 ∧ p.imageBase ≠ 0x40000000)) :
      SpawnFails L parent p pages k .invalid k
  | slot (h : ∀ j, (k.tasks j).state ≠ .empty ∧ (k.tasks j).state ≠ .dead) : SpawnFails L parent p pages k .noSpace k
  | pid (h : pidAvailable k.nextPid = false) : SpawnFails L parent p pages k .noSpace k
  | construction {j : TaskId} {k₁ : Kernel} {e : SfError} (hvacant : (k.tasks j).state = .empty ∨ (k.tasks j).state = .dead)
      (h : construct L parent j p (occupy k j k.nextPid pages) = (.error e, k₁)) (hr : Refused parent j p k₁ e) :
      SpawnFails L parent p pages k e (rollback L j e k₁)

/-- **What comes of a spawn.** -/
theorem triple_taskNewLimited {parent : Option TaskId} (hk : Isolated L k σ) (hparent : Parented σ parent k)
    (p : SfLoadPlan) (pages : Nat) :
    Triple (fun k' => k' = k) (taskNewLimited L parent p pages)
      (fun pid k' => ∃ j, (k'.tasks j).pid = pid ∧ Born L (update σ j none) parent j p k')
      (fun e k' => SpawnFails L parent p pages k e k' ∧ Spaced L k') := by
  unfold taskNewLimited
  refine triple_read fun k' hk' => ?_
  obtain rfl := hk'.symm
  refine triple_ite (fun h => triple_fail fun k' hk' => ?_) fun hpages =>
    triple_ite (fun h => triple_fail fun k' hk' => ?_) fun hplan => ?_
  · rw [hk']
    exact ⟨.invalid (Or.inl h), hk.spaced⟩
  · rw [hk']
    exact ⟨.invalid (Or.inr h), hk.spaced⟩
  have hvalid : validPlan L k p parent = true := by simpa using (not_or.1 hplan).1
  split
  · rename_i hfind
    refine triple_fail fun k' hk' => ?_
    rw [hk']
    refine ⟨.slot fun j => ?_, hk.spaced⟩
    have hj := List.find?_eq_none.1 hfind j (List.mem_finRange j)
    simpa using hj
  · rename_i j hfind
    have hvacant : (k.tasks j).state = .empty ∨ (k.tasks j).state = .dead := by simpa using List.find?_some hfind
    refine triple_ite (fun h => triple_fail fun k' hk' => ?_) fun havail => ?_
    · rw [hk']
      exact ⟨.pid h, hk.spaced⟩
    have hpid : k.nextPid ≠ 0 ∧ k.nextPid ≤ 0x7fffffff := by simpa [pidAvailable] using havail
    have hbare := hk.occupy hvacant hpid pages
    have hraise := triple_raise (update_self _ _ _) hvalid (sourced_of_valid hk hparent hvacant hvalid) _ hbare
    refine triple_bind (Q := fun _ k' => k' = occupy k j k.nextPid pages)
      (triple_update fun k' hk' => by rw [hk']) fun _ => ?_
    refine triple_bind (triple_onError (Q := fun _ => Born L (update σ j none) parent j p)
      (F := fun e k₁ => construct L parent j p (occupy k j k.nextPid pages) = (.error e, k₁) ∧
        Failed L (update σ j none) parent j p e k₁)
      (fun k' hk' => ?_) fun e k₁ hfail => ?_) fun _ => triple_read fun k' hb => triple_pure fun k'' hk'' => ?_
    · rw [hk']
      rcases hc : construct L parent j p (occupy k j k.nextPid pages) with ⟨e | u, k₁⟩ <;> rw [hc] at hraise
      · exact ⟨rfl, hraise⟩
      · exact hraise
    · exact ⟨.construction hvacant hfail.1 hfail.2.2, _, hfail.2.1.rollback e⟩
    · rw [hk'']
      exact ⟨j, rfl, hb⟩

theorem spaced_taskNewLimited {parent : Option TaskId} (hk : Isolated L k σ) (hparent : Parented σ parent k)
    (p : SfLoadPlan) (pages : Nat) :
    Spaced L (taskNewLimited L parent p pages k).2 := by
  have h := triple_taskNewLimited hk hparent p pages k rfl
  rcases hr : taskNewLimited L parent p pages k with ⟨e | pid, k'⟩ <;> rw [hr] at h
  · exact h.2
  · obtain ⟨j, _, s, modern, hs, _⟩ := h
    exact hs.spaced

/-! ## Messages -/

/-- A waiting task can be sent a message. -/
theorem copyOut_buffer (hk : Isolated L k σ) (hb : (k.tasks j).state = .blocked) (bytes : List UInt8)
    (hn : bytes.length = 328) :
    ∃ k', copyOut L k j (k.tasks j).recvBuffer bytes = some k' ∧ Isolated L k' σ := by
  obtain ⟨s, hs⟩ := hk.space (Or.inr hb)
  have hrange := userRange_of_covers (hk.cr3 j s hs) (hk.represents j s hs) (by omega) (hk.buffer j s hs hb)
  have hcopy : copyOut L k j (k.tasks j).recvBuffer bytes = some
    (copyOutLoop L j bytes.length k (k.tasks j).recvBuffer bytes) := by
    unfold SpiritFox.Core.copyOut
    rw [hn, if_pos hrange]
  exact ⟨_, hcopy, hk.copyOut hs hcopy⟩

theorem spaced_sendMessage (hk : Isolated L k σ) (j : TaskId) (e : EpId) (m : SfMessage) :
    Spaced L (sendMessage L k j e m).2 := by
  unfold sendMessage
  dsimp only
  split
  · rename_i r hr
    have hb : (k.tasks r).state = .blocked ∧ (k.tasks r).waitEndpoint = some e := by
      simpa [receiver] using List.find?_some hr
    obtain ⟨k', hcopy, hk'⟩ := copyOut_buffer hk hb.1 (List.ofFn (m.stamp (k.tasks j).pid)) List.length_ofFn
    rw [hcopy]
    have hstate : (k'.tasks r).state = .blocked := ((same_copyOut L hcopy).state r).trans hb.1
    have hcount : Isolated L { k' with receiveBytes := copied k'.receiveBytes 328 } σ :=
      hk'.calm calm_message
    have hwake : ∀ value ticks, Isolated L
      ({ k' with receiveBytes := copied k'.receiveBytes 328 }.setTask r ((k'.tasks r).wake value ticks)) σ :=
      fun value ticks => hcount.calm (calm_setTask rfl rfl rfl (Or.inr ⟨hstate, rfl⟩))
    exact (((hwake _ _).mild mild_rest).mild mild_rest).spaced
  · split
    · exact hk.spaced
    · exact (hk.calm calm_message).spaced

theorem spaced_send (hk : Isolated L k σ) (j : TaskId) (a b : Nat) : Spaced L (send L k j a b).2 := by
  have hcount : Calm k { k with sendBytes := copied k.sendBytes 328 } := calm_message
  unfold send
  split
  · exact hk.spaced
  split
  · exact hk.spaced
  dsimp only
  split
  · exact (hk.calm hcount).spaced
  split
  · exact (hk.calm hcount).spaced
  · exact spaced_sendMessage (hk.calm hcount) j _ _

/-- A task waits with a buffer that it may write. -/
theorem Isolated.block (hk : Isolated L k σ) (hr : (k.tasks j).state = .ready) {b : Nat}
    (hu : userRange L k j b 328 true = true) (e : EpId) (c : Nat) :
    Isolated L (k.setTask j { k.tasks j with
      state := .blocked, waitEndpoint := some e, recvBuffer := b, waitDeadline := c }) σ := by
  obtain ⟨s, hs⟩ := hk.space (Or.inl hr)
  refine hk.setTask rfl (fun _ => rfl) (fun _ => by simp [hs]) fun s' hs' _ => ?_
  exact covers_of_userRange (hk.cr3 j s' hs') (hk.represents j s' hs') hu

theorem spaced_recv (hk : Isolated L k σ) (hr : (k.tasks j).state = .ready) (a b c : Nat) :
    Spaced L (recv L k j a b c).2 := by
  unfold recv
  split
  · exact hk.spaced
  split
  · exact hk.spaced
  rename_i e _ hu
  dsimp only
  split
  · split
    · exact hk.spaced
    · rename_i k' hcopy
      obtain ⟨s, hs⟩ := hk.space (Or.inl hr)
      have hcount : Isolated L { k' with receiveBytes := copied k'.receiveBytes 328 } σ :=
        (hk.copyOut hs hcopy).calm calm_message
      exact (hcount.calm calm_message).spaced
  split
  · exact hk.spaced
  · exact (hk.block hr (by simpa using hu) e c).spaced

/-! ## Calls, faults and the scheduler -/

theorem spaced_copyRecord (hk : Isolated L k σ) (hr : (k.tasks j).state = .ready) (a : Nat) (bytes : List UInt8) :
    Spaced L (copyRecord L k j a bytes).2 := by
  obtain ⟨s, hs⟩ := hk.space (Or.inl hr)
  unfold copyRecord
  split
  · exact hk.spaced
  · rename_i hcopy
    exact (hk.copyOut hs hcopy).spaced

theorem spaced_spawn (hk : Isolated L k σ) (hr : (k.tasks j).state = .ready) (a pages : Nat) :
    Spaced L (spawn L k j a pages).2 := by
  unfold spawn
  split
  · exact hk.spaced
  rename_i bytes _
  have hparent : Parented σ (some j) k := by
    intro q hq
    obtain rfl := Option.some.inj hq
    exact ⟨hr, hk.space (Or.inl hr)⟩
  have h := spaced_taskNewLimited hk hparent (decodePlan bytes) pages
  split <;> rename_i heq <;> rw [heq] at h <;> exact h

theorem spaced_kill (hk : Isolated L k σ) (a b : Nat) : Spaced L (kill L k a b).2 := by
  unfold kill
  split
  · exact hk.spaced
  split
  · exact hk.spaced
  · exact (hk.taskDead _ _).spaced

theorem spaced_onlyInit {r : Int × Kernel} (hk : Isolated L k σ) (h : Spaced L r.2) : Spaced L (onlyInit k j r).2 := by
  unfold onlyInit
  split
  · exact hk.spaced
  · exact h

theorem spaced_syscall (hk : Isolated L k σ) (hr : (k.tasks j).state = .ready) (a b c : Nat) (call : Syscall) :
    Spaced L (syscall L k j a b c call).2 := by
  cases call with
  | exit =>
    unfold syscall
    dsimp only
    split
    · exact (hk.mild mild_rest).spaced
    · exact (hk.taskDead j _).spaced
  | yield => exact hk.spaced
  | log => exact hk.spaced
  | ticks => exact hk.spaced
  | epCreate => exact (hk.mild (mild_epCreate k j)).spaced
  | send => exact spaced_send hk j a b
  | recv => exact spaced_recv hk hr a b c
  | spawn => exact spaced_onlyInit hk (spaced_spawn hk hr a 4096)
  | kill => exact spaced_onlyInit hk (spaced_kill hk a b)
  | taskStatus => exact spaced_onlyInit hk hk.spaced
  | consoleRead => exact spaced_onlyInit hk (hk.mild mild_rest).spaced
  | shutdown => exact spaced_onlyInit hk hk.spaced
  | capDerive => exact (hk.mild (mild_capDerive k j a b)).spaced
  | capClose => exact (hk.mild (mild_capClose k j a)).spaced
  | mapTest => exact hk.spaced
  | capRevoke => exact (hk.mild (mild_capRevoke k j a)).spaced
  | pciRead => exact spaced_onlyInit hk (hk.mild (mild_pciRead k a b)).spaced
  | portIo => exact (hk.mild (mild_deviceIo k j a b)).spaced
  | deviceRelease => exact (hk.mild (mild_sysDeviceRelease k j a)).spaced
  | dmaStatus =>
    refine spaced_onlyInit hk ?_
    split
    · exact hk.spaced
    · exact spaced_copyRecord hk hr _ _
  | taskPriority => exact spaced_onlyInit hk (hk.spaced.calm (calm_taskLimit fun _ _ => ⟨rfl, rfl, rfl, rfl⟩))
  | taskCapLimit => exact spaced_onlyInit hk (hk.spaced.calm (calm_taskLimit fun _ _ => ⟨rfl, rfl, rfl, rfl⟩))
  | sendCancel => exact (hk.mild (mild_sendCancel k j a b c)).spaced
  | spawnLimited =>
    refine spaced_onlyInit hk ?_
    split
    · exact hk.spaced
    · exact spaced_spawn hk hr a b
  | taskPageLimit => exact spaced_onlyInit hk (hk.spaced.calm (calm_taskLimit fun _ _ => ⟨rfl, rfl, rfl, rfl⟩))
  | ipcStats =>
    refine spaced_onlyInit hk ?_
    split
    · exact hk.spaced
    · exact spaced_copyRecord hk hr _ _

theorem spaced_deviceFault (hk : Spaced L k) (source reason address : Nat) :
    Spaced L (deviceFault L k source reason address) := by
  obtain ⟨σ, hk⟩ := hk
  have hcount : Isolated L { k with dmaStatus := ⟨k.dmaStatus.faults + 1, address, source, reason⟩ } σ :=
    hk.mild mild_rest
  unfold deviceFault
  revert hcount
  generalize ({ k with dmaStatus := ⟨k.dmaStatus.faults + 1, address, source, reason⟩ } : Kernel) = k₁
  intro hcount
  dsimp only
  split
  · exact hcount.spaced
  rename_i j _
  have hrelease := hcount.mild (mild_deviceRelease k₁ j)
  generalize (deviceRelease k₁ j).2 = k₂ at hrelease ⊢
  have hquarantine : Isolated L { k₂ with quarantined := true } σ :=
    hrelease.mild (mild_update (fun _ => .refl) (fun _ => Nat.le_refl _) fun _ => rfl)
  have hfault : Isolated L ({ k₂ with quarantined := true }.setTask j { k₂.tasks j with deviceFault := true }) σ :=
    hquarantine.calm (calm_setTask rfl rfl rfl (Or.inl rfl))
  exact (hfault.taskDead j _).spaced

theorem spaced_devicePoll (rounds : Nat) (hk : Spaced L k) : Spaced L (devicePoll L rounds k) := by
  induction rounds generalizing k with
  | zero => exact hk
  | succ rounds ih =>
    unfold devicePoll
    split
    · exact hk
    dsimp only
    split
    · exact hk.mild mild_rest
    · exact ih (spaced_deviceFault ((((hk.mild mild_rest).mild mild_rest).mild mild_rest).mild mild_rest) _ _ _)

theorem spaced_userCall (hk : Isolated L k σ) (hr : (k.tasks j).state = .ready) (regs : Regs) :
    Spaced L (userCall L k j regs) := by
  unfold userCall
  split
  · exact (hk.mild (mild_setRax k j _)).spaced
  · exact (spaced_syscall hk hr _ _ _ _).mild (mild_setRax _ j _)

theorem spaced_userFault (hk : Isolated L k σ) (vector : Nat) : Spaced L (userFault L k j vector) := by
  unfold userFault
  split
  · exact (hk.mild mild_rest).spaced
  · exact (hk.taskDead j _).spaced

theorem spaced_userInterrupt (vector : Nat) (regs : Regs) (hk : Spaced L k)
    (hr : (k.tasks j).state = .ready ∨ (k.tasks j).state = .dead) : Spaced L (userInterrupt L k j vector regs) := by
  have hframe : Calm k (k.setTask j { k.tasks j with frame := ⟨regs.rax, regs.rsp⟩ }) :=
    calm_setTask rfl rfl rfl (Or.inl rfl)
  have hsame : Same k (k.setTask j { k.tasks j with frame := ⟨regs.rax, regs.rsp⟩ }) := same_setTask rfl
  unfold userInterrupt
  dsimp only
  generalize k.setTask j { k.tasks j with frame := ⟨regs.rax, regs.rsp⟩ } = k₁ at hframe hsame ⊢
  have hrun := ticks_running (Sim.same_left hsame (sim_devicePoll L 64 k₁)).rel hr
  obtain ⟨σ, hk₂⟩ := spaced_devicePoll 64 (hk.calm hframe)
  generalize devicePoll L 64 k₁ = k₂ at hrun hk₂ ⊢
  refine Spaced.mild ?_ (mild_enterSchedule _)
  split
  · exact hk₂.spaced
  rename_i hdead
  split
  · exact spaced_userCall hk₂ (hrun.resolve_right hdead) regs
  split
  · exact spaced_userFault hk₂ vector
  · exact hk₂.spaced

theorem spaced_interruptDispatch (hb : Bound k) (hk : Spaced L k) (vector : Nat) (regs : Regs) (input : List UInt8)
    (hw : List Nat) :
    Spaced L (interruptDispatch L k vector regs input hw) := by
  have hs : Same k { k with hw := hw } := same_rest
  have hack : Sim Ticks k (acknowledge { k with hw := hw } vector input) := Sim.same_left hs (sim_acknowledge _ vector input)
  have hhw : Mild k { k with hw := hw } := mild_rest
  have hmild := hhw.trans (mild_acknowledge _ vector input)
  unfold interruptDispatch
  split
  · rename_i j hmode hcur
    obtain ⟨j', hcur', hready⟩ := hb.running hmode
    cases hcur.symm.trans hcur'
    exact spaced_userInterrupt vector regs (hk.mild hmild) (ticks_running hack.rel (Or.inl hready))
  · split
    · exact hk.mild mild_rest
    · exact (hk.mild hmild).mild mild_rest
  · exact hk

theorem spaced_scheduleRound (hk : Spaced L k) : Spaced L (scheduleRound L k) := by
  obtain ⟨σ, hk⟩ := hk
  unfold scheduleRound
  split
  · exact (hk.mild mild_rest).spaced
  rename_i j _
  split
  · split
    · exact (hk.mild mild_rest).spaced
    · exact ((hk.taskDead j _).mild mild_rest).spaced
  · have hcurrent : Isolated L { k with current := some j, mode := .user } σ :=
      hk.mild mild_rest
    exact hcurrent.spaced.calm (calm_setTask rfl rfl rfl (Or.inl rfl))

theorem spaced_kernelMain (hk : Spaced L k) (entry : Nat) (segments : List SfLoadSegment) :
    Spaced L (kernelMain L k entry segments) := by
  obtain ⟨σ, hk⟩ := hk
  unfold kernelMain
  split
  · exact hk.spaced
  have hparent : Parented σ none k := nofun
  have h := spaced_taskNewLimited hk hparent (bootPlan entry segments) 4096
  split <;> rename_i heq <;> rw [heq] at h
  · exact h.mild (mild_enterSchedule _)
  · exact h.mild mild_rest

theorem spaced_runStore (hb : Bound k) (hk : Spaced L k) (v : Nat) (byte : UInt8) : Spaced L (runStore k v byte) := by
  obtain ⟨σ, hk⟩ := hk
  unfold runStore
  split
  · rename_i j hmode hcur
    obtain ⟨j', hcur', hready⟩ := hb.running hmode
    cases hcur.symm.trans hcur'
    obtain ⟨s, hs⟩ := hk.space (Or.inl hready)
    exact (hk.userStore hs v byte).spaced
  · exact hk.spaced

theorem spaced_dma (hk : Spaced L k) (offset : Fin 65536) (byte : UInt8) :
    Spaced L { k with mem := blit k.mem (L.dma + offset) [byte] } := by
  obtain ⟨σ, hk⟩ := hk
  have hdisjoint := L.dma_disjoint
  have hoffset := offset.isLt
  refine (hk.outside (eqOn_blit ?_)).spaced
  simp only [List.length_singleton]
  omega

/-- **Every step keeps the spaces.** -/
theorem step_spaced (hb : Bound k) (hk : Spaced L k) (a : Action) : Spaced L (step L k a) := by
  cases a with
  | boot entry segments => exact spaced_kernelMain hk entry segments
  | interrupt vector regs input hw => exact spaced_interruptDispatch hb hk vector regs input hw
  | schedule hw =>
    unfold step
    dsimp only
    split
    · exact spaced_scheduleRound (hk.mild mild_rest)
    · exact hk
  | store v byte => exact spaced_runStore hb hk v byte
  | dma offset byte => exact spaced_dma hk offset byte

theorem initial_spaced (m : Mem) (iommu : Iommu) (mmioReady : Bool) : Spaced L (initial m iommu mmioReady) := by
  refine ⟨fun _ => none, nofun, nofun, nofun, nofun, fun j hl => ?_, nofun, fun j hj => absurd rfl hj,
    fun j j' _ h0 => absurd rfl h0,
    fun j => Nat.one_pos⟩
  rcases hl with hl | hl <;> cases hl

theorem reach_spaced (h : Reach L k) : Spaced L k := by
  induction h with
  | init m iommu mmioReady => exact initial_spaced m iommu mmioReady
  | step h a ih => exact step_spaced (reach_bound h) ih a

/-! ## What the processor can reach -/

/-- The tables that the processor's walk for `v` reads. -/
def walkTables (m : Mem) (cr3 v : Nat) : List Nat :=
  let e4 := entry m cr3 (v / 2 ^ 39 % 512)
  if ¬ accessible e4 then [cr3]
  else
    let p3 := e4 &&& entryMask
    let e3 := entry m p3 (v / 2 ^ 30 % 512)
    if ¬ accessible e3 ∨ e3 &&& 128 ≠ 0 then [cr3, p3]
    else
      let p2 := e3 &&& entryMask
      let e2 := entry m p2 (v / 2 ^ 21 % 512)
      if ¬ accessible e2 ∨ e2 &&& 128 ≠ 0 then [cr3, p3, p2] else [cr3, p3, p2, e2 &&& entryMask]

/-- A walk reads tables of the space only. -/
theorem walkTables_table {m : Mem} {s : Space L} (h : Represents m s) {v a : Nat}
    (ha : a ∈ walkTables m (poolPage L s.top) v) :
    ∃ r i, s.table r = some i ∧ a = poolPage L i := by
  have h4 := h.top ⟨v / 2 ^ 39 % 512, Nat.mod_lt _ (by decide)⟩
  have h3 := h.third ⟨v / 2 ^ 30 % 512, Nat.mod_lt _ (by decide)⟩
  have htop : ∃ r i, s.table r = some i ∧ poolPage L s.top = poolPage L i := ⟨.top, s.top, rfl, rfl⟩
  have hthird : ∃ r i, s.table r = some i ∧ poolPage L s.third = poolPage L i := ⟨.third, s.third, rfl, rfl⟩
  unfold walkTables at ha
  rw [h4] at ha
  by_cases hv4 : v / 2 ^ 39 % 512 = 0
  · rw [if_pos (Fin.ext hv4), if_neg (not_not.2 (accessible_link _)), link_and] at ha
    dsimp only at ha h3
    rw [h3] at ha
    split at ha
    · rcases List.mem_cons.1 ha with rfl | ha
      · exact htop
      · exact List.mem_singleton.1 ha ▸ hthird
    · rename_i hacc
      obtain ⟨hacc, _⟩ := not_or.1 hacc
      obtain ⟨_, hlink⟩ := accessible_third (not_not.1 hacc)
      cases h₂ : s.second with
      | none =>
        rw [hlink, h₂] at hacc
        exact absurd hacc (not_not.2 not_accessible_zero)
      | some i₂ =>
        have hsecond : ∃ r i, s.table r = some i ∧ poolPage L i₂ = poolPage L i := ⟨.second, i₂, h₂, rfl⟩
        have he2 : entry m (poolPage L i₂) (v / 2 ^ 21 % 512) = link (L := L) (s.first (secondIndex v)) :=
          h.second h₂ (secondIndex v)
        rw [hlink, h₂, link_and, he2] at ha
        split at ha
        · simp only [List.mem_cons, List.not_mem_nil, or_false] at ha
          rcases ha with rfl | rfl | rfl
          · exact htop
          · exact hthird
          · exact hsecond
        · rename_i hacc'
          cases h₁ : s.first (secondIndex v) with
          | none =>
            rw [h₁] at hacc'
            exact absurd (Or.inl not_accessible_zero) hacc'
          | some i₁ =>
            rw [h₁, link_and] at ha
            simp only [List.mem_cons, List.not_mem_nil, or_false] at ha
            rcases ha with rfl | rfl | rfl | rfl
            · exact htop
            · exact hthird
            · exact hsecond
            · exact ⟨.first (secondIndex v), i₁, h₁, rfl⟩
  · rw [if_neg fun he => hv4 (congrArg Fin.val he), if_pos not_accessible_zero] at ha
    exact List.mem_singleton.1 ha ▸ htop

/-- The task runs or waits. -/
def Live (k : Kernel) (j : TaskId) : Prop := (k.tasks j).state = .ready ∨ (k.tasks j).state = .blocked

/-- The processor gets to the pool page from the tables of the task, as a table or as memory. -/
def ReachesPage (L : Layout) (k : Kernel) (j : TaskId) (i : PageId) : Prop :=
  (∃ v, poolPage L i ∈ walkTables k.mem (k.tasks j).cr3 v) ∨ ∃ v leaf, walk k.mem (k.tasks j).cr3 v = some leaf ∧
    leaf.frame = poolPage L i

/-- What a leaf of the task may be. -/
inductive OwnOrShared (L : Layout) (k : Kernel) (j : TaskId) (leaf : Leaf) : Prop
  | own (i : PageId) (hi : k.owner i = (k.tasks j).pid) (h : leaf.frame = poolPage L i)
  | bundle (n : Nat) (hn : n < (L.bundleBytes + 4095) / 4096) (h : leaf.frame = L.bundle + 4096 * n)
    (hw : leaf.writable = false)
      (hx : leaf.executable = false)
  | arena (n : Nat) (hn : n < 16) (h : leaf.frame = L.dma + 4096 * n) (hd : k.deviceOwner = (k.tasks j).pid)
  | registers (h : k.devicePt ≤ leaf.frame ∧ leaf.frame < k.devicePt + 16384) (hd : k.deviceOwner = (k.tasks j).pid)

structure AddressSpaces (L : Layout) (k : Kernel) : Prop where
  permitted : ∀ j v leaf, Live k j → walk k.mem (k.tasks j).cr3 v = some leaf → OwnOrShared L k j leaf
  exclusive : ∀ j v leaf, Live k j → walk k.mem (k.tasks j).cr3 v = some leaf →
    ¬ (leaf.writable = true ∧ leaf.executable = true)
  tables : ∀ j v a, Live k j → a ∈ walkTables k.mem (k.tasks j).cr3 v → ∃ i, a = poolPage L i ∧ k.owner i = (k.tasks j).pid
  hidden : ∀ j v a, Live k j → a ∈ walkTables k.mem (k.tasks j).cr3 v →
    ∀ j' v' leaf, Live k j' → walk k.mem (k.tasks j').cr3 v' = some leaf → leaf.frame ≠ a
  apart : ∀ j j' i, Live k j → Live k j' → ReachesPage L k j i → ReachesPage L k j' i → j = j'
  /-- A page is free before it is given to a task, and then all zero. -/
  zeroed : ∀ k₁ pid i k₂, pageAlloc L k₁ pid = (some i, k₂) →
    k₁.owner i = 0 ∧ k₂.owner i = pid ∧ isZero k₂.mem (poolPage L i) 4096 = true

section Reading

variable (hk : Isolated L k σ)

include hk

theorem Isolated.live_space (hl : Live k j) : ∃ s, σ j = some s ∧ (k.tasks j).cr3 = poolPage L s.top ∧
    Represents k.mem s := by
  obtain ⟨s, hs⟩ := hk.space hl
  exact ⟨s, hs, hk.cr3 j s hs, hk.represents j s hs⟩

/-- A leaf of a live task is a mapping of its space. -/
theorem Isolated.leaf (hl : Live k j) {v : Nat} {leaf : Leaf} (h : walk k.mem (k.tasks j).cr3 v = some leaf) :
    ∃ s x, σ j = some s ∧ s.mapped (v % 2 ^ 48) = some x ∧ leaf = x.leaf := by
  obtain ⟨s, hs, hcr3, hrep⟩ := hk.live_space hl
  rw [hcr3, walk_eq hrep] at h
  obtain ⟨x, hx, hleaf⟩ := Option.map_eq_some_iff.1 h
  exact ⟨s, x, hs, hx, hleaf.symm⟩

theorem Isolated.permitted (hl : Live k j) {v : Nat} {leaf : Leaf} (h : walk k.mem (k.tasks j).cr3 v = some leaf) :
    OwnOrShared L k j leaf := by
  obtain ⟨s, x, hs, hx, rfl⟩ := hk.leaf hl h
  have hg := hk.granted j s hs _ x hx
  cases ht : x.target with
  | page i =>
    have hrole := Space.role_mapped hx ht
    exact .own i (hk.owned j s hs i (by simp [hrole])) (by unfold Mapping.leaf; rw [ht]; rfl)
  | bundle n =>
    have hread := x.bundle_read n ht
    exact .bundle n n.isLt (by unfold Mapping.leaf; rw [ht]; rfl) (by simp [Mapping.leaf, hread])
      (by simp [Mapping.leaf, hread])
  | arena n =>
    rw [ht] at hg
    exact .arena n n.isLt (by unfold Mapping.leaf; rw [ht]; rfl) hg
  | registers physical aligned low high =>
    rw [ht] at hg
    exact .registers (by unfold Mapping.leaf; rw [ht]; exact hg.2) hg.1

/-- A leaf in the pool is a page of data. -/
theorem Isolated.pool_leaf (hl : Live k j) {v : Nat} {leaf : Leaf} (h : walk k.mem (k.tasks j).cr3 v = some leaf)
    {i : PageId} (hi : leaf.frame = poolPage L i) : ∃ s, σ j = some s ∧ s.role i = some .data := by
  obtain ⟨s, x, hs, hx, rfl⟩ := hk.leaf hl h
  refine ⟨s, hs, ?_⟩
  have hframe : x.target.address = poolPage L i := hi
  by_cases hpage : ∃ i', x.target = .page i'
  · obtain ⟨i', ht⟩ := hpage
    rw [ht] at hframe
    exact poolPage_inj hframe ▸ Space.role_mapped hx ht
  · have hout := Target.outside fun i' ht => hpage ⟨i', ht⟩
    have hlt := i.isLt
    rw [hframe] at hout
    unfold poolPage at hout
    omega

theorem Isolated.table (hl : Live k j) {v a : Nat} (h : a ∈ walkTables k.mem (k.tasks j).cr3 v) :
    ∃ s r i, σ j = some s ∧ s.table r = some i ∧ a = poolPage L i := by
  obtain ⟨s, hs, hcr3, hrep⟩ := hk.live_space hl
  rw [hcr3] at h
  obtain ⟨r, i, hr, ha⟩ := walkTables_table hrep h
  exact ⟨s, r, i, hs, hr, ha⟩

theorem Isolated.reaches (hl : Live k j) {i : PageId} (h : ReachesPage L k j i) : k.owner i = (k.tasks j).pid := by
  rcases h with ⟨v, hv⟩ | ⟨v, leaf, hw, hf⟩
  · obtain ⟨s, r, i', hs, hr, hi⟩ := hk.table hl hv
    rw [poolPage_inj hi]
    exact hk.owned j s hs i' (by simp [Space.role_table hr])
  · obtain ⟨s, hs, hrole⟩ := hk.pool_leaf hl hw hf
    exact hk.owned j s hs i (by simp [hrole])

end Reading

theorem pageAlloc_zeroed {k₁ k₂ : Kernel} {pid : Nat} {i : PageId} (h : pageAlloc L k₁ pid = (some i, k₂)) :
    k₁.owner i = 0 ∧ k₂.owner i = pid ∧ isZero k₂.mem (poolPage L i) 4096 = true := by
  have ha := pageAlloc_some h
  refine ⟨ha.free, by rw [ha.owner, update_self], isZero_iff.2 fun n hn => ?_⟩
  rw [ha.mem]
  unfold clear
  rw [if_pos (by omega)]

/-- **No task reaches the pages, the tables or the device of another, and no page is both writable and executable.** -/
theorem address_space_isolation (h : Reach L k) : AddressSpaces L k := by
  obtain ⟨σ, hk⟩ := reach_spaced h
  refine ⟨fun j v leaf hl hw => hk.permitted hl hw, fun j v leaf hl hw hx => ?_, fun j v a hl ha => ?_,
    fun j v a hl ha j' v' leaf hl' hw hf => ?_,
    fun j j' i hl hl' hi hi' => ?_, fun k₁ pid i k₂ ha => pageAlloc_zeroed ha⟩
  · obtain ⟨s, x, _, _, rfl⟩ := hk.leaf hl hw
    simp only [Mapping.leaf, decide_eq_true_eq] at hx
    rw [hx.1] at hx
    cases hx.2
  · obtain ⟨s, r, i, hs, hr, rfl⟩ := hk.table hl ha
    exact ⟨i, rfl, hk.owned j s hs i (by simp [Space.role_table hr])⟩
  · obtain ⟨s, r, i, hs, hr, rfl⟩ := hk.table hl ha
    obtain ⟨s', hs', hrole⟩ := hk.pool_leaf hl' hw hf
    exact hk.table_ne hs' hrole hs hr rfl
  · obtain ⟨s, hs⟩ := hk.space hl
    exact hk.distinct j j' ((hk.reaches hl hi).symm.trans (hk.reaches hl' hi')) (hk.named j (by simp [hs]))

theorem address_space_isolation_talk : AddressSpaces sampleLayout sampleTalk := address_space_isolation reach_sampleTalk

end Isolation

end SpiritFox.Core
