import SpiritFox.Kernel.Machine

/-!
# What memory and devices leave alone

`Same k k'`: nothing that the machine sees has changed, nor the rings. The functions of `Memory` and `Device` change the rest
only.
-/

namespace SpiritFox.Core

open ByteMem Proc

structure Same (k k' : Kernel) : Prop where
  party : ∀ j, (k'.tasks j).party = (k.tasks j).party
  endpoints : k'.endpoints = k.endpoints
  nextPid : k'.nextPid = k.nextPid
  log : k'.log = k.log

section Same

variable {k k' k'' : Kernel} {j : TaskId}

theorem Same.refl : Same k k := ⟨fun _ => rfl, rfl, rfl, rfl⟩

theorem Same.trans (h : Same k k') (h' : Same k' k'') : Same k k'' :=
  ⟨fun j => (h'.party j).trans (h.party j), h'.endpoints.trans h.endpoints, h'.nextPid.trans h.nextPid, h'.log.trans h.log⟩

theorem Same.ipc (h : Same k k') : k'.ipc = k.ipc := by
  unfold Kernel.ipc
  rw [h.endpoints, h.nextPid, h.log, funext h.party]

theorem Same.pid (h : Same k k') (j : TaskId) : (k'.tasks j).pid = (k.tasks j).pid := congrArg Party.pid (h.party j)

theorem Same.state (h : Same k k') (j : TaskId) : (k'.tasks j).state = (k.tasks j).state := congrArg Party.state (h.party j)

/-- A task that the machine sees as before. -/
theorem same_setTask {t : Task} (h : t.party = (k.tasks j).party) : Same k (k.setTask j t) := by
  refine ⟨fun j' => ?_, rfl, rfl, rfl⟩
  unfold Kernel.setTask
  by_cases hj : j' = j
  · subst hj
    simpa using h
  · simp [hj]

/-- The machine sees nothing of the clock, the memory and the devices. -/
theorem same_rest {mode : Mode} {current : Option TaskId} {ticks sendBytes receiveBytes : Nat} {mem : Mem}
    {owner : PageId → Nat} {mmioReady : Bool} {devicePt deviceOwner : Nat} {quarantined : Bool} {dmaStatus : DmaStatus}
    {iommu : Iommu} {console : Console} {hw : List Nat} :
    Same k { k with mode, current, ticks, sendBytes, receiveBytes, mem, owner, mmioReady, devicePt, deviceOwner, quarantined,
                    dmaStatus, iommu, console, hw } := ⟨fun _ => rfl, rfl, rfl, rfl⟩

/-- What `taskLimit` does: it refuses, answers, or sets a limit that leaves room for what is used. -/
theorem taskLimit_cases {a b c max : Nat} {used : Option (Task → Nat)} {limit : Task → Nat} {set : Task → Nat → Task} :
    (taskLimit k a b c max used limit set).2 = k ∨ ∃ j, b ≤ max ∧ (used.map fun f => f (k.tasks j)).getD 0 ≤ b ∧
      (taskLimit k a b c max used limit set).2 = k.setTask j (set (k.tasks j) b) := by
  unfold taskLimit
  split
  · exact Or.inl rfl
  rename_i hargs
  split
  · exact Or.inl rfl
  dsimp only
  split
  · exact Or.inl rfl
  split
  · split
    · exact Or.inl rfl
    · rename_i hroom
      exact Or.inr ⟨_, by omega, Nat.not_lt.1 hroom, rfl⟩
  · exact Or.inl rfl

/-! ## Memory -/

variable (L : Layout)

theorem same_pageAlloc (k : Kernel) (pid : Nat) : Same k (pageAlloc L k pid).2 := by
  unfold pageAlloc
  split
  · exact .refl
  rename_i j _
  simp only
  split
  · exact .refl
  split
  · exact .refl
  · have h : Same k (k.setTask j { k.tasks j with pageCount := (k.tasks j).pageCount + 1 }) := same_setTask rfl
    exact ⟨h.party, rfl, rfl, rfl⟩

theorem same_pagesFree (k : Kernel) (pid : Nat) : Same k (pagesFree L k pid) := by
  unfold pagesFree
  split
  · exact .refl
  refine ⟨fun j => ?_, rfl, rfl, rfl⟩
  simp only
  split <;> rfl

theorem same_spaceNew (k : Kernel) (pid : Nat) : Same k (spaceNew L k pid).2 := by
  have h := (same_pageAlloc L k pid).trans (same_pageAlloc L (pageAlloc L k pid).2 pid)
  unfold spaceNew
  simp only
  split
  · exact h.trans same_rest
  · exact h

theorem same_nextTable (k : Kernel) (pid table i : Nat) (create : Bool) : Same k (nextTable L k pid table i create).2 := by
  have h := same_pageAlloc L k pid
  unfold nextTable
  split
  · exact .refl
  split
  · exact .refl
  split
  · rename_i heq
    rw [heq] at h
    exact h
  · rename_i heq
    rw [heq] at h
    exact h.trans same_rest

theorem same_pte (k : Kernel) (j : TaskId) (v : Nat) (create : Bool) : Same k (pte L k j v create).2 := by
  unfold pte
  split
  · exact .refl
  simp only
  split
  · rename_i heq
    have h := same_nextTable L k (k.tasks j).pid (entry k.mem (k.tasks j).cr3 0 &&& entryMask) (v / 2 ^ 30) create
    rw [heq] at h
    exact h
  · rename_i p2 k₁ heq
    have h := same_nextTable L k (k.tasks j).pid (entry k.mem (k.tasks j).cr3 0 &&& entryMask) (v / 2 ^ 30) create
    rw [heq] at h
    have h' := same_nextTable L k₁ (k.tasks j).pid p2 (v / 2 ^ 21 % 512) create
    split <;> rename_i heq' <;> rw [heq'] at h' <;> exact h.trans h'

theorem same_spaceMap (k : Kernel) (j : TaskId) (v physical flags : Nat) : Same k (spaceMap L k j v physical flags).2 := by
  have h := same_pte L k j v true
  unfold spaceMap
  split
  · exact .refl
  split
  · rename_i heq
    rw [heq] at h
    exact h
  · rename_i heq
    rw [heq] at h
    split
    · exact h
    · exact h.trans same_rest

theorem same_spaceMapMmio (k : Kernel) (j : TaskId) (v physical : Nat) : Same k (spaceMapMmio L k j v physical).2 := by
  have h := same_spaceMap L k j v physical 3
  unfold spaceMapMmio
  split
  · rename_i heq
    rw [heq] at h
    exact h
  · rename_i heq
    rw [heq] at h
    split
    · exact h
    · exact h.trans same_rest

theorem same_copyOutLoop (j : TaskId) (rounds : Nat) (k : Kernel) (dst : Nat) (bytes : List UInt8) :
    Same k (copyOutLoop L j rounds k dst bytes) := by
  induction rounds generalizing k dst bytes with
  | zero => exact .refl
  | succ rounds ih =>
    unfold copyOutLoop
    split
    · exact .refl
    · have h : ∀ m, Same k { k with mem := m } := fun _ => same_rest
      exact (h _).trans (ih _ _ _)

theorem same_copyOut {dst : Nat} {bytes : List UInt8} (h : copyOut L k j dst bytes = some k') : Same k k' := by
  unfold copyOut at h
  split at h
  · cases h
    exact same_copyOutLoop L j _ k dst bytes
  · cases h

/-! ## Devices -/

/-- The hardware has been asked, and nothing but the state of the translation has changed. -/
def Asked (k k' : Kernel) : Prop := ∃ hw iommu, k' = { k with hw := hw, iommu := iommu }

theorem Asked.refl : Asked k k := ⟨k.hw, k.iommu, rfl⟩

theorem Asked.trans (h : Asked k k') (h' : Asked k' k'') : Asked k k'' := by
  obtain ⟨hw, iommu, rfl⟩ := h
  obtain ⟨hw', iommu', rfl⟩ := h'
  exact ⟨hw', iommu', rfl⟩

theorem Asked.same (h : Asked k k') : Same k k' := by
  obtain ⟨hw, iommu, rfl⟩ := h
  exact same_rest

theorem asked_hwRead : Asked k k.hwRead.2 := ⟨k.hw.tail, k.iommu, rfl⟩

theorem asked_iommu (k : Kernel) (iommu : Iommu) : Asked k { k with iommu := iommu } := ⟨k.hw, iommu, rfl⟩

theorem asked_iommuInvalidate (k : Kernel) : Asked k (iommuInvalidate k).2 := by
  unfold iommuInvalidate
  dsimp only
  split
  · exact asked_hwRead
  · exact asked_hwRead.trans (asked_iommu _ _)

theorem asked_iommuGrant (k : Kernel) (bdf physical : Nat) : Asked k (iommuGrant k bdf physical).2 := by
  have h := asked_iommuInvalidate k
  unfold iommuGrant
  split
  · exact Asked.refl
  split
  · exact Asked.refl
  split
  · exact Asked.refl
  split <;> rename_i heq <;> rw [heq] at h
  · exact h
  · exact h.trans (asked_iommu _ _)

theorem asked_iommuRevoke (k : Kernel) (bdf : Nat) : Asked k (iommuRevoke k bdf).2 := by
  have h := asked_iommuInvalidate k
  unfold iommuRevoke
  split
  · exact Asked.refl
  split
  · exact Asked.refl
  split
  · exact Asked.refl
  split
  · exact Asked.refl
  split <;> rename_i heq <;> rw [heq] at h
  · exact h
  · exact h.trans (asked_iommu _ _)

theorem asked_awaitReset (rounds : Nat) (k : Kernel) : Asked k (awaitReset rounds k).2 := by
  induction rounds generalizing k with
  | zero => exact Asked.refl
  | succ rounds ih =>
    unfold awaitReset
    dsimp only
    split
    · exact asked_hwRead
    · exact asked_hwRead.trans (ih _)

theorem asked_resetDevice (k : Kernel) (j : TaskId) : Asked k (resetDevice k j).2 := by
  unfold resetDevice
  exact ((asked_hwRead.trans (asked_awaitReset resetPolls _)).trans (asked_iommuRevoke _ _)).trans asked_hwRead

theorem same_deviceRelease (k : Kernel) (j : TaskId) : Same k (deviceRelease k j).2 := by
  have h := (asked_resetDevice k j).same
  unfold deviceRelease
  split
  · exact .refl
  have h' : ∀ gone, Same k { (resetDevice k j).2 with quarantined := gone } := fun _ =>
    h.trans same_rest
  exact (h' _).trans (same_setTask rfl)

theorem deviceRelease_eq (k : Kernel) (j : TaskId) : ∃ hw iommu quarantined fault io, (deviceRelease k j).2 =
    { k with hw := hw, iommu := iommu, quarantined := quarantined }.setTask j
      { k.tasks j with deviceFault := fault, deviceIo := io } := by
  unfold deviceRelease
  split
  · refine ⟨k.hw, k.iommu, k.quarantined, (k.tasks j).deviceFault, (k.tasks j).deviceIo, ?_⟩
    unfold Kernel.setTask
    rw [Function.update_eq_self]
  · obtain ⟨hw, iommu, heq⟩ := asked_resetDevice k j
    refine ⟨hw, iommu, (resetDevice k j).2.quarantined || !(resetDevice k j).1,
      (resetDevice k j).2.quarantined || !(resetDevice k j).1, 0, ?_⟩
    dsimp only
    rw [heq]

theorem same_deviceForget (k : Kernel) (j : TaskId) : Same k (deviceForget k j) := by
  unfold deviceForget
  split <;> exact same_rest

/-! ## The grant -/

/-- The procedure changes nothing that the machine sees. -/
abbrev Quiet {α : Type} (p : KProc α) : Prop := Within Same p

theorem quiet_pure {α : Type} (a : α) : Quiet (pure a : KProc α) := within_pure (fun _ => Same.refl) a
theorem quiet_fail {α : Type} (e : SfError) : Quiet (fail e : KProc α) := within_fail (fun _ => Same.refl) e
theorem quiet_read : Quiet (Proc.read : KProc Kernel) := within_read fun _ => Same.refl

theorem quiet_bind {α β : Type} {p : KProc α} {f : α → KProc β} (hp : Quiet p) (hf : ∀ a, Quiet (f a)) : Quiet (p >>= f) :=
  within_bind (R := Same) (fun _ _ _ => Same.trans) hp hf

theorem quiet_forM {α : Type} {body : α → KProc PUnit} (xs : List α) (h : ∀ x, Quiet (body x)) : Quiet (xs.forM body) :=
  within_forM (fun _ => Same.refl) (fun _ _ _ => Same.trans) xs h

theorem quiet_configRead : Quiet configRead := fun _ => same_rest

theorem quiet_updateTask {f : Task → Task} (h : ∀ t, (f t).party = t.party) : Quiet (updateTask j f) :=
  fun _ => same_setTask (h _)

theorem quiet_virtioCap (cap h found : Nat) : Quiet (virtioCap cap h found) := by
  unfold virtioCap
  refine within_ite (quiet_fail _) ?_
  refine quiet_bind quiet_configRead fun id => quiet_bind quiet_configRead fun off => quiet_bind quiet_configRead fun n => ?_
  refine within_ite (quiet_fail _) (within_ite (quiet_pure _) (within_ite ?_ (within_ite (quiet_pure _) (quiet_pure _))))
  exact quiet_bind quiet_configRead fun _ => quiet_pure _

theorem quiet_walkCaps (steps cap found : Nat) : Quiet (walkCaps steps cap found) := by
  induction steps generalizing cap found with
  | zero => exact quiet_pure _
  | succ steps ih =>
    unfold walkCaps
    refine within_ite (quiet_pure _) (within_ite (quiet_fail _) ?_)
    refine quiet_bind quiet_configRead fun h => ?_
    split
    · exact quiet_bind (quiet_virtioCap _ _ _) fun _ => ih _ _
    · exact quiet_bind (quiet_pure _) fun _ => ih _ _

theorem quiet_spaceDeviceMmio (physical : Nat) : Quiet (spaceDeviceMmio physical) := by
  unfold spaceDeviceMmio
  refine quiet_bind quiet_read fun k => within_ite (quiet_fail _) ?_
  exact fun k => same_rest

theorem quiet_modernWindow (bar : Nat) : Quiet (modernWindow bar) := by
  unfold modernWindow
  refine quiet_bind quiet_read fun k => within_ite (quiet_fail _) ?_
  refine quiet_bind quiet_configRead fun high => within_ite (quiet_fail _) ?_
  refine quiet_bind quiet_configRead fun first => quiet_bind (quiet_walkCaps _ _ _) fun r => within_ite (quiet_fail _) ?_
  exact quiet_bind (quiet_spaceDeviceMmio _) fun _ => quiet_pure _

/-- A mapping whose failure is one of the pool. -/
theorem quiet_mapped {f : Kernel → Except SfError Unit × Kernel} (h : ∀ k, Same k (f k).2) :
    Quiet (fun k => match f k with
      | (.error _, k) => (.error .noSpace, k)
      | (.ok _, k) => (.ok ⟨⟩, k) : KProc PUnit) := by
  intro k
  have hk := h k
  rcases hr : f k with ⟨_ | _, k'⟩ <;> rw [hr] at hk <;> simpa only [hr] using hk

theorem quiet_mapDevice (j : TaskId) (modern : Bool) (physical : Nat) : Quiet (mapDevice L j modern physical) := by
  have hdma := fun i => quiet_mapped fun k => same_spaceMap L k j (sfDma + 4096 * i) (L.dma + 4096 * i) 3
  unfold mapDevice
  split
  · exact quiet_bind (quiet_forM _ fun i => quiet_mapped fun k => same_spaceMapMmio L k j (sfDeviceMmio + 4096 * i)
      (physical + 4096 * i))
      fun _ => quiet_forM _ hdma
  · exact quiet_forM _ hdma

theorem quiet_enableDevice (bdf : Nat) (modern : Bool) : Quiet (enableDevice L bdf modern) := by
  unfold enableDevice
  refine quiet_bind (fun k => (asked_iommuGrant k bdf L.dma).same) fun address => ?_
  refine quiet_bind quiet_configRead fun _ => quiet_bind quiet_configRead fun _ => within_ite (quiet_fail _) (quiet_pure _)

theorem quiet_takeDevice (j : TaskId) (args bdf rights io physical : Nat) (modern : Bool) :
    Quiet (takeDevice L j args bdf rights io physical modern) := by
  have hmem : ∀ (f : Kernel → Kernel), (∀ k, Same k (f k)) → Quiet (Proc.update f : KProc Unit) := fun f h => h
  unfold takeDevice
  refine quiet_bind (quiet_updateTask fun _ => rfl) fun _ => quiet_bind (fun k => same_deviceRelease k j) fun gone => ?_
  refine within_ite (quiet_fail _) (quiet_bind (quiet_updateTask fun _ => rfl) fun _ => ?_)
  refine quiet_bind (hmem _ fun k => same_rest) fun _ => ?_
  refine within_onError (R := Same) (fun _ _ _ => Same.trans) ?_ fun _ k => same_deviceRelease k j
  refine quiet_bind (quiet_mapDevice L j modern physical) fun _ => quiet_bind (quiet_enableDevice L bdf modern) fun _ => ?_
  exact hmem _ fun k => same_rest

/-- **A device grant changes nothing that the machine sees.** -/
theorem quiet_deviceGrant (j : TaskId) (bdfPlusOne rights args : Nat) : Quiet (deviceGrant L j bdfPlusOne rights args) := by
  unfold deviceGrant
  refine quiet_bind quiet_read fun k => within_ite (quiet_fail _) (within_ite (quiet_fail _) (within_ite (quiet_fail _) ?_))
  refine quiet_bind quiet_configRead fun identity => ?_
  split
  · exact quiet_fail _
  refine quiet_bind quiet_configRead fun bar =>
    within_ite ?_ (within_ite (quiet_fail _) (quiet_takeDevice L _ _ _ _ _ _ _))
  exact quiet_bind (quiet_modernWindow bar) fun physical => quiet_takeDevice L _ _ _ _ _ _ _

/-! ## Construction -/

theorem quiet_mem (f : Kernel → Mem) : Quiet (Proc.update fun k => { k with mem := f k } : KProc Unit) :=
  fun _ => same_rest

theorem quiet_mapNew (j : TaskId) (v flags : Nat) : Quiet (mapNew L j v flags) := by
  unfold mapNew
  refine quiet_bind (within_callSome fun k => same_pageAlloc L k _) fun page k => ?_
  have h := same_spaceMap L k j v (poolPage L page) flags
  rcases hr : spaceMap L k j v (poolPage L page) flags with ⟨_ | _, k'⟩ <;> rw [hr] at h <;> simpa only [hr] using h

theorem quiet_loadSegment (parent : Option TaskId) (j : TaskId) (base : Nat) (s : SfLoadSegment) :
    Quiet (loadSegment L parent j base s) := by
  unfold loadSegment
  refine quiet_forM _ fun i => ?_
  unfold loadPage
  refine quiet_bind (quiet_mapNew L j _ _) fun page k => ?_
  cases parent with
  | none => exact same_rest
  | some q =>
    dsimp only
    split <;> exact same_rest

theorem quiet_mapBundle (j : TaskId) (args : Nat) : Quiet (mapBundle L j args) := by
  unfold mapBundle
  refine quiet_bind (quiet_forM _ fun i k => ?_) fun _ => quiet_mem _
  have h := same_spaceMap L k j (sfBundle + 4096 * i) (L.bundle + 4096 * i) 1
  rcases hr : spaceMap L k j (sfBundle + 4096 * i) (L.bundle + 4096 * i) 1 with ⟨_ | _, k'⟩ <;> rw [hr] at h <;>
    simpa only [hr] using h

end Same

end SpiritFox.Core
