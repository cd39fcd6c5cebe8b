import SpiritFox.Lib.Fold
import SpiritFox.Lib.Tally
import SpiritFox.Kernel.Mapping

/-!
# What leaves spaces and accounts alone

The account of a task is what it uses and may use: its pages and its capabilities, with their limits. Devices,
capabilities and the clock never touch what spaces rest on (`Calm`) and give nobody more than allowed (`Thrifty`); nor do
they count bytes of messages or add a message to a queue (`Plain`). `Mild` is all of this, and it is shown once for each
function. The end of a task is the one change of this kind that takes a space away (`Isolated.taskDead`).
-/

namespace SpiritFox.Core

open ByteMem Proc Tally

/-- What a task may use, and the pages it uses. -/
def Task.account (t : Task) : Nat × Nat × Nat × Nat := (t.pid, t.pageCount, t.pageLimit, t.capLimit)

/-- Nobody has got a page, and nobody more capabilities than allowed; a quarantine stays, and a device is for a task
that has a pid. -/
structure Thrifty (k k' : Kernel) : Prop where
  owner : k'.owner = k.owner
  nextPid : k'.nextPid = k.nextPid
  quarantined : k.quarantined = true → k'.quarantined = true
  device : k'.deviceOwner = k.deviceOwner ∨ k'.deviceOwner = 0 ∨ ∃ j, k'.deviceOwner = (k.tasks j).pid
  account : ∀ j, (k'.tasks j).account = (k.tasks j).account
  caps : ∀ j, taskCapsUsed (k'.tasks j) ≤ max (taskCapsUsed (k.tasks j)) (k.tasks j).capLimit

/-- An account that is kept as `Thrifty` says, no byte of a message counted and no message queued. -/
structure Plain (k k' : Kernel) : Prop where
  thrifty : Thrifty k k'
  sent : k'.sendBytes = k.sendBytes
  received : k'.receiveBytes = k.receiveBytes
  queued : ∀ e, (k'.endpoints e).count ≤ (k.endpoints e).count

structure Mild (k k' : Kernel) : Prop where
  calm : Calm k k'
  plain : Plain k k'

/-- What happens to a task in a mild change. -/
structure Eased (t t' : Task) : Prop where
  account : t'.account = t.account
  cr3 : t'.cr3 = t.cr3
  recvBuffer : t'.recvBuffer = t.recvBuffer
  state : t'.state = t.state ∨ t.state = .blocked ∧ t'.state = .ready
  caps : taskCapsUsed t' ≤ max (taskCapsUsed t) t.capLimit

section Mild

variable {L : Layout} {k k' k'' : Kernel} {j : TaskId} {t : Task} {σ : TaskId → Option (Space L)}

theorem Thrifty.refl : Thrifty k k := ⟨rfl, rfl, id, Or.inl rfl, fun _ => rfl, fun _ => le_max_left _ _⟩

theorem Thrifty.trans (h : Thrifty k k') (h' : Thrifty k' k'') : Thrifty k k'' where
  owner := h'.owner.trans h.owner
  nextPid := h'.nextPid.trans h.nextPid
  quarantined hq := h'.quarantined (h.quarantined hq)
  device := by
    rcases h'.device with heq | h0 | ⟨i, hi⟩
    · rw [heq]
      exact h.device
    · exact Or.inr (Or.inl h0)
    · exact Or.inr (Or.inr ⟨i, hi.trans (congrArg (·.1) (h.account i))⟩)
  account i := (h'.account i).trans (h.account i)
  caps i := by
    have hlimit : (k'.tasks i).capLimit = (k.tasks i).capLimit := congrArg (·.2.2.2) (h.account i)
    have h₁ := h.caps i
    have h₂ := h'.caps i
    omega

/-! ## Changes elsewhere -/

theorem Plain.refl : Plain k k := ⟨.refl, rfl, rfl, fun _ => Nat.le_refl _⟩

theorem Plain.trans (h : Plain k k') (h' : Plain k' k'') : Plain k k'' :=
  ⟨h.thrifty.trans h'.thrifty, h'.sent.trans h.sent, h'.received.trans h.received,
    fun e => (h'.queued e).trans (h.queued e)⟩

theorem Mild.refl : Mild k k := ⟨.refl, .refl⟩

theorem Mild.trans (h : Mild k k') (h' : Mild k' k'') : Mild k k'' := ⟨h.calm.trans h'.calm, h.plain.trans h'.plain⟩

theorem Eased.refl : Eased t t := ⟨rfl, rfl, rfl, Or.inl rfl, le_max_left _ _⟩

/-- The task has the capabilities it had. -/
theorem caps_le_of_eq {t' : Task} (h : t'.caps = t.caps) : taskCapsUsed t' ≤ max (taskCapsUsed t) t.capLimit := by
  unfold taskCapsUsed
  rw [h]
  exact le_max_left _ _

/-- Tasks are eased, queues get no longer, and the parts that neither spaces nor accounts rest on change. -/
theorem mild_update {tasks : TaskId → Task} {endpoints : EpId → Endpoint} {mode : Mode} {current : Option TaskId}
    {ticks : Nat} {quarantined : Bool} {dmaStatus : DmaStatus} {iommu : Iommu} {console : Console} {hw : List Nat}
    {log : List Event} (htask : ∀ j, Eased (k.tasks j) (tasks j))
    (hqueued : ∀ e, (endpoints e).count ≤ (k.endpoints e).count) (hquarantined : k.quarantined = true → quarantined = true) :
    Mild k { k with tasks, endpoints, mode, current, ticks, quarantined, dmaStatus, iommu, console, hw, log } where
  calm := ⟨rfl, rfl, rfl, Or.inr rfl, rfl, fun j => congrArg (·.1) (htask j).account, fun j => (htask j).cr3,
    fun j => (htask j).recvBuffer, fun j => (htask j).state⟩
  plain := ⟨⟨rfl, rfl, hquarantined, Or.inl rfl, fun j => (htask j).account, fun j => (htask j).caps⟩, rfl, rfl, hqueued⟩

theorem mild_rest {mode : Mode} {current : Option TaskId} {ticks : Nat} {dmaStatus : DmaStatus} {iommu : Iommu}
    {console : Console} {hw : List Nat} {log : List Event} :
    Mild k { k with mode, current, ticks, dmaStatus, iommu, console, hw, log } :=
  mild_update (fun _ => .refl) (fun _ => Nat.le_refl _) id

theorem mild_tasks {f : TaskId → Task} (h : ∀ j, Eased (k.tasks j) (f j)) : Mild k { k with tasks := f } :=
  mild_update h (fun _ => Nat.le_refl _) id

theorem mild_setTask (h : Eased (k.tasks j) t) : Mild k (k.setTask j t) := by
  refine mild_tasks fun i => ?_
  by_cases hi : i = j
  · subst hi
    rwa [Function.update_self]
  · rw [Function.update_of_ne hi]
    exact .refl

theorem mild_setTask_of_caps (haccount : t.account = (k.tasks j).account) (hcr3 : t.cr3 = (k.tasks j).cr3)
    (hbuffer : t.recvBuffer = (k.tasks j).recvBuffer) (hstate : t.state = (k.tasks j).state)
    (hcaps : t.caps = (k.tasks j).caps) : Mild k (k.setTask j t) :=
  mild_setTask ⟨haccount, hcr3, hbuffer, Or.inl hstate, caps_le_of_eq hcaps⟩

theorem mild_setEndpoint {e : EpId} {x : Endpoint} (h : x.count ≤ (k.endpoints e).count) : Mild k (k.setEndpoint e x) := by
  refine mild_update (fun _ => .refl) (fun e' => ?_) id
  by_cases he : e' = e
  · subst he
    rwa [Function.update_self]
  · rw [Function.update_of_ne he]

/-! ## Devices -/

theorem Asked.mild (h : Asked k k') : Mild k k' := by
  obtain ⟨hw, iommu, rfl⟩ := h
  exact mild_rest

theorem mild_deviceRelease (k : Kernel) (j : TaskId) : Mild k (deviceRelease k j).2 := by
  have h := (asked_resetDevice k j).mild
  unfold deviceRelease
  split
  · exact .refl
  have hgone : Mild (resetDevice k j).2
      { (resetDevice k j).2 with quarantined := (resetDevice k j).2.quarantined || !(resetDevice k j).1 } :=
    mild_update (fun _ => .refl) (fun _ => Nat.le_refl _) fun hq => by simp [hq]
  exact (h.trans hgone).trans (mild_setTask_of_caps rfl rfl rfl rfl rfl)

/-! ## Capabilities -/

theorem taskCapsUsed_eq (t : Task) : taskCapsUsed t = tally fun i => (t.caps i).endpoint.isSome = true := by
  unfold taskCapsUsed tally
  rw [Finset.card_def, Finset.filter_val]
  change _ = Multiset.card (Multiset.filter _ (↑(List.finRange 32) : Multiset (Fin 32)))
  rw [Multiset.filter_coe, Multiset.coe_card]
  simp

theorem taskCapsUsed_le {t t' : Task} (h : ∀ i, (t'.caps i).endpoint.isSome = true → (t.caps i).endpoint.isSome = true) :
    taskCapsUsed t' ≤ taskCapsUsed t := by
  rw [taskCapsUsed_eq, taskCapsUsed_eq]
  exact Finset.card_le_card (Finset.monotone_filter_right _ fun i _ => h i)

theorem taskCapsUsed_setCap_le (t : Task) (i : CapId) (c : Cap) : taskCapsUsed (t.setCap i c) ≤ taskCapsUsed t + 1 := by
  rw [taskCapsUsed_eq, taskCapsUsed_eq]
  have hchange := tally_change (p := fun n => (t.caps n).endpoint.isSome = true)
    (q := fun n => ((t.setCap i c).caps n).endpoint.isSome = true) i fun n hn => by simp [Task.setCap, hn]
  split at hchange <;> split at hchange <;> omega

theorem mild_dropCap (k : Kernel) (j : TaskId) (i : CapId) : Mild k (dropCap k j i) := by
  refine mild_setTask ⟨rfl, rfl, rfl, Or.inl rfl, le_max_of_le_left (taskCapsUsed_le ?_)⟩
  intro n hn
  by_cases hni : n = i
  · simp [Task.setCap, hni] at hn
  · simpa [Task.setCap, hni] using hn

theorem eased_invalidated (t : Task) (e : EpId) (ticks : Nat) : Eased t (t.invalidated e ticks) := by
  have hcaps : taskCapsUsed (t.invalidated e ticks) ≤ taskCapsUsed t := taskCapsUsed_le fun n hn => by
    unfold Task.invalidated at hn
    grind
  unfold Task.invalidated at hcaps ⊢
  dsimp only at hcaps ⊢
  split at hcaps
  · rename_i hb
    rw [if_pos hb]
    exact ⟨rfl, rfl, rfl, Or.inr ⟨hb.1, rfl⟩, le_max_of_le_left hcaps⟩
  · rename_i hb
    rw [if_neg hb]
    exact ⟨rfl, rfl, rfl, Or.inl rfl, le_max_of_le_left hcaps⟩

theorem mild_invalidate (k : Kernel) (e : EpId) : Mild k (invalidate k e) := by
  have h : Mild k (k.setEndpoint e { k.endpoints e with
      owner := 0, count := 0, epoch := ((k.endpoints e).epoch + 1) % 2 ^ 32 }) :=
    mild_setEndpoint (Nat.zero_le _)
  exact (h.trans (mild_tasks fun j => eased_invalidated _ e _)).trans mild_rest

theorem mild_closeCap (k : Kernel) (j : TaskId) (i : CapId) (e : EpId) : Mild k (closeCap k j i e) := by
  unfold closeCap
  split
  · exact mild_dropCap k j i
  · exact (mild_dropCap k j i).trans (mild_invalidate _ e)

theorem mild_ipcCleanup (k : Kernel) (j : TaskId) : Mild k (ipcCleanup k j) := by
  have howned : Mild k (cleanupOwned k j) := by
    refine Fold.keeps (I := Mild k) _ (fun k' e _ h => ?_) .refl
    split
    · exact h.trans (mild_invalidate k' e)
    · exact h
  refine Fold.keeps (I := Mild k) _ (fun k' i _ h => ?_) howned
  unfold cleanupSlot
  split
  · exact h
  · exact h.trans (mild_closeCap k' j i _)

/-- A slot is given only where the limit has room. -/
theorem capSlot_some {t : Task} {i : CapId} (h : capSlot t = some i) : taskCapsUsed t < t.capLimit ∧
    (t.caps i).endpoint = none := by
  unfold capSlot at h
  split at h
  · cases h
  rename_i hroom
  have hfree := List.find?_some h
  simp only [decide_eq_true_eq, Option.isNone_iff_eq_none] at hfree
  exact ⟨by omega, hfree.1⟩

theorem mild_install {e : EpId} {rights : Nat} {r : Option Nat} (h : install k j e rights = (r, k')) : Mild k k' := by
  unfold install at h
  dsimp only at h
  split at h <;> cases h
  · exact .refl
  rename_i i hslot
  have hset : Mild k (k.setTask j ((k.tasks j).setCap i
      ⟨some e, (k.endpoints e).epoch, rights, ((k.tasks j).caps i).generation + 1⟩)) :=
    mild_setTask ⟨rfl, rfl, rfl, Or.inl rfl,
      le_max_of_le_right ((taskCapsUsed_setCap_le _ i _).trans (capSlot_some hslot).1)⟩
  exact hset.trans mild_rest

theorem mild_ipcGrant (k : Kernel) (parent child : TaskId) (h rights : Nat) :
    Mild k (ipcGrant k parent child h rights).2 := by
  unfold ipcGrant
  split
  · exact .refl
  dsimp only
  split
  · exact .refl
  split <;> rename_i heq
  · exact mild_install heq
  · exact (mild_install heq).trans mild_rest

/-! ## The calls that touch no memory -/

theorem mild_epCreate (k : Kernel) (j : TaskId) : Mild k (epCreate k j).2 := by
  unfold epCreate
  split
  · exact .refl
  split
  · exact .refl
  rename_i e _
  have h₁ : ∀ owner epoch ev,
      Mild k ((k.setEndpoint e { k.endpoints e with owner, epoch, head := 0, count := 0 }).record ev) :=
    fun _ _ _ => (mild_setEndpoint (Nat.zero_le _)).trans mild_rest
  dsimp only
  split <;> rename_i heq
  · exact (h₁ _ _ _).trans (mild_install heq)
  · exact ((h₁ _ _ _).trans (mild_install heq)).trans (mild_setEndpoint (Nat.le_refl _))

theorem mild_capClose (k : Kernel) (j : TaskId) (a : Nat) : Mild k (capClose k j a).2 := by
  unfold capClose
  split
  · exact .refl
  · exact mild_closeCap k j _ _

theorem mild_capDerive (k : Kernel) (j : TaskId) (a b : Nat) : Mild k (capDerive k j a b).2 := by
  unfold capDerive
  split
  · exact .refl
  dsimp only
  split
  · exact .refl
  split <;> rename_i heq
  · exact mild_install heq
  · exact (mild_install heq).trans mild_rest

theorem mild_capRevoke (k : Kernel) (j : TaskId) (a : Nat) : Mild k (capRevoke k j a).2 := by
  unfold capRevoke
  split
  · exact .refl
  split
  · exact .refl
  · exact mild_rest.trans (mild_invalidate _ _)

theorem cancelRounds_kept (pid requestId head : Nat) (queue : Fin 8 → SfMessage) (n : Nat) :
    ((List.range n).foldl (cancelRound pid requestId head) (queue, 0)).2 ≤ n := by
  induction n with
  | zero => exact Nat.le_refl 0
  | succ n ih =>
    have hround : ∀ acc i, (cancelRound pid requestId head acc i).2 ≤ acc.2 + 1 := by
      intro acc i
      unfold cancelRound
      dsimp only
      split <;> simp
    rw [List.range_succ, List.foldl_append]
    exact (hround _ _).trans (Nat.succ_le_succ ih)

theorem mild_sendCancel (k : Kernel) (j : TaskId) (a b c : Nat) : Mild k (sendCancel k j a b c).2 := by
  unfold sendCancel
  split
  · exact .refl
  split
  · exact .refl
  dsimp only
  split
  · exact .refl
  split
  · exact .refl
  · exact (mild_setEndpoint (cancelRounds_kept _ _ _ _ _)).trans mild_rest

theorem calm_taskLimit {a b c max : Nat} {used : Option (Task → Nat)} {limit : Task → Nat} {set : Task → Nat → Task}
    (hset : ∀ t n, (set t n).pid = t.pid ∧ (set t n).cr3 = t.cr3 ∧ (set t n).recvBuffer = t.recvBuffer ∧
      (set t n).state = t.state) :
    Calm k (taskLimit k a b c max used limit set).2 := by
  rcases taskLimit_cases with h | ⟨j, -, -, h⟩ <;> rw [h]
  · exact .refl
  obtain ⟨hpid, hcr3, hbuffer, hstate⟩ := hset (k.tasks j) b
  exact calm_setTask hpid hcr3 hbuffer (Or.inl hstate)

theorem mild_taskPriority (k : Kernel) (a b c : Nat) : Mild k (taskPriority k a b c).2 := by
  unfold taskPriority
  rcases taskLimit_cases with h | ⟨j, -, -, h⟩ <;> rw [h]
  · exact .refl
  · exact mild_setTask_of_caps rfl rfl rfl rfl rfl

theorem mild_deviceIo (k : Kernel) (j : TaskId) (port operation : Nat) : Mild k (deviceIo k j port operation).2 := by
  unfold deviceIo
  dsimp only
  split
  · exact .refl
  split
  · exact .refl
  split
  · exact .refl
  · exact mild_rest

theorem mild_sysDeviceRelease (k : Kernel) (j : TaskId) (a : Nat) : Mild k (sysDeviceRelease k j a).2 := by
  unfold sysDeviceRelease
  split
  · exact mild_deviceRelease k j
  split
  · exact .refl
  split
  · exact .refl
  · exact mild_deviceRelease k _

theorem mild_pciRead (k : Kernel) (bdf offset : Nat) : Mild k (pciRead k bdf offset).2 := by
  unfold pciRead
  split
  · exact .refl
  · exact mild_rest

/-! ## The clock and the scheduler -/

theorem mild_ipcDeadlines (k : Kernel) : Mild k (ipcDeadlines k) := by
  refine mild_tasks fun j => ?_
  dsimp only
  split
  · rename_i hb
    exact ⟨rfl, rfl, rfl, Or.inr ⟨hb.1, rfl⟩, caps_le_of_eq rfl⟩
  · exact .refl

theorem mild_acknowledge (k : Kernel) (vector : Nat) (input : List UInt8) : Mild k (acknowledge k vector input) := by
  have hconsole : ∀ k : Kernel, Mild k (if vector = 36 then { k with console := consoleIrq k.console input } else k) := by
    intro k
    split
    · exact mild_rest
    · exact .refl
  unfold acknowledge
  refine Mild.trans ?_ (hconsole _)
  split
  · have h : Mild k { k with ticks := (k.ticks + 1) % 2 ^ 64 } := mild_rest
    exact h.trans (mild_ipcDeadlines _)
  · exact .refl

theorem mild_enterSchedule (k : Kernel) : Mild k (enterSchedule k) := by
  unfold enterSchedule
  split
  · exact .refl
  have h : Mild k { k with mode := .sched } := mild_rest
  dsimp only
  split
  · exact h
  split
  · exact h.trans (mild_setTask_of_caps rfl rfl rfl rfl rfl)
  · exact h

theorem mild_setRax (k : Kernel) (j : TaskId) (value : Int) : Mild k (setRax k j value) :=
  mild_setTask_of_caps rfl rfl rfl rfl rfl

theorem Isolated.mild (hk : Isolated L k σ) (h : Mild k k') : Isolated L k' σ := hk.calm h.calm

/-- Bytes are counted and queues change. -/
theorem calm_message {sendBytes receiveBytes : Nat} {endpoints : EpId → Endpoint} {log : List Event} :
    Calm k { k with sendBytes, receiveBytes, endpoints, log } :=
  ⟨rfl, rfl, rfl, Or.inr rfl, rfl, fun _ => rfl, fun _ => rfl, fun _ => rfl, fun _ => Or.inl rfl⟩

/-! ## Death -/

/-- The device changes hands when no task with a space has it. -/
theorem Isolated.setDevice (hk : Isolated L k σ) (hno : ∀ j, σ j ≠ none → k.deviceOwner ≠ (k.tasks j).pid) (pid : Nat) :
    Isolated L { k with deviceOwner := pid } σ := by
  refine ⟨hk.represents, hk.cr3, hk.owned, fun j s hs v x hx => ?_, hk.live, hk.buffer, hk.named, hk.distinct, hk.bounded⟩
  have hg := hk.granted j s hs v x hx
  have hj := hno j (by simp [hs])
  cases hx' : x.target with
  | page i => trivial
  | bundle n => trivial
  | arena n =>
    rw [hx'] at hg
    exact absurd hg hj
  | registers physical aligned low high =>
    rw [hx'] at hg
    exact absurd hg.1 hj

/-- The device is free for the next task. -/
theorem Isolated.forget (hk : Isolated L k σ) (hσ : σ j = none) : Isolated L (deviceForget k j) σ := by
  unfold deviceForget
  split
  · rename_i hown
    refine hk.setDevice (fun j' hs ho => ?_) 0
    -- Another owner would be the task that ends.
    have hj := hk.distinct j' j (ho.symm.trans hown) (hk.named j' hs)
    rw [hj] at hs
    exact hs hσ
  · exact hk

theorem Isolated.bury (hk : Isolated L k σ) (j : TaskId) (status : Int) : Isolated L (bury k j status) σ :=
  hk.setTask rfl (fun _ => rfl) (by simp) nofun

/-- **The end of a task takes its space away and leaves the others.** -/
theorem Isolated.taskDead (hk : Isolated L k σ) (j : TaskId) (status : Int) :
    Isolated L (taskDead L k j status) (Function.update σ j none) := by
  have hclean := (hk.mild (mild_deviceRelease k j)).mild (mild_ipcCleanup _ j)
  unfold SpiritFox.Core.taskDead
  generalize ipcCleanup (deviceRelease k j).2 j = k₁ at hclean ⊢
  have hdead : ((SpiritFox.Core.bury k₁ j status).tasks j).state = .dead := by simp [SpiritFox.Core.bury, Kernel.setTask]
  have hfree := (hclean.bury j status).free (j := j) (by simp [hdead])
  dsimp only
  exact hfree.forget (Function.update_self _ _ _)

end Mild

end SpiritFox.Core
