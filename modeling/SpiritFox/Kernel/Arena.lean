import SpiritFox.Kernel.Rollback

/-!
# One driver at a time

The DMA arena is never recycled: it passes from one driver to the next. Who has it is written in `deviceOwner`, and
a live task that can reach the arena or device registers has that pid, because its space says so. A grant is made
only when there is no such task, and after a device could not be silenced there is none at all: `arena_exclusive`.
-/

namespace SpiritFox.Core

open ByteMem Proc Relation

/-- The task can reach the arena, or something beyond the kernel's memory. -/
def MapsDevice (L : Layout) (k : Kernel) (j : TaskId) : Prop :=
  ∃ v leaf, walk k.mem (k.tasks j).cr3 v = some leaf ∧
    (L.dma ≤ leaf.frame ∧ leaf.frame < L.dma + sfDmaBytes ∨ 0x40000000 ≤ leaf.frame)

section Arena

variable {L : Layout} {k k' : Kernel} {j : TaskId} {parent : Option TaskId}

theorem Spaced.device_owner (hk : Spaced L k) (hl : Live k j) (h : MapsDevice L k j) : k.deviceOwner = (k.tasks j).pid := by
  obtain ⟨σ, hσ⟩ := hk
  obtain ⟨v, leaf, hw, hframe⟩ := h
  unfold sfDmaBytes at hframe
  cases hσ.permitted hl hw with
  | own i hi hp =>
    have h₁ := L.pool_le
    have h₂ := L.dma_disjoint
    have h₃ := i.isLt
    unfold poolPage at hp
    omega
  | bundle n hn hb =>
    have h₁ := L.bundle_le
    have h₂ := L.bundle_dma
    have h₃ := L.bundle_aligned
    omega
  | arena n hn ha hd => exact hd
  | registers hr hd => exact hd

theorem Spaced.device_unique (hk : Spaced L k) {j' : TaskId} (hl : Live k j) (hl' : Live k j') (h : MapsDevice L k j)
    (h' : MapsDevice L k j') : j = j' := by
  have hpid := (hk.device_owner hl h).symm.trans (hk.device_owner hl' h')
  obtain ⟨σ, hσ⟩ := hk
  exact hσ.distinct j j' hpid (hσ.named j (hσ.live j hl))

/-! ## Grants -/

/-- Before the grant of a device, a construction leaves the device alone. -/
theorem Work.device_same (h : Work L false parent j k k') : k'.deviceOwner = k.deviceOwner ∧
    k'.quarantined = k.quarantined := by
  cases h with
  | page =>
    rcases pageAlloc_cases L k (k.tasks j).pid with heq | ⟨j', i, _, _, _, _, _, heq⟩ <;> rw [heq] <;> exact ⟨rfl, rfl⟩
  | write m => exact ⟨rfl, rfl⟩
  | task t => exact ⟨rfl, rfl⟩
  | grant q hq n rights =>
    unfold ipcGrant install
    split
    · exact ⟨rfl, rfl⟩
    dsimp only
    split
    · exact ⟨rfl, rfl⟩
    · cases capSlot (k.tasks j) <;> exact ⟨rfl, rfl⟩
  | ask ha =>
    obtain ⟨hw, iommu, rfl⟩ := ha
    exact ⟨rfl, rfl⟩
  | window physical => exact ⟨rfl, rfl⟩
  | take hd => cases hd
  | release hd => cases hd

/-- Who has the device, and whether nobody may get it. -/
def DeviceAs (pid : Nat) (barred : Bool) (k : Kernel) : Prop := k.deviceOwner = pid ∧ k.quarantined = barred

variable {pid : Nat} {barred : Bool}

theorem triple_working {α : Type} {m : KProc α} (h : Working L false parent j m) :
    Triple (DeviceAs pid barred) m (fun _ => DeviceAs pid barred) fun _ _ => True := by
  intro k hk
  have hsame : (m k).2.deviceOwner = k.deviceOwner ∧ (m k).2.quarantined = k.quarantined := by
    have hworks := h k
    generalize (m k).2 = k' at hworks ⊢
    induction hworks with
    | refl => exact ⟨rfl, rfl⟩
    | tail _ hw ih => exact ⟨hw.device_same.1.trans ih.1, hw.device_same.2.trans ih.2⟩
  rcases hr : m k with ⟨e | a, k'⟩ <;> rw [hr] at hsame
  · trivial
  · exact ⟨hsame.1.trans hk.1, hsame.2.trans hk.2⟩

/-- What holds anyway holds at the end. -/
theorem triple_anyway {α : Type} {P : Kernel → Prop} {m : KProc α} {C : Prop} (h : C) :
    Triple P m (fun _ _ => C) fun _ _ => True := by
  intro k _
  rcases m k with ⟨e | a, k'⟩
  · trivial
  · exact h

theorem triple_grantDevice_free (p : SfLoadPlan) (args : Nat) : Triple (DeviceAs pid barred) (grantDevice L j p args)
    (fun _ _ => p.grantDevice ≠ 0 → pid = 0 ∧ barred = false) fun _ _ => True := by
  refine triple_ite (fun _ => ?_) fun hno => triple_pure fun k _ hp => absurd hp hno
  unfold deviceGrant
  refine triple_read fun k hk => triple_ite (fun _ => triple_fail fun _ _ => trivial) fun _ => ?_
  refine triple_ite (fun _ => triple_fail fun _ _ => trivial) fun hfree => triple_anyway fun _ => ?_
  rw [← hk.1, ← hk.2]
  simpa using hfree

/-- **A task that is made with a device finds it free.** -/
theorem triple_construct_free (p : SfLoadPlan) : Triple (DeviceAs pid barred) (construct L parent j p)
    (fun _ _ => p.grantDevice ≠ 0 → pid = 0 ∧ barred = false) fun _ _ => True := by
  have hworking : ∀ {α : Type} {m : KProc α}, Working L false parent j m →
      Triple (DeviceAs pid barred) m (fun _ => DeviceAs pid barred) fun _ _ => True := triple_working
  unfold construct
  refine triple_bind (hworking fun k => works_spaceNew k) fun cr3 => ?_
  refine triple_bind (hworking (working_updateTask fun t => ⟨rfl, Or.inl rfl⟩)) fun _ => ?_
  refine triple_ite (fun _ => triple_fail fun _ _ => trivial) fun _ => ?_
  refine triple_bind (hworking (working_forM _ fun s => working_loadSegment _ s)) fun _ => ?_
  refine triple_bind (hworking (working_forM _ working_stackPage)) fun _ =>
    triple_bind (hworking (working_mapNew _ _)) fun page => ?_
  refine triple_bind (hworking (working_update fun k => .write _)) fun _ =>
    triple_bind (hworking (working_grantBundle p _)) fun _ => ?_
  refine triple_bind (hworking (working_grantCaps p _)) fun _ => triple_bind (triple_grantDevice_free p _) fun _ => ?_
  exact triple_update fun _ h => h

theorem taskNewLimited_free {p : SfLoadPlan} {pages pid : Nat} (hp : p.grantDevice ≠ 0)
    (h : taskNewLimited L parent p pages k = (.ok pid, k')) :
    k.deviceOwner = 0 ∧ k.quarantined = false := by
  have htriple : Triple (fun k' => k' = k) (taskNewLimited L parent p pages)
    (fun _ _ => k.deviceOwner = 0 ∧ k.quarantined = false)
      fun _ _ => True := by
    unfold taskNewLimited
    refine triple_read fun k' hk' => ?_
    obtain rfl := hk'.symm
    refine triple_ite (fun _ => triple_fail fun _ _ => trivial) fun _ =>
      triple_ite (fun _ => triple_fail fun _ _ => trivial) fun _ => ?_
    split
    · exact triple_fail fun _ _ => trivial
    rename_i j _
    refine triple_ite (fun _ => triple_fail fun _ _ => trivial) fun _ => ?_
    refine triple_bind (Q := fun _ => DeviceAs k.deviceOwner k.quarantined) (triple_update ?_) fun _ => ?_
    · rintro k' rfl
      exact ⟨rfl, rfl⟩
    refine triple_bind (triple_onError (triple_construct_free p) fun _ _ _ => trivial) fun _ => ?_
    exact triple_read_of fun _ hfree => triple_anyway (hfree hp)
  have hk := htriple k rfl
  rw [h] at hk
  exact hk

/-! ## Quarantine -/

theorem Deed.quarantined (h : Deed L k k') (hq : k.quarantined = true) : k'.quarantined = true := by
  cases h with
  | thrifty h => exact h.quarantined hq
  | alloc j =>
    rcases pageAlloc_cases L k (k.tasks j).pid with heq | ⟨j', i, _, _, _, _, _, heq⟩ <;> rw [heq] <;> exact hq
  | free j =>
    unfold pagesFree
    split <;> exact hq
  | occupy j pages => exact hq
  | pageLimit a b c =>
    unfold taskPageLimit
    rcases taskLimit_cases with heq | ⟨j, -, -, heq⟩ <;> rw [heq] <;> exact hq
  | capLimit a b c =>
    unfold taskCapLimit
    rcases taskLimit_cases with heq | ⟨j, -, -, heq⟩ <;> rw [heq] <;> exact hq

theorem Deeds.quarantined (h : Deeds L k k') (hq : k.quarantined = true) : k'.quarantined = true := by
  induction h with
  | refl => exact hq
  | tail _ hd ih => exact hd.quarantined ih

theorem Later.quarantined (h : Later L k k') (hq : k.quarantined = true) : k'.quarantined = true := by
  induction h with
  | refl => exact hq
  | step _ action ih => exact (step_deeds _ action).quarantined ih

theorem Calling.quarantined (h : Calling L (Later L k) parent k') (hq : k.quarantined = true) : k'.quarantined = true := by
  cases h with
  | between h => exact h.quarantined hq
  | call h _ _ regs input hw => exact (deeds_callState _ _ regs input hw).quarantined (h.quarantined hq)

/-- A device that was in use and could not be silenced. -/
theorem deviceRelease_fails (hio : (k.tasks j).deviceIo ≠ 0) (h : (resetDevice k j).1 = false) :
    (deviceRelease k j).2.quarantined = true := by
  unfold deviceRelease
  rw [if_neg hio]
  simp [Kernel.setTask, h]

structure ArenaExclusive (L : Layout) (k : Kernel) : Prop where
  owner : ∀ j, Live k j → MapsDevice L k j → k.deviceOwner = (k.tasks j).pid
  unique : ∀ j j', Live k j → Live k j' → MapsDevice L k j → MapsDevice L k j' → j = j'
  /-- A spawn with a device, made now or by a call in this state. -/
  granted : ∀ parent k₁, Calling L (Eq k) parent k₁ → ∀ p pages pid k₂, p.grantDevice ≠ 0 →
    taskNewLimited L parent p pages k₁ = (.ok pid, k₂) → k₁.deviceOwner = 0 ∧ ∀ j, Live k₁ j → ¬ MapsDevice L k₁ j
  /-- A device that does not come out of a reset, stays on the bus or keeps its translation. -/
  failed : ∀ k₁ j, (k₁.tasks j).deviceIo ≠ 0 → (resetDevice k₁ j).1 = false → (deviceRelease k₁ j).2.quarantined = true
  sticky : k.quarantined = true → ∀ k₁, Later L k k₁ → k₁.quarantined = true
  barred : k.quarantined = true → ∀ parent k₁, Calling L (Later L k) parent k₁ → ∀ p pages pid k₂, p.grantDevice ≠ 0 →
    taskNewLimited L parent p pages k₁ ≠ (.ok pid, k₂)

/-- **At most one live task reaches the arena or device registers, a device is granted only when there is none, and
a quarantine is for ever.** -/
theorem arena_exclusive (h : Reach L k) : ArenaExclusive L k := by
  have hspaced := reach_spaced h
  refine ⟨fun j hl hm => hspaced.device_owner hl hm, fun j j' hl hl' hm hm' => hspaced.device_unique hl hl' hm hm',
    fun parent k₁ hcall p pages pid k₂ hp hr => ?_, fun k₁ j hio hreset => deviceRelease_fails hio hreset,
    fun hq k₁ hl => hl.quarantined hq, fun hq parent k₁ hcall p pages pid k₂ hp hr => ?_⟩
  · have hsite := (hcall.mono fun _ hk => hk ▸ h).site
    have hfree := (taskNewLimited_free hp hr).1
    refine ⟨hfree, fun j hl hm => hsite.caps.live j hl ?_⟩
    exact (hsite.spaced.device_owner hl hm).symm.trans hfree
  · have hbarred := hcall.quarantined hq
    rw [(taskNewLimited_free hp hr).2] at hbarred
    cases hbarred

theorem arena_exclusive_talk : sampleTalk.deviceOwner = 2 ∧ ArenaExclusive sampleLayout sampleTalk :=
  ⟨sampleTalk_spec.2.2.2.1, arena_exclusive reach_sampleTalk⟩

end Arena

end SpiritFox.Core
