import SpiritFox.Kernel.Deeds
import SpiritFox.Kernel.Isolation

/-!
# Accounts are right

`pageCount` is counted up by `page_alloc`, set to zero by `pages_free` and by the reuse of a slot, and bounded by a
limit that PID 1 may change; the capabilities in use are counted by a scan. `Books` is what all of this keeps: every
deed keeps it, so it holds in every state of every step, a task under construction included (`quota_accounting`).
-/

namespace SpiritFox.Core

open ByteMem Proc Relation Tally

/-- The pages and capabilities of the task are counted, and within its limits. -/
structure Solvent (k : Kernel) (j : TaskId) : Prop where
  pages : (k.tasks j).pageCount = tally fun i => k.owner i = (k.tasks j).pid
  pages_le : (k.tasks j).pageCount ≤ (k.tasks j).pageLimit
  pageLimit_le : (k.tasks j).pageLimit ≤ 4096
  caps_le : taskCapsUsed (k.tasks j) ≤ (k.tasks j).capLimit
  capLimit_le : (k.tasks j).capLimit ≤ 32

structure Books (k : Kernel) : Prop where
  solvent : ∀ j, (k.tasks j).pid ≠ 0 → Solvent k j
  owner_lt : ∀ i, k.owner i < k.nextPid
  pid_lt : ∀ j, (k.tasks j).pid < k.nextPid
  device_lt : k.deviceOwner < k.nextPid
  distinct : ∀ j j', (k.tasks j).pid = (k.tasks j').pid → (k.tasks j).pid ≠ 0 → j = j'
  /-- `INT32_MAX` is the last pid. -/
  nextPid_le : k.nextPid ≤ 0x80000000

section Books

variable {L : Layout} {k k' : Kernel} {j : TaskId}

theorem books_initial (m : Mem) (iommu : Iommu) (mmioReady : Bool) : Books (initial m iommu mmioReady) where
  solvent _ h := absurd rfl h
  owner_lt _ := Nat.one_pos
  pid_lt _ := Nat.one_pos
  device_lt := Nat.one_pos
  distinct _ _ _ h := absurd rfl h
  nextPid_le := Nat.le_of_ble_eq_true rfl

theorem Books.thrifty (hk : Books k) (h : Thrifty k k') : Books k' := by
  have haccount : ∀ i, (k'.tasks i).pid = (k.tasks i).pid ∧ (k'.tasks i).pageCount = (k.tasks i).pageCount ∧
      (k'.tasks i).pageLimit = (k.tasks i).pageLimit ∧ (k'.tasks i).capLimit = (k.tasks i).capLimit := fun i => by
    simpa [Task.account] using h.account i
  refine ⟨fun i hi => ?_, fun i => ?_, fun i => ?_, ?_, fun i i' he h0 => ?_, ?_⟩
  · obtain ⟨hpid, hcount, hpages, hcaps⟩ := haccount i
    have ha := hk.solvent i (hpid ▸ hi)
    have hused := h.caps i
    rw [max_eq_right ha.caps_le] at hused
    refine ⟨?_, ?_, ?_, ?_, ?_⟩
    · rw [hcount, hpid, h.owner]
      exact ha.pages
    · rw [hcount, hpages]
      exact ha.pages_le
    · rw [hpages]
      exact ha.pageLimit_le
    · rw [hcaps]
      exact hused
    · rw [hcaps]
      exact ha.capLimit_le
  · rw [h.owner, h.nextPid]
    exact hk.owner_lt i
  · rw [(haccount i).1, h.nextPid]
    exact hk.pid_lt i
  · rw [h.nextPid]
    have hlt := hk.device_lt
    rcases h.device with heq | h0 | ⟨i, hi⟩
    · exact heq ▸ hlt
    · exact h0 ▸ Nat.zero_lt_of_lt hlt
    · exact hi ▸ hk.pid_lt i
  · rw [(haccount i).1] at he h0
    rw [(haccount i').1] at he
    exact hk.distinct i i' he h0
  · rw [h.nextPid]
    exact hk.nextPid_le

/-- Only the account of one task changes, and only pages of that task change hands. -/
theorem Books.settle (hk : Books k) (hothers : ∀ i, i ≠ j → k'.tasks i = k.tasks i)
    (hpid : (k'.tasks j).pid = (k.tasks j).pid)
    (howner : ∀ i, k'.owner i = k.owner i ∨ (k.owner i = 0 ∨ k.owner i = (k.tasks j).pid) ∧
      (k'.owner i = 0 ∨ k'.owner i = (k.tasks j).pid))
    (hnext : k'.nextPid = k.nextPid) (hdevice : k'.deviceOwner = k.deviceOwner)
    (hj : (k.tasks j).pid ≠ 0 → Solvent k' j) : Books k' := by
  have hpids : ∀ i, (k'.tasks i).pid = (k.tasks i).pid := fun i => by
    by_cases hi : i = j
    · rw [hi, hpid]
    · rw [hothers i hi]
  refine ⟨fun i hi => ?_, fun i => ?_, fun i => ?_, ?_, fun i i' he h0 => ?_, by rw [hnext]; exact hk.nextPid_le⟩
  · by_cases hij : i = j
    · subst hij
      exact hj (hpid ▸ hi)
    · rw [hothers i hij] at hi
      have ha := hk.solvent i hi
      have hne : (k.tasks j).pid ≠ (k.tasks i).pid := fun he => hij (hk.distinct i j he.symm hi)
      have htally : (tally fun n => k'.owner n = (k.tasks i).pid) = tally fun n => k.owner n = (k.tasks i).pid := by
        refine tally_congr fun n => ?_
        have hn := howner n
        omega
      refine ⟨?_, ?_, ?_, ?_, ?_⟩ <;> rw [hothers i hij]
      · rw [htally]
        exact ha.pages
      · exact ha.pages_le
      · exact ha.pageLimit_le
      · exact ha.caps_le
      · exact ha.capLimit_le
  · have h₁ := hk.owner_lt i
    have h₂ := hk.pid_lt j
    have h₃ := howner i
    omega
  · rw [hpids, hnext]
    exact hk.pid_lt i
  · rw [hdevice, hnext]
    exact hk.device_lt
  · rw [hpids] at he h0
    rw [hpids] at he
    exact hk.distinct i i' he h0

theorem Books.alloc (hk : Books k) (j : TaskId) : Books (pageAlloc L k (k.tasks j).pid).2 := by
  rcases pageAlloc_cases L k (k.tasks j).pid with heq | ⟨j', i, hpid, hj', _, hroom, hfree, heq⟩ <;> rw [heq]
  · exact hk
  obtain rfl := hk.distinct j' j hj' (hj' ▸ hpid)
  have ha := hk.solvent j' hpid
  refine hk.settle (j := j') (fun n hn => Function.update_of_ne hn _ _) (by simp [Kernel.setTask])
    (fun n => ?_) rfl rfl fun _ => ?_
  · by_cases hn : n = i
    · subst hn
      simp [hfree]
    · simp [hn]
  have hchange := tally_change (p := fun n => k.owner n = (k.tasks j').pid)
    (q := fun n => Function.update k.owner i (k.tasks j').pid n = (k.tasks j').pid) i fun n hn => by simp [hn]
  rw [if_neg (by rw [hfree]; exact fun h => hpid h.symm), if_pos (by simp)] at hchange
  have hpages := ha.pages
  refine ⟨?_, ?_, ?_, ?_, ?_⟩ <;> simp only [Kernel.setTask, Function.update_self]
  · omega
  · omega
  · exact ha.pageLimit_le
  · exact ha.caps_le
  · exact ha.capLimit_le

theorem Books.free (hk : Books k) (j : TaskId) : Books (pagesFree L k (k.tasks j).pid) := by
  unfold pagesFree
  split
  · exact hk
  rename_i hpid
  have hne : (k.tasks j).pid ≠ 0 := (not_or.1 hpid).1
  have ha := hk.solvent j hne
  refine hk.settle (j := j) (fun i hi => ?_) (by simp) (fun i => ?_) rfl rfl fun _ => ?_
  · exact if_neg fun he => hi (hk.distinct i j he (he ▸ hne))
  · by_cases hi : k.owner i = (k.tasks j).pid <;> simp [hi]
  refine ⟨?_, ?_, ?_, ?_, ?_⟩ <;> simp only [if_pos]
  · symm
    refine tally_eq_zero.2 fun i => ?_
    split
    · exact hne.symm
    · assumption
  · exact Nat.zero_le _
  · exact ha.pageLimit_le
  · exact ha.caps_le
  · exact ha.capLimit_le

theorem taskCapsUsed_empty (t : Task) (h : ∀ i, (t.caps i).endpoint = none) : taskCapsUsed t = 0 := by
  rw [taskCapsUsed_eq]
  exact tally_eq_zero.2 fun i => by simp [h i]

theorem occupy_self {pid pages : Nat} : (occupy k j pid pages).tasks j = { k.tasks j with
    caps := fun i => { (k.tasks j).caps i with endpoint := none }, pid := pid, state := .empty,
    deviceIo := 0, deviceBdf := 0, deviceFault := false, deviceModern := false, priority := 1, capLimit := 32,
    pageLimit := pages, pageCount := 0, readySince := k.ticks } := Function.update_self _ _ _

theorem occupy_other {pid pages : Nat} {i : TaskId} (hi : i ≠ j) : (occupy k j pid pages).tasks i = k.tasks i :=
  Function.update_of_ne hi _ _

/-- A new pid has no pages. -/
theorem Books.occupy (hk : Books k) (j : TaskId) {pages : Nat} (hpages : pages ≤ 4096)
    (hpid : pidAvailable k.nextPid = true) :
    Books (occupy k j k.nextPid pages) := by
  have hnext : (SpiritFox.Core.occupy k j k.nextPid pages).nextPid = k.nextPid + 1 := rfl
  simp only [pidAvailable, Bool.decide_and, Bool.and_eq_true, decide_eq_true_eq] at hpid
  refine ⟨fun i hi => ?_, fun i => Nat.lt_succ_of_lt (hk.owner_lt i), fun i => ?_,
    Nat.lt_succ_of_lt hk.device_lt, fun i i' he h0 => ?_, by rw [hnext]; omega⟩
  · by_cases hij : i = j
    · subst hij
      refine ⟨?_, ?_, ?_, ?_, ?_⟩ <;> rw [occupy_self]
      · symm
        exact tally_eq_zero.2 fun n => Nat.ne_of_lt (hk.owner_lt n)
      · exact Nat.zero_le _
      · exact hpages
      · rw [taskCapsUsed_empty _ fun _ => rfl]
        exact Nat.zero_le _
    · rw [occupy_other hij] at hi
      have ha := hk.solvent i hi
      refine ⟨?_, ?_, ?_, ?_, ?_⟩ <;> rw [occupy_other hij]
      · exact ha.pages
      · exact ha.pages_le
      · exact ha.pageLimit_le
      · exact ha.caps_le
      · exact ha.capLimit_le
  · rw [hnext]
    by_cases hij : i = j
    · rw [hij, occupy_self]
      exact Nat.lt_succ_self _
    · rw [occupy_other hij]
      exact Nat.lt_succ_of_lt (hk.pid_lt i)
  · by_cases hi : i = j <;> by_cases hi' : i' = j
    · rw [hi, hi']
    · rw [hi, occupy_self, occupy_other hi'] at he
      exact absurd he (Nat.ne_of_gt (hk.pid_lt i'))
    · rw [hi', occupy_self, occupy_other hi] at he
      exact absurd he (Nat.ne_of_lt (hk.pid_lt i))
    · rw [occupy_other hi] at he h0
      rw [occupy_other hi'] at he
      exact hk.distinct i i' he h0

/-! ## Limits -/

theorem Books.setLimit (hk : Books k) {t : Task} (hpid : t.pid = (k.tasks j).pid)
    (ha : Solvent k j → Solvent (k.setTask j t) j) :
    Books (k.setTask j t) :=
  hk.settle (j := j) (fun _ hi => Function.update_of_ne hi _ _) (by simpa [Kernel.setTask] using hpid)
    (fun _ => Or.inl rfl) rfl rfl
    fun h => ha (hk.solvent j h)

theorem Books.pageLimit (hk : Books k) (a b c : Nat) : Books (taskPageLimit k a b c).2 := by
  unfold taskPageLimit
  rcases taskLimit_cases with heq | ⟨j, hmax, hused, heq⟩ <;> rw [heq]
  · exact hk
  refine hk.setLimit rfl fun ha => ?_
  refine ⟨?_, ?_, ?_, ?_, ?_⟩ <;> simp only [Kernel.setTask, Function.update_self]
  · exact ha.pages
  · exact hused
  · exact hmax
  · exact ha.caps_le
  · exact ha.capLimit_le

theorem Books.capLimit (hk : Books k) (a b c : Nat) : Books (taskCapLimit k a b c).2 := by
  unfold taskCapLimit
  rcases taskLimit_cases with heq | ⟨j, hmax, hused, heq⟩ <;> rw [heq]
  · exact hk
  refine hk.setLimit rfl fun ha => ?_
  refine ⟨?_, ?_, ?_, ?_, ?_⟩ <;> simp only [Kernel.setTask, Function.update_self]
  · exact ha.pages
  · exact ha.pages_le
  · exact ha.pageLimit_le
  · exact hused
  · exact hmax

/-- **Every deed leaves the books right.** -/
theorem Books.deed (hk : Books k) (h : Deed L k k') : Books k' := by
  cases h with
  | thrifty h => exact hk.thrifty h
  | alloc j => exact hk.alloc j
  | free j => exact hk.free j
  | occupy j pages hle hpid => exact hk.occupy j hle hpid
  | pageLimit a b c => exact hk.pageLimit a b c
  | capLimit a b c => exact hk.capLimit a b c

theorem Books.deeds (hk : Books k) (h : Deeds L k k') : Books k' := by
  induction h with
  | refl => exact hk
  | tail _ hd ih => exact ih.deed hd

theorem reach_books (h : Reach L k) : Books k := reach_deeds books_initial Books.deed h

/-! ## Refusals -/

/-- A call that sets a limit of a live task below what the task uses. -/
theorem taskLimit_refuses {a b max : Nat} {used limit : Task → Nat} {set : Task → Nat → Task} (ha : a ≠ 0 ∧ a ≤ 0x7fffffff)
    (hj : liveTask k a = some j) (hb : b < used (k.tasks j)) (hmax : b ≤ max) :
    taskLimit k a b 1 max (some used) limit set = (SfError.busy.code, k) := by
  unfold taskLimit
  rw [if_neg (by simp; omega), hj]
  dsimp only
  rw [if_neg (by decide), if_pos rfl, if_pos (by simpa using hb)]

/-- A live task is found by its pid. -/
theorem Books.liveTask (hk : Books k) (hl : Live k j) (h0 : (k.tasks j).pid ≠ 0) : liveTask k (k.tasks j).pid = some j := by
  have hsome : (SpiritFox.Core.liveTask k (k.tasks j).pid).isSome := by
    unfold SpiritFox.Core.liveTask
    rw [List.find?_isSome]
    exact ⟨j, List.mem_finRange j, by simpa [Live] using hl⟩
  obtain ⟨i, hi⟩ := Option.isSome_iff_exists.1 hsome
  have hfound := List.find?_some hi
  simp only [decide_eq_true_eq] at hfound
  rw [hi, hk.distinct i j hfound.1 (by rw [hfound.1]; exact h0)]

theorem onlyInit_refuses (k : Kernel) (j : TaskId) (code : Int) :
    onlyInit k j (code, k) = (if (k.tasks j).pid = 1 then code else SfError.denied.code, k) := by
  unfold onlyInit
  by_cases h : (k.tasks j).pid = 1 <;> simp [h]

theorem capSlot_none {t : Task} (h : t.capLimit ≤ taskCapsUsed t) : capSlot t = none := if_pos (Or.inr h)

theorem capDerive_full {a b : Nat} (h : (k.tasks j).capLimit ≤ taskCapsUsed (k.tasks j)) :
    (capDerive k j a b).2 = k ∧
    ((capDerive k j a b).1 = SfError.denied.code ∨ (capDerive k j a b).1 = SfError.noSpace.code) := by
  have hinstall : ∀ e, install k j e b = (none, k) := fun e => by
    unfold install
    dsimp only
    rw [capSlot_none h]
  unfold capDerive
  split
  · exact ⟨rfl, Or.inl rfl⟩
  dsimp only
  split
  · exact ⟨rfl, Or.inl rfl⟩
  · rw [hinstall]
    exact ⟨rfl, Or.inr rfl⟩

structure Quotas (L : Layout) (k : Kernel) : Prop where
  /-- In every state on the way of a step, for every task that has a pid. -/
  solvent : ∀ k', Deeds L k k' → ∀ j, (k'.tasks j).pid ≠ 0 → Solvent k' j
  steps : ∀ a, Deeds L k (step L k a)
  constructions : ∀ k₁ parent j p, Deeds L k₁ (construct L parent j p k₁).2
  named : ∀ j, Live k j → (k.tasks j).pid ≠ 0
  pageLimit : ∀ caller j b, Live k j → b < (k.tasks j).pageCount → syscall L k caller (k.tasks j).pid b 1 .taskPageLimit =
    (if (k.tasks caller).pid = 1 then SfError.busy.code else SfError.denied.code, k)
  capLimit : ∀ caller j b, Live k j → b < taskCapsUsed (k.tasks j) → syscall L k caller (k.tasks j).pid b 1 .taskCapLimit =
    (if (k.tasks caller).pid = 1 then SfError.busy.code else SfError.denied.code, k)
  epCreate : ∀ j a b c, (k.tasks j).capLimit ≤ taskCapsUsed (k.tasks j) →
    syscall L k j a b c .epCreate = (SfError.noSpace.code, k)
  capDerive : ∀ j a b c, (k.tasks j).capLimit ≤ taskCapsUsed (k.tasks j) → (syscall L k j a b c .capDerive).2 = k ∧
    ((syscall L k j a b c .capDerive).1 = SfError.denied.code ∨ (syscall L k j a b c .capDerive).1 = SfError.noSpace.code)
  grant : ∀ k₁ parent j h rights, (ipcGrant k₁ parent j h rights).1 = none → (ipcGrant k₁ parent j h rights).2 = k₁
  alloc : ∀ k₁ pid, (pageAlloc L k₁ pid).1 = none → (pageAlloc L k₁ pid).2 = k₁

/-- **The accounts of all tasks are right in every state, and what a quota refuses changes nothing.** -/
theorem quota_accounting (h : Reach L k) : Quotas L k := by
  have hk := reach_books h
  have hnamed : ∀ j, Live k j → (k.tasks j).pid ≠ 0 := fun j hl => (reach_capInv h).live j hl
  have hpid : ∀ j, (k.tasks j).pid ≤ 0x7fffffff := fun j => by
    have h₁ := hk.pid_lt j
    have h₂ := hk.nextPid_le
    omega
  refine ⟨fun k' hd j hj => (hk.deeds hd).solvent j hj, step_deeds k,
    fun k₁ parent j p => (working_construct p k₁).doings.deeds, hnamed,
    fun caller j b hl hb => ?_, fun caller j b hl hb => ?_, fun j a b c hfull => ?_, fun j a b c hfull =>
      capDerive_full hfull,
    fun k₁ parent j n rights hr => ?_, fun k₁ pid hr => ?_⟩
  · have ha := hk.solvent j (hnamed j hl)
    have hlimits := ha.pages_le.trans ha.pageLimit_le
    have hrefuse : taskPageLimit k (k.tasks j).pid b 1 = (SfError.busy.code, k) :=
      taskLimit_refuses ⟨hnamed j hl, hpid j⟩ (hk.liveTask hl (hnamed j hl)) hb (by omega)
    unfold syscall
    dsimp only
    rw [hrefuse, onlyInit_refuses]
  · have ha := hk.solvent j (hnamed j hl)
    have hlimits := ha.caps_le.trans ha.capLimit_le
    have hrefuse : taskCapLimit k (k.tasks j).pid b 1 = (SfError.busy.code, k) :=
      taskLimit_refuses ⟨hnamed j hl, hpid j⟩ (hk.liveTask hl (hnamed j hl)) hb (by omega)
    unfold syscall
    dsimp only
    rw [hrefuse, onlyInit_refuses]
  · change SpiritFox.Core.epCreate k j = _
    unfold SpiritFox.Core.epCreate
    rw [capSlot_none hfull]
  · rcases hg : ipcGrant k₁ parent j n rights with ⟨_ | i, k₂⟩
    · exact (ipcGrant_none hg).1
    · rw [hg] at hr
      cases hr
  · rcases ha : pageAlloc L k₁ pid with ⟨_ | i, k₂⟩
    · exact pageAlloc_none ha
    · rw [ha] at hr
      cases hr

theorem quota_accounting_talk : Quotas sampleLayout sampleTalk := quota_accounting reach_sampleTalk

end Books

end SpiritFox.Core
