import SpiritFox.Kernel.Quota
import SpiritFox.Kernel.Wakeup

/-!
# A failed spawn is undone

A construction can stop after any part of its work. What it has done by then is for the new task only (`Endowed`),
and the cleanup that follows, written for tasks that have lived, has nothing to do beyond that: the new task owns no
endpoint, and each of its capabilities is one that its parent still holds (`ipcCleanup_shared`). So everybody else
finds what they had: `failed_spawn_undone`.
-/

namespace SpiritFox.Core

open ByteMem Proc Relation Tally Function

section Rollback

variable {L : Layout} {parent : Option TaskId} {j : TaskId} {k k' k₀ : Kernel}

/-! ## What has been built -/

/-- All that has happened since `k` is that task `j` has got free pages, capabilities of its parent, and maybe the device. -/
structure Endowed (parent : Option TaskId) (j : TaskId) (k k' : Kernel) : Prop where
  others : ∀ i, i ≠ j → k'.tasks i = k.tasks i
  pid : (k'.tasks j).pid = (k.tasks j).pid
  endpoints : k'.endpoints = k.endpoints
  nextPid : k'.nextPid = k.nextPid
  owner : ∀ i, k'.owner i = k.owner i ∨ k.owner i = 0 ∧ k'.owner i = (k.tasks j).pid
  caps : ∀ c e, ((k'.tasks j).caps c).endpoint = some e → ((k.tasks j).caps c).endpoint = some e ∨
    ∃ q c', parent = some q ∧ ((k.tasks q).caps c').endpoint = some e
  generation : ∀ c, ((k.tasks j).caps c).generation ≤ ((k'.tasks j).caps c).generation
  device : k'.deviceOwner = k.deviceOwner ∨ k.deviceOwner = 0 ∧ k'.deviceOwner = (k.tasks j).pid

theorem Endowed.refl : Endowed parent j k k :=
  ⟨fun _ _ => rfl, rfl, rfl, rfl, fun _ => Or.inl rfl, fun _ _ h => Or.inl h, fun _ => Nat.le_refl _, Or.inl rfl⟩

section

variable (h : Endowed parent j k₀ k)

include h

/-- Only memory and devices have changed. -/
theorem Endowed.aside (htasks : k'.tasks = k.tasks) (hendpoints : k'.endpoints = k.endpoints)
    (hnext : k'.nextPid = k.nextPid) (howner : k'.owner = k.owner) (hdevice : k'.deviceOwner = k.deviceOwner) :
    Endowed parent j k₀ k' := by
  refine ⟨?_, ?_, ?_, ?_, ?_, ?_, ?_, ?_⟩
  · rw [htasks]
    exact h.others
  · rw [htasks]
    exact h.pid
  · rw [hendpoints]
    exact h.endpoints
  · rw [hnext]
    exact h.nextPid
  · rw [howner]
    exact h.owner
  · rw [htasks]
    exact h.caps
  · rw [htasks]
    exact h.generation
  · rw [hdevice]
    exact h.device

theorem Endowed.setTask {t : Task} (hpid : t.pid = (k.tasks j).pid)
    (hcaps : ∀ c e, (t.caps c).endpoint = some e → ((k.tasks j).caps c).endpoint = some e ∨
      ∃ q c', parent = some q ∧ q ≠ j ∧ ((k.tasks q).caps c').endpoint = some e)
    (hgeneration : ∀ c, ((k.tasks j).caps c).generation ≤ (t.caps c).generation) : Endowed parent j k₀ (k.setTask j t) := by
  have hself : (k.setTask j t).tasks j = t := update_self _ _ _
  refine ⟨fun i hi => ?_, ?_, h.endpoints, h.nextPid, h.owner, fun c e hc => ?_, fun c => ?_, h.device⟩
  · exact (update_of_ne hi _ _).trans (h.others i hi)
  · rw [hself, hpid]
    exact h.pid
  · rw [hself] at hc
    rcases hcaps c e hc with hold | ⟨q, c', hq, hne, hc'⟩
    · exact h.caps c e hold
    · exact Or.inr ⟨q, c', hq, by rw [← h.others q hne]; exact hc'⟩
  · rw [hself]
    exact (h.generation c).trans (hgeneration c)

theorem Endowed.keepCaps {t : Task} (hpid : t.pid = (k.tasks j).pid)
    (hcaps : t.caps = (k.tasks j).caps) :
    Endowed parent j k₀ (k.setTask j t) :=
  h.setTask hpid (fun c e hc => Or.inl (hcaps ▸ hc)) fun c => by rw [hcaps]

theorem Endowed.release : Endowed parent j k₀ (deviceRelease k j).2 := by
  obtain ⟨hw, iommu, quarantined, fault, io, heq⟩ := deviceRelease_eq k j
  rw [heq]
  have haside : Endowed parent j k₀ { k with hw := hw, iommu := iommu, quarantined := quarantined } :=
    h.aside rfl rfl rfl rfl rfl
  exact haside.keepCaps rfl rfl

theorem Endowed.grant {q : TaskId} (hq : parent = some q) (hne : q ≠ j) (n rights : Nat) :
    Endowed parent j k₀ (ipcGrant k q j n rights).2 := by
  unfold ipcGrant
  split
  · exact h
  rename_i i e hcap
  have hheld : ((k.tasks q).caps i).endpoint = some e := (cap_has hcap).1
  dsimp only
  split
  · exact h
  unfold install
  dsimp only
  cases hslot : capSlot (k.tasks j) with
  | none => exact h
  | some i' =>
    refine Endowed.aside (k := k.setTask j ((k.tasks j).setCap i'
      ⟨some e, (k.endpoints e).epoch, rights, ((k.tasks j).caps i').generation + 1⟩))
      (h.setTask rfl (fun c e' hc => ?_) fun c => ?_) rfl rfl rfl rfl rfl
    · by_cases hci : c = i'
      · subst hci
        simp only [Task.setCap, update_self, Option.some.injEq] at hc
        exact Or.inr ⟨q, i, hq, hne, hc ▸ hheld⟩
      · simp only [Task.setCap, update_of_ne hci] at hc
        exact Or.inl hc
    · by_cases hci : c = i'
      · subst hci
        simp [Task.setCap]
      · simp [Task.setCap, hci]

end

/-- **Work builds**, for a task whose pid nobody else has and that is not its own parent. -/
theorem Endowed.work (hsole : ∀ i, (k₀.tasks i).pid = (k₀.tasks j).pid → i = j) (hparent : parent ≠ some j)
    (h : Endowed parent j k₀ k) {device : Bool} (hw : Work L device parent j k k') : Endowed parent j k₀ k' := by
  cases hw with
  | page =>
    rcases pageAlloc_cases L k (k.tasks j).pid with heq | ⟨j', i, _, hj', _, _, hfree, heq⟩ <;> rw [heq]
    · exact h
    have hjj : j' = j := by
      by_contra hne
      rw [h.others j' hne, h.pid] at hj'
      exact hne (hsole j' hj')
    subst hjj
    have hcount := h.keepCaps (t := { k.tasks j' with pageCount := (k.tasks j').pageCount + 1 }) rfl rfl
    refine ⟨hcount.others, hcount.pid, hcount.endpoints, hcount.nextPid, fun n => ?_, hcount.caps,
      hcount.generation, hcount.device⟩
    by_cases hn : n = i
    · subst hn
      refine Or.inr ⟨?_, by simpa using h.pid⟩
      rcases h.owner n with ho | ho
      · exact ho ▸ hfree
      · exact ho.1
    · simpa [hn] using h.owner n
  | write m => exact h.aside rfl rfl rfl rfl rfl
  | task t hholdings =>
    simp only [Task.holdings, Prod.mk.injEq] at hholdings
    exact h.keepCaps hholdings.1 hholdings.2.2.2.2
  | grant q hq n rights => exact h.grant hq (fun he => hparent (he ▸ hq)) n rights
  | ask ha =>
    obtain ⟨hw, iommu, rfl⟩ := ha
    exact h.aside rfl rfl rfl rfl rfl
  | window physical => exact h.aside rfl rfl rfl rfl rfl
  | take _ hfree =>
    refine ⟨h.others, h.pid, h.endpoints, h.nextPid, h.owner, h.caps, h.generation, Or.inr ⟨?_, h.pid⟩⟩
    rcases h.device with hd | hd
    · exact hd ▸ hfree
    · exact hd.1
  | release _ => exact h.release

theorem endowed_works (hsole : ∀ i, (k.tasks i).pid = (k.tasks j).pid → i = j) (hparent : parent ≠ some j)
    {device : Bool} (h : Works L device parent j k k') :
    Endowed parent j k k' := by
  induction h with
  | refl => exact .refl
  | tail _ hw ih => exact ih.work hsole hparent hw

/-! ## The cleanup -/

/-- Every capability of the task is on an endpoint that another task has, too. -/
def Shared (k : Kernel) (j : TaskId) : Prop :=
  ∀ c e, ((k.tasks j).caps c).endpoint = some e → ∃ q c', q ≠ j ∧ ((k.tasks q).caps c').endpoint = some e

def Task.capless (t : Task) : Task := { t with caps := fun c => { t.caps c with endpoint := none } }

theorem dropCap_other (k : Kernel) (c : CapId) {q : TaskId} (hq : q ≠ j) : (dropCap k j c).tasks q = k.tasks q :=
  update_of_ne hq _ _

theorem cleanupSlot_shared (h : Shared k j) (c : CapId) : cleanupSlot j k c = dropCap k j c := by
  unfold cleanupSlot
  split
  · rename_i hnone
    have hcap : ({ (k.tasks j).caps c with endpoint := none } : Cap) = (k.tasks j).caps c := by rw [← hnone]
    unfold dropCap Kernel.setTask Task.setCap
    rw [hcap, update_eq_self, update_eq_self]
  · rename_i e he
    obtain ⟨q, c', hne, hc'⟩ := h c e he
    exact if_pos ⟨q, c', by rw [dropCap_other k c hne]; exact hc'⟩

theorem Shared.dropCap (h : Shared k j) (c : CapId) : Shared (dropCap k j c) j := by
  intro c' e hc
  have hself : (SpiritFox.Core.dropCap k j c).tasks j = (k.tasks j).setCap c { (k.tasks j).caps c with endpoint := none } :=
    update_self _ _ _
  have hold : ((k.tasks j).caps c').endpoint = some e := by
    rw [hself] at hc
    by_cases hcc : c' = c
    · subst hcc
      simp [Task.setCap] at hc
    · simpa [Task.setCap, hcc] using hc
  obtain ⟨q, i, hq, hi⟩ := h c' e hold
  exact ⟨q, i, hq, by rw [dropCap_other k c hq]; exact hi⟩

/-- The slots in `l` are emptied, one after the other. -/
theorem foldl_cleanupSlot (l : List CapId) (h : Shared k j) : l.foldl (cleanupSlot j) k =
    k.setTask j { k.tasks j with
      caps := fun c => if c ∈ l then { (k.tasks j).caps c with endpoint := none } else (k.tasks j).caps c } := by
  induction l generalizing k with
  | nil => simp [Kernel.setTask]
  | cons c l ih =>
    rw [List.foldl_cons, cleanupSlot_shared h, ih (h.dropCap c)]
    unfold dropCap Kernel.setTask
    simp only [update_self, update_idem]
    congr 2
    unfold Task.setCap
    congr 1
    funext c'
    by_cases hc : c' = c
    · subst hc
      simp
    · simp [hc]

theorem ipcCleanup_shared (hshared : Shared k j) (howner : ∀ e, (k.endpoints e).owner ≠ (k.tasks j).pid) :
    ipcCleanup k j = k.setTask j (k.tasks j).capless := by
  have howned : cleanupOwned k j = k := by
    unfold cleanupOwned
    refine Fold.keeps (I := fun k' => k' = k) _ (fun k' e _ hk' => ?_) rfl
    rw [hk', if_neg (howner e)]
  unfold ipcCleanup
  rw [howned, foldl_cleanupSlot _ hshared]
  simp [Task.capless]

/-! ## The rollback -/

/-- Task slot `j` is left dead and empty, and everybody else has what they had. -/
structure Undone (k k' : Kernel) (j : TaskId) : Prop where
  others : ∀ i, i ≠ j → k'.tasks i = k.tasks i
  mappings : ∀ i, Live k i → ∀ v, walk k'.mem (k'.tasks i).cr3 v = walk k.mem (k.tasks i).cr3 v
  endpoints : k'.endpoints = k.endpoints
  owner : k'.owner = k.owner
  deviceOwner : k'.deviceOwner = k.deviceOwner
  dead : (k'.tasks j).state = .dead
  capless : ∀ c, ((k'.tasks j).caps c).endpoint = none
  generation : ∀ c, ((k.tasks j).caps c).generation ≤ ((k'.tasks j).caps c).generation
  pageless : (k'.tasks j).pageCount = 0 ∧ ∀ i, k'.owner i ≠ (k'.tasks j).pid
  deviceless : (k'.tasks j).deviceIo = 0 ∧ k'.deviceOwner ≠ (k'.tasks j).pid

theorem deviceRelease_deviceIo (k : Kernel) (j : TaskId) : ((deviceRelease k j).2.tasks j).deviceIo = 0 := by
  unfold deviceRelease
  split
  · assumption
  · simp [Kernel.setTask]

section

variable (hpid : (k.tasks j).pid ≠ 0 ∧ (k.tasks j).pid ≤ 0x7fffffff)
  (hsole : ∀ i, (k.tasks i).pid = (k.tasks j).pid → i = j)

include hpid hsole

theorem pagesFree_sole :
    ∃ mem, pagesFree L k (k.tasks j).pid =
      { k with mem := mem, owner := fun i => if k.owner i = (k.tasks j).pid then 0 else k.owner i }.setTask j
        { k.tasks j with pageCount := 0 } := by
  have htasks : (fun i => if (k.tasks i).pid = (k.tasks j).pid then { k.tasks i with pageCount := 0 } else k.tasks i) =
      update k.tasks j { k.tasks j with pageCount := 0 } := by
    funext i
    by_cases hi : i = j
    · subst hi
      simp
    · rw [update_of_ne hi]
      exact if_neg fun he => hi (hsole i he)
  unfold pagesFree
  rw [if_neg (by omega), htasks]
  generalize (fun a => if ownedByte L k (k.tasks j).pid a then 0 else k.mem a) = mem
  exact ⟨mem, rfl⟩

/-- The end of a task under construction, for a task with a pid of its own that shares all it has. -/
theorem rollback_eq
    (hshared : Shared k j) (howner : ∀ e, (k.endpoints e).owner ≠ (k.tasks j).pid) (e : SfError) :
    ∃ mem hw iommu quarantined fault, rollback L j e k = { k with
      mem := mem, hw := hw, iommu := iommu, quarantined := quarantined
      owner := fun i => if k.owner i = (k.tasks j).pid then 0 else k.owner i
      deviceOwner := if k.deviceOwner = (k.tasks j).pid then 0 else k.deviceOwner }.setTask j
        { (k.tasks j).capless with
          pageCount := 0, deviceFault := fault, deviceIo := 0, state := .dead, exitStatus := e.code } := by
  obtain ⟨hw, iommu, quarantined, fault, io, hrelease⟩ := deviceRelease_eq k j
  have hio : io = 0 := by
    have h := deviceRelease_deviceIo k j
    rw [hrelease] at h
    simpa [Kernel.setTask] using h
  subst hio
  have hother : ∀ i, i ≠ j → (deviceRelease k j).2.tasks i = k.tasks i := fun i hi => by
    rw [hrelease]
    exact update_of_ne hi _ _
  have hcleanup : ipcCleanup (deviceRelease k j).2 j =
    { k with hw := hw, iommu := iommu, quarantined := quarantined }.setTask j
      { (k.tasks j).capless with deviceFault := fault, deviceIo := 0 } := by
    rw [ipcCleanup_shared (fun c e' hc => ?_) fun e' => ?_]
    · rw [hrelease]
      unfold Kernel.setTask Task.capless
      simp only [update_self, update_idem]
    · rw [hrelease, Kernel.setTask] at hc
      simp only [update_self] at hc
      obtain ⟨q, c', hq, hc'⟩ := hshared c e' hc
      exact ⟨q, c', hq, by rw [hother q hq]; exact hc'⟩
    · rw [(same_deviceRelease k j).endpoints, (same_deviceRelease k j).pid]
      exact howner e'
  unfold rollback
  dsimp only
  rw [hcleanup]
  generalize hk₁ : ({ k with hw := hw, iommu := iommu, quarantined := quarantined } : Kernel).setTask j
    { (k.tasks j).capless with deviceFault := fault, deviceIo := 0 } = k₁
  have hpids : ∀ i, (k₁.tasks i).pid = (k.tasks i).pid := fun i => by
    rw [← hk₁]
    by_cases hi : i = j
    · subst hi
      simp [Kernel.setTask, Task.capless]
    · simp [Kernel.setTask, hi]
  obtain ⟨mem, hfree⟩ := pagesFree_sole (L := L) (k := k₁) (j := j) (by rw [hpids]; exact hpid) fun i hi =>
    hsole i (by rw [← hpids, ← hpids]; exact hi)
  refine ⟨mem, hw, iommu, quarantined, fault, ?_⟩
  rw [hfree]
  subst hk₁
  unfold deviceForget bury Kernel.setTask Task.capless
  simp only [update_self, update_idem]
  by_cases hd : k.deviceOwner = (k.tasks j).pid
  · simp only [hd, if_true, update_self, update_idem]
  · simp only [hd, if_false, update_self, update_idem]

end

/-! ## Where tasks are made -/

/-- Where a task is made: between two steps, with a parent that could run, or where a running task has made a call.
The step starts in a state with `P`. -/
inductive Calling (L : Layout) (P : Kernel → Prop) : Option TaskId → Kernel → Prop
  | between {parent : Option TaskId} {k : Kernel} (h : P k) (ready : ∀ q, parent = some q → (k.tasks q).state = .ready) :
      Calling L P parent k
  | call {k : Kernel} {j : TaskId} (h : P k) (mode : k.mode = .user) (current : k.current = some j) (regs : Regs)
      (input : List UInt8) (hw : List Nat) (alive : ((callState L k j 128 regs input hw).tasks j).state ≠ .dead) :
      Calling L P (some j) (callState L k j 128 regs input hw)

theorem Calling.mono {P Q : Kernel → Prop} (h : Calling L P parent k) (hPQ : ∀ k, P k → Q k) : Calling L Q parent k := by
  cases h with
  | between h hready => exact .between (hPQ _ h) hready
  | call h hmode hcur regs input hw halive => exact .call (hPQ _ h) hmode hcur regs input hw halive

structure Site (L : Layout) (parent : Option TaskId) (k : Kernel) : Prop where
  spaced : Spaced L k
  books : Books k
  caps : CapInv none none k.ipc
  ready : ∀ q, parent = some q → (k.tasks q).state = .ready

theorem deeds_callState (k : Kernel) (j : TaskId) (regs : Regs) (input : List UInt8) (hw : List Nat) :
    Deeds L k (callState L k j 128 regs input hw) := by
  have hhw : Mild k { k with hw := hw } := mild_rest
  have hack := hhw.trans (mild_acknowledge _ 128 input)
  unfold callState
  dsimp only
  generalize acknowledge { k with hw := hw } 128 input = k₁ at hack ⊢
  have hframe : Mild k₁ (k₁.setTask j { k₁.tasks j with frame := ⟨regs.rax, regs.rsp⟩ }) :=
    mild_setTask_of_caps rfl rfl rfl rfl rfl
  exact Doings.deeds ((hack.trans hframe).doings.trans (doings_devicePoll 64 _))

theorem Calling.site (h : Calling L (Reach L) parent k) : Site L parent k := by
  cases h with
  | between h hready => exact ⟨reach_spaced h, reach_books h, reach_capInv h, hready⟩
  | @call k j h hmode hcur regs input hw halive =>
    obtain ⟨j', hcur', hready⟩ := (reach_bound h).running hmode
    cases hcur.symm.trans hcur'
    have hticks := (sim_callState L k j 128 regs input hw).rel
    refine ⟨spaced_callState (reach_spaced h) j 128 regs input hw,
      (reach_books h).deeds (deeds_callState k j regs input hw), ?_, ?_⟩
    · exact moves_keep move_capInv (hticks.lift id fun _ _ hs => (Move.tick hs : Move none _ _)) (reach_capInv h)
    rintro q hq
    obtain rfl := Option.some.inj hq
    exact (ticks_running hticks (Or.inl hready)).resolve_right halive

/-- A spawn fails before it has done anything, or in a construction. -/
theorem taskNewLimited_error {p : SfLoadPlan} {pages : Nat} {e : SfError}
    (h : taskNewLimited L parent p pages k = (.error e, k')) :
    k' = k ∨ ∃ j k₁, ((k.tasks j).state = .empty ∨ (k.tasks j).state = .dead) ∧ validPlan L k p parent = true ∧
      pidAvailable k.nextPid = true ∧ construct L parent j p (occupy k j k.nextPid pages) = (.error e, k₁) ∧
        k' = rollback L j e k₁ := by
  have htriple : Triple (fun k' => k' = k) (taskNewLimited L parent p pages) (fun _ _ => True) fun e k' => k' = k ∨ ∃ j k₁,
      ((k.tasks j).state = .empty ∨ (k.tasks j).state = .dead) ∧ validPlan L k p parent = true ∧
        pidAvailable k.nextPid = true ∧
      construct L parent j p (occupy k j k.nextPid pages) = (.error e, k₁) ∧ k' = rollback L j e k₁ := by
    unfold taskNewLimited
    refine triple_read fun k' hk' => ?_
    obtain rfl := hk'.symm
    refine triple_ite (fun _ => triple_fail fun _ => Or.inl) fun _ =>
      triple_ite (fun _ => triple_fail fun _ => Or.inl) fun hplan => ?_
    split
    · exact triple_fail fun _ => Or.inl
    rename_i j hfind
    refine triple_ite (fun _ => triple_fail fun _ => Or.inl) fun havail => ?_
    refine triple_bind (Q := fun _ k' => k' = occupy k j k.nextPid pages)
      (triple_update fun k' hk' => by rw [hk']) fun _ => ?_
    refine triple_bind (triple_onError (Q := fun _ _ => True)
      (F := fun e k₁ => construct L parent j p (occupy k j k.nextPid pages) = (.error e, k₁))
        (fun k' hk' => ?_) fun e k₁ hc => ?_)
      fun _ => triple_read_of fun _ _ => triple_pure fun _ _ => trivial
    · rw [hk']
      rcases hc : construct L parent j p (occupy k j k.nextPid pages) with ⟨e | u, k₁⟩
      · rfl
      · trivial
    · exact Or.inr ⟨j, k₁, by simpa using List.find?_some hfind, by simpa using (not_or.1 hplan).1,
        by simpa using havail, hc, rfl⟩
  have hk := htriple k rfl
  rw [h] at hk
  exact hk

section Failure

variable {p : SfLoadPlan} {pages : Nat} {e : SfError} {k₁ : Kernel} (hsite : Site L parent k)
  (hvacant : (k.tasks j).state = .empty ∨ (k.tasks j).state = .dead) (havail : pidAvailable k.nextPid = true)

include hvacant in
theorem vacant_not_live {i : TaskId} (hl : Live k i) : i ≠ j := by
  rintro rfl
  rcases hvacant with h | h <;> rcases hl with hl | hl <;> rw [h] at hl <;> cases hl

include hsite hvacant in
theorem Site.parent_ne : parent ≠ some j := fun hq => vacant_not_live hvacant (Or.inl (hsite.ready j hq)) rfl

include hsite hvacant in
/-- What a construction has done when it stops. -/
theorem Site.endowed {r : Except SfError Unit} (hc : construct L parent j p (occupy k j k.nextPid pages) = (r, k₁)) :
    Endowed parent j (occupy k j k.nextPid pages) k₁ := by
  have h := @working_construct L parent j p (occupy k j k.nextPid pages)
  rw [hc] at h
  refine endowed_works (fun i hi => ?_) (hsite.parent_ne hvacant) h
  by_contra hne
  rw [occupy_self, occupy_other hne] at hi
  exact Nat.ne_of_lt (hsite.books.pid_lt i) hi

section

variable (hb : Endowed parent j (occupy k j k.nextPid pages) k₁)

include hb

theorem Endowed.pid_eq : (k₁.tasks j).pid = k.nextPid := by
  rw [hb.pid, occupy_self]

theorem Endowed.others_eq {i : TaskId} (hi : i ≠ j) :
    k₁.tasks i = k.tasks i :=
  (hb.others i hi).trans (occupy_other hi)

/-- All capabilities of the new task are still its parent's. -/
theorem Endowed.shared (hparent : parent ≠ some j) :
    Shared k₁ j := by
  intro c e' hc
  rcases hb.caps c e' hc with hold | ⟨q, c', hq, hcap⟩
  · rw [occupy_self] at hold
    cases hold
  · have hne : q ≠ j := fun he => hparent (he ▸ hq)
    exact ⟨q, c', hne, by rw [hb.others q hne]; exact hcap⟩

end

include hsite havail in
/-- The pages and the device come back to whom they belonged. -/
theorem Site.rollback_eq (hb : Endowed parent j (occupy k j k.nextPid pages) k₁) (hparent : parent ≠ some j) :
    ∃ mem hw iommu quarantined fault, rollback L j e k₁ = { k₁ with
      mem := mem, hw := hw, iommu := iommu, quarantined := quarantined, owner := k.owner, deviceOwner :=
        k.deviceOwner }.setTask j
        { (k₁.tasks j).capless with
          pageCount := 0, deviceFault := fault, deviceIo := 0, state := .dead, exitStatus := e.code } := by
  have hpid : k.nextPid ≠ 0 ∧ k.nextPid ≤ 0x7fffffff := by simpa [pidAvailable] using havail
  have hsole : ∀ i, (k₁.tasks i).pid = (k₁.tasks j).pid → i = j := fun i hi => by
    by_contra hne
    rw [hb.others_eq hne, hb.pid_eq] at hi
    exact Nat.ne_of_lt (hsite.books.pid_lt i) hi
  have hendpoint : ∀ e', (k₁.endpoints e').owner ≠ (k₁.tasks j).pid := fun e' ho => by
    rw [hb.endpoints, hb.pid_eq] at ho
    obtain ⟨i, hi, _⟩ := hsite.caps.owner e' (ho.trans_ne hpid.1)
    exact Nat.ne_of_lt (hsite.books.pid_lt i) (hi.trans ho)
  have howner : (fun i => if k₁.owner i = (k₁.tasks j).pid then 0 else k₁.owner i) = k.owner := by
    funext i
    have hlt : (occupy k j k.nextPid pages).owner i < k.nextPid := hsite.books.owner_lt i
    rw [hb.pid_eq]
    rcases hb.owner i with ho | ⟨h0, ho⟩
    · rw [ho, if_neg (Nat.ne_of_lt hlt)]
      rfl
    · rw [ho, occupy_self, if_pos rfl]
      exact h0.symm
  have hdevice : (if k₁.deviceOwner = (k₁.tasks j).pid then 0 else k₁.deviceOwner) = k.deviceOwner := by
    have hlt : (occupy k j k.nextPid pages).deviceOwner < k.nextPid := hsite.books.device_lt
    rw [hb.pid_eq]
    rcases hb.device with hd | ⟨h0, hd⟩
    · rw [hd, if_neg (Nat.ne_of_lt hlt)]
      rfl
    · rw [hd, occupy_self, if_pos rfl]
      exact h0.symm
  have heq := SpiritFox.Core.rollback_eq (L := L) (k := k₁) (j := j) (by rw [hb.pid_eq]; exact hpid) hsole
    (hb.shared hparent) hendpoint e
  rw [howner, hdevice] at heq
  exact heq

include hsite hvacant havail in
/-- The spaces after the rollback are those of before. -/
theorem Site.mappings (hvalid : validPlan L k p parent = true)
    (hc : construct L parent j p (occupy k j k.nextPid pages) = (.error e, k₁)) {i : TaskId} (hl : Live k i) (v : Nat) :
    walk (rollback L j e k₁).mem ((rollback L j e k₁).tasks i).cr3 v = walk k.mem (k.tasks i).cr3 v := by
  obtain ⟨σ, hσ⟩ := hsite.spaced
  have hready : Parented σ parent k := fun q hq => ⟨hsite.ready q hq, hσ.space (Or.inl (hsite.ready q hq))⟩
  have hraise := triple_raise (update_self _ _ _) hvalid (sourced_of_valid hσ hready hvacant hvalid) _
    (hσ.occupy hvacant (by simpa [pidAvailable] using havail) pages)
  rw [hc] at hraise
  have hisolated := hraise.1.rollback e
  have hi := vacant_not_live hvacant hl
  obtain ⟨s, hs⟩ := hσ.space hl
  have hs' : update (update σ j none) j none i = some s := by
    rw [update_of_ne hi, update_of_ne hi, hs]
  rw [hσ.cr3 i s hs, hisolated.cr3 i s hs', walk_eq (hσ.represents i s hs), walk_eq (hisolated.represents i s hs')]

include hsite hvacant havail in
theorem Site.undone (hvalid : validPlan L k p parent = true)
    (hc : construct L parent j p (occupy k j k.nextPid pages) = (.error e, k₁)) :
    Undone k (rollback L j e k₁) j ∧ (rollback L j e k₁).nextPid = k.nextPid + 1 := by
  have hb := hsite.endowed hvacant hc
  obtain ⟨mem, hw, iommu, quarantined, fault, heq⟩ := hsite.rollback_eq havail (e := e) hb (hsite.parent_ne hvacant)
  have hself : (rollback L j e k₁).tasks j = { (k₁.tasks j).capless with
      pageCount := 0, deviceFault := fault, deviceIo := 0, state := .dead, exitStatus := e.code } := by
    rw [heq]
    exact update_self _ _ _
  have howner : (rollback L j e k₁).owner = k.owner := by rw [heq]; rfl
  have hdevice : (rollback L j e k₁).deviceOwner = k.deviceOwner := by rw [heq]; rfl
  have hpid : ((rollback L j e k₁).tasks j).pid = k.nextPid := by
    rw [hself]
    exact hb.pid_eq
  refine ⟨⟨fun i hi => ?_, fun i hl v => hsite.mappings hvacant havail hvalid hc hl v, ?_, howner, hdevice, by rw [hself],
    fun c => by rw [hself]; rfl, fun c => ?_, ⟨by rw [hself], fun i => ?_⟩, by rw [hself], ?_⟩, ?_⟩
  · rw [heq]
    exact (update_of_ne hi _ _).trans (hb.others_eq hi)
  · rw [heq]
    exact hb.endpoints
  · have h := hb.generation c
    rw [occupy_self] at h
    rw [hself]
    exact h
  · rw [howner, hpid]
    exact Nat.ne_of_lt (hsite.books.owner_lt i)
  · rw [hdevice, hpid]
    exact Nat.ne_of_lt hsite.books.device_lt
  · rw [heq]
    exact hb.nextPid

end Failure

/-- **A spawn that fails leaves everybody else what they had**, and one with a bad plan does nothing at all. -/
theorem failed_spawn_undone {p : SfLoadPlan} {pages : Nat} {e : SfError} (hcall : Calling L (Reach L) parent k)
    (h : taskNewLimited L parent p pages k = (.error e, k')) :
    (validPlan L k p parent = false → k' = k) ∧
    (k' = k ∨ k'.nextPid = k.nextPid + 1 ∧ ∃ j,
      ((k.tasks j).state = .empty ∨ (k.tasks j).state = .dead) ∧ Undone k k' j) := by
  rcases taskNewLimited_error h with hk | ⟨j, k₁, hvacant, hvalid, havail, hc, rfl⟩
  · exact ⟨fun _ => hk, Or.inl hk⟩
  obtain ⟨hundone, hnext⟩ := hcall.site.undone hvacant havail hvalid hc
  refine ⟨fun hinvalid => ?_, Or.inr ⟨hnext, j, hvacant, hundone⟩⟩
  rw [hvalid] at hinvalid
  cases hinvalid

/-- Two pages are too few for the tables of a task. -/
theorem failed_spawn_undone_boot :
    ∃ j, Undone sampleStart (taskNewLimited sampleLayout none
      (bootPlan 0 [⟨0, 4096, 0x600000, 5, 0⟩]) 2 sampleStart).2 j := by
  have hfails : (taskNewLimited sampleLayout none (bootPlan 0 [⟨0, 4096, 0x600000, 5, 0⟩]) 2 sampleStart).1 =
    .error .noSpace := by
    decide +kernel
  have hpid : (taskNewLimited sampleLayout none (bootPlan 0 [⟨0, 4096, 0x600000, 5, 0⟩]) 2 sampleStart).2.nextPid =
    2 := by decide +kernel
  rcases hr : taskNewLimited sampleLayout none (bootPlan 0 [⟨0, 4096, 0x600000, 5, 0⟩]) 2 sampleStart with ⟨r, k'⟩
  rw [hr] at hfails hpid
  obtain rfl : r = .error .noSpace := hfails
  rcases (failed_spawn_undone (.between reach_sampleStart fun _ hq => by cases hq) hr).2 with hsame | ⟨_, j, _, hundone⟩
  · rw [hsame] at hpid
    cases hpid
  · exact ⟨j, hundone⟩

end Rollback

end SpiritFox.Core
