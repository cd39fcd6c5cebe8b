import SpiritFox.Kernel.Work

/-!
# What a step does to the accounts of tasks

Most of the kernel leaves the accounts alone, takes capabilities away, or adds one where the limit has room (`Thrifty`).
`Deed` lists what else there is: the end of a task, its birth, and a new limit. Every step of the kernel is a sequence of
deeds (`step_deeds`). The sweep over the kernel's functions is made for the finer `Doing`, which tells messages from the
rest.
-/

namespace SpiritFox.Core

open ByteMem Proc Relation

/-- One thing that happens to the accounts. -/
inductive Deed (L : Layout) (k : Kernel) : Kernel → Prop
  | thrifty {k' : Kernel} (h : Thrifty k k') : Deed L k k'
  | alloc (j : TaskId) : Deed L k (pageAlloc L k (k.tasks j).pid).2
  | free (j : TaskId) : Deed L k (pagesFree L k (k.tasks j).pid)
  | occupy (j : TaskId) (pages : Nat) (le : pages ≤ 4096) (pid : pidAvailable k.nextPid = true) :
      Deed L k (occupy k j k.nextPid pages)
  | pageLimit (a b c : Nat) : Deed L k (taskPageLimit k a b c).2
  | capLimit (a b c : Nat) : Deed L k (taskCapLimit k a b c).2

abbrev Deeds (L : Layout) : Kernel → Kernel → Prop := ReflTransGen (Deed L)

/-- One thing that a step does: a deed, with messages told from what is `Plain`. -/
inductive Doing (L : Layout) (k : Kernel) : Kernel → Prop
  | plain {k' : Kernel} (h : Plain k k') : Doing L k k'
  | send (j : TaskId) (a b : Nat) : Doing L k (send L k j a b).2
  | recv (j : TaskId) (a b c : Nat) : Doing L k (recv L k j a b c).2
  | alloc (j : TaskId) : Doing L k (pageAlloc L k (k.tasks j).pid).2
  | free (j : TaskId) : Doing L k (pagesFree L k (k.tasks j).pid)
  | occupy (j : TaskId) (pages : Nat) (le : pages ≤ 4096) (pid : pidAvailable k.nextPid = true) :
      Doing L k (occupy k j k.nextPid pages)
  | pageLimit (a b c : Nat) : Doing L k (taskPageLimit k a b c).2
  | capLimit (a b c : Nat) : Doing L k (taskCapLimit k a b c).2

abbrev Doings (L : Layout) : Kernel → Kernel → Prop := ReflTransGen (Doing L)

section Doings

variable {L : Layout} {k k' : Kernel} {j : TaskId}

/-! ## Memory and messages -/

/-- Memory, the window of a device and the parts of `mild_rest` change. -/
theorem plain_rest {mode : Mode} {mem : Mem} {devicePt : Nat} {console : Console} {hw : List Nat} {log : List Event} :
    Plain k { k with mode, mem, devicePt, console, hw, log } :=
  ⟨⟨rfl, rfl, id, Or.inl rfl, fun _ => rfl, fun _ => le_max_left _ _⟩, rfl, rfl, fun _ => Nat.le_refl _⟩

theorem plain_setTask {t : Task} (haccount : t.account = (k.tasks j).account) (hcaps : t.caps = (k.tasks j).caps) :
    Plain k (k.setTask j t) := by
  refine ⟨⟨rfl, rfl, id, Or.inl rfl, fun i => ?_, fun i => ?_⟩, rfl, rfl, fun _ => Nat.le_refl _⟩ <;>
    unfold Kernel.setTask <;> by_cases hi : i = j
  · simpa [hi] using haccount
  · simp [hi]
  · simpa [hi] using caps_le_of_eq hcaps
  · simp [hi]

theorem plain_copyOut {dst : Nat} {bytes : List UInt8} (h : copyOut L k j dst bytes = some k') : Plain k k' := by
  have hloop : ∀ rounds (k : Kernel) dst bytes, Plain k (copyOutLoop L j rounds k dst bytes) := by
    intro rounds
    induction rounds with
    | zero => exact fun _ _ _ => .refl
    | succ rounds ih =>
      intro k dst bytes
      unfold copyOutLoop
      split
      · exact .refl
      · exact Plain.trans plain_rest (ih _ _ _)
  unfold copyOut at h
  split at h <;> cases h
  exact hloop _ k dst bytes

theorem plain_copyRecord (k : Kernel) (j : TaskId) (a : Nat) (bytes : List UInt8) :
    Plain k (copyRecord L k j a bytes).2 := by
  unfold copyRecord
  split
  · exact .refl
  · rename_i h
    exact plain_copyOut h

/-- Counted bytes and a queue are nothing to the accounts. -/
theorem thrifty_message {sendBytes receiveBytes : Nat} {endpoints : EpId → Endpoint} {log : List Event} :
    Thrifty k { k with sendBytes, receiveBytes, endpoints, log } :=
  ⟨rfl, rfl, id, Or.inl rfl, fun _ => rfl, fun _ => le_max_left _ _⟩

theorem thrifty_sendMessage (k : Kernel) (j : TaskId) (e : EpId) (m : SfMessage) : Thrifty k (sendMessage L k j e m).2 := by
  unfold sendMessage
  dsimp only
  split
  · split
    · exact plain_rest.thrifty
    rename_i k₁ hcopy
    refine ((plain_copyOut hcopy).trans (plain_setTask ?_ ?_)).thrifty.trans thrifty_message
    · rfl
    · rfl
  · split
    · exact .refl
    · exact thrifty_message

theorem thrifty_send (k : Kernel) (j : TaskId) (a b : Nat) : Thrifty k (send L k j a b).2 := by
  unfold send
  split
  · exact .refl
  split
  · exact .refl
  dsimp only
  split
  · exact thrifty_message
  split
  · exact thrifty_message
  · exact Thrifty.trans thrifty_message (thrifty_sendMessage _ j _ _)

theorem thrifty_recv (k : Kernel) (j : TaskId) (a b c : Nat) : Thrifty k (recv L k j a b c).2 := by
  unfold recv
  split
  · exact .refl
  split
  · exact .refl
  dsimp only
  split
  · split
    · exact .refl
    · rename_i k₁ hcopy
      exact (plain_copyOut hcopy).thrifty.trans thrifty_message
  split
  · exact .refl
  · exact Plain.thrifty (plain_setTask rfl rfl)

theorem Doing.deed (h : Doing L k k') : Deed L k k' := by
  cases h with
  | plain h => exact .thrifty h.thrifty
  | send j a b => exact .thrifty (thrifty_send k j a b)
  | recv j a b c => exact .thrifty (thrifty_recv k j a b c)
  | alloc j => exact .alloc j
  | free j => exact .free j
  | occupy j pages le pid => exact .occupy j pages le pid
  | pageLimit a b c => exact .pageLimit a b c
  | capLimit a b c => exact .capLimit a b c

theorem Doings.deeds (h : Doings L k k') : Deeds L k k' := ReflTransGen.mono (fun _ _ ha => ha.deed) _ _ h

theorem Plain.doings (h : Plain k k') : Doings L k k' := .single (.plain h)

theorem Mild.doings (h : Mild k k') : Doings L k k' := h.plain.doings

/-! ## Death and birth -/

theorem plain_bury (k : Kernel) (j : TaskId) (status : Int) : Plain k (bury k j status) := plain_setTask rfl rfl

theorem plain_deviceForget (k : Kernel) (j : TaskId) : Plain k (deviceForget k j) := by
  unfold deviceForget
  split
  · exact ⟨⟨rfl, rfl, id, Or.inr (Or.inl rfl), fun _ => rfl, fun _ => le_max_left _ _⟩, rfl, rfl, fun _ => Nat.le_refl _⟩
  · exact .refl

theorem doings_taskDead (k : Kernel) (j : TaskId) (status : Int) : Doings L k (taskDead L k j status) := by
  have hcleanup := ((mild_deviceRelease k j).trans (mild_ipcCleanup _ j)).plain
  exact ((hcleanup.trans (plain_bury _ j status)).doings.tail (.free j)).trans (plain_deviceForget _ j).doings

theorem doings_rollback (k : Kernel) (j : TaskId) (e : SfError) : Doings L k (rollback L j e k) := by
  have hcleanup := (mild_deviceRelease k j).trans (mild_ipcCleanup _ j)
  exact (hcleanup.doings.tail (.free j)).trans ((plain_deviceForget _ j).trans (plain_bury _ j e.code)).doings

theorem Work.doing {device : Bool} {parent : Option TaskId} (h : Work L device parent j k k') : Doing L k k' := by
  cases h with
  | page => exact .alloc j
  | write m => exact .plain plain_rest
  | task t hholdings hstate =>
    simp only [Task.holdings, Prod.mk.injEq] at hholdings
    obtain ⟨hpid, hcount, hpages, hcaps, htable⟩ := hholdings
    exact .plain (plain_setTask (by simp [Task.account, hpid, hcount, hpages, hcaps]) htable)
  | grant q hq h rights => exact .plain (mild_ipcGrant k q j h rights).plain
  | ask ha => exact .plain ha.mild.plain
  | window physical => exact .plain plain_rest
  | take _ hfree =>
    exact .plain ⟨⟨rfl, rfl, id, Or.inr (Or.inr ⟨j, rfl⟩), fun _ => rfl, fun _ => le_max_left _ _⟩, rfl, rfl,
      fun _ => Nat.le_refl _⟩
  | release _ => exact .plain (mild_deviceRelease k j).plain

theorem Works.doings {device : Bool} {parent : Option TaskId} (h : Works L device parent j k k') : Doings L k k' :=
  ReflTransGen.mono (fun _ _ hw => hw.doing) _ _ h

theorem doings_taskNewLimited (parent : Option TaskId) (p : SfLoadPlan) (pages : Nat) (k : Kernel) :
    Doings L k (taskNewLimited L parent p pages k).2 := by
  refine within_of_triple (R := Doings L) (fun k₀ => ?_) k
  have hfail : ∀ {α : Type} {Q : α → Kernel → Prop} (e : SfError), Triple (fun k => k = k₀)
    (fail e : KProc α) Q fun _ => Doings L k₀ :=
    fun e => triple_fail fun k hk => hk ▸ .refl
  unfold taskNewLimited
  refine triple_read fun k hk => ?_
  obtain rfl := hk
  refine triple_ite (fun _ => hfail _) fun hpages => triple_ite (fun _ => hfail _) fun _ => ?_
  split
  · exact hfail _
  rename_i j _
  refine triple_ite (fun _ => hfail _) fun hpid => ?_
  have hoccupy : Doing L k (occupy k j k.nextPid pages) := .occupy j pages (by omega) (by simpa using hpid)
  refine triple_bind (Q := fun _ => Doings L k) (triple_update ?_) fun _ => ?_
  · rintro k' rfl
    exact .single hoccupy
  refine triple_bind (Q := fun _ => Doings L k) ?_ fun _ => triple_read_of fun _ _ => triple_pure fun _ h => h
  refine Within.triple (fun _ _ _ => .trans)
    (within_onError (R := Doings L) (fun _ _ _ => .trans) ?_ fun e k' => doings_rollback k' j e) k
  exact fun k' => (working_construct p k').doings

theorem doings_spawn (k : Kernel) (j : TaskId) (a pages : Nat) : Doings L k (spawn L k j a pages).2 := by
  unfold spawn
  split
  · exact .refl
  rename_i bytes _
  have h := doings_taskNewLimited (L := L) (some j) (decodePlan bytes) pages k
  split <;> rename_i heq <;> rw [heq] at h <;> exact h

theorem doings_onlyInit {r : Int × Kernel} (h : Doings L k r.2) : Doings L k (onlyInit k j r).2 := by
  unfold onlyInit
  split
  · exact .refl
  · exact h

theorem doings_kill (k : Kernel) (a b : Nat) : Doings L k (kill L k a b).2 := by
  unfold kill
  split
  · exact .refl
  split
  · exact .refl
  · exact doings_taskDead k _ _

theorem doings_syscall (k : Kernel) (j : TaskId) (a b c : Nat) (call : Syscall) :
    Doings L k (syscall L k j a b c call).2 := by
  cases call with
  | exit =>
    unfold syscall
    dsimp only
    split
    · exact plain_rest.doings
    · exact doings_taskDead k _ _
  | yield => exact .refl
  | log => exact .refl
  | ticks => exact .refl
  | epCreate => exact (mild_epCreate k j).doings
  | send => exact .single (.send j a b)
  | recv => exact .single (.recv j a b c)
  | spawn => exact doings_onlyInit (doings_spawn k j a 4096)
  | kill => exact doings_onlyInit (doings_kill k a b)
  | taskStatus => exact doings_onlyInit .refl
  | consoleRead => exact doings_onlyInit plain_rest.doings
  | shutdown => exact doings_onlyInit .refl
  | capDerive => exact (mild_capDerive k j a b).doings
  | capClose => exact (mild_capClose k j a).doings
  | mapTest => exact .refl
  | capRevoke => exact (mild_capRevoke k j a).doings
  | pciRead => exact doings_onlyInit (mild_pciRead k a b).doings
  | portIo => exact (mild_deviceIo k j a b).doings
  | deviceRelease => exact (mild_sysDeviceRelease k j a).doings
  | dmaStatus =>
    refine doings_onlyInit ?_
    split
    · exact .refl
    · exact (plain_copyRecord k j a _).doings
  | taskPriority => exact doings_onlyInit (mild_taskPriority k a b c).doings
  | taskCapLimit => exact doings_onlyInit (.single (.capLimit a b c))
  | sendCancel => exact (mild_sendCancel k j a b c).doings
  | spawnLimited =>
    refine doings_onlyInit ?_
    split
    · exact .refl
    · exact doings_spawn k j a b
  | taskPageLimit => exact doings_onlyInit (.single (.pageLimit a b c))
  | ipcStats =>
    refine doings_onlyInit ?_
    split
    · exact .refl
    · exact (plain_copyRecord k j a _).doings

theorem doings_deviceFault (k : Kernel) (source reason address : Nat) :
    Doings L k (deviceFault L k source reason address) := by
  unfold deviceFault
  have hcount : Doings L k { k with dmaStatus := ⟨k.dmaStatus.faults + 1, address, source, reason⟩ } :=
    mild_rest.doings
  revert hcount
  generalize ({ k with dmaStatus := ⟨k.dmaStatus.faults + 1, address, source, reason⟩ } : Kernel) = k₁
  intro hcount
  dsimp only
  split
  · exact hcount
  rename_i j _
  have hquarantine : Mild k₁ { (deviceRelease k₁ j).2 with quarantined := true } :=
    (mild_deviceRelease k₁ j).trans (mild_update (fun _ => .refl) (fun _ => Nat.le_refl _) fun _ => rfl)
  have hfault := hquarantine.trans (mild_setTask_of_caps (j := j)
    (t := { (deviceRelease k₁ j).2.tasks j with deviceFault := true }) rfl rfl rfl rfl rfl)
  exact (hcount.trans hfault.doings).trans (doings_taskDead _ j _)

theorem doings_devicePoll (rounds : Nat) (k : Kernel) : Doings L k (devicePoll L rounds k) := by
  induction rounds generalizing k with
  | zero => exact .refl
  | succ rounds ih =>
    unfold devicePoll
    split
    · exact .refl
    dsimp only
    split
    · exact mild_rest.doings
    · exact (mild_rest.doings.trans (doings_deviceFault _ _ _ _)).trans (ih _)

theorem doings_userInterrupt (k : Kernel) (j : TaskId) (vector : Nat) (regs : Regs) :
    Doings L k (userInterrupt L k j vector regs) := by
  have hframe : Plain k (k.setTask j { k.tasks j with frame := ⟨regs.rax, regs.rsp⟩ }) := plain_setTask rfl rfl
  have hpoll := hframe.doings.trans (doings_devicePoll (L := L) 64 _)
  unfold userInterrupt
  dsimp only
  generalize devicePoll L 64 (k.setTask j { k.tasks j with frame := ⟨regs.rax, regs.rsp⟩ }) = k₁ at hpoll ⊢
  refine (hpoll.trans ?_).trans (mild_enterSchedule _).doings
  split
  · exact .refl
  split
  · unfold userCall
    split
    · exact (mild_setRax k₁ j _).doings
    · exact (doings_syscall k₁ j _ _ _ _).trans (mild_setRax _ j _).doings
  split
  · unfold userFault
    split
    · exact mild_rest.doings
    · exact doings_taskDead k₁ j _
  · exact .refl

theorem doings_interruptDispatch (k : Kernel) (vector : Nat) (regs : Regs) (input : List UInt8) (hw : List Nat) :
    Doings L k (interruptDispatch L k vector regs input hw) := by
  have hhw : Mild k { k with hw := hw } := mild_rest
  have hack := hhw.trans (mild_acknowledge _ vector input)
  unfold interruptDispatch
  split
  · exact hack.doings.trans (doings_userInterrupt _ _ vector regs)
  · split
    · exact mild_rest.doings
    · exact (hack.trans mild_rest).doings
  · exact .refl

theorem doings_scheduleRound (k : Kernel) : Doings L k (scheduleRound L k) := by
  unfold scheduleRound
  split
  · exact mild_rest.doings
  rename_i j _
  split
  · split
    · exact mild_rest.doings
    · exact (doings_taskDead k j _).trans mild_rest.doings
  · have hcurrent : Mild k { k with current := some j, mode := .user } := mild_rest
    refine (hcurrent.trans ?_).doings
    exact mild_setTask_of_caps rfl rfl rfl rfl rfl

theorem doings_kernelMain (k : Kernel) (entry : Nat) (segments : List SfLoadSegment) :
    Doings L k (kernelMain L k entry segments) := by
  unfold kernelMain
  split
  · exact .refl
  have h : Doings L k (taskNewLimited L none (bootPlan entry segments) 4096 k).2 := doings_taskNewLimited _ _ _ k
  split <;> rename_i heq <;> rw [heq] at h
  · exact h.trans (mild_enterSchedule _).doings
  · exact h.trans mild_rest.doings

theorem plain_runStore (k : Kernel) (v : Nat) (byte : UInt8) : Plain k (runStore k v byte) := by
  unfold runStore
  split
  · unfold userStore
    split
    · split
      · exact plain_rest
      · exact .refl
    · exact .refl
  · exact .refl

/-- **Every step is a sequence of doings.** -/
theorem doings_step (k : Kernel) (a : Action) : Doings L k (step L k a) := by
  cases a with
  | boot entry segments => exact doings_kernelMain k entry segments
  | interrupt vector regs input hw => exact doings_interruptDispatch k vector regs input hw
  | schedule hw =>
    unfold step
    dsimp only
    split
    · have hhw : Plain k { k with hw := hw } := plain_rest
      exact hhw.doings.trans (doings_scheduleRound _)
    · exact .refl
  | store v byte => exact (plain_runStore k v byte).doings
  | dma offset byte => exact plain_rest.doings

theorem step_deeds (k : Kernel) (a : Action) : Deeds L k (step L k a) := (doings_step k a).deeds

/-- What the kernel starts with and every doing keeps holds in every state of every run. -/
theorem doings_reach {I : Kernel → Prop} (hinit : ∀ m iommu mmioReady, I (initial m iommu mmioReady))
    (hdo : ∀ {k k'}, I k → Doing L k k' → I k') (h : Reach L k) : I k := by
  induction h with
  | init m iommu mmioReady => exact hinit m iommu mmioReady
  | @step k _ action ih =>
    have hrun := doings_step (L := L) k action
    generalize step L k action = k' at hrun ⊢
    induction hrun with
    | refl => exact ih
    | tail _ hd ih' => exact hdo ih' hd

theorem reach_deeds {I : Kernel → Prop} (hinit : ∀ m iommu mmioReady, I (initial m iommu mmioReady))
    (hdeed : ∀ {k k'}, I k → Deed L k k' → I k') (h : Reach L k) : I k :=
  doings_reach hinit (fun hk ha => hdeed hk ha.deed) h

end Doings

end SpiritFox.Core
