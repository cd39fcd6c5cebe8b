import SpiritFox.Kernel.Schedule

/-!
# Steps and runs

Every step of the kernel is a sequence of ticks and then one turn of the running task (`step_sim`). So whatever the moves of
the machine keep holds in every state of every run (`reach_keeps`), and the capability table is sound there
(`capability_table`).
-/

namespace SpiritFox.Core

open ByteMem Ipc

/-- The task that acts in the next step. -/
def Kernel.actor (k : Kernel) : Option TaskId := if k.mode = .user then k.current else none

section Runs

variable {k k' : Kernel} {j : TaskId} {actor : Option TaskId} {m m' : Ipc} (L : Layout) {a b : Nat} {I : Ipc → Prop}

/-! ## System calls -/

theorem same_taskLimit {c max : Nat} {used : Option (Task → Nat)} {limit : Task → Nat} {set : Task → Nat → Task}
    (hset : ∀ t n, (set t n).party = t.party) : Same k (taskLimit k a b c max used limit set).2 := by
  rcases taskLimit_cases with h | ⟨j, -, -, h⟩ <;> rw [h]
  · exact .refl
  · exact same_setTask (hset _ _)

theorem same_deviceIo (k : Kernel) (j : TaskId) (port operation : Nat) : Same k (deviceIo k j port operation).2 := by
  unfold deviceIo
  dsimp only
  split
  · exact .refl
  split
  · exact .refl
  split
  · exact .refl
  · exact same_rest

theorem same_sysDeviceRelease (k : Kernel) (j : TaskId) (a : Nat) : Same k (sysDeviceRelease k j a).2 := by
  unfold sysDeviceRelease
  split
  · exact same_deviceRelease k j
  split
  · exact .refl
  split
  · exact .refl
  · exact same_deviceRelease k _

theorem same_copyRecord (k : Kernel) (j : TaskId) (a : Nat) (bytes : List UInt8) : Same k (copyRecord L k j a bytes).2 := by
  unfold copyRecord
  split
  · exact .refl
  · rename_i h
    exact same_copyOut L h

theorem same_pciRead (k : Kernel) (bdf offset : Nat) : Same k (pciRead k bdf offset).2 := by
  unfold pciRead
  split
  · exact .refl
  · exact same_rest

theorem sim_spawn {pages : Nat} (hr : (k.tasks j).state = .ready) (hp : (k.tasks j).pid = 1) (hs : Settled k.ipc) :
    Sim (Turn (some j)) k (spawn L k j a pages).2 := by
  unfold spawn
  split
  · exact sim_idle .refl
  rename_i bytes _
  have h : Sim (Turn (some j)) k (taskNewLimited L (some j) (decodePlan bytes) pages k).2 :=
    sim_taskNewLimited L (fun q hq => by cases hq; exact ⟨hr, hp⟩) hs
  split <;> rename_i heq <;> rw [heq] at h <;> exact h

theorem sim_kill : Sim (Turn actor) k (kill L k a b).2 := by
  unfold kill
  split
  · exact sim_idle .refl
  split
  · exact sim_idle .refl
  · exact (sim_taskDead L k _ _).turn

theorem sim_onlyInit {r : Int × Kernel} (h : (k.tasks j).pid = 1 → Sim (Turn actor) k r.2) :
    Sim (Turn actor) k (onlyInit k j r).2 := by
  unfold onlyInit
  split
  · exact sim_idle .refl
  · rename_i hp
    exact h (not_not.1 hp)

/-- **A system call is one turn of its caller.** -/
theorem sim_syscall {c : Nat} (call : Syscall) (hr : (k.tasks j).state = .ready) (hs : Settled k.ipc)
    (hrings : Rings k) :
    Sim (Turn (some j)) k (syscall L k j a b c call).2 := by
  have hidle : Sim (Turn (some j)) k k := sim_idle .refl
  cases call with
  | exit =>
    change Sim (Turn (some j)) k (if (k.tasks j).pid = 1 then { k with mode := .panic } else taskDead L k j (toInt a))
    split
    · exact sim_idle same_rest
    · exact (sim_taskDead L k j _).turn
  | yield => exact hidle
  | log => exact hidle
  | ticks => exact hidle
  | epCreate => exact sim_epCreate hr
  | send => exact sim_send L hrings
  | recv => exact sim_recv L hr
  | spawn => exact sim_onlyInit fun hp => sim_spawn L hr hp hs
  | kill => exact sim_onlyInit fun _ => sim_kill L
  | taskStatus => exact sim_onlyInit fun _ => hidle
  | consoleRead => exact sim_onlyInit fun _ => sim_idle same_rest
  | shutdown => exact sim_onlyInit fun _ => hidle
  | capDerive => exact sim_capDerive
  | capClose => exact sim_capClose hr
  | mapTest => exact hidle
  | capRevoke => exact sim_capRevoke
  | pciRead => exact sim_onlyInit fun _ => sim_idle (same_pciRead k a b)
  | portIo => exact sim_idle (same_deviceIo k j a b)
  | deviceRelease => exact sim_idle (same_sysDeviceRelease k j a)
  | dmaStatus =>
    refine sim_onlyInit fun _ => ?_
    split
    · exact hidle
    · exact sim_idle (same_copyRecord L k j a _)
  | taskPriority => exact sim_onlyInit fun _ => sim_idle (same_taskLimit fun _ _ => rfl)
  | taskCapLimit => exact sim_onlyInit fun _ => sim_idle (same_taskLimit fun _ _ => rfl)
  | sendCancel => exact sim_sendCancel
  | spawnLimited =>
    refine sim_onlyInit fun hp => ?_
    split
    · exact hidle
    · exact sim_spawn L hr hp hs
  | taskPageLimit => exact sim_onlyInit fun _ => sim_idle (same_taskLimit fun _ _ => rfl)
  | ipcStats =>
    refine sim_onlyInit fun _ => ?_
    split
    · exact hidle
    · exact sim_idle (same_copyRecord L k j a _)

/-! ## Interrupts -/

theorem same_enterSchedule (k : Kernel) : Same k (enterSchedule k) := by
  unfold enterSchedule
  split
  · exact .refl
  have hs : Same k { k with mode := .sched } := same_rest
  dsimp only
  split
  · exact hs
  split
  · exact hs.trans (same_setTask rfl)
  · exact hs

theorem sim_userCall {regs : Regs} (hr : (k.tasks j).state = .ready) (hs : Settled k.ipc) (hrings : Rings k) :
    Sim (Turn (some j)) k (userCall L k j regs) := by
  unfold userCall
  split
  · exact sim_idle (same_setTask rfl)
  · exact (sim_syscall L _ hr hs hrings).same (same_setTask rfl)

theorem sim_userFault {vector : Nat} : Sim (Turn actor) k (userFault L k j vector) := by
  unfold userFault
  split
  · exact sim_idle same_rest
  · exact (sim_taskDead L k j _).turn

/-- Others can end a task that runs, and that is all. -/
theorem tick_running (ht : Tick m m') (h : (m.parties j).state = .ready ∨ (m.parties j).state = .dead) :
    (m'.parties j).state = .ready ∨ (m'.parties j).state = .dead := by
  cases ht with
  | @wake r hb =>
    by_cases hj : j = r
    · subst hj
      simp [Ipc.setState]
    · simpa [Ipc.setState, hj] using h
  | @die r =>
    by_cases hj : j = r
    · subst hj
      simp [Ipc.setState]
    rw [Ipc.setState, setParty_parties, Function.update_of_ne hj]
    rcases shrinks_cleanup.state j with heq | ⟨_, hr⟩
    · rw [heq]
      exact h
    · exact Or.inl hr

theorem ticks_running (ht : Ticks m m') (h : (m.parties j).state = .ready ∨ (m.parties j).state = .dead) :
    (m'.parties j).state = .ready ∨ (m'.parties j).state = .dead := by
  induction ht with
  | refl => exact h
  | tail _ hstep ih => exact tick_running hstep ih

theorem sim_acknowledge (k : Kernel) (vector : Nat) (input : List UInt8) : Sim Ticks k (acknowledge k vector input) := by
  have hconsole : ∀ k : Kernel, Same k (if vector = 36 then { k with console := consoleIrq k.console input } else k) := by
    intro k
    split
    · exact same_rest
    · exact .refl
  unfold acknowledge
  refine Sim.same ?_ (hconsole _)
  split
  · have hs : Same k { k with ticks := (k.ticks + 1) % 2 ^ 64 } := same_rest
    exact Sim.same_left hs (sim_ipcDeadlines _)
  · exact sim_quiet Same.refl

/-- Ticks, and then a turn. -/
abbrev Round (actor : Option TaskId) : Ipc → Ipc → Prop := Relation.Comp Ticks (Turn actor)

theorem Sim.round (h : Sim Ticks k k') : Sim (Round actor) k k' := (h.trans (sim_idle .refl)).mono id

theorem sim_userInterrupt (vector : Nat) (regs : Regs) (hr : (k.tasks j).state = .ready ∨ (k.tasks j).state = .dead)
    (hs : Settled k.ipc) (hrings : Rings k) : Sim (Round (some j)) k (userInterrupt L k j vector regs) := by
  have h₁ : Same k (k.setTask j { k.tasks j with frame := ⟨regs.rax, regs.rsp⟩ }) := same_setTask rfl
  unfold userInterrupt
  dsimp only
  generalize k.setTask j { k.tasks j with frame := ⟨regs.rax, regs.rsp⟩ } = k₁ at h₁ ⊢
  have h₂ : Sim Ticks k (devicePoll L 64 k₁) := Sim.same_left h₁ (sim_devicePoll L 64 k₁)
  generalize devicePoll L 64 k₁ = k₂ at h₂ ⊢
  refine Sim.same ?_ (same_enterSchedule _)
  refine h₂.trans ?_
  split
  · exact sim_idle .refl
  rename_i hdead
  split
  · have hready : (k₂.tasks j).state = .ready := (ticks_running h₂.rel hr).resolve_right hdead
    exact sim_userCall L hready (h₂.settled hs) (h₂.rings hrings)
  split
  · exact sim_userFault L
  · exact sim_idle .refl

/-! ## Steps -/

/-- What holds between two steps, besides the capability invariant. -/
structure Bound (k : Kernel) : Prop where
  rings : Rings k
  settled : Settled k.ipc
  running : k.mode = .user → ∃ j, k.current = some j ∧ (k.tasks j).state = .ready

theorem sim_scheduleRound (k : Kernel) : Sim Ticks k (scheduleRound L k) := by
  unfold scheduleRound
  split
  · exact sim_quiet same_rest
  rename_i j _
  split
  · split
    · exact sim_quiet same_rest
    · exact (sim_taskDead L k j _).ticks.same same_rest
  · have hs : Same k { k with current := some j, mode := .user } := same_rest
    exact sim_quiet (hs.trans (same_setTask rfl))

theorem same_userStore (k : Kernel) (j : TaskId) (v : Nat) (byte : UInt8) : Same k (userStore k j v byte) := by
  unfold userStore
  split
  · split
    · exact same_rest
    · exact .refl
  · exact .refl

theorem sim_kernelMain {entry : Nat} {segments : List SfLoadSegment} (h : Bound k) :
    Sim (Round k.actor) k (kernelMain L k entry segments) := by
  unfold kernelMain
  split
  · exact (sim_quiet .refl).round
  rename_i hmode
  have hactor : k.actor = none := by simp [Kernel.actor, not_not.1 hmode]
  have hnew : Sim (Turn none) k (taskNewLimited L none (bootPlan entry segments) 4096 k).2 :=
    sim_taskNewLimited L (fun q hq => by cases hq) h.settled
  rw [hactor]
  refine (sim_quiet .refl).trans ?_
  split <;> rename_i heq <;> rw [heq] at hnew
  · exact hnew.same (same_enterSchedule _)
  · exact hnew.same same_rest

theorem sim_interruptDispatch (vector : Nat) (regs : Regs) (input : List UInt8) (hw : List Nat) (h : Bound k) :
    Sim (Round k.actor) k (interruptDispatch L k vector regs input hw) := by
  have hs : Same k { k with hw := hw } := same_rest
  have hack : Sim Ticks k (acknowledge { k with hw := hw } vector input) := Sim.same_left hs (sim_acknowledge _ vector input)
  unfold interruptDispatch
  split
  · rename_i j hmode hcur
    have hactor : k.actor = some j := by simp [Kernel.actor, hmode, hcur]
    obtain ⟨j', hcur', hready⟩ := h.running hmode
    cases hcur.symm.trans hcur'
    rw [hactor]
    have hint := sim_userInterrupt L vector regs (ticks_running hack.rel (Or.inl hready)) (hack.settled h.settled)
      (hack.rings h.rings)
    refine (hack.trans hint).mono ?_
    rintro ⟨m₁, ht, m₂, ht', hturn⟩
    exact ⟨m₂, ht.trans ht', hturn⟩
  · split
    · exact Sim.round (sim_quiet same_rest)
    · exact Sim.round (hack.same same_rest)
  · exact (sim_quiet .refl).round

theorem same_runStore (k : Kernel) (v : Nat) (byte : UInt8) : Same k (runStore k v byte) := by
  unfold runStore
  split
  · exact same_userStore k _ v byte
  · exact .refl

/-- **Every step is a sequence of ticks and then one turn of the task that acts.** -/
theorem step_sim (h : Bound k) (a : Action) : Sim (Round k.actor) k (step L k a) := by
  cases a with
  | boot entry segments => exact sim_kernelMain L h
  | interrupt vector regs input hw => exact sim_interruptDispatch L vector regs input hw h
  | schedule hw =>
    have hs : Same k { k with hw := hw } := same_rest
    change Sim (Round k.actor) k (if k.mode = .sched then scheduleRound L { k with hw := hw } else k)
    split
    · exact (Sim.same_left hs (sim_scheduleRound L _)).round
    · exact (sim_quiet .refl).round
  | store v byte => exact (sim_quiet (same_runStore k v byte)).round
  | dma offset byte => exact Sim.round (sim_quiet same_rest)

theorem enterSchedule_mode (k : Kernel) : (enterSchedule k).mode ≠ .user := by
  unfold enterSchedule
  split
  · rename_i h
    simp [h]
  dsimp only
  split
  · simp
  · split <;> simp [Kernel.setTask]

theorem scheduleRound_running (h : (scheduleRound L k).mode = .user) :
    ∃ j, (scheduleRound L k).current = some j ∧ ((scheduleRound L k).tasks j).state = .ready := by
  unfold scheduleRound at h ⊢
  split at h
  · simp at h
  rename_i j hpick
  split at h
  · split at h <;> simp at h
  rename_i hrsp
  simp only [hrsp, if_false]
  exact ⟨j, rfl, by simpa [Kernel.setTask] using (schedPick_spec hpick).1.1⟩

theorem step_running (h : Bound k) (a : Action) (hm : (step L k a).mode = .user) :
    ∃ j, (step L k a).current = some j ∧ ((step L k a).tasks j).state = .ready := by
  cases a with
  | boot entry segments =>
    change (kernelMain L k entry segments).mode = .user at hm
    change ∃ j, (kernelMain L k entry segments).current = some j ∧ ((kernelMain L k entry segments).tasks j).state = .ready
    by_cases hmode : k.mode ≠ .boot
    · rw [show kernelMain L k entry segments = k from if_pos hmode] at hm ⊢
      exact h.running hm
    unfold kernelMain at hm
    rw [if_neg hmode] at hm
    split at hm
    · exact absurd hm (enterSchedule_mode _)
    · simp at hm
  | interrupt vector regs input hw =>
    change (interruptDispatch L k vector regs input hw).mode = .user at hm
    change ∃ j, (interruptDispatch L k vector regs input hw).current = some j ∧
      ((interruptDispatch L k vector regs input hw).tasks j).state = .ready
    unfold interruptDispatch at hm ⊢
    split at hm
    · exact absurd hm (enterSchedule_mode _)
    · split at hm <;> simp at hm
    · exact h.running hm
  | schedule hw =>
    by_cases hs : k.mode = .sched
    · simp only [step, hs, if_true] at hm ⊢
      exact scheduleRound_running L hm
    · simp only [step, hs, if_false] at hm ⊢
      exact h.running hm
  | store v byte =>
    change (runStore k v byte).mode = .user at hm
    change ∃ j, (runStore k v byte).current = some j ∧ ((runStore k v byte).tasks j).state = .ready
    have hmode : (runStore k v byte).mode = k.mode ∧ (runStore k v byte).current = k.current := by
      unfold runStore userStore
      split
      · split
        · split <;> exact ⟨rfl, rfl⟩
        · exact ⟨rfl, rfl⟩
      · exact ⟨rfl, rfl⟩
    obtain ⟨j, hcur, hready⟩ := h.running (hmode.1 ▸ hm)
    exact ⟨j, hmode.2.trans hcur, ((same_runStore k v byte).state j).trans hready⟩
  | dma offset byte => exact h.running hm

theorem step_bound (h : Bound k) (a : Action) : Bound (step L k a) :=
  ⟨(step_sim L h a).rings h.rings, (step_sim L h a).settled h.settled, step_running L h a⟩

/-! ## Runs -/

theorem grants_party {child : TaskId} (hg : Relation.ReflTransGen (Grant actor child) m m') (j : TaskId) :
    (m'.parties j).pid = (m.parties j).pid ∧ (m'.parties j).state = (m.parties j).state := by
  induction hg with
  | refl => exact ⟨rfl, rfl⟩
  | tail _ hstep ih =>
    obtain ⟨_, _, _, _, _, _, _⟩ := hstep
    exact ⟨(setCap_party _ j).1.trans ih.1, (setCap_party _ j).2.1.trans ih.2⟩

theorem Turn.moves (h : Turn actor m m') : Moves actor m m' := by
  have hbirth : ∀ {child : TaskId} {m₁ : Ipc}, m.Vacant child → m.nextPid ≤ 0x7fffffff →
      Relation.ReflTransGen (Grant actor child) (m.occupy child) m₁ → Moves actor m m₁ := fun hs hmax hg =>
    Relation.ReflTransGen.head (Move.occupy hs hmax) (hg.lift id fun _ _ h => Move.grant h)
  cases h with
  | idle => exact Relation.ReflTransGen.refl
  | move h => exact Relation.ReflTransGen.single h
  | @spawn child m₁ hs hne hp hg =>
    obtain ⟨hpid, hstate⟩ := grants_party hg child
    rw [occupy_party_self] at hpid hstate
    exact (hbirth hs hp.2 hg).tail (Move.ready hstate (hpid ▸ hp.1))
  | abort hs hne hp hg => exact (hbirth hs hp.2 hg).tail (Move.tick Tick.die)

theorem Round.moves (h : Round actor m m') : Moves actor m m' := by
  obtain ⟨m₁, ht, hturn⟩ := h
  exact (ht.lift id fun _ _ h => Move.tick h).trans hturn.moves

theorem initial_bound (mem : Mem) (iommu : Iommu) (mmioReady : Bool) : Bound (initial mem iommu mmioReady) :=
  ⟨fun _ => ⟨Nat.succ_pos 7, Nat.zero_le 8⟩, fun _ _ => rfl, nofun⟩

variable {L}

theorem reach_bound (h : Reach L k) : Bound k := by
  induction h with
  | init mem iommu mmioReady => exact initial_bound mem iommu mmioReady
  | step _ action ih => exact step_bound L ih action

theorem moves_keep (hmove : ∀ {actor m m'}, I m → Move actor m m' → I m') (h : Moves actor m m')
    (hm : I m) :
    I m' := by
  induction h with
  | refl => exact hm
  | tail _ hstep ih => exact hmove ih hstep

/-- What holds at the start and is kept by every move holds in every state of every run. -/
theorem reach_keeps (hinit : ∀ mem iommu mmioReady, I (initial mem iommu mmioReady).ipc)
    (hmove : ∀ {actor m m'}, I m → Move actor m m' → I m') (h : Reach L k) : I k.ipc := by
  induction h with
  | init mem iommu mmioReady => exact hinit mem iommu mmioReady
  | step hk action ih => exact moves_keep hmove (step_sim L (reach_bound hk) action).rel.moves ih

/-- The second state comes later in the same run. -/
inductive Later (L : Layout) (k : Kernel) : Kernel → Prop
  | refl : Later L k k
  | step {k' : Kernel} (h : Later L k k') (action : Action) : Later L k (step L k' action)

theorem later_reach (h : Reach L k) (hl : Later L k k') : Reach L k' := by
  induction hl with
  | refl => exact h
  | step _ action ih => exact Reach.step ih action

/-- What a state has and every move keeps, every later state has. -/
theorem later_keeps (hmove : ∀ {actor m m'}, I m → Move actor m m' → I m') (h : Reach L k) (hk : I k.ipc)
    (hl : Later L k k') : I k'.ipc := by
  induction hl with
  | refl => exact hk
  | step hl action ih => exact moves_keep hmove (step_sim L (reach_bound (later_reach h hl)) action).rel.moves ih

theorem reach_capInv (h : Reach L k) : CapInv none none k.ipc := by
  refine reach_keeps (I := CapInv none none) (fun mem iommu mmioReady => ?_) move_capInv h
  refine ⟨nofun, fun e _ ho => absurd rfl ho, fun e ho => absurd rfl ho, fun _ _ _ => rfl, fun j hl => ?_, fun j _ hb => ?_,
    fun _ => Nat.zero_lt_one, fun j j' _ h0 => absurd rfl h0⟩
  · rcases hl with hl | hl <;> cases hl
  · cases hb

/-! ## The capability table -/

structure CapTable (k : Kernel) : Prop where
  /-- A capability names a living incarnation of its endpoint. -/
  named : ∀ j i e, ((k.tasks j).caps i).endpoint = some e →
    (k.endpoints e).owner ≠ 0 ∧ ((k.tasks j).caps i).epoch = (k.endpoints e).epoch
  /-- A living endpoint is referenced by a live task. -/
  referenced : ∀ e, (k.endpoints e).owner ≠ 0 → ∃ j i, ((k.tasks j).caps i).endpoint = some e ∧
    ((k.tasks j).state = .ready ∨ (k.tasks j).state = .blocked)
  /-- A living endpoint is owned by a live task. -/
  owned : ∀ e, (k.endpoints e).owner ≠ 0 → ∃ j, (k.tasks j).pid = (k.endpoints e).owner ∧
    ((k.tasks j).state = .ready ∨ (k.tasks j).state = .blocked)
  /-- A blocked task can receive where it waits. -/
  receives : ∀ j, (k.tasks j).state = .blocked → ∃ i e, (k.tasks j).waitEndpoint = some e ∧
    ((k.tasks j).caps i).endpoint = some e ∧ ((k.tasks j).caps i).rights &&& rightRecv = rightRecv
  /-- A slot without a live task has no capability. -/
  idle : ∀ j, (k.tasks j).state = .empty ∨ (k.tasks j).state = .dead → ∀ i, ((k.tasks j).caps i).endpoint = none
  rings : ∀ e, (k.endpoints e).head < 8 ∧ (k.endpoints e).count ≤ 8

/-- **The capability table is sound in every reachable state.** -/
theorem capability_table (h : Reach L k) : CapTable k := by
  have hinv := reach_capInv h
  have hbound := reach_bound h
  have hidle : ∀ j, (k.tasks j).state = .empty ∨ (k.tasks j).state = .dead → ∀ i, ((k.tasks j).caps i).endpoint = none := by
    rintro j (he | hd)
    · exact hinv.idle j (Or.inr (hbound.settled j he))
    · exact hinv.idle j (Or.inl hd)
  refine ⟨hinv.ref, fun e ho => ?_, hinv.owner, fun j hb => ?_, hidle, hbound.rings⟩
  · obtain ⟨j, i, hc⟩ := hinv.held e nofun ho
    have hc' : ((k.tasks j).caps i).endpoint = some e := hc
    have hnot : ¬ ((k.tasks j).state = .empty ∨ (k.tasks j).state = .dead) := fun hd => by
      rw [hidle j hd i] at hc'
      cases hc'
    refine ⟨j, i, hc', ?_⟩
    cases hs : (k.tasks j).state <;> simp [hs] at hnot ⊢
  · obtain ⟨i, e, hw, hc, hr⟩ := hinv.blocked j nofun hb
    exact ⟨i, e, hw, hc, hr⟩

end Runs

theorem capability_table_talk : CapTable sampleTalk := capability_table reach_sampleTalk

end SpiritFox.Core
