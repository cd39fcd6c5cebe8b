import SpiritFox.Kernel.Refine
import Mathlib.Data.Fintype.Card

/-!
# Scheduling

`schedPick` takes the first of the ready tasks with the greatest effective level, in the order of the round
(`schedPick_spec`). The level grows with the time a task waits, so after twelve ticks no task is ahead of it but by
its place in the round, and every dispatch of another task brings the round closer to it: `bounded_waiting`.
-/

namespace SpiritFox.Core

section Schedule

variable {L : Layout} {k k' : Kernel} {j x y : TaskId}

/-! ## The pick -/

/-- The scheduler looks at the task. -/
def Eligible (k : Kernel) (j : TaskId) : Prop := (k.tasks j).state = .ready ∧ (k.tasks j).priority ≤ 3

instance (k : Kernel) (j : TaskId) : Decidable (Eligible k j) := inferInstanceAs (Decidable (_ ∧ _))

/-- The effective level of a task. -/
def level (k : Kernel) (j : TaskId) : Nat := effectivePriority k.ticks (k.tasks j)

/-- The place of a task in the round that starts behind `current`. -/
def turn (current : Option TaskId) (j : TaskId) : Nat :=
  match current with
  | none => j
  | some c => (j.val + 11 - c.val) % 12

theorem turn_lt (current : Option TaskId) (j : TaskId) : turn current j < 12 := by
  unfold turn
  split
  · exact j.isLt
  · exact Nat.mod_lt _ (by decide)

/-- The tasks in the order of the round. -/
def round (current : Option TaskId) : List TaskId :=
  (List.range 12).map fun n => ⟨((match current with | none => 0 | some j => j.val + 1) + n) % 12, Nat.mod_lt _ (by decide)⟩

/-- The place of the `n`-th task of the round is `n`. -/
theorem turn_round {current : Option TaskId} {n : Nat} (h : (round current)[n]? = some j) : turn current j = n := by
  unfold round at h
  rw [List.getElem?_map] at h
  obtain ⟨n', hn', rfl⟩ := Option.map_eq_some_iff.1 h
  obtain ⟨hlt, hval⟩ := List.getElem?_eq_some_iff.1 hn'
  rw [List.length_range] at hlt
  rw [List.getElem_range] at hval
  subst hval
  unfold turn
  rcases current with _ | c
  · dsimp only
    omega
  have hc := c.isLt
  dsimp only
  omega

theorem mem_round (current : Option TaskId) (j : TaskId) : j ∈ round current := by
  have hj := j.isLt
  refine List.mem_map.2 ⟨turn current j, List.mem_range.2 (turn_lt current j), Fin.ext ?_⟩
  unfold turn
  rcases current with _ | c
  · dsimp only
    omega
  have hc := c.isLt
  dsimp only
  omega

/-- What stands before a task in the round has an earlier turn, and what stands behind it a later one. -/
theorem round_split {current : Option TaskId} {before after : List TaskId} (h : round current = before ++ j :: after) :
    (∀ i ∈ before, turn current i < turn current j) ∧ ∀ i ∈ after, turn current j < turn current i := by
  have hj : turn current j = before.length := turn_round (by rw [h]; simp)
  rw [hj]
  constructor
  · intro i hi
    obtain ⟨n, hn⟩ := List.mem_iff_getElem?.1 hi
    have hlt : n < before.length := (List.getElem?_eq_some_iff.1 hn).1
    rwa [turn_round (n := n) (by rw [h, List.getElem?_append_left hlt, hn])]
  · intro i hi
    obtain ⟨n, hn⟩ := List.mem_iff_getElem?.1 hi
    rw [turn_round (n := before.length + (n + 1)) (by rw [h, List.getElem?_append_right (by omega)]; simpa using hn)]
    omega

theorem schedPick_eq (k : Kernel) :
    schedPick k = ((round k.current).foldl (Fold.better (Eligible k) (level k)) none).map Prod.fst := by
  unfold schedPick round
  dsimp only
  congr 2
  funext best j
  unfold Fold.better
  by_cases h : Eligible k j
  · rw [if_pos h, if_neg (not_or.2 ⟨not_not.2 h.1, Nat.not_lt.2 h.2⟩)]
    cases best <;> rfl
  rw [if_neg h, if_pos]
  by_contra hno
  obtain ⟨h₁, h₂⟩ := not_or.1 hno
  exact h ⟨not_not.1 h₁, Nat.le_of_not_lt h₂⟩

/-- Of the tasks with the greatest level, the one whose turn is next. -/
structure Front (k : Kernel) (j : TaskId) : Prop where
  eligible : Eligible k j
  greatest : ∀ i, Eligible k i → level k i ≤ level k j
  first : ∀ i, Eligible k i → level k i = level k j → turn k.current j ≤ turn k.current i

/-- **The pick** -/
theorem schedPick_spec (h : schedPick k = some j) : Front k j := by
  rw [schedPick_eq] at h
  obtain ⟨⟨j', s⟩, hbest, rfl⟩ := Option.map_eq_some_iff.1 h
  have hmax := Fold.firstMax (p := Eligible k) (f := level k) (round k.current)
  rw [hbest] at hmax
  obtain ⟨hj, _, before, after, hsplit, hbefore, hafter⟩ := hmax
  obtain ⟨hearly, hlate⟩ := round_split hsplit
  have hcases : ∀ i, i ∈ before ∨ i = j' ∨ i ∈ after := fun i => by
    have hi := mem_round k.current i
    rw [hsplit, List.mem_append, List.mem_cons] at hi
    exact hi
  refine ⟨hj, fun i hi => ?_, fun i hi heq => ?_⟩
  · rcases hcases i with hb | rfl | ha
    · exact Nat.le_of_lt (hbefore i hb hi)
    · exact Nat.le_refl _
    · exact hafter i ha hi
  · rcases hcases i with hb | rfl | ha
    · exact absurd heq (Nat.ne_of_lt (hbefore i hb hi))
    · exact Nat.le_refl _
    · exact Nat.le_of_lt (hlate i ha)

theorem schedPick_none (h : schedPick k = none) (j : TaskId) : ¬ Eligible k j := by
  rw [schedPick_eq, Option.map_eq_none_iff] at h
  have hmax := Fold.firstMax (p := Eligible k) (f := level k) (round k.current)
  rw [h] at hmax
  exact hmax j (mem_round k.current j)

theorem turn_inj (current : Option TaskId) (h : turn current x = turn current y) : x = y := by
  have hx := x.isLt
  have hy := y.isLt
  refine Fin.ext ?_
  unfold turn at h
  rcases current with _ | c
  · exact h
  have hc := c.isLt
  dsimp only at h
  omega

theorem schedPick_iff : schedPick k = some j ↔ Front k j := by
  refine ⟨schedPick_spec, fun h => ?_⟩
  cases hp : schedPick k with
  | none => exact absurd h.eligible (schedPick_none hp j)
  | some i =>
    have hi := schedPick_spec hp
    have hlevel : level k i = level k j :=
      Nat.le_antisymm (h.greatest i hi.eligible) (hi.greatest j h.eligible)
    rw [turn_inj k.current (Nat.le_antisymm (hi.first j h.eligible hlevel.symm) (h.first i hi.eligible hlevel))]

/-! ## Waiting -/

/-- The task is ready to run, and has been for twelve ticks. -/
structure Waiting (x : TaskId) (k : Kernel) : Prop where
  ready : (k.tasks x).state = .ready
  canonical : ¬ nonCanonical (k.tasks x).frame.rsp
  priority : (k.tasks x).priority ≤ 3
  aged : (k.tasks x).readySince + 12 ≤ k.ticks

theorem Waiting.congr (h : Waiting x k) (htask : k'.tasks x = k.tasks x) (hticks : k'.ticks = k.ticks) : Waiting x k' := by
  obtain ⟨h₁, h₂, h₃, h₄⟩ := h
  rw [← htask] at h₁ h₂ h₃ h₄
  rw [← hticks] at h₄
  exact ⟨h₁, h₂, h₃, h₄⟩

theorem level_le (k : Kernel) (j : TaskId) : level k j ≤ 3 := by
  unfold level effectivePriority
  dsimp only
  split <;> omega

theorem Waiting.level (h : Waiting x k) : level k x = 3 := by
  have hp := h.priority
  have ha := h.aged
  unfold SpiritFox.Core.level effectivePriority
  rw [if_pos (by omega)]

/-- A dispatch of another task brings the round closer. -/
theorem turn_closer (hne : y ≠ x) {current : Option TaskId} (h : turn current y ≤ turn current x) :
    turn (some y) x < turn current x := by
  have hx := x.isLt
  have hy := y.isLt
  have hval : y.val ≠ x.val := fun he => hne (Fin.ext he)
  unfold turn at h ⊢
  rcases current with _ | c
  · dsimp only at h ⊢
    omega
  have hc := c.isLt
  dsimp only at h ⊢
  omega

/-- What a task that is ready keeps while others end. -/
structure Steady (x : TaskId) (k k' : Kernel) : Prop where
  ticks : k'.ticks = k.ticks
  current : k'.current = k.current
  task : (k.tasks x).state = .ready → (k'.tasks x).state = .ready ∧ (k'.tasks x).frame.rsp = (k.tasks x).frame.rsp ∧
    (k'.tasks x).priority = (k.tasks x).priority ∧ (k'.tasks x).readySince = (k.tasks x).readySince

theorem Steady.refl : Steady x k k := ⟨rfl, rfl, fun h => ⟨h, rfl, rfl, rfl⟩⟩

theorem Steady.trans {k'' : Kernel} (h : Steady x k k') (h' : Steady x k' k'') : Steady x k k'' where
  ticks := h'.ticks.trans h.ticks
  current := h'.current.trans h.current
  task hr := by
    obtain ⟨h₁, h₂, h₃, h₄⟩ := h.task hr
    obtain ⟨h₁', h₂', h₃', h₄'⟩ := h'.task h₁
    exact ⟨h₁', h₂'.trans h₂, h₃'.trans h₃, h₄'.trans h₄⟩

theorem Steady.waiting (h : Steady x k k') (hw : Waiting x k) : Waiting x k' := by
  obtain ⟨hready, hrsp, hpri, hsince⟩ := h.task hw.ready
  exact ⟨hready, by rw [hrsp]; exact hw.canonical, by rw [hpri]; exact hw.priority, by rw [hsince, h.ticks]; exact hw.aged⟩

theorem steady_setTask {t : Task} (h : y = x → t.state = (k.tasks x).state ∧ t.frame.rsp = (k.tasks x).frame.rsp ∧
    t.priority = (k.tasks x).priority ∧ t.readySince = (k.tasks x).readySince) : Steady x k (k.setTask y t) := by
  refine ⟨rfl, rfl, fun hr => ?_⟩
  unfold Kernel.setTask
  dsimp only
  by_cases hx : x = y
  · subst hx
    rw [Function.update_self]
    obtain ⟨h₁, h₂, h₃, h₄⟩ := h rfl
    exact ⟨h₁.trans hr, h₂, h₃, h₄⟩
  · rw [Function.update_of_ne hx]
    exact ⟨hr, rfl, rfl, rfl⟩

theorem steady_invalidate (k : Kernel) (e : EpId) : Steady x k (invalidate k e) := by
  refine ⟨rfl, rfl, fun hr => ?_⟩
  have htask : (invalidate k e).tasks x = (k.tasks x).invalidated e k.ticks := rfl
  rw [htask]
  simp [Task.invalidated, hr]

theorem steady_dropCap (k : Kernel) (j : TaskId) (i : CapId) : Steady x k (dropCap k j i) := by
  refine steady_setTask fun hj => ?_
  subst hj
  exact ⟨rfl, rfl, rfl, rfl⟩

theorem steady_ipcCleanup (k : Kernel) (j : TaskId) : Steady x k (ipcCleanup k j) := by
  have howned : Steady x k (cleanupOwned k j) := by
    unfold cleanupOwned
    refine Fold.keeps (I := Steady x k) _ (fun k' e _ h => ?_) Steady.refl
    split
    · exact h.trans (steady_invalidate k' e)
    · exact h
  unfold ipcCleanup
  refine Fold.keeps (I := Steady x k) _ (fun k' i _ h => ?_) howned
  unfold cleanupSlot
  split
  · exact h
  unfold closeCap
  split
  · exact h.trans (steady_dropCap k' j i)
  · exact h.trans ((steady_dropCap k' j i).trans (steady_invalidate _ _))

theorem steady_deviceRelease (k : Kernel) (j : TaskId) : Steady x k (deviceRelease k j).2 := by
  obtain ⟨hw, iommu, quarantined, fault, io, heq⟩ := deviceRelease_eq k j
  rw [heq]
  have hs : Steady x k { k with hw := hw, iommu := iommu, quarantined := quarantined } :=
    ⟨rfl, rfl, fun h => ⟨h, rfl, rfl, rfl⟩⟩
  refine hs.trans (steady_setTask fun hj => ?_)
  subst hj
  exact ⟨rfl, rfl, rfl, rfl⟩

theorem steady_pagesFree (L : Layout) (k : Kernel) (pid : Nat) : Steady x k (pagesFree L k pid) := by
  unfold pagesFree
  split
  · exact Steady.refl
  refine ⟨rfl, rfl, fun hr => ?_⟩
  dsimp only
  split <;> exact ⟨hr, rfl, rfl, rfl⟩

theorem steady_deviceForget (k : Kernel) (j : TaskId) : Steady x k (deviceForget k j) := by
  unfold deviceForget
  split <;> exact ⟨rfl, rfl, fun h => ⟨h, rfl, rfl, rfl⟩⟩

/-- The end of another task does not concern a task that is ready. -/
theorem steady_taskDead (hne : y ≠ x) (k : Kernel) (status : Int) : Steady x k (taskDead L k y status) := by
  unfold taskDead
  have hbury : ∀ k₁ : Kernel, Steady x k₁ (bury k₁ y status) := fun k₁ => steady_setTask fun hj => absurd hj hne
  exact ((((steady_deviceRelease k y).trans (steady_ipcCleanup _ y)).trans (hbury _)).trans (steady_pagesFree L _ _)).trans
    (steady_deviceForget _ y)

/-! ## Calls of the scheduler -/

/-- The loop of `schedule`. A round that picks a task with a bad return frame ends the task, so twelve rounds are enough. -/
def scheduleLoop (L : Layout) : Nat → Kernel → Kernel
  | 0, k => k
  | rounds + 1, k => if (scheduleRound L k).mode = .sched then scheduleLoop L rounds
    (scheduleRound L k) else scheduleRound L k

/-- `schedule`; after a panic there are no more calls. -/
def schedule (L : Layout) (k : Kernel) : Kernel := if k.mode = .panic then k else scheduleLoop L 12 (enterSchedule k)

/-- The number of tasks that have not ended. -/
def alive (k : Kernel) : Nat := (Finset.univ.filter fun j => (k.tasks j).state ≠ .dead).card

/-- `y` is the task that a call from `k` picks, after others with a bad frame may have ended. -/
structure Picks (x y : TaskId) (k k₁ k' : Kernel) : Prop where
  steady : Steady x k k₁
  pick : schedPick k₁ = some y
  dispatched : k' = { k₁ with current := some y, mode := .user }.setTask y { k₁.tasks y with readySince := k₁.ticks }

theorem scheduleRound_front (h : Front k y) : scheduleRound L k =
    if nonCanonical (k.tasks y).frame.rsp then
      if (k.tasks y).pid = 1 then { k with mode := .panic } else { taskDead L k y (-113) with mode := .sched }
    else { k with current := some y, mode := .user }.setTask y { k.tasks y with readySince := k.ticks } := by
  unfold scheduleRound
  rw [schedPick_iff.2 h]

theorem state_taskDead (k : Kernel) (j : TaskId) (status : Int) (i : TaskId) :
    ((taskDead L k j status).tasks i).state = (((k.ipc.cleanup j).setState j .dead).parties i).state := by
  rw [← ipc_taskDead L k j status]
  rfl

theorem alive_taskDead (hy : (k.tasks y).state ≠ .dead) (status : Int) : alive (taskDead L k y status) < alive k := by
  refine Finset.card_lt_card ⟨fun j hj => ?_, fun hsub => ?_⟩
  · rw [Finset.mem_filter, state_taskDead] at hj
    refine Finset.mem_filter.2 ⟨hj.1, fun hd => hj.2 ?_⟩
    by_cases hjy : j = y
    · exact absurd hd (hjy ▸ hy)
    rw [Ipc.setState, setParty_parties, Function.update_of_ne hjy]
    rcases (shrinks_cleanup (m := k.ipc) (j := y)).state j with heq | ⟨hb, _⟩
    · exact heq.trans hd
    have hb' : (k.tasks j).state = .blocked := hb
    rw [hd] at hb'
    cases hb'
  · have hy' := hsub (Finset.mem_filter.2 ⟨Finset.mem_univ y, hy⟩)
    rw [Finset.mem_filter, state_taskDead] at hy'
    exact hy'.2 (by simp [Ipc.setState])

/-- A panic over PID 1, which has been picked and cannot be returned to. -/
def InitLost (k : Kernel) : Prop :=
  k.mode = .panic ∧ ∃ y, Front k y ∧ (k.tasks y).pid = 1 ∧ nonCanonical (k.tasks y).frame.rsp

/-- A call ends in a dispatch, or in a panic over the frame of PID 1. -/
theorem scheduleLoop_ends (rounds : Nat) (hw : Waiting x k) (hn : alive k ≤ rounds) :
    InitLost (scheduleLoop L rounds k) ∨ ∃ y k₁, Picks x y k k₁ (scheduleLoop L rounds k) := by
  induction rounds generalizing k with
  | zero =>
    have hx : x ∈ Finset.univ.filter fun j => (k.tasks j).state ≠ .dead := by simp [hw.ready]
    have hpos := Finset.card_pos.2 ⟨x, hx⟩
    unfold alive at hn
    omega
  | succ rounds ih =>
    obtain ⟨y, hp⟩ : ∃ y, schedPick k = some y := by
      cases hp : schedPick k with
      | none => exact absurd ⟨hw.ready, hw.priority⟩ (schedPick_none hp x)
      | some y => exact ⟨y, rfl⟩
    have hfront := schedPick_spec hp
    unfold scheduleLoop
    rw [scheduleRound_front hfront]
    by_cases hbad : nonCanonical (k.tasks y).frame.rsp
    · by_cases hpid : (k.tasks y).pid = 1
      · rw [if_pos hbad, if_pos hpid, if_neg (by simp)]
        exact Or.inl ⟨rfl, y, schedPick_spec (k := { k with mode := .panic }) hp, hpid, hbad⟩
      · have hne : y ≠ x := fun he => hw.canonical (he ▸ hbad)
        have hdead : Steady x k { taskDead L k y (-113) with mode := .sched } :=
          (steady_taskDead hne k (-113)).trans ⟨rfl, rfl, fun h => ⟨h, rfl, rfl, rfl⟩⟩
        have hcount : alive { taskDead L k y (-113) with mode := .sched } < alive k :=
          alive_taskDead (by rw [hfront.eligible.1]; simp) (-113)
        rw [if_pos hbad, if_neg hpid, if_pos rfl]
        rcases ih (hdead.waiting hw) (by omega) with hlost | ⟨y', k₁, h₁⟩
        · exact Or.inl hlost
        · exact Or.inr ⟨y', k₁, hdead.trans h₁.steady, h₁.pick, h₁.dispatched⟩
    · rw [if_neg hbad, if_neg (by simp [Kernel.setTask])]
      exact Or.inr ⟨y, k, Steady.refl, hp, rfl⟩

/-! ## Runs -/

/-- What may happen between two calls, for a task that stays ready: everything but a dispatch. -/
structure Between (x : TaskId) (k k' : Kernel) : Prop where
  current : k'.current = k.current
  ticks : k.ticks ≤ k'.ticks
  ready : (k'.tasks x).state = .ready
  canonical : ¬ nonCanonical (k'.tasks x).frame.rsp
  priority : (k'.tasks x).priority ≤ 3
  readySince : (k'.tasks x).readySince = (k.tasks x).readySince

/-- A run in which `x` stays ready, with the tasks that are dispatched in its place. -/
inductive Calls (L : Layout) (x : TaskId) (k : Kernel) : List TaskId → Kernel → Prop
  | refl : Calls L x k [] k
  | between {l : List TaskId} {k₁ k₂ : Kernel} (h : Calls L x k l k₁) (hb : Between x k₁ k₂) : Calls L x k l k₂
  | call {l : List TaskId} {k₁ : Kernel} {y : TaskId} (h : Calls L x k l k₁) (hm : (schedule L k₁).mode = .user)
      (hc : (schedule L k₁).current = some y) (hne : y ≠ x) : Calls L x k (l ++ [y]) (schedule L k₁)

/-- The task waits, and another one ran last. -/
def Passed (x : TaskId) (k : Kernel) : Prop := Waiting x k ∧ k.current ≠ some x

theorem Between.passed (hb : Between x k k') (h : Passed x k) : Passed x k' := by
  refine ⟨⟨hb.ready, hb.canonical, hb.priority, ?_⟩, hb.current ▸ h.2⟩
  have ha := h.1.aged
  have ht := hb.ticks
  rw [hb.readySince]
  omega

theorem steady_enterSchedule (hc : k.current ≠ some x) : Steady x k (enterSchedule k) := by
  unfold enterSchedule
  split
  · exact Steady.refl
  have hmode : Steady x k { k with mode := .sched } := ⟨rfl, rfl, fun h => ⟨h, rfl, rfl, rfl⟩⟩
  dsimp only
  split
  · exact hmode
  rename_i j hj
  split
  · exact hmode.trans (steady_setTask fun he => absurd (he ▸ hj) hc)
  · exact hmode

/-- The wait of a task that ran last starts with the call. -/
theorem passed_of_enterSchedule (hm : k.mode ≠ .panic) (hw : Waiting x (enterSchedule k)) : Passed x k := by
  have hc : k.current ≠ some x := fun hc => by
    have ha := hw.aged
    have hr := hw.ready
    by_cases hready : (k.tasks x).state = .ready
    · have hsince : ((enterSchedule k).tasks x).readySince = k.ticks ∧ (enterSchedule k).ticks = k.ticks := by
        simp [enterSchedule, hm, hc, hready, Kernel.setTask]
      omega
    · have htask : (enterSchedule k).tasks x = k.tasks x := by simp [enterSchedule, hm, hc, hready]
      rw [htask] at hr
      exact hready hr
  refine ⟨?_, hc⟩
  have htask : (enterSchedule k).tasks x = k.tasks x ∧ (enterSchedule k).ticks = k.ticks := by
    unfold enterSchedule
    rw [if_neg hm]
    dsimp only
    split
    · exact ⟨rfl, rfl⟩
    rename_i j hj
    have hne : x ≠ j := fun he => hc (he ▸ hj)
    split
    · exact ⟨Function.update_of_ne hne _ _, rfl⟩
    · exact ⟨rfl, rfl⟩
  exact hw.congr htask.1.symm htask.2.symm

/-- A call while a task waits: the task that is picked is not behind it in the round. -/
theorem Passed.call (h : Passed x k) (hm : k.mode ≠ .panic) : InitLost (schedule L k) ∨
    ∃ y k₁, Picks x y (enterSchedule k) k₁ (schedule L k) ∧ turn k.current y ≤ turn k.current x := by
  unfold schedule
  rw [if_neg hm]
  have hsteady := steady_enterSchedule h.2
  have hw := hsteady.waiting h.1
  have hcard : alive (enterSchedule k) ≤ 12 := Finset.card_le_univ _
  rcases scheduleLoop_ends (L := L) 12 hw hcard with hlost | ⟨y, k₁, hpick⟩
  · exact Or.inl hlost
  refine Or.inr ⟨y, k₁, hpick, ?_⟩
  have hw₁ := hpick.steady.waiting hw
  obtain ⟨_, hmax, hfirst⟩ := schedPick_spec hpick.pick
  have hx : Eligible k₁ x := ⟨hw₁.ready, hw₁.priority⟩
  have hlevel : level k₁ x = level k₁ y := by
    have h₁ := hmax x hx
    have h₂ := level_le k₁ y
    rw [hw₁.level] at h₁ ⊢
    omega
  have hturn := hfirst x hx hlevel
  rw [hpick.steady.current, hsteady.current] at hturn
  exact hturn

theorem Picks.current {k₁ : Kernel} (h : Picks x y k k₁ k') : k'.current = some y := by
  rw [h.dispatched]
  rfl

/-- The task that is passed by is still waiting. -/
theorem Picks.passed {k₁ : Kernel} (h : Picks x y k k₁ k') (hw : Waiting x k) (hne : y ≠ x) : Passed x k' := by
  refine ⟨?_, by rw [h.current]; exact fun he => hne (Option.some.inj he)⟩
  refine (h.steady.waiting hw).congr ?_ ?_ <;> rw [h.dispatched]
  · exact Function.update_of_ne (Ne.symm hne) _ _
  · rfl

theorem Picks.mode {k₁ : Kernel} (h : Picks x y k k₁ k') : k'.mode = .user := by
  rw [h.dispatched]
  rfl

/-- A run that passes a task by has come closer to it with every dispatch. -/
theorem calls_passed {l : List TaskId} (h : Calls L x k l k') (hp : Passed x k) :
    Passed x k' ∧ turn k'.current x + l.length ≤ turn k.current x := by
  induction h with
  | refl => exact ⟨hp, Nat.le_refl _⟩
  | between _ hb ih => exact ⟨hb.passed ih.1, by rw [hb.current]; exact ih.2⟩
  | @call l k₁ y _ hm hc hne ih =>
    have hrunning : k₁.mode ≠ .panic := fun hpanic => by
      unfold schedule at hm
      rw [if_pos hpanic, hpanic] at hm
      cases hm
    rcases ih.1.call (L := L) hrunning with hlost | ⟨y', k₂, hpick, hturn⟩
    · cases hm.symm.trans hlost.1
    obtain rfl := Option.some.inj (hc.symm.trans hpick.current)
    refine ⟨hpick.passed ((steady_enterSchedule ih.1.2).waiting ih.1.1) hne, ?_⟩
    have hcloser := turn_closer hne hturn
    have hle := ih.2
    rw [hc, List.length_append, List.length_singleton]
    omega

/-- What is left for a task that waits, after these dispatches of others: the next call dispatches, unless PID 1 is lost, and
after eleven it dispatches `x`. -/
structure Served (L : Layout) (x : TaskId) (l : List TaskId) (k : Kernel) : Prop where
  few : l.length ≤ 11
  next : k.mode ≠ .panic → InitLost (schedule L k) ∨ ∃ y, (schedule L k).mode = .user ∧
    (schedule L k).current = some y ∧ (l.length = 11 → y = x)

/-- The round of `schedule` is that of the task in front: it is dispatched, or ended if it cannot be returned to, and
nothing else gets the processor. -/
structure Fair (L : Layout) (k : Kernel) : Prop where
  dispatches : ∀ y, Front k y → ¬ nonCanonical (k.tasks y).frame.rsp →
    (scheduleRound L k).mode = .user ∧ (scheduleRound L k).current = some y
  ends : ∀ y, Front k y → nonCanonical (k.tasks y).frame.rsp → (k.tasks y).pid ≠ 1 →
    (scheduleRound L k).mode = .sched ∧ ((scheduleRound L k).tasks y).state = .dead
  picks : (scheduleRound L k).mode = .user → ∃ y, (scheduleRound L k).current = some y ∧ Front k y
  lost : (scheduleRound L k).mode = .panic → InitLost (scheduleRound L k)

theorem front_of_mode (hm : (scheduleRound L k).mode ≠ .idle) : ∃ y, Front k y := by
  cases hp : schedPick k with
  | none =>
    unfold scheduleRound at hm
    rw [hp] at hm
    exact absurd rfl hm
  | some y => exact ⟨y, schedPick_spec hp⟩

theorem fair_scheduleRound (L : Layout) (k : Kernel) : Fair L k := by
  refine ⟨fun y hy hc => ?_, fun y hy hbad hpid => ?_, fun hm => ?_, fun hm => ?_⟩
  · rw [scheduleRound_front hy, if_neg hc]
    exact ⟨rfl, rfl⟩
  · rw [scheduleRound_front hy, if_pos hbad, if_neg hpid]
    exact ⟨rfl, (state_taskDead k y (-113) y).trans (by simp [Ipc.setState])⟩
  · obtain ⟨y, hy⟩ := front_of_mode (L := L) (k := k) (by rw [hm]; simp)
    rw [scheduleRound_front hy] at hm ⊢
    split at hm
    · split at hm <;> cases hm
    rename_i hc
    rw [if_neg hc]
    exact ⟨y, rfl, hy⟩
  · obtain ⟨y, hy⟩ := front_of_mode (L := L) (k := k) (by rw [hm]; simp)
    rw [scheduleRound_front hy] at hm ⊢
    split at hm
    · rename_i hbad
      split at hm
      · rename_i hpid
        have hp := schedPick_iff.2 hy
        rw [if_pos hbad, if_pos hpid]
        exact ⟨rfl, y, schedPick_spec (k := { k with mode := .panic }) hp, hpid, hbad⟩
      · cases hm
    · cases hm

/-- **Waiting is bounded**: once a task has waited for twelve ticks, as a call finds it, at most eleven others are
dispatched before it. -/
theorem bounded_waiting {l : List TaskId} (hm : k.mode ≠ .panic) (hw : Waiting x (enterSchedule k)) (h : Calls L x k l k') :
    Served L x l k' ∧ ∀ k, Fair L k := by
  obtain ⟨hp, hturn⟩ := calls_passed h (passed_of_enterSchedule hm hw)
  have hlt := turn_lt k.current x
  refine ⟨⟨by omega, fun hm' => ?_⟩, fair_scheduleRound L⟩
  rcases hp.call (L := L) hm' with hlost | ⟨y, k₁, hpick, hle⟩
  · exact Or.inl hlost
  · refine Or.inr ⟨y, hpick.mode, hpick.current, fun hl => turn_inj k'.current ?_⟩
    omega

/-- Twelve tasks of the same level that have waited for twelve ticks. -/
def sampleCrowd : Kernel :=
  { sampleStart with
    mode := .sched
    ticks := 12
    tasks := fun j => { sampleStart.tasks j with pid := j.val + 1, state := .ready, priority := 1 } }

theorem bounded_waiting_crowd : Served sampleLayout 3 [0] (schedule sampleLayout sampleCrowd) ∧ ∀ k, Fair sampleLayout k :=
  bounded_waiting (k := sampleCrowd) (by simp [sampleCrowd]) ⟨rfl, by decide, by decide, by decide⟩
    (Calls.call .refl rfl rfl (by decide))

end Schedule

end SpiritFox.Core
