import SpiritFox.Kernel.Caps
import SpiritFox.Kernel.Frame

/-!
# Calls as turns

The kernel's functions on capabilities and messages, read as turns of the machine. `Sim R k k'` relates two kernel
states whose machine states are related by `R`, and carries the two facts the reading needs: no slot is left under
construction, and the rings are well formed.
-/

namespace SpiritFox.Core

open ByteMem Ipc Proc

/-- The rings are well formed. -/
def Rings (k : Kernel) : Prop := ∀ e, (k.endpoints e).head < 8 ∧ (k.endpoints e).count ≤ 8

/-- No task is under construction. -/
def Settled (m : Ipc) : Prop := ∀ j, (m.parties j).state = .empty → (m.parties j).pid = 0

structure Sim (R : Ipc → Ipc → Prop) (k k' : Kernel) : Prop where
  rel : R k.ipc k'.ipc
  settled : Settled k.ipc → Settled k'.ipc
  rings : Rings k → Rings k'

section Refine

variable {R : Ipc → Ipc → Prop} {k k' k'' : Kernel} {j : TaskId} {i : CapId} {e : EpId} {actor : Option TaskId}
  {m m' : Ipc} {rights a : Nat}

theorem Same.rings (h : Same k k') (hr : Rings k) : Rings k' := by
  unfold Rings
  rw [h.endpoints]
  exact hr

theorem Sim.same (h : Sim R k k') (hs : Same k' k'') : Sim R k k'' :=
  ⟨by rw [hs.ipc]; exact h.rel, by rw [hs.ipc]; exact h.settled, fun hr => hs.rings (h.rings hr)⟩

theorem Sim.same_left (hs : Same k k') (h : Sim R k' k'') : Sim R k k'' :=
  ⟨by rw [← hs.ipc]; exact h.rel, by rw [← hs.ipc]; exact h.settled, fun hr => h.rings (hs.rings hr)⟩

theorem Sim.mono {R' : Ipc → Ipc → Prop} (h : Sim R k k') (hR : R k.ipc k'.ipc → R' k.ipc k'.ipc) : Sim R' k k' :=
  ⟨hR h.rel, h.settled, h.rings⟩

theorem Sim.trans {R' : Ipc → Ipc → Prop} (h : Sim R k k') (h' : Sim R' k' k'') : Sim (Relation.Comp R R') k k'' :=
  ⟨⟨_, h.rel, h'.rel⟩, fun hs => h'.settled (h.settled hs), fun hr => h'.rings (h.rings hr)⟩

theorem sim_idle (h : Same k k') : Sim (Turn actor) k k' :=
  Sim.same ⟨Turn.idle, id, id⟩ h

theorem sim_quiet (h : Same k k') : Sim Ticks k k' :=
  Sim.same ⟨Relation.ReflTransGen.refl, id, id⟩ h

/-! ## The machine's state -/

@[simp] theorem ipc_setTask (t : Task) : (k.setTask j t).ipc = k.ipc.setParty j t.party := by
  unfold Kernel.ipc Kernel.setTask Ipc.setParty
  congr 1
  funext j'
  by_cases hj : j' = j
  · subst hj
    simp
  · simp [hj]

@[simp] theorem ipc_setEndpoint (x : Endpoint) : (k.setEndpoint e x).ipc = k.ipc.setChannel e x.channel := by
  unfold Kernel.ipc Kernel.setEndpoint Ipc.setChannel
  congr 1
  funext e'
  by_cases he : e' = e
  · subst he
    simp
  · simp [he]

@[simp] theorem ipc_record (ev : Event) : (k.record ev).ipc = k.ipc.record ev := rfl

theorem rings_setEndpoint {x : Endpoint} (hr : Rings k) (hx : x.head < 8 ∧ x.count ≤ 8) : Rings (k.setEndpoint e x) := by
  intro e'
  unfold Kernel.setEndpoint
  by_cases he : e' = e
  · subst he
    simpa using hx
  · simpa [he] using hr e'

/-! ## Settled moves -/

theorem settled_setParty {p : Party} (h : Settled m) (hp : p.state = .empty → p.pid = 0) : Settled (m.setParty j p) := by
  intro j'
  by_cases hj : j' = j
  · subst hj
    simpa using hp
  · simpa [hj] using h j'

theorem Shrinks.settled (hs : Shrinks m m') (h : Settled m) : Settled m' := by
  intro j he
  rw [hs.pid]
  rcases hs.state j with heq | ⟨_, hr⟩
  · exact h j (heq ▸ he)
  · rw [hr] at he
    cases he

theorem settled_put (h : Settled m) : Settled (m.put j i e rights) := by
  unfold Ipc.put
  exact settled_setParty h (h j)

theorem tick_settled (ht : Tick m m') (h : Settled m) : Settled m' := by
  cases ht with
  | wake => exact settled_setParty h (by simp)
  | die => exact settled_setParty (shrinks_cleanup.settled h) (by simp)

theorem ticks_settled (ht : Ticks m m') (h : Settled m) : Settled m' := by
  induction ht with
  | refl => exact h
  | tail _ hstep ih => exact tick_settled hstep ih

/-- Only `occupy`, which takes a pid, leaves a task under construction. -/
theorem move_settled (hm : Move actor m m') (hn : m'.nextPid = m.nextPid) (h : Settled m) : Settled m' := by
  cases hm with
  | create => exact settled_put h
  | derive => exact settled_put h
  | grant hg =>
    obtain ⟨_, _, _, _, _, _, _⟩ := hg
    exact settled_put h
  | close => exact shrinks_close.settled h
  | revoke => exact shrinks_invalidate.settled h
  | cancel => exact h
  | @deliver j r => exact settled_setParty h (by simp)
  | enqueue => exact h
  | dequeue => exact h
  | block => exact settled_setParty h (by simp)
  | occupy => exact absurd hn (Nat.succ_ne_self _)
  | ready => exact settled_setParty h (by simp)
  | tick ht => exact tick_settled ht h

theorem sim_move (hm : Move actor k.ipc k'.ipc) (hn : k'.nextPid = k.nextPid) (hr : Rings k → Rings k') :
    Sim (Turn actor) k k' := ⟨Turn.move hm, move_settled hm hn, hr⟩

/-! ## Handles -/

theorem cap_has {h : Nat} (hc : cap k j h rights = some (i, e)) : k.ipc.Has j i e rights := by
  unfold cap at hc
  split at hc
  · cases hc
  split at hc
  · dsimp only at hc
    split at hc
    · cases hc
    rename_i e' he
    split at hc
    · cases hc
    rename_i hgr
    split at hc
    · cases hc
      simp only [not_or, not_not] at hgr
      exact ⟨he, hgr.2⟩
    · cases hc
  · cases hc

theorem capSlot_free (hs : capSlot (k.tasks j) = some i) : k.ipc.Free j i := by
  unfold capSlot at hs
  split at hs
  · cases hs
  have h := List.find?_some hs
  simp only [Option.isNone_iff_eq_none, decide_eq_true_eq] at h
  exact h

/-- What `install` does when it finds a slot. -/
theorem install_some {h : Nat} (hi : install k j e rights = (some h, k')) :
    ∃ i, k.ipc.Free j i ∧ k'.ipc = k.ipc.put j i e rights ∧ h = handle (((k.tasks j).caps i).generation + 1) i ∧
      k'.endpoints = k.endpoints ∧ k'.nextPid = k.nextPid ∧ ∀ j', (k'.tasks j').pid = (k.tasks j').pid := by
  unfold install at hi
  dsimp only at hi
  split at hi
  · cases hi
  rename_i i hs
  cases hi
  refine ⟨i, capSlot_free hs, ?_, rfl, rfl, rfl, fun j' => ?_⟩
  · simp only [ipc_record, ipc_setTask]
    rfl
  unfold Kernel.record Kernel.setTask
  by_cases hj : j' = j
  · subst hj
    simp [Task.setCap]
  · simp [hj]

theorem install_none (hi : install k j e rights = (none, k')) : capSlot (k.tasks j) = none ∧ k' = k := by
  unfold install at hi
  dsimp only at hi
  split at hi
  · rename_i hs
    cases hi
    exact ⟨hs, rfl⟩
  · cases hi

/-! ## The end of an endpoint -/

@[simp] theorem ipc_invalidate (k : Kernel) (e : EpId) : (invalidate k e).ipc = k.ipc.invalidate e := by
  unfold invalidate Ipc.invalidate
  dsimp only
  rw [ipc_record]
  congr 1
  unfold Kernel.ipc Ipc.setChannel Kernel.setEndpoint
  congr 1
  · funext j
    dsimp only
    unfold Task.invalidated Party.invalidated Task.party
    by_cases hb : (k.tasks j).state = .blocked ∧ (k.tasks j).waitEndpoint = some e
    · simp [hb]
    · simp [hb]
  · funext e'
    by_cases he : e' = e
    · subst he
      simp [Endpoint.channel, Endpoint.contents, Ring.contents]
    · simp [he]

theorem rings_invalidate (hr : Rings k) : Rings (invalidate k e) :=
  rings_setEndpoint hr ⟨(hr e).1, Nat.zero_le 8⟩

@[simp] theorem ipc_dropCap (k : Kernel) (j : TaskId) (i : CapId) : (dropCap k j i).ipc = k.ipc.drop j i := by
  unfold dropCap
  rw [ipc_setTask]
  rfl

@[simp] theorem ipc_closeCap (k : Kernel) (j : TaskId) (i : CapId) (e : EpId) :
    (closeCap k j i e).ipc = k.ipc.close j i e := by
  have hiff : Referenced (dropCap k j i) e ↔ (k.ipc.drop j i).Referenced e := by
    rw [← ipc_dropCap]
    rfl
  unfold closeCap Ipc.close
  by_cases h : (k.ipc.drop j i).Referenced e
  · rw [if_pos (hiff.2 h), if_pos h, ipc_dropCap]
  · rw [if_neg (mt hiff.1 h), if_neg h, ipc_invalidate, ipc_dropCap]

theorem ipc_cleanupSlot (k : Kernel) (j : TaskId) (i : CapId) : (cleanupSlot j k i).ipc = Ipc.cleanupSlot j k.ipc i := by
  unfold cleanupSlot Ipc.cleanupSlot
  have hsame : ((k.ipc.parties j).caps i).endpoint = ((k.tasks j).caps i).endpoint := rfl
  rw [hsame]
  cases ((k.tasks j).caps i).endpoint with
  | none => rfl
  | some e => exact ipc_closeCap k j i e

theorem ipc_cleanupOwned (k : Kernel) (j : TaskId) : (cleanupOwned k j).ipc = k.ipc.cleanupOwned j := by
  unfold cleanupOwned Ipc.cleanupOwned
  refine (List.foldl_hom Kernel.ipc fun k e => ?_).symm
  change (if (k.endpoints e).owner = (k.tasks j).pid then k.ipc.invalidate e else k.ipc) = _
  split
  · rw [ipc_invalidate]
  · rfl

@[simp] theorem ipc_ipcCleanup (k : Kernel) (j : TaskId) : (ipcCleanup k j).ipc = k.ipc.cleanup j := by
  unfold ipcCleanup Ipc.cleanup
  rw [← ipc_cleanupOwned]
  exact (List.foldl_hom Kernel.ipc fun k i => (ipc_cleanupSlot k j i).symm).symm

theorem rings_closeCap (hr : Rings k) : Rings (closeCap k j i e) := by
  unfold closeCap
  split
  · exact hr
  · exact rings_invalidate (k := dropCap k j i) hr

theorem rings_ipcCleanup (hr : Rings k) : Rings (ipcCleanup k j) := by
  unfold ipcCleanup
  refine Fold.keeps (I := Rings) _ (fun k i _ h => ?_) ?_
  · unfold cleanupSlot
    split
    · exact h
    · exact rings_closeCap h
  · unfold cleanupOwned
    refine Fold.keeps (I := Rings) _ (fun k e _ h => ?_) hr
    split
    · exact rings_invalidate h
    · exact h

/-! ## Death and deadlines -/

theorem ipc_bury (status : Int) : (bury k j status).ipc = k.ipc.setState j .dead := by
  unfold bury
  rw [ipc_setTask]
  rfl

theorem rings_bury {status : Int} (hr : Rings k) : Rings (bury k j status) := hr

section Layout

variable (L : Layout)

theorem ipc_taskDead (k : Kernel) (j : TaskId) (status : Int) :
    (taskDead L k j status).ipc = (k.ipc.cleanup j).setState j .dead := by
  unfold taskDead
  rw [(same_deviceForget _ j).ipc, (same_pagesFree L _ _).ipc, ipc_bury, ipc_ipcCleanup, (same_deviceRelease k j).ipc]

theorem sim_taskDead (k : Kernel) (j : TaskId) (status : Int) : Sim Tick k (taskDead L k j status) := by
  have ht : Tick k.ipc (taskDead L k j status).ipc := by
    rw [ipc_taskDead]
    exact Tick.die
  refine ⟨ht, tick_settled ht, fun hr => ?_⟩
  unfold taskDead
  exact (same_deviceForget _ j).rings
    ((same_pagesFree L _ _).rings (rings_bury (rings_ipcCleanup ((same_deviceRelease k j).rings hr))))

theorem ipc_rollback (k : Kernel) (j : TaskId) (e : SfError) :
    (rollback L j e k).ipc = (k.ipc.cleanup j).setState j .dead := by
  unfold rollback
  rw [ipc_bury, (same_deviceForget _ j).ipc, (same_pagesFree L _ _).ipc, ipc_ipcCleanup, (same_deviceRelease k j).ipc]

theorem rings_rollback {x : SfError} (hr : Rings k) : Rings (rollback L j x k) := by
  unfold rollback
  exact rings_bury ((same_deviceForget _ j).rings
    ((same_pagesFree L _ _).rings (rings_ipcCleanup ((same_deviceRelease k j).rings hr))))

theorem Sim.ticks (h : Sim Tick k k') : Sim Ticks k k' := h.mono Relation.ReflTransGen.single

theorem Sim.ticks_trans (h : Sim Ticks k k') (h' : Sim Ticks k' k'') : Sim Ticks k k'' :=
  (h.trans h').mono fun ⟨_, h₁, h₂⟩ => h₁.trans h₂

theorem Sim.turn (h : Sim Tick k k') : Sim (Turn actor) k k' := h.mono fun ht => Turn.move (Move.tick ht)

theorem sim_deviceFault (k : Kernel) (source reason address : Nat) :
    Sim Ticks k (deviceFault L k source reason address) := by
  have h₁ : Same k { k with dmaStatus := ⟨k.dmaStatus.faults + 1, address, source, reason⟩ } := same_rest
  unfold deviceFault
  revert h₁
  generalize ({ k with dmaStatus := ⟨k.dmaStatus.faults + 1, address, source, reason⟩ } : Kernel) = k₁
  intro h₁
  dsimp only
  split
  · exact sim_quiet h₁
  rename_i j _
  have h₂ := h₁.trans (same_deviceRelease k₁ j)
  generalize (deviceRelease k₁ j).2 = k₂ at h₂ ⊢
  have h₃ : Same k { k₂ with quarantined := true } := h₂.trans same_rest
  have h₄ : Same k ({ k₂ with quarantined := true }.setTask j { k₂.tasks j with deviceFault := true }) :=
    h₃.trans (same_setTask rfl)
  exact Sim.same_left h₄ (sim_taskDead L _ j _).ticks

theorem sim_devicePoll (rounds : Nat) (k : Kernel) : Sim Ticks k (devicePoll L rounds k) := by
  induction rounds generalizing k with
  | zero => exact sim_quiet Same.refl
  | succ rounds ih =>
    unfold devicePoll
    split
    · exact sim_quiet Same.refl
    dsimp only
    split
    · exact sim_quiet same_rest
    · have hreads : Same k k.hwRead.2.hwRead.2.hwRead.2.hwRead.2 := same_rest
      exact .same_left hreads ((sim_deviceFault L _ _ _ _).ticks_trans (ih _))

end Layout

/-- The parties that are due are woken one by one. -/
theorem ticks_wake (due : TaskId → Prop) [DecidablePred due] (hdue : ∀ j, due j → (m.parties j).state = .blocked)
    (l : List TaskId) :
    Ticks m { m with parties := fun j => if j ∈ l ∧ due j then { m.parties j with state := .ready } else m.parties j } := by
  induction l with
  | nil => simpa using Relation.ReflTransGen.refl
  | cons x l ih =>
    by_cases hx : due x ∧ x ∉ l
    · let m₁ : Ipc := { m with
        parties := fun j => if j ∈ l ∧ due j then { m.parties j with state := .ready } else m.parties j }
      have hb : (m₁.parties x).state = .blocked := by
        simpa [m₁, hx.2] using hdue x hx.1
      refine ih.tail ?_
      convert Tick.wake hb using 1
      unfold Ipc.setState Ipc.setParty
      congr 1
      funext j
      by_cases hj : j = x
      · subst hj
        simp [m₁, hx]
      · simp [m₁, hj]
    · convert ih using 2
      funext j
      by_cases hj : j = x
      · subst hj
        by_cases hd : due j
        · simp [not_not.1 fun hl => hx ⟨hd, hl⟩]
        · simp [hd]
      · simp [hj]

theorem sim_ipcDeadlines (k : Kernel) : Sim Ticks k (ipcDeadlines k) := by
  let due : TaskId → Prop := fun j =>
    (k.tasks j).state = .blocked ∧ (k.tasks j).waitDeadline ≠ 0 ∧ (k.tasks j).waitDeadline ≤ k.now
  have hparty : (ipcDeadlines k).ipc = { k.ipc with
      parties := fun j => if j ∈ List.finRange 12 ∧
        due j then { k.ipc.parties j with state := .ready } else k.ipc.parties j } := by
    unfold ipcDeadlines Kernel.ipc
    congr 1
    funext j
    by_cases hd : due j
    · simp only [List.mem_finRange, hd, and_self, if_true]
      rw [if_pos hd]
      rfl
    · simp only [hd, and_false, if_false]
      rw [if_neg hd]
  have ht : Ticks k.ipc (ipcDeadlines k).ipc := by
    rw [hparty]
    exact ticks_wake due (fun j hd => hd.1) _
  exact ⟨ht, fun hs => ticks_settled ht hs, id⟩

/-! ## Calls on capabilities -/

theorem sim_epCreate (hr : (k.tasks j).state = .ready) : Sim (Turn (some j)) k (epCreate k j).2 := by
  unfold epCreate
  split
  · exact sim_idle .refl
  rename_i i₀ hslot
  split
  · exact sim_idle .refl
  rename_i e he
  have hfree : (k.endpoints e).owner = 0 := by simpa using List.find?_some he
  dsimp only
  split
  · rename_i h k' hinst
    obtain ⟨i, hi, hipc, _, hend, hn, _⟩ := install_some hinst
    have hm : Move (some j) k.ipc k'.ipc := by
      rw [hipc, ipc_record, ipc_setEndpoint]
      exact Move.create rfl hr hi hfree
    refine sim_move hm hn fun hrings => ?_
    unfold Rings
    rw [hend]
    exact rings_setEndpoint hrings ⟨Nat.succ_pos 7, Nat.zero_le 8⟩
  · rename_i k' hinst
    have hnone := (install_none hinst).1
    exact absurd (hslot.symm.trans hnone) (by simp)

theorem sim_capClose (hr : (k.tasks j).state = .ready) : Sim (Turn (some j)) k (capClose k j a).2 := by
  unfold capClose
  split
  · exact sim_idle .refl
  rename_i i e hc
  have hm : Move (some j) k.ipc (closeCap k j i e).ipc := by
    rw [ipc_closeCap]
    exact Move.close rfl hr (cap_has hc)
  refine sim_move hm ?_ rings_closeCap
  unfold closeCap
  split <;> rfl

theorem sim_capDerive {b : Nat} : Sim (Turn (some j)) k (capDerive k j a b).2 := by
  unfold capDerive
  split
  · exact sim_idle .refl
  rename_i i₀ e hc
  dsimp only
  split
  · exact sim_idle .refl
  rename_i hsub
  split
  · rename_i k' hinst
    rw [(install_none hinst).2]
    exact sim_idle .refl
  · rename_i h k' hinst
    obtain ⟨i, hi, hipc, _, hend, hn, hpid⟩ := install_some hinst
    rw [hpid]
    have hm : Move (some j) k.ipc (k'.record (.derived e (k.tasks j).pid ((k.tasks j).caps i₀).rights b)).ipc := by
      rw [ipc_record, hipc]
      exact Move.derive rfl (cap_has hc) (not_not.1 (not_or.1 hsub).2) hi
    refine sim_move hm hn fun hrings => ?_
    unfold Rings Kernel.record
    rw [hend]
    exact hrings

theorem sim_capRevoke : Sim (Turn (some j)) k (capRevoke k j a).2 := by
  unfold capRevoke
  split
  · exact sim_idle .refl
  rename_i i e hc
  split
  · exact sim_idle .refl
  rename_i ho
  refine sim_move ?_ rfl fun hrings => rings_invalidate (k := k.record _) hrings
  rw [ipc_invalidate, ipc_record]
  exact Move.revoke rfl (cap_has hc) (not_not.1 ho)

/-! ## Calls on messages -/

theorem cancelRound_eq (pid requestId head : Nat) :
    cancelRound pid requestId head = Ring.compactRound (Ipc.keeps pid requestId) head := by
  have hslot : ∀ n, Endpoint.slot n = Ring.cell n := fun _ => rfl
  funext ⟨queue, kept⟩ i
  simp only [cancelRound, Ring.compactRound, Ipc.keeps, hslot]
  by_cases h : (queue (Ring.cell (head + i))).flags = pid ∧ (queue (Ring.cell (head + i))).requestId = requestId
  · simp [h]
  · simp [h]

/-- The ring after a cancellation holds what is kept. -/
theorem cancel_contents (x : Endpoint) (pid requestId : Nat) (hc : x.count ≤ 8) :
    let r := (List.range x.count).foldl (cancelRound pid requestId x.head) (x.queue, 0)
    r.2 ≤ x.count ∧ ∀ h, (r.2 ≠ 0 → h = x.head) →
      Ring.contents (cancelClear r.1 x.head r.2 x.count) h r.2 = x.contents.filter (Ipc.keeps pid requestId) := by
  intro r
  have hcomp : Ring.Compacted (Ipc.keeps pid requestId) x.queue x.head x.count r := by
    simp only [r, cancelRound_eq]
    exact Ring.contents_compact _ _ _ hc
  refine ⟨hcomp.le, fun h hh => ?_⟩
  by_cases h0 : r.2 = 0
  · have hnil : x.contents.filter (Ipc.keeps pid requestId) = [] := by
      have hf := hcomp.front
      rw [h0] at hf
      exact hf.symm
    rw [h0, hnil]
    rfl
  · rw [hh h0]
    refine Eq.trans ?_ hcomp.front
    refine Ring.contents_clear _ fun i hi => ?_
    obtain ⟨hlo, hhi⟩ := List.mem_range'_1.1 hi
    have := hcomp.le
    omega

theorem sim_sendCancel {b c : Nat} : Sim (Turn (some j)) k (sendCancel k j a b c).2 := by
  unfold sendCancel
  split
  · exact sim_idle .refl
  rename_i i e hc
  split
  · exact sim_idle .refl
  dsimp only
  split
  · exact sim_idle .refl
  rename_i hbound
  obtain ⟨hle, hcont⟩ := cancel_contents (k.endpoints e) (k.tasks j).pid b (by omega)
  generalize (List.range (k.endpoints e).count).foldl (cancelRound (k.tasks j).pid b (k.endpoints e).head)
    ((k.endpoints e).queue, 0) = r at hle hcont ⊢
  split
  · exact sim_idle .refl
  refine sim_move ?_ rfl fun hrings => rings_setEndpoint hrings ⟨?_, by dsimp only; omega⟩
  · rw [ipc_record, ipc_setEndpoint, Endpoint.channel, Endpoint.contents, hcont _ fun h0 => if_neg h0]
    exact Move.cancel rfl (cap_has hc)
  dsimp only
  split
  · decide
  · exact (hrings e).1

section Layout

variable (L : Layout)

theorem receiver_some {r : TaskId} (h : receiver k e = some r) :
    (k.tasks r).state = .blocked ∧ (k.tasks r).waitEndpoint = some e := by
  simpa using List.find?_some h

theorem receiver_none (h : receiver k e = none) (r : TaskId) (hb : (k.tasks r).state = .blocked) :
    (k.tasks r).waitEndpoint ≠ some e := by
  have hr := List.find?_eq_none.1 h r (List.mem_finRange r)
  simp only [decide_eq_true_eq, not_and] at hr
  exact hr hb

theorem ipc_wake (hs : Same k k') (r : TaskId) (value : Int) (ticks : Nat) :
    (k'.setTask r ((k'.tasks r).wake value ticks)).ipc = k.ipc.setState r .ready := by
  rw [ipc_setTask, hs.ipc]
  have hparty : k.ipc.parties r = (k'.tasks r).party := (hs.party r).symm
  unfold Ipc.setState
  rw [hparty]
  rfl

theorem sim_sendMessage {x : SfMessage} (hrings : Rings k) (hc : k.ipc.Has j i e rightSend) :
    Sim (Turn (some j)) k (sendMessage L k j e x).2 := by
  unfold sendMessage
  dsimp only
  split
  · rename_i r hrec
    obtain ⟨hb, hw⟩ := receiver_some hrec
    split
    · exact sim_idle same_rest
    rename_i k₁ hcopy
    have hs : Same k { k₁ with receiveBytes := copied k₁.receiveBytes 328 } :=
      (same_copyOut L hcopy).trans same_rest
    have hwake := ipc_wake hs r (k.tasks j).pid k₁.ticks
    have hrings' : Rings k → Rings ({ k₁ with receiveBytes := copied k₁.receiveBytes 328 }.setTask r
      ((k₁.tasks r).wake (k.tasks j).pid k₁.ticks)) := hs.rings
    generalize { k₁ with receiveBytes := copied k₁.receiveBytes 328 }.setTask r
      ((k₁.tasks r).wake (k.tasks j).pid k₁.ticks) = k₂ at hwake hrings' ⊢
    have hpid : (k₂.tasks r).pid = (k.tasks r).pid := by
      have h : (k₂.ipc.parties r).pid = (k.ipc.parties r).pid := by simp [hwake, Ipc.setState]
      exact h
    refine sim_move ?_ (congrArg Ipc.nextPid hwake) hrings'
    rw [ipc_record, ipc_record, hwake, hpid]
    exact Move.deliver rfl hc hb hw
  · rename_i hrec
    split
    · exact sim_idle .refl
    have hlt : (k.endpoints e).count < 8 := by
      have := (hrings e).2
      omega
    have hpush : Ring.contents (Function.update (k.endpoints e).queue
      (Endpoint.slot ((k.endpoints e).head + (k.endpoints e).count))
        (x.stamp (k.tasks j).pid)) (k.endpoints e).head ((k.endpoints e).count + 1) =
        (k.endpoints e).contents ++ [x.stamp (k.tasks j).pid] := Ring.contents_push hlt
    refine sim_move ?_ rfl fun hr => rings_setEndpoint hr ⟨(hr e).1, hlt⟩
    rw [ipc_record, ipc_setEndpoint, Endpoint.channel, Endpoint.contents, hpush]
    exact Move.enqueue rfl hc (receiver_none hrec)

theorem sim_send {a b : Nat} (hrings : Rings k) : Sim (Turn (some j)) k (send L k j a b).2 := by
  unfold send
  split
  · exact sim_idle .refl
  rename_i i e hc
  split
  · exact sim_idle .refl
  have hs : Same k { k with sendBytes := copied k.sendBytes 328 } := same_rest
  dsimp only
  split
  · exact sim_idle hs
  split
  · exact sim_idle hs
  · exact Sim.same_left hs (sim_sendMessage L (hs.rings hrings) (cap_has hc))

theorem sim_recv {a b c : Nat} (hr : (k.tasks j).state = .ready) : Sim (Turn (some j)) k (recv L k j a b c).2 := by
  unfold recv
  split
  · exact sim_idle .refl
  rename_i i e hc
  split
  · exact sim_idle .refl
  dsimp only
  split
  · rename_i hcount
    obtain ⟨n, hn⟩ := Nat.exists_eq_succ_of_ne_zero hcount
    split
    · exact sim_idle .refl
    rename_i k₁ hcopy
    have hs : Same k { k₁ with receiveBytes := copied k₁.receiveBytes 328 } :=
      (same_copyOut L hcopy).trans same_rest
    have hq : (k.ipc.channels e).queue = (k.endpoints e).queue (Endpoint.slot (k.endpoints e).head) ::
        Ring.contents (k.endpoints e).queue (((k.endpoints e).head + 1) % 8) n := by
      change Ring.contents _ _ _ = _
      rw [hn]
      exact Ring.contents_pop
    have hpid : (k₁.tasks j).pid = (k.tasks j).pid := hs.pid j
    refine sim_move ?_ hs.nextPid fun hr => rings_setEndpoint (hs.rings hr) ⟨Nat.mod_lt _ (by decide), ?_⟩
    · rw [ipc_record, ipc_setEndpoint, hs.ipc]
      change Move (some j) k.ipc ((k.ipc.setChannel e ⟨_, _, Ring.contents (k.endpoints e).queue
        (((k.endpoints e).head + 1) % 8) ((k.endpoints e).count - 1)⟩).record (.delivered e (k₁.tasks j).pid _ _))
      rw [hpid, hn]
      exact Move.dequeue rfl (cap_has hc) hq
    · exact Nat.le_trans (Nat.sub_le _ _) (hr e).2
  · rename_i hcount
    split
    · exact sim_idle .refl
    refine sim_move ?_ rfl id
    rw [ipc_setTask]
    refine Move.block rfl hr (cap_has hc) ?_
    change Ring.contents _ _ _ = []
    rw [not_not.1 hcount]
    rfl

/-! ## Birth -/

/-- The slot `j` is under construction, for PID 1 or for the boot. -/
structure Building (actor : Option TaskId) (j : TaskId) (k : Kernel) : Prop where
  parent : ∀ q, actor = some q → (k.tasks q).pid = 1
  state : (k.tasks j).state = .empty
  pid : (k.tasks j).pid ≠ 0

/-- A part of a construction: capabilities are granted, and that is all. -/
structure Builds (actor : Option TaskId) (j : TaskId) (k k' : Kernel) : Prop where
  grants : Building actor j k → Relation.ReflTransGen (Grant actor j) k.ipc k'.ipc
  pid : ∀ i, (k'.tasks i).pid = (k.tasks i).pid
  state : ∀ i, (k'.tasks i).state = (k.tasks i).state
  rings : Rings k → Rings k'

theorem Same.builds (h : Same k k') : Builds actor j k k' :=
  ⟨fun _ => h.ipc ▸ Relation.ReflTransGen.refl, h.pid, h.state, h.rings⟩

theorem Builds.trans (h : Builds actor j k k') (h' : Builds actor j k' k'') : Builds actor j k k'' where
  grants hb := (h.grants hb).trans
    (h'.grants ⟨fun q hq => (h.pid q).trans (hb.parent q hq), (h.state j).trans hb.state,
      fun hp => hb.pid ((h.pid j).symm.trans hp)⟩)
  pid i := (h'.pid i).trans (h.pid i)
  state i := (h'.state i).trans (h.state i)
  rings hr := h'.rings (h.rings hr)

theorem builds_ipcGrant {q : TaskId} {h rights : Nat} : Builds (some q) j k (ipcGrant k q j h rights).2 := by
  unfold ipcGrant
  split
  · exact Same.refl.builds
  rename_i i₀ e hc
  dsimp only
  split
  · exact Same.refl.builds
  rename_i hsub
  split
  · rename_i k' hinst
    rw [(install_none hinst).2]
    exact Same.refl.builds
  · rename_i k' hinst
    obtain ⟨i, hi, hipc, _, hend, _, hpid⟩ := install_some hinst
    have hstate : ∀ i', (k'.tasks i').state = (k.tasks i').state := fun i' => by
      have hs : (k'.ipc.parties i').state = (k.ipc.parties i').state := by
        rw [hipc]
        exact (setCap_party _ i').2.1
      exact hs
    refine ⟨fun hb => Relation.ReflTransGen.single ?_, hpid, hstate, fun hr => ?_⟩
    · rw [ipc_record, hipc, hpid, hpid]
      exact Grant.mk rfl (hb.parent q rfl) hb.state hb.pid (cap_has hc) (not_not.1 hsub) hi
    unfold Rings Kernel.record
    rw [hend]
    exact hr

theorem within_grantCaps (p : SfLoadPlan) (args : Nat) : Within (Builds actor j) (grantCaps actor j p args) := by
  have hrefl : ∀ k, Builds actor j k k := fun _ => Same.refl.builds
  have htrans : ∀ k k' k'', Builds actor j k k' → Builds actor j k' k'' → Builds actor j k k'' := fun _ _ _ => Builds.trans
  cases actor with
  | none => exact hrefl
  | some q =>
    have hone : ∀ h rights field, Within (Builds (some q) j) (grantCap q j h rights field) := fun h rights field => by
      unfold grantCap
      refine within_ite (within_pure hrefl ()) (within_ite (within_fail hrefl _) ?_)
      exact within_bind htrans (within_callSome fun k => builds_ipcGrant) fun h k => (quiet_mem _ k).builds
    exact within_bind htrans (hone _ _ _) fun _ => hone _ _ _

/-- What a construction leaves when it succeeds. -/
def Built (actor : Option TaskId) (j : TaskId) (k₀ k : Kernel) : Prop :=
  ∃ k₁, Builds actor j k₀ k₁ ∧ k.ipc = k₁.ipc.setState j .ready ∧ (Rings k₁ → Rings k)

theorem triple_construct (p : SfLoadPlan) (k₀ : Kernel) :
    Triple (Builds actor j k₀) (construct L actor j p) (fun _ => Built actor j k₀) (fun _ => Builds actor j k₀) := by
  have htrans : ∀ k k' k'', Builds actor j k k' → Builds actor j k' k'' → Builds actor j k k'' := fun _ _ _ => Builds.trans
  have hquiet : ∀ {α : Type} {q : KProc α}, Quiet q → Triple (Builds actor j k₀) q (fun _ => Builds actor j k₀)
      (fun _ => Builds actor j k₀) := fun hq => Within.triple htrans (fun k => (hq k).builds) k₀
  have hpure : Quiet (pure () : KProc Unit) := quiet_pure ()
  unfold construct
  refine triple_bind (hquiet fun k => same_spaceNew L k _) fun cr3 => ?_
  refine triple_bind (hquiet (quiet_updateTask fun _ => rfl)) fun _ => ?_
  refine triple_ite (fun _ => triple_fail fun _ h => h) fun _ => ?_
  refine triple_bind (hquiet (quiet_forM _ fun s => quiet_loadSegment L actor j _ s)) fun _ => ?_
  refine triple_bind (hquiet (quiet_forM _ fun i => quiet_bind (quiet_mapNew L j _ _) fun _ => quiet_pure _)) fun _ => ?_
  refine triple_bind (hquiet (quiet_mapNew L j _ _)) fun page => ?_
  refine triple_bind (hquiet (quiet_mem _)) fun _ => ?_
  refine triple_bind (hquiet (within_ite (quiet_mapBundle L j _) hpure)) fun _ => ?_
  refine triple_bind (Within.triple htrans (within_grantCaps p _) k₀) fun _ => ?_
  refine triple_bind (hquiet (within_ite (quiet_deviceGrant L j _ _ _) hpure)) fun _ => ?_
  refine triple_update fun k hk => ⟨k, hk, ?_, fun hr => hr⟩
  rw [ipc_setTask]
  rfl

theorem ipc_occupy (pages : Nat) : (occupy k j k.nextPid pages).ipc = k.ipc.occupy j := by
  unfold occupy
  rw [ipc_setTask]
  rfl

/-- Once the slot has left construction, no slot is under construction. -/
theorem settled_birth {state : TaskState} (h : ∀ i, i ≠ j → (m.parties i).state = .empty → (m.parties i).pid = 0)
    (hs : state ≠ .empty) : Settled (m.setState j state) := by
  intro i he
  by_cases hi : i = j
  · subst hi
    rw [Ipc.setState, setParty_parties, Function.update_self] at he
    exact absurd he hs
  · rw [Ipc.setState, setParty_parties, Function.update_of_ne hi] at he ⊢
    exact h i hi he

theorem settled_others {pages : Nat} (hs : Settled k.ipc) (hb : Builds actor j (occupy k j k.nextPid pages) k') :
    ∀ i, i ≠ j → (k'.ipc.parties i).state = .empty → (k'.ipc.parties i).pid = 0 := by
  intro i hi he
  have hof : (occupy k j k.nextPid pages).tasks i = k.tasks i := Function.update_of_ne hi _ _
  have hstate : (k.tasks i).state = .empty := by
    rw [← hof, ← hb.state i]
    exact he
  have hpid : (k'.tasks i).pid = (k.tasks i).pid := by rw [hb.pid i, hof]
  exact hpid.trans (hs i hstate)

section Birth

variable {pages : Nat} (hrun : ∀ q, actor = some q → (k.tasks q).state = .ready ∧ (k.tasks q).pid = 1) (hv : k.ipc.Vacant j)
  (hp : k.nextPid ≠ 0 ∧ k.nextPid ≤ 0x7fffffff)
include hrun hv

theorem actor_ne : actor ≠ some j := by
  intro ha
  have hr : (k.ipc.parties j).state = .ready := (hrun j ha).1
  rcases hv with hd | ⟨he, _⟩
  · rw [hr] at hd
    cases hd
  · rw [hr] at he
    cases he

include hp

theorem occupy_building : Building actor j (occupy k j k.nextPid pages) := by
  refine ⟨fun q hq => ?_, ?_, ?_⟩
  · have hqj : q ≠ j := fun he => actor_ne hrun hv (he ▸ hq)
    simpa [occupy, Kernel.setTask, hqj] using (hrun q hq).2
  · simp [occupy, Kernel.setTask]
  · simpa [occupy, Kernel.setTask] using hp.1

theorem sim_born (hs : Settled k.ipc) (h : Built actor j (occupy k j k.nextPid pages) k') : Sim (Turn actor) k k' := by
  obtain ⟨k₁, hb, hipc, hr⟩ := h
  have hg := hb.grants (occupy_building hrun hv hp)
  rw [ipc_occupy] at hg
  refine ⟨?_, fun _ => ?_, fun hrings => hr (hb.rings hrings)⟩
  · rw [hipc]
    exact Turn.spawn hv (actor_ne hrun hv) hp hg
  · rw [hipc]
    exact settled_birth (settled_others hs hb) (by simp)

theorem sim_unborn {x : SfError} (hs : Settled k.ipc) (hb : Builds actor j (occupy k j k.nextPid pages) k') :
    Sim (Turn actor) k (rollback L j x k') := by
  have hg := hb.grants (occupy_building hrun hv hp)
  rw [ipc_occupy] at hg
  refine ⟨?_, fun _ => ?_, fun hrings => rings_rollback L (hb.rings hrings)⟩
  · rw [ipc_rollback]
    exact Turn.abort hv (actor_ne hrun hv) hp hg
  rw [ipc_rollback]
  refine settled_birth (fun i hi he => ?_) (by simp)
  have hsh : Shrinks k'.ipc (k'.ipc.cleanup j) := shrinks_cleanup
  rw [hsh.pid]
  rcases hsh.state i with heq | ⟨_, hr⟩
  · exact settled_others hs hb i hi (heq ▸ he)
  · rw [hr] at he
    cases he

end Birth

/-- **A spawn is one turn, whether it succeeds or not.** -/
theorem sim_taskNewLimited {p : SfLoadPlan} {pages : Nat}
    (hrun : ∀ q, actor = some q → (k.tasks q).state = .ready ∧ (k.tasks q).pid = 1) (hs : Settled k.ipc) :
    Sim (Turn actor) k (taskNewLimited L actor p pages k).2 := by
  have hidle : Sim (Turn actor) k k := sim_idle .refl
  have h : Triple (fun k' => k' = k) (taskNewLimited L actor p pages) (fun _ => Sim (Turn actor) k)
      (fun _ => Sim (Turn actor) k) := by
    have hfail : ∀ x, Triple (fun k' => k' = k) (Proc.fail x : KProc Nat) (fun _ => Sim (Turn actor) k)
        (fun _ => Sim (Turn actor) k) := fun x => triple_fail fun k' hk => hk ▸ hidle
    unfold taskNewLimited
    refine triple_read fun k' hk' => ?_
    obtain rfl := hk'.symm
    refine triple_ite (fun _ => hfail _) fun _ => triple_ite (fun _ => hfail _) fun _ => ?_
    split
    · exact hfail _
    rename_i j hfind
    have hv : k.ipc.Vacant j := by
      have hj := List.find?_some hfind
      simp only [decide_eq_true_eq] at hj
      rcases hj with he | hd
      · exact Or.inr ⟨he, hs j he⟩
      · exact Or.inl hd
    refine triple_ite (fun _ => hfail _) fun havail => ?_
    have hp : k.nextPid ≠ 0 ∧ k.nextPid ≤ 0x7fffffff := by simpa [pidAvailable] using havail
    refine triple_bind (triple_update (Q := fun _ => Builds actor j (occupy k j k.nextPid pages))
      fun k' hk' => ?_) fun _ => ?_
    · obtain rfl := hk'.symm
      exact Same.refl.builds
    refine triple_bind (triple_onError (triple_construct L p _) fun x k' hb => sim_unborn L hrun hv hp hs hb) fun _ => ?_
    refine triple_read fun k' hb => triple_pure fun k'' hk'' => ?_
    subst hk''
    exact sim_born hrun hv hp hs hb
  have hk := h k rfl
  rcases hr : taskNewLimited L actor p pages k with ⟨_ | _, k'⟩ <;> rw [hr] at hk <;> exact hk

end Layout

end Refine

end SpiritFox.Core
