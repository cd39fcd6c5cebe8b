import SpiritFox.Kernel.Delivery
import SpiritFox.Kernel.Isolation

/-!
# Waiting and waking

A task that waits on an endpoint waits on an empty queue, and its buffer can be written to. So a message never
passes by a task that waits for one, and the send that wakes it does not fail half-way: `no_lost_wakeup`.

A system call is made in the state that `callState` names: the clock and the device have been looked at before.
-/

namespace SpiritFox.Core

open ByteMem

section Wakeup

variable {L : Layout} {k k' : Kernel} {j r : TaskId} {e : EpId}

/-- The state in which the call of an interrupted task is made. -/
def callState (L : Layout) (k : Kernel) (j : TaskId) (vector : Nat) (regs : Regs) (input : List UInt8)
    (hw : List Nat) : Kernel :=
  let k := acknowledge { k with hw := hw } vector input
  devicePoll L 64 (k.setTask j { k.tasks j with frame := ⟨regs.rax, regs.rsp⟩ })

def Waits (k : Kernel) (r : TaskId) (e : EpId) : Prop := (k.tasks r).state = .blocked ∧ (k.tasks r).waitEndpoint = some e

/-- What a send that succeeds has done. -/
inductive Sent (k : Kernel) (j : TaskId) (e : EpId) (x : SfMessage) (k' : Kernel) : Prop
  | woken (r : TaskId) (hw : Waits k r e) (hready : (k'.tasks r).state = .ready)
    (hrax : (k'.tasks r).frame.rax = (k.tasks j).pid)
      (hqueue : k'.endpoints = k.endpoints)
  | queued (hno : ∀ r, ¬ Waits k r e)
    (hqueue : (k'.endpoints e).contents = (k.endpoints e).contents ++ [x.stamp (k.tasks j).pid])
      (hrest : ∀ e', e' ≠ e → k'.endpoints e' = k.endpoints e')

structure Wakeful (L : Layout) (k : Kernel) : Prop where
  waiting : ∀ r e, Waits k r e → (k.endpoints e).contents = []
  /-- A task never waits on an endpoint that is gone. -/
  attended : ∀ r, (k.tasks r).state = .blocked → ∃ e, Waits k r e ∧ (k.endpoints e).owner ≠ 0
  sent : ∀ j a b, (send L k j a b).1 = 0 → ∃ i e bytes, cap k j a rightSend = some (i, e) ∧ copyIn L k j b 328 = some bytes ∧
    Sent k j e (fun n => bytes.getD n 0) (send L k j a b).2
  full : ∀ j a b, (send L k j a b).1 = SfError.wouldBlock.code →
    ∃ i e, cap k j a rightSend = some (i, e) ∧ (k.endpoints e).contents.length = 8 ∧ ∀ r, ¬ Waits k r e
  revoked : ∀ r e, Waits k r e → ((invalidate k e).tasks r).state = .ready ∧
    ((invalidate k e).tasks r).frame.rax = SfError.revoked.code
  /-- `SYS_SEND` does not panic. -/
  safe : ∀ j a b, (send L k j a b).2.mode = k.mode

theorem copyOutLoop_eq (L : Layout) (j : TaskId) (rounds : Nat) (k : Kernel) (dst : Nat) (bytes : List UInt8) :
    ∃ m, copyOutLoop L j rounds k dst bytes = { k with mem := m } := by
  induction rounds generalizing k dst bytes with
  | zero => exact ⟨k.mem, rfl⟩
  | succ rounds ih =>
    unfold copyOutLoop
    split
    · exact ⟨k.mem, rfl⟩
    obtain ⟨m, hm⟩ := ih { k with mem := blit k.mem (userPhys L k j dst) (bytes.take (chunk dst bytes.length)) }
      (dst + chunk dst bytes.length) (bytes.drop (chunk dst bytes.length))
    exact ⟨m, hm⟩

theorem copyOut_eq {dst : Nat} {bytes : List UInt8} (h : copyOut L k j dst bytes = some k') :
    ∃ m, k' = { k with mem := m } := by
  unfold copyOut at h
  split at h
  · cases h
    exact copyOutLoop_eq L j _ k dst bytes
  · cases h

/-- A send goes to a task that waits, or to the queue, or finds the queue full; it does not panic. -/
theorem sendMessage_cases (hk : Spaced L k) (hrings : Rings k) (j : TaskId) (e : EpId) (x : SfMessage) :
    ((sendMessage L k j e x).1 = 0 ∧ Sent k j e x (sendMessage L k j e x).2 ∨
      (sendMessage L k j e x).1 = SfError.wouldBlock.code ∧ (k.endpoints e).contents.length = 8 ∧ ∀ r, ¬ Waits k r e) ∧
    (sendMessage L k j e x).2.mode = k.mode := by
  obtain ⟨σ, hk⟩ := hk
  unfold sendMessage
  dsimp only
  cases hr : receiver k e with
  | some r =>
    obtain ⟨hb, hw⟩ := receiver_some hr
    obtain ⟨k₁, hcopy, _⟩ := copyOut_buffer hk hb (List.ofFn (x.stamp (k.tasks j).pid)) List.length_ofFn
    obtain ⟨m, rfl⟩ := copyOut_eq hcopy
    dsimp only
    rw [hcopy]
    refine ⟨Or.inl ⟨rfl, .woken r ⟨hb, hw⟩ ?_ ?_ rfl⟩, rfl⟩
    · simp [Kernel.record, Kernel.setTask, Task.wake]
    · simp [Kernel.record, Kernel.setTask, Task.wake]
  | none =>
    have hno : ∀ r, ¬ Waits k r e := fun r h => receiver_none hr r h.1 h.2
    dsimp only
    split
    · rename_i hfull
      exact ⟨Or.inr ⟨rfl, by simp [Endpoint.contents, Ring.contents, hfull], hno⟩, rfl⟩
    rename_i hfull
    have hlt : (k.endpoints e).count < 8 := by
      have := (hrings e).2
      omega
    refine ⟨Or.inl ⟨rfl, .queued hno ?_ fun e' he => ?_⟩, rfl⟩
    · simp only [Kernel.record, Kernel.setEndpoint, Function.update_self]
      exact Ring.contents_push hlt
    · simp only [Kernel.record, Kernel.setEndpoint, Function.update_of_ne he]

/-- The results of a send, with the code that says which. -/
theorem send_cases (hk : Spaced L k) (hrings : Rings k) (j : TaskId) (a b : Nat) :
    ((∃ i e bytes, (send L k j a b).1 = 0 ∧ cap k j a rightSend = some (i, e) ∧ copyIn L k j b 328 = some bytes ∧
        Sent k j e (fun n => bytes.getD n 0) (send L k j a b).2) ∨
      (∃ i e, (send L k j a b).1 = SfError.wouldBlock.code ∧ cap k j a rightSend = some (i, e) ∧
        (k.endpoints e).contents.length = 8 ∧ ∀ r, ¬ Waits k r e) ∨
      (send L k j a b).1 ≠ 0 ∧ (send L k j a b).1 ≠ SfError.wouldBlock.code) ∧ (send L k j a b).2.mode = k.mode := by
  have hcount : Calm k { k with sendBytes := copied k.sendBytes 328 } := calm_message
  unfold send
  split
  · exact ⟨Or.inr (Or.inr (by dsimp only; decide)), rfl⟩
  rename_i i e hcap
  split
  · exact ⟨Or.inr (Or.inr (by dsimp only; decide)), rfl⟩
  dsimp only
  split
  · exact ⟨Or.inr (Or.inr (by dsimp only; decide)), rfl⟩
  split
  · exact ⟨Or.inr (Or.inr (by dsimp only; decide)), rfl⟩
  rename_i bytes hbytes _ _
  obtain ⟨hcases, hmode⟩ := sendMessage_cases (hk.calm hcount) hrings j e fun i => bytes.getD i 0
  refine ⟨?_, hmode⟩
  rcases hcases with ⟨h0, hs⟩ | ⟨h8, hlen, hno⟩
  · refine Or.inl ⟨i, e, bytes, h0, hcap, hbytes, ?_⟩
    cases hs with
    | woken r hw hready hrax hqueue => exact .woken r hw hready hrax hqueue
    | queued hno hqueue hrest => exact .queued hno hqueue hrest
  · exact Or.inr (Or.inl ⟨i, e, h8, hcap, hlen, hno⟩)

theorem wakeful_of (hk : Spaced L k) (hrings : Rings k) (hcaps : CapInv none none k.ipc) (hmail : Mailed k.ipc) :
    Wakeful L k where
  waiting r e hw := hmail.waiting r e hw.1 hw.2
  attended r hb := by
    obtain ⟨i, e, hw, hc⟩ := hcaps.blocked r nofun hb
    exact ⟨e, ⟨hb, hw⟩, (hcaps.ref r i e hc.1).1⟩
  sent j a b h0 := by
    rcases (send_cases hk hrings j a b).1 with ⟨i, e, bytes, _, hcap, hbytes, hs⟩ | ⟨i, e, h8, _⟩ | ⟨hne, _⟩
    · exact ⟨i, e, bytes, hcap, hbytes, hs⟩
    · rw [h0] at h8
      exact absurd h8 (by decide)
    · exact absurd h0 hne
  full j a b h8 := by
    rcases (send_cases hk hrings j a b).1 with ⟨i, e, x, h0, _⟩ | ⟨i, e, _, hcap, hlen, hno⟩ | ⟨_, hne⟩
    · rw [h0] at h8
      exact absurd h8 (by decide)
    · exact ⟨i, e, hcap, hlen, hno⟩
    · exact absurd h8 hne
  revoked r e hw := by
    have htask : (invalidate k e).tasks r = (k.tasks r).invalidated e k.ticks := rfl
    obtain ⟨hb, hw⟩ := hw
    rw [htask]
    simp [Task.invalidated, hb, hw]
  safe j a b := (send_cases hk hrings j a b).2

/-- Between the interrupt and the call, tasks are woken or ended. -/
theorem sim_callState (L : Layout) (k : Kernel) (j : TaskId) (vector : Nat) (regs : Regs) (input : List UInt8)
    (hw : List Nat) :
    Sim Ticks k (callState L k j vector regs input hw) := by
  have hs : Same k { k with hw := hw } := same_rest
  have hack : Sim Ticks k (acknowledge { k with hw := hw } vector input) := Sim.same_left hs (sim_acknowledge _ vector input)
  unfold callState
  dsimp only
  generalize acknowledge { k with hw := hw } vector input = k₁ at hack ⊢
  have hframe : Same k₁ (k₁.setTask j { k₁.tasks j with frame := ⟨regs.rax, regs.rsp⟩ }) := same_setTask rfl
  exact hack.ticks_trans (Sim.same_left hframe (sim_devicePoll L 64 _))

theorem spaced_callState (hk : Spaced L k) (j : TaskId) (vector : Nat) (regs : Regs) (input : List UInt8) (hw : List Nat) :
    Spaced L (callState L k j vector regs input hw) := by
  have hhw : Mild k { k with hw := hw } := mild_rest
  unfold callState
  exact spaced_devicePoll 64 ((hk.mild (hhw.trans (mild_acknowledge _ vector input))).calm
    (calm_setTask rfl rfl rfl (Or.inl rfl)))

/-- A system call, from the interrupt to the scheduler. -/
theorem step_call (hm : k.mode = .user) (hc : k.current = some j) (regs : Regs) (input : List UInt8) (hw : List Nat) :
    step L k (.interrupt 128 regs input hw) = enterSchedule
      (if ((callState L k j 128 regs input hw).tasks j).state = .dead then
      callState L k j 128 regs input hw else userCall L (callState L k j 128 regs input hw) j regs) := by
  unfold step interruptDispatch
  dsimp only
  split
  · rename_i j' _ hc'
    cases hc.symm.trans hc'
    unfold userInterrupt callState
    dsimp only
    rw [if_pos rfl]
  · rename_i hi
    rw [hm] at hi
    cases hi
  · rename_i hno
    exact absurd hc (hno j hm)

/-- **No wake-up is lost**, neither between two steps nor where a call is made. -/
theorem no_lost_wakeup (h : Reach L k) : Wakeful L k ∧ ∀ j regs input hw, k.mode = .user → k.current = some j →
    Wakeful L (callState L k j 128 regs input hw) ∧
    step L k (.interrupt 128 regs input hw) = enterSchedule
      (if ((callState L k j 128 regs input hw).tasks j).state = .dead then
      callState L k j 128 regs input hw else userCall L (callState L k j 128 regs input hw) j regs) := by
  have hinv : CapInv none none k.ipc ∧ Mailed k.ipc := ⟨reach_capInv h, reach_mailed h⟩
  have hrings := (reach_bound h).rings
  have hk := reach_spaced h
  refine ⟨wakeful_of hk hrings hinv.1 hinv.2, fun j regs input hw hm hc => ⟨?_, step_call hm hc regs input hw⟩⟩
  have hsim := sim_callState L k j 128 regs input hw
  have hmoves : Moves none k.ipc (callState L k j 128 regs input hw).ipc := hsim.rel.lift id fun _ _ => Move.tick
  have hinv' := moves_keep (I := fun m => CapInv none none m ∧ Mailed m)
    (fun hm hstep => ⟨move_capInv hm.1 hstep, move_mailed hm.1 hm.2 hstep⟩) hmoves hinv
  exact wakeful_of (spaced_callState hk j 128 regs input hw) (hsim.rings hrings) hinv'.1 hinv'.2

theorem no_lost_wakeup_talk : (sampleTalk.tasks 1).state = .blocked ∧ Wakeful sampleLayout sampleTalk :=
  ⟨sampleTalk_spec.2.2.2.2.1, (no_lost_wakeup reach_sampleTalk).1⟩

end Wakeup

end SpiritFox.Core
