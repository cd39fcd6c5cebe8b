import Mathlib.Algebra.Order.BigOperators.Group.Finset
import SpiritFox.Kernel.Deeds
import SpiritFox.Kernel.Runs

/-!
# The byte counters of messages

`send_bytes` and `receive_bytes` of `ipc.c`. A message is counted when it is copied from its sender, and again when it is
copied to a receiver; in between it may wait in a queue, or be dropped. So the counters never claim more received than sent,
and their difference covers the queues (`byte_counters`).
-/

namespace SpiritFox.Core

open ByteMem Relation

def uint64Max : Nat := 2 ^ 64 - 1

/-- The messages on all queues. -/
def queued (k : Kernel) : Nat := ∑ e, (k.endpoints e).count

/-- The counters count at least `s` and `r`, and what was sent and not received covers the queues and `extra` messages until
the counter of sent bytes is full. -/
structure Covers (s r extra : Nat) (k : Kernel) : Prop where
  received : k.receiveBytes ≤ k.sendBytes
  sent : k.sendBytes ≤ uint64Max
  waiting : k.sendBytes < uint64Max → 328 * (queued k + extra) + k.receiveBytes ≤ k.sendBytes
  sentFrom : s ≤ k.sendBytes
  receivedFrom : r ≤ k.receiveBytes

section Counters

variable {L : Layout} {k k' : Kernel} {s r extra : Nat}

/-- Queues that did not grow, and then one that changes. -/
theorem queued_setEndpoint_le {x : Endpoint} {e : EpId} {c d : Nat}
    (hle : ∀ e', (k'.endpoints e').count ≤ (k.endpoints e').count) (h : x.count + c ≤ (k.endpoints e).count + d) :
    queued (k'.setEndpoint e x) + c ≤ queued k + d := by
  have hrest : ∑ e' ∈ Finset.univ.erase e, ((k'.setEndpoint e x).endpoints e').count ≤
      ∑ e' ∈ Finset.univ.erase e, (k.endpoints e').count := by
    refine Finset.sum_le_sum fun e' he => ?_
    simpa only [Kernel.setEndpoint, Function.update_of_ne (Finset.ne_of_mem_erase he)] using hle e'
  have hself : ((k'.setEndpoint e x).endpoints e).count = x.count := by
    simp only [Kernel.setEndpoint, Function.update_self]
  unfold queued
  rw [← Finset.add_sum_erase _ _ (Finset.mem_univ e), ← Finset.add_sum_erase _ (fun e => (k.endpoints e).count)
    (Finset.mem_univ e), hself]
  omega

theorem Covers.mono {extra' : Nat} (h : Covers s r extra k) (hsent : k'.sendBytes = k.sendBytes)
    (hreceived : k'.receiveBytes = k.receiveBytes)
    (hqueued : queued k' + extra' ≤ queued k + extra) : Covers s r extra' k' := by
  obtain ⟨h₁, h₂, h₃, h₄, h₅⟩ := h
  rw [← hsent, ← hreceived] at *
  exact ⟨h₁, hsent ▸ h₂, fun h => by omega, h₄, h₅⟩

theorem Covers.plain (h : Covers s r extra k) (hp : Plain k k') : Covers s r extra k' :=
  h.mono hp.sent hp.received (Nat.add_le_add_right (Finset.sum_le_sum fun e _ => hp.queued e) _)

/-- One message more has been sent. -/
theorem Covers.send (h : Covers s r 0 k) : Covers s r 1 { k with sendBytes := copied k.sendBytes 328 } := by
  obtain ⟨h₁, h₂, h₃, h₄, h₅⟩ := h
  refine ⟨?_, ?_, ?_, ?_, ?_⟩ <;> simp only [copied, queued] at * <;> unfold uint64Max at * <;> omega

/-- One message that was accounted for is received. -/
theorem Covers.receive (h : Covers s r 1 k) : Covers s r 0 { k with receiveBytes := copied k.receiveBytes 328 } := by
  obtain ⟨h₁, h₂, h₃, h₄, h₅⟩ := h
  refine ⟨?_, ?_, ?_, ?_, ?_⟩ <;> simp only [copied, queued] at * <;> unfold uint64Max at * <;> omega

theorem covers_sendMessage (h : Covers s r 1 k) (j : TaskId) (e : EpId) (m : SfMessage) :
    Covers s r 0 (sendMessage L k j e m).2 := by
  have hless : Covers s r 0 k := h.mono rfl rfl (Nat.le_succ _)
  unfold sendMessage
  dsimp only
  split
  · split
    · exact hless.plain plain_rest
    · rename_i k₁ hcopy
      exact (h.plain (plain_copyOut hcopy)).receive.mono rfl rfl (Nat.le_refl _)
  · split
    · exact hless
    · exact h.mono rfl rfl (queued_setEndpoint_le (fun _ => Nat.le_refl _) (Nat.le_refl _))

theorem covers_send (h : Covers s r 0 k) (j : TaskId) (a b : Nat) : Covers s r 0 (send L k j a b).2 := by
  unfold send
  split
  · exact h
  split
  · exact h
  have hless : Covers s r 0 { k with sendBytes := copied k.sendBytes 328 } := h.send.mono rfl rfl (Nat.le_succ _)
  dsimp only
  split
  · exact hless
  split
  · exact hless
  · exact covers_sendMessage h.send j _ _

theorem covers_recv (h : Covers s r 0 k) (j : TaskId) (a b c : Nat) : Covers s r 0 (recv L k j a b c).2 := by
  unfold recv
  split
  · exact h
  rename_i e _
  split
  · exact h
  dsimp only
  split
  · rename_i hcount
    split
    · exact h
    rename_i k₁ hcopy
    have hp := plain_copyOut hcopy
    have hless : Covers s r 1 (k₁.setEndpoint e { k.endpoints e with
        head := ((k.endpoints e).head + 1) % 8, count := (k.endpoints e).count - 1 }) :=
      h.mono hp.sent hp.received
        (queued_setEndpoint_le hp.queued (Nat.le_of_eq (Nat.sub_add_cancel (Nat.pos_of_ne_zero hcount))))
    exact hless.receive.mono rfl rfl (Nat.le_refl _)
  split
  · exact h
  · exact h.mono rfl rfl (Nat.le_refl _)

theorem Doing.covers (h : Covers s r 0 k) (hd : Doing L k k') : Covers s r 0 k' := by
  cases hd with
  | plain hp => exact h.plain hp
  | send j a b => exact covers_send h j a b
  | recv j a b c => exact covers_recv h j a b c
  | alloc j =>
    rcases pageAlloc_cases L k (k.tasks j).pid with heq | ⟨j', i, _, _, _, _, _, heq⟩ <;> rw [heq]
    · exact h
    · exact h.mono rfl rfl (Nat.le_refl _)
  | free j =>
    unfold pagesFree
    split
    · exact h
    · exact h.mono rfl rfl (Nat.le_refl _)
  | occupy j pages le pid => exact h.mono rfl rfl (Nat.le_refl _)
  | pageLimit a b c =>
    unfold taskPageLimit
    rcases taskLimit_cases with heq | ⟨j, -, -, heq⟩ <;> rw [heq]
    · exact h
    · exact h.mono rfl rfl (Nat.le_refl _)
  | capLimit a b c =>
    unfold taskCapLimit
    rcases taskLimit_cases with heq | ⟨j, -, -, heq⟩ <;> rw [heq]
    · exact h
    · exact h.mono rfl rfl (Nat.le_refl _)

theorem covers_initial (m : Mem) (iommu : Iommu) (mmioReady : Bool) : Covers 0 0 0 (initial m iommu mmioReady) := by
  have hempty : queued (initial m iommu mmioReady) = 0 := Finset.sum_eq_zero fun _ _ => rfl
  refine ⟨Nat.le_refl _, Nat.zero_le _, fun _ => ?_, Nat.le_refl _, Nat.le_refl _⟩
  rw [hempty]
  exact Nat.le_refl _

theorem Covers.doings (h : Covers s r 0 k) (hd : Doings L k k') : Covers s r 0 k' := by
  induction hd with
  | refl => exact h
  | tail _ hd ih => exact hd.covers ih

/-- In a state of a run: no more was received than sent, and what is between covers the queues; no step takes a counter
back, and a full one stays full. -/
structure ByteCounters (L : Layout) (k : Kernel) : Prop where
  received : k.receiveBytes ≤ k.sendBytes
  waiting : k.sendBytes < uint64Max → k.receiveBytes < uint64Max → 328 * queued k ≤ k.sendBytes - k.receiveBytes
  rising : ∀ a, k.sendBytes ≤ (step L k a).sendBytes ∧ k.receiveBytes ≤ (step L k a).receiveBytes
  fits : k.sendBytes ≤ uint64Max ∧ k.receiveBytes ≤ uint64Max
  sentSticks : k.sendBytes = uint64Max → ∀ a, (step L k a).sendBytes = uint64Max
  receivedSticks : k.receiveBytes = uint64Max → ∀ a, (step L k a).receiveBytes = uint64Max

/-- **The byte counters are conservative in every run of the kernel.** -/
theorem byte_counters (h : Reach L k) : ByteCounters L k := by
  have hk : Covers 0 0 0 k :=
    doings_reach covers_initial (fun h hd => hd.covers h) h
  have hstep : ∀ a, Covers k.sendBytes k.receiveBytes 0 (step L k a) := fun a =>
    Covers.doings ⟨hk.received, hk.sent, hk.waiting, Nat.le_refl _, Nat.le_refl _⟩ (doings_step k a)
  refine ⟨hk.received, fun h _ => ?_, fun a => ⟨(hstep a).sentFrom, (hstep a).receivedFrom⟩,
    ⟨hk.sent, hk.received.trans hk.sent⟩, fun h a => ?_, fun h a => ?_⟩
  · have hwaiting := hk.waiting h
    omega
  · have hfrom := (hstep a).sentFrom
    rw [h] at hfrom
    exact Nat.le_antisymm (hstep a).sent hfrom
  · have hfrom := (hstep a).receivedFrom
    rw [h] at hfrom
    exact Nat.le_antisymm ((hstep a).received.trans (hstep a).sent) hfrom

theorem byte_counters_talk : ByteCounters sampleLayout sampleTalk := byte_counters reach_sampleTalk

end Counters

end SpiritFox.Core
