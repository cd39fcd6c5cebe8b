import SpiritFox.Lib.Fold
import SpiritFox.Kernel.Machine

/-!
# The capability table

`CapInv` is the invariant of the machine: a capability names a living incarnation of its endpoint, a living endpoint is
referenced and its owner lives, and a blocked task can receive where it waits. Two clauses fail for a moment inside an
operation, so the invariant names who is excused: a task that is dying from being able to receive, and an endpoint that has
just lost a reference from being referenced. Every move keeps it (`move_capInv`).
-/

namespace SpiritFox.Core

open Ipc Function

def Party.Live (p : Party) : Prop := p.state = .ready ∨ p.state = .blocked

structure CapInv (dying : Option TaskId) (orphan : Option EpId) (m : Ipc) : Prop where
  ref : ∀ j i e, ((m.parties j).caps i).endpoint = some e →
    (m.channels e).owner ≠ 0 ∧ ((m.parties j).caps i).epoch = (m.channels e).epoch
  held : ∀ e, some e ≠ orphan → (m.channels e).owner ≠ 0 → m.Referenced e
  owner : ∀ e, (m.channels e).owner ≠ 0 → ∃ j, (m.parties j).pid = (m.channels e).owner ∧ (m.parties j).Live
  idle : ∀ j, (m.parties j).state = .dead ∨ (m.parties j).pid = 0 → ∀ i, ((m.parties j).caps i).endpoint = none
  live : ∀ j, (m.parties j).Live → (m.parties j).pid ≠ 0
  blocked : ∀ j, some j ≠ dying → (m.parties j).state = .blocked →
    ∃ i e, (m.parties j).wait = some e ∧ m.Has j i e rightRecv
  pid_lt : ∀ j, (m.parties j).pid < m.nextPid
  pid_inj : ∀ j j', (m.parties j).pid = (m.parties j').pid → (m.parties j).pid ≠ 0 → j = j'

section Caps

variable {dying : Option TaskId} {orphan : Option EpId} {m : Ipc} {j : TaskId} {i : CapId} {e : EpId} {p : Party}
  {j' : TaskId} {e' : EpId} {m' : Ipc}

/-! ## Reading a changed state -/

@[simp] theorem setParty_parties (p : Party) : (m.setParty j p).parties = update m.parties j p := rfl
@[simp] theorem setParty_channels (p : Party) : (m.setParty j p).channels = m.channels := rfl
@[simp] theorem setParty_nextPid (p : Party) : (m.setParty j p).nextPid = m.nextPid := rfl
@[simp] theorem setChannel_parties (c : Channel) : (m.setChannel e c).parties = m.parties := rfl
@[simp] theorem setChannel_channels (c : Channel) : (m.setChannel e c).channels = update m.channels e c := rfl
@[simp] theorem setChannel_nextPid (c : Channel) : (m.setChannel e c).nextPid = m.nextPid := rfl
@[simp] theorem record_parties (ev : Event) : (m.record ev).parties = m.parties := rfl
@[simp] theorem record_channels (ev : Event) : (m.record ev).channels = m.channels := rfl
@[simp] theorem record_nextPid (ev : Event) : (m.record ev).nextPid = m.nextPid := rfl

theorem setParty_caps (h : p.caps = (m.parties j).caps) (j' : TaskId) :
    ((m.setParty j p).parties j').caps = (m.parties j').caps := by
  by_cases hj : j' = j
  · subst hj
    simpa using h
  · simp [hj]

theorem setState_caps (state : TaskState) (j' : TaskId) : ((m.setState j state).parties j').caps = (m.parties j').caps :=
  setParty_caps (p := { m.parties j with state := state }) rfl j'

theorem setState_pid (state : TaskState) (j' : TaskId) : ((m.setState j state).parties j').pid = (m.parties j').pid := by
  unfold Ipc.setState
  by_cases hj : j' = j
  · subst hj
    simp
  · simp [hj]

theorem setState_self (state : TaskState) : (m.setState j state).parties j = { m.parties j with state := state } :=
  update_self _ _ _

theorem setState_of_ne (state : TaskState) (hj : j' ≠ j) : (m.setState j state).parties j' = m.parties j' :=
  update_of_ne hj _ _

/-- The history is not part of the invariant. -/
theorem CapInv.record (h : CapInv dying orphan m) (ev : Event) : CapInv dying orphan (m.record ev) :=
  ⟨h.ref, h.held, h.owner, h.idle, h.live, h.blocked, h.pid_lt, h.pid_inj⟩

theorem CapInv.excuse (h : CapInv none none m) (dying : Option TaskId) (orphan : Option EpId) : CapInv dying orphan m :=
  ⟨h.ref, fun e _ => h.held e nofun, h.owner, h.idle, h.live, fun j _ => h.blocked j nofun, h.pid_lt, h.pid_inj⟩

/-! ## The end of an endpoint -/

theorem invalidate_channel_of_ne (h : e' ≠ e) : (m.invalidate e).channels e' = m.channels e' :=
  update_of_ne h _ _

theorem invalidate_channel_self : ((m.invalidate e).channels e).owner = 0 := by
  simp [Ipc.invalidate]

theorem invalidate_parties (j : TaskId) : (m.invalidate e).parties j = (m.parties j).invalidated e := rfl

theorem invalidated_endpoint :
    ((p.invalidated e).caps i).endpoint = some e' ↔ e' ≠ e ∧ (p.caps i).endpoint = some e' := by
  unfold Party.invalidated
  by_cases h : (p.caps i).endpoint = some e
  · simpa [h] using fun h₁ h₂ => h₁ h₂.symm
  · simp only [h, if_false]
    exact ⟨fun h' => ⟨fun he => h (he ▸ h'), h'⟩, fun h' => h'.2⟩

theorem invalidated_cap_of_ne (h : (p.caps i).endpoint ≠ some e) : (p.invalidated e).caps i = p.caps i :=
  if_neg h

theorem invalidated_live : (p.invalidated e).Live ↔ p.Live := by
  unfold Party.Live Party.invalidated
  by_cases h : p.state = .blocked ∧ p.wait = some e
  · simp [h]
  · simp [h]

theorem invalidated_blocked (h : (p.invalidated e).state = .blocked) :
    p.state = .blocked ∧ p.wait ≠ some e := by
  unfold Party.invalidated at h
  by_cases hb : p.state = .blocked ∧ p.wait = some e
  · simp [hb] at h
  · simp only [hb, if_false] at h
    exact ⟨h, fun hw => hb ⟨h, hw⟩⟩

theorem invalidated_dead (h : (p.invalidated e).state = .dead) : p.state = .dead := by
  unfold Party.invalidated at h
  by_cases hb : p.state = .blocked ∧ p.wait = some e
  · simp [hb] at h
  · simpa only [hb, if_false] using h

/-- Taking an endpoint away from everyone keeps the invariant, whether or not it was still referenced. -/
theorem CapInv.invalidate (h : CapInv dying (some e) m) : CapInv dying none (m.invalidate e) where
  ref j i e' hc := by
    obtain ⟨hne, hc⟩ := invalidated_endpoint.1 hc
    have hcap : ((m.parties j).caps i).endpoint ≠ some e := fun he => hne (Option.some.inj (hc.symm.trans he))
    rw [invalidate_channel_of_ne hne, invalidate_parties, invalidated_cap_of_ne hcap]
    exact h.ref j i e' hc
  held e' _ ho := by
    have hne : e' ≠ e := fun he => ho (he ▸ invalidate_channel_self)
    rw [invalidate_channel_of_ne hne] at ho
    obtain ⟨j, i, hc⟩ := h.held e' (by simpa using hne) ho
    exact ⟨j, i, invalidated_endpoint.2 ⟨hne, hc⟩⟩
  owner e' ho := by
    have hne : e' ≠ e := fun he => ho (he ▸ invalidate_channel_self)
    rw [invalidate_channel_of_ne hne] at ho ⊢
    obtain ⟨j, hp, hl⟩ := h.owner e' ho
    exact ⟨j, hp, invalidated_live.2 hl⟩
  idle j hd i := by
    have hnone := h.idle j (hd.imp_left invalidated_dead) i
    have hcap : ((m.parties j).caps i).endpoint ≠ some e := by simp [hnone]
    rw [invalidate_parties, invalidated_cap_of_ne hcap]
    exact hnone
  live j hl := h.live j (invalidated_live.1 hl)
  blocked j hd hb := by
    obtain ⟨hb, hw⟩ := invalidated_blocked hb
    obtain ⟨i, e', hwait, hc, hr⟩ := h.blocked j hd hb
    have hne : e' ≠ e := fun he => hw (he ▸ hwait)
    have hcap : ((m.parties j).caps i).endpoint ≠ some e := fun he => hne (Option.some.inj (hc.symm.trans he))
    refine ⟨i, e', hwait, invalidated_endpoint.2 ⟨hne, hc⟩, ?_⟩
    rw [invalidate_parties, invalidated_cap_of_ne hcap]
    exact hr
  pid_lt := h.pid_lt
  pid_inj := h.pid_inj

/-! ## One capability slot -/

theorem setCap_cap (c : Cap) (j' : TaskId) (i' : CapId) :
    ((m.setCap j i c).parties j').caps i' = if j' = j ∧ i' = i then c else (m.parties j').caps i' := by
  unfold Ipc.setCap
  by_cases hj : j' = j
  · subst hj
    by_cases hi : i' = i
    · subst hi
      simp
    · simp [hi]
  · simp [hj]

/-- Everything of a party but its capabilities. -/
theorem setCap_party (c : Cap) (j' : TaskId) : ((m.setCap j i c).parties j').pid = (m.parties j').pid ∧
    ((m.setCap j i c).parties j').state = (m.parties j').state ∧
    ((m.setCap j i c).parties j').wait = (m.parties j').wait := by
  unfold Ipc.setCap
  by_cases hj : j' = j
  · subst hj
    simp
  · simp [hj]

theorem setCap_live (c : Cap) (j' : TaskId) : ((m.setCap j i c).parties j').Live ↔ (m.parties j').Live := by
  unfold Party.Live
  rw [(setCap_party c j').2.1]

@[simp] theorem setCap_channels (c : Cap) : (m.setCap j i c).channels = m.channels := rfl
@[simp] theorem setCap_nextPid (c : Cap) : (m.setCap j i c).nextPid = m.nextPid := rfl

theorem drop_endpoint {i' : CapId} :
    (((m.drop j i).parties j').caps i').endpoint = some e' ↔
      ¬ (j' = j ∧ i' = i) ∧ ((m.parties j').caps i').endpoint = some e' := by
  unfold Ipc.drop
  rw [setCap_cap]
  split <;> simp_all

/-- A slot that is emptied may leave its endpoint an orphan. -/
theorem CapInv.drop (h : CapInv dying none m) (hc : ((m.parties j).caps i).endpoint = some e)
    (hb : some j = dying ∨ (m.parties j).state ≠ .blocked) : CapInv dying (some e) (m.drop j i) where
  ref j' i' e' hc' := by
    obtain ⟨hne, hc'⟩ := drop_endpoint.1 hc'
    unfold Ipc.drop
    rw [setCap_cap, if_neg hne]
    exact h.ref j' i' e' hc'
  held e' hne ho := by
    obtain ⟨j', i', hc'⟩ := h.held e' nofun ho
    refine ⟨j', i', drop_endpoint.2 ⟨?_, hc'⟩⟩
    rintro ⟨rfl, rfl⟩
    exact hne (hc'.symm.trans hc)
  owner e' ho := by
    obtain ⟨j', hp, hl⟩ := h.owner e' ho
    exact ⟨j', (setCap_party _ j').1.trans hp, (setCap_live _ j').2 hl⟩
  idle j' hd i' := by
    rw [show ((m.drop j i).parties j').state = _ from (setCap_party _ j').2.1,
      show ((m.drop j i).parties j').pid = _ from (setCap_party _ j').1] at hd
    rw [Option.eq_none_iff_forall_ne_some]
    intro e' hc'
    have hnone := h.idle j' hd i'
    rw [(drop_endpoint.1 hc').2] at hnone
    cases hnone
  live j' hl := by
    rw [show ((m.drop j i).parties j').pid = _ from (setCap_party _ j').1]
    exact h.live j' ((setCap_live _ j').1 hl)
  blocked j' hd hb' := by
    rw [show ((m.drop j i).parties j').state = _ from (setCap_party _ j').2.1] at hb'
    have hne : j' ≠ j := by
      rintro rfl
      exact hb.elim (fun he => hd he) fun hn => hn hb'
    obtain ⟨i', e', hw, hc', hr⟩ := h.blocked j' hd hb'
    refine ⟨i', e', (setCap_party _ j').2.2.trans hw, drop_endpoint.2 ⟨fun hh => hne hh.1, hc'⟩, ?_⟩
    unfold Ipc.drop
    rw [setCap_cap, if_neg fun hh => hne hh.1]
    exact hr
  pid_lt j' := by
    rw [show ((m.drop j i).parties j').pid = _ from (setCap_party _ j').1]
    exact h.pid_lt j'
  pid_inj j₁ j₂ := by
    rw [show ((m.drop j i).parties j₁).pid = _ from (setCap_party _ j₁).1,
      show ((m.drop j i).parties j₂).pid = _ from (setCap_party _ j₂).1]
    exact h.pid_inj j₁ j₂

/-- An orphan that is referenced is none. -/
theorem CapInv.adopt (h : CapInv dying (some e) m) (hr : m.Referenced e) : CapInv dying none m :=
  { h with held := fun e' _ ho => if he : e' = e then he ▸ hr else h.held e' (by simpa using he) ho }

theorem CapInv.close (h : CapInv dying none m) (hc : ((m.parties j).caps i).endpoint = some e)
    (hb : some j = dying ∨ (m.parties j).state ≠ .blocked) : CapInv dying none (m.close j i e) := by
  have hd := h.drop hc hb
  unfold Ipc.close
  split
  · exact hd.adopt (by assumption)
  · exact hd.invalidate

/-- A new capability on a living endpoint; the endpoint may have been an orphan. -/
theorem CapInv.put (h : CapInv dying (some e) m) {rights : Nat} (ho : (m.channels e).owner ≠ 0) (hf : m.Free j i)
    (hs : (m.parties j).state ≠ .dead) (hp : (m.parties j).pid ≠ 0) : CapInv dying none (m.put j i e rights) := by
  have hcap := @setCap_cap m j i
  have hkeep : ∀ j' i' e', ((m.parties j').caps i').endpoint = some e' → ¬ (j' = j ∧ i' = i) := by
    rintro j' i' e' hc ⟨rfl, rfl⟩
    rw [hf.1] at hc
    cases hc
  unfold Ipc.put
  apply CapInv.record
  generalize hnew : (⟨some e, (m.channels e).epoch, rights, ((m.parties j).caps i).generation + 1⟩ : Cap) = c
  have hce : c.endpoint = some e := by rw [← hnew]
  have hcepoch : c.epoch = (m.channels e).epoch := by rw [← hnew]
  refine ⟨fun j' i' e' hc => ?_, fun e' _ ho' => ?_, fun e' ho' => ?_, fun j' hd i' => ?_, fun j' hl => ?_,
    fun j' hd hb => ?_,
    fun j' => ?_, fun j₁ j₂ => ?_⟩
  · rw [hcap] at hc ⊢
    split at hc
    · rename_i hh
      rw [if_pos hh]
      rw [hce] at hc
      cases hc
      exact ⟨ho, hcepoch⟩
    · rename_i hh
      rw [if_neg hh]
      exact h.ref j' i' e' hc
  · by_cases he : e' = e
    · subst he
      exact ⟨j, i, by rw [hcap, if_pos ⟨rfl, rfl⟩, hce]⟩
    · obtain ⟨j', i', hc⟩ := h.held e' (by simpa using he) ho'
      exact ⟨j', i', by rw [hcap, if_neg (hkeep j' i' e' hc), hc]⟩
  · obtain ⟨j', hp', hl⟩ := h.owner e' ho'
    exact ⟨j', (setCap_party _ j').1.trans hp', (setCap_live _ j').2 hl⟩
  · rw [(setCap_party _ j').2.1, (setCap_party _ j').1] at hd
    have hne : ¬ (j' = j ∧ i' = i) := by
      rintro ⟨rfl, rfl⟩
      exact hd.elim hs hp
    rw [hcap, if_neg hne]
    exact h.idle j' hd i'
  · rw [(setCap_party _ j').1]
    exact h.live j' ((setCap_live _ j').1 hl)
  · rw [(setCap_party _ j').2.1] at hb
    obtain ⟨i', e', hw, hc, hr⟩ := h.blocked j' hd hb
    refine ⟨i', e', (setCap_party _ j').2.2.trans hw, ?_⟩
    unfold Ipc.Has
    rw [hcap, if_neg (hkeep j' i' e' hc)]
    exact ⟨hc, hr⟩
  · rw [(setCap_party _ j').1]
    exact h.pid_lt j'
  · rw [(setCap_party _ j₁).1, (setCap_party _ j₂).1]
    exact h.pid_inj j₁ j₂

/-! ## One party's state -/

/-- A party that keeps its pid and its capabilities. -/
theorem CapInv.setParty (h : CapInv dying none m) (hpid : p.pid = (m.parties j).pid)
    (hcaps : p.caps = (m.parties j).caps) (hdead : p.state ≠ .dead) (hlive : p.Live → p.pid ≠ 0)
    (hown : (m.parties j).Live → p.Live)
    (hblocked : p.state = .blocked → ∃ i e, p.wait = some e ∧ m.Has j i e rightRecv) :
    CapInv dying none (m.setParty j p) := by
  have hpids : ∀ j', ((m.setParty j p).parties j').pid = (m.parties j').pid := fun j' => by
    by_cases hj : j' = j
    · subst hj; simpa using hpid
    · simp [hj]
  have hcap : ∀ j', ((m.setParty j p).parties j').caps = (m.parties j').caps := fun j' => by
    by_cases hj : j' = j
    · subst hj; simpa using hcaps
    · simp [hj]
  have hhas : ∀ j' i e r, m.Has j' i e r → (m.setParty j p).Has j' i e r := fun j' i e r hh => by
    unfold Ipc.Has
    rw [hcap]
    exact hh
  refine ⟨fun j' i e hc => ?_, fun e _ ho => ?_, fun e ho => ?_, fun j' hd i => ?_, fun j' hl => ?_, fun j' hd hb => ?_,
    fun j' => ?_, fun j₁ j₂ => ?_⟩
  · rw [hcap] at hc ⊢
    exact h.ref j' i e hc
  · obtain ⟨j', i, hc⟩ := h.held e nofun ho
    exact ⟨j', i, by rw [hcap]; exact hc⟩
  · obtain ⟨j', hp, hl⟩ := h.owner e ho
    refine ⟨j', (hpids j').trans hp, ?_⟩
    by_cases hj : j' = j
    · subst hj; simpa using hown hl
    · simpa [hj] using hl
  · rw [hcap]
    rw [hpids] at hd
    refine h.idle j' ?_ i
    by_cases hj : j' = j
    · subst hj
      exact Or.inr (hd.resolve_left (by simpa using hdead))
    · simpa [hj] using hd
  · by_cases hj : j' = j
    · subst hj
      simp only [setParty_parties, update_self] at hl ⊢
      exact hlive hl
    · simp only [setParty_parties, update_of_ne hj] at hl ⊢
      exact h.live j' hl
  · by_cases hj : j' = j
    · subst hj
      simp only [setParty_parties, update_self] at hb
      obtain ⟨i, e, hw, hh⟩ := hblocked hb
      exact ⟨i, e, by simpa using hw, hhas _ _ _ _ hh⟩
    · simp only [setParty_parties, update_of_ne hj] at hb
      obtain ⟨i, e, hw, hh⟩ := h.blocked j' hd hb
      exact ⟨i, e, by simpa [hj] using hw, hhas _ _ _ _ hh⟩
  · rw [hpids]
    exact h.pid_lt j'
  · rw [hpids, hpids]
    exact h.pid_inj j₁ j₂

/-- Waking up, or becoming ready for the first time. -/
theorem CapInv.setReady (h : CapInv dying none m) (hp : (m.parties j).pid ≠ 0) : CapInv dying none (m.setState j .ready) :=
  h.setParty rfl rfl (by simp) (fun _ => hp) (fun _ => Or.inl rfl) (by simp)

/-- The messages of a channel are not part of the invariant. -/
theorem CapInv.setQueue (h : CapInv dying orphan m) (queue : List SfMessage) : CapInv dying orphan (m.setQueue e queue) := by
  have hch : ∀ e', ((m.setQueue e queue).channels e').owner = (m.channels e').owner ∧
      ((m.setQueue e queue).channels e').epoch = (m.channels e').epoch := fun e' => by
    by_cases he : e' = e
    · subst he; simp [Ipc.setQueue]
    · simp [Ipc.setQueue, he]
  refine ⟨fun j i e' hc => ?_, fun e' hne ho => ?_, fun e' ho => ?_, h.idle, h.live, h.blocked, h.pid_lt, h.pid_inj⟩
  · rw [(hch e').1, (hch e').2]
    exact h.ref j i e' hc
  · rw [(hch e').1] at ho
    exact h.held e' hne ho
  · rw [(hch e').1] at ho ⊢
    exact h.owner e' ho

/-! ## Birth -/

theorem occupy_party_of_ne (hj : j' ≠ j) : (m.occupy j).parties j' = m.parties j' :=
  update_of_ne hj _ _

theorem occupy_party_self : (m.occupy j).parties j =
    { m.parties j with
      pid := m.nextPid, state := .empty, caps := fun i => { (m.parties j).caps i with endpoint := none } } :=
  update_self _ _ _

/-- A slot without capabilities whose pid owns nothing can be taken. -/
theorem CapInv.occupy (h : CapInv none none m)
    (hs : (m.parties j).state = .dead ∨ (m.parties j).state = .empty ∧ (m.parties j).pid = 0) :
    CapInv none none (m.occupy j) := by
  have hnone : ∀ i, ((m.parties j).caps i).endpoint = none := h.idle j (hs.imp_right And.right)
  have hnl : ¬ (m.parties j).Live := by
    unfold Party.Live
    rcases hs with hs | ⟨hs, _⟩ <;> simp [hs]
  have hne : ∀ j' i e, ((m.parties j').caps i).endpoint = some e → j' ≠ j := by
    rintro j' i e hc rfl
    rw [hnone] at hc
    cases hc
  refine ⟨fun j' i e hc => ?_, fun e _ ho => ?_, fun e ho => ?_, fun j' hd i => ?_, fun j' hl => ?_, fun j' hd hb => ?_,
    fun j' => ?_, fun j₁ j₂ hp h0 => ?_⟩
  · by_cases hj : j' = j
    · subst hj; rw [occupy_party_self] at hc; cases hc
    · rw [occupy_party_of_ne hj] at hc ⊢
      exact h.ref j' i e hc
  · obtain ⟨j', i, hc⟩ := h.held e nofun ho
    exact ⟨j', i, by rw [occupy_party_of_ne (hne j' i e hc)]; exact hc⟩
  · obtain ⟨j', hp, hl⟩ := h.owner e ho
    have hj : j' ≠ j := fun he => hnl (he ▸ hl)
    exact ⟨j', by rw [occupy_party_of_ne hj]; exact hp, by rw [occupy_party_of_ne hj]; exact hl⟩
  · by_cases hj : j' = j
    · subst hj; rw [occupy_party_self]
    · rw [occupy_party_of_ne hj] at hd ⊢
      exact h.idle j' hd i
  · by_cases hj : j' = j
    · subst hj; rw [occupy_party_self] at hl; simp [Party.Live] at hl
    · rw [occupy_party_of_ne hj] at hl ⊢
      exact h.live j' hl
  · by_cases hj : j' = j
    · subst hj; rw [occupy_party_self] at hb; cases hb
    · rw [occupy_party_of_ne hj] at hb
      obtain ⟨i, e, hw, hc, hr⟩ := h.blocked j' nofun hb
      unfold Ipc.Has
      rw [occupy_party_of_ne hj]
      exact ⟨i, e, hw, hc, hr⟩
  · show ((m.occupy j).parties j').pid < m.nextPid + 1
    by_cases hj : j' = j
    · subst hj; rw [occupy_party_self]; exact Nat.lt_succ_self _
    · rw [occupy_party_of_ne hj]; exact Nat.lt_succ_of_lt (h.pid_lt j')
  · by_cases h₁ : j₁ = j <;> by_cases h₂ : j₂ = j
    · rw [h₁, h₂]
    · subst h₁
      rw [occupy_party_self, occupy_party_of_ne h₂] at hp
      exact absurd hp (Nat.ne_of_gt (h.pid_lt j₂))
    · subst h₂
      rw [occupy_party_self, occupy_party_of_ne h₁] at hp
      exact absurd hp (Nat.ne_of_lt (h.pid_lt j₁))
    · rw [occupy_party_of_ne h₁] at hp h0
      rw [occupy_party_of_ne h₂] at hp
      exact h.pid_inj j₁ j₂ hp h0

/-- A free endpoint gets an owner and its first capability. -/
theorem CapInv.create (h : CapInv none none m) (hr : (m.parties j).state = .ready) (hi : m.Free j i)
    (he : (m.channels e).owner = 0) : CapInv none none (m.create j i e) := by
  have hp : (m.parties j).pid ≠ 0 := h.live j (Or.inl hr)
  have hch : ∀ e', e' ≠ e → ∀ c, (m.setChannel e c).channels e' = m.channels e' := fun e' hne c =>
    update_of_ne hne _ _
  unfold Ipc.create
  apply CapInv.put
  · apply CapInv.record
    refine ⟨fun j' i' e' hc => ?_, fun e' hne ho => ?_, fun e' ho => ?_, h.idle, h.live,
      fun j' _ => h.blocked j' nofun, h.pid_lt,
      h.pid_inj⟩
    · have hne : e' ≠ e := fun hh => (h.ref j' i' e' hc).1 (hh ▸ he)
      rw [hch e' hne]
      exact h.ref j' i' e' hc
    · have hne' : e' ≠ e := by simpa using hne
      rw [hch e' hne'] at ho
      exact h.held e' nofun ho
    · by_cases hee : e' = e
      · subst hee
        exact ⟨j, by simp, Or.inl hr⟩
      · rw [hch e' hee] at ho ⊢
        exact h.owner e' ho
  · simpa using hp
  · exact hi
  · simp [hr]
  · exact hp

/-! ## Death -/

/-- Capabilities and endpoints are taken away, and no pid or handle is given out. -/
structure Fades (m m' : Ipc) : Prop where
  pid : ∀ j, (m'.parties j).pid = (m.parties j).pid
  cap : ∀ j i, (m'.parties j).caps i = (m.parties j).caps i ∨
    (m'.parties j).caps i = { (m.parties j).caps i with endpoint := none }
  owner : ∀ e, (m'.channels e).owner = (m.channels e).owner ∨ (m'.channels e).owner = 0
  nextPid : m'.nextPid = m.nextPid
  log : ∃ ends : List EpId, m'.log = m.log ++ ends.map Event.invalidated

theorem Fades.refl : Fades m m := ⟨fun _ => rfl, fun _ _ => Or.inl rfl, fun _ => Or.inl rfl, rfl, [], by simp⟩

theorem Fades.trans {m'' : Ipc} (h : Fades m m') (h' : Fades m' m'') : Fades m m'' where
  pid j := (h'.pid j).trans (h.pid j)
  cap j i := by
    rcases h'.cap j i with hc | hc <;> rcases h.cap j i with hc' | hc' <;> rw [hc, hc']
    · exact Or.inl rfl
    · exact Or.inr rfl
    · exact Or.inr rfl
    · exact Or.inr rfl
  owner e := (h'.owner e).elim (fun ho => (h.owner e).imp (ho.trans ·) (ho.trans ·)) Or.inr
  nextPid := h'.nextPid.trans h.nextPid
  log := by
    obtain ⟨ends, he⟩ := h.log
    obtain ⟨ends', he'⟩ := h'.log
    exact ⟨ends ++ ends', by rw [he', he, List.map_append, List.append_assoc]⟩

/-- Cleaning up also wakes who waited, and no more. -/
structure Shrinks (m m' : Ipc) : Prop extends Fades m m' where
  state : ∀ j, (m'.parties j).state = (m.parties j).state ∨ (m.parties j).state = .blocked ∧ (m'.parties j).state = .ready

theorem Shrinks.refl : Shrinks m m := ⟨Fades.refl, fun _ => Or.inl rfl⟩

theorem Shrinks.trans {m'' : Ipc} (h : Shrinks m m') (h' : Shrinks m' m'') : Shrinks m m'' where
  toFades := h.toFades.trans h'.toFades
  state j := by
    rcases h'.state j with hs | ⟨hb, hr⟩ <;> rcases h.state j with hs' | ⟨hb', hr'⟩
    · exact Or.inl (hs.trans hs')
    · exact Or.inr ⟨hb', hs.trans hr'⟩
    · exact Or.inr ⟨hs' ▸ hb, hr⟩
    · exact Or.inr ⟨hb', hr⟩

theorem Shrinks.slot (h : Shrinks m m') (hn : ((m.parties j).caps i).endpoint = none) :
    ((m'.parties j).caps i).endpoint = none := by
  rcases h.cap j i with hc | hc
  · rw [hc]
    exact hn
  · rw [hc]

theorem shrinks_invalidate : Shrinks m (m.invalidate e) where
  pid _ := rfl
  state j := by
    rw [invalidate_parties]
    unfold Party.invalidated
    by_cases hb : (m.parties j).state = .blocked ∧ (m.parties j).wait = some e
    · simp [hb]
    · simp [hb]
  cap j i := by
    rw [invalidate_parties]
    unfold Party.invalidated
    by_cases hc : ((m.parties j).caps i).endpoint = some e
    · simp [hc]
    · simp [hc]
  owner e' := if he : e' = e then Or.inr (he ▸ invalidate_channel_self) else Or.inl (by rw [invalidate_channel_of_ne he])
  nextPid := rfl
  log := ⟨[e], rfl⟩

theorem shrinks_drop : Shrinks m (m.drop j i) where
  pid j' := (setCap_party _ j').1
  state j' := Or.inl (setCap_party _ j').2.1
  cap j' i' := by
    unfold Ipc.drop
    rw [setCap_cap]
    split
    · rename_i h
      exact Or.inr (by rw [h.1, h.2])
    · exact Or.inl rfl
  owner _ := Or.inl rfl
  nextPid := rfl
  log := ⟨[], (List.append_nil _).symm⟩

section Cleanup

variable {I : Ipc → Prop} (hdrop : ∀ m j i, I m → I (m.drop j i)) (hinv : ∀ m e, I m → I (m.invalidate e))
include hdrop hinv

theorem close_keeps (h : I m) : I (m.close j i e) := by
  unfold Ipc.close
  split
  · exact hdrop m j i h
  · exact hinv _ e (hdrop m j i h)

theorem cleanupSlot_keeps (h : I m) : I (Ipc.cleanupSlot j m i) := by
  unfold Ipc.cleanupSlot
  split
  · exact h
  · exact close_keeps hdrop hinv h

/-- A cleanup is made of dropped capabilities and ended endpoints. -/
theorem cleanup_keeps (h : I m) : I (m.cleanup j) := by
  unfold Ipc.cleanup
  refine Fold.keeps (I := I) _ (fun s i _ hs => cleanupSlot_keeps hdrop hinv hs) ?_
  unfold Ipc.cleanupOwned
  refine Fold.keeps (I := I) _ (fun s e _ hs => ?_) h
  split
  · exact hinv s e hs
  · exact hs

end Cleanup

theorem shrinks_cleanupSlot : Shrinks m (Ipc.cleanupSlot j m i) :=
  cleanupSlot_keeps (I := Shrinks m) (fun _ _ _ h => h.trans shrinks_drop)
    (fun _ _ h => h.trans shrinks_invalidate) Shrinks.refl

theorem shrinks_close : Shrinks m (m.close j i e) :=
  close_keeps (I := Shrinks m) (fun _ _ _ h => h.trans shrinks_drop) (fun _ _ h => h.trans shrinks_invalidate) Shrinks.refl

theorem shrinks_cleanup : Shrinks m (m.cleanup j) :=
  cleanup_keeps (I := Shrinks m) (fun _ _ _ h => h.trans shrinks_drop) (fun _ _ h => h.trans shrinks_invalidate) Shrinks.refl

theorem close_slot : (((m.close j i e).parties j).caps i).endpoint = none := by
  have hd : (((m.drop j i).parties j).caps i).endpoint = none := by
    unfold Ipc.drop
    rw [setCap_cap, if_pos ⟨rfl, rfl⟩]
  unfold Ipc.close
  split
  · exact hd
  · exact shrinks_invalidate.slot hd

/-- A task that has been cleaned up has no capability. -/
theorem cleanup_slots (i : CapId) : (((m.cleanup j).parties j).caps i).endpoint = none := by
  have h : ∀ i ∈ List.finRange 32, (((m.cleanup j).parties j).caps i).endpoint = none := by
    unfold Ipc.cleanup
    refine Fold.establishes (f := Ipc.cleanupSlot j) (I := fun _ => True)
      (P := fun i s => ((s.parties j).caps i).endpoint = none) _ (fun _ _ _ => trivial) (fun s i _ => ?_)
      (fun s i i' _ hn => shrinks_cleanupSlot.slot hn) trivial
    unfold Ipc.cleanupSlot
    split
    · assumption
    · exact close_slot
  exact h i (List.mem_finRange i)

/-- The endpoints of a dying task are gone. -/
theorem CapInv.cleanupOwned (h : CapInv (some j) none m) : CapInv (some j) none (m.cleanupOwned j) ∧
    ((m.cleanupOwned j).parties j).pid = (m.parties j).pid ∧
    ∀ e, ((m.cleanupOwned j).channels e).owner ≠ 0 → ((m.cleanupOwned j).channels e).owner ≠ (m.parties j).pid := by
  let I : Ipc → Prop := fun s => CapInv (some j) none s ∧ (s.parties j).pid = (m.parties j).pid
  have hI : ∀ s e, I s → I (if (s.channels e).owner = (s.parties j).pid then s.invalidate e else s) := by
    rintro s e ⟨hs, hp⟩
    split
    · exact ⟨CapInv.invalidate ⟨hs.ref, fun e' _ => hs.held e' nofun, hs.owner, hs.idle, hs.live, hs.blocked,
        hs.pid_lt, hs.pid_inj⟩,
        hp⟩
    · exact ⟨hs, hp⟩
  have hend : I (m.cleanupOwned j) := by
    unfold Ipc.cleanupOwned
    exact Fold.keeps (I := I) _ (fun s e _ hs => hI s e hs) ⟨h, rfl⟩
  have hall : ∀ e ∈ List.finRange 64, ((m.cleanupOwned j).channels e).owner ≠ 0 →
      ((m.cleanupOwned j).channels e).owner ≠ (m.parties j).pid := by
    unfold Ipc.cleanupOwned
    refine Fold.establishes (I := I) (P := fun e s => (s.channels e).owner ≠ 0 →
      (s.channels e).owner ≠ (m.parties j).pid) _ hI
      (fun s e hs => ?_) (fun s e e' hs hP => ?_) ⟨h, rfl⟩
    · split
      · exact fun ho => absurd invalidate_channel_self ho
      · rename_i hne
        rw [← hs.2]
        exact fun _ => hne
    · split
      · intro ho
        rcases (shrinks_invalidate (m := s) (e := e)).owner e' with heq | h0
        · rw [heq] at ho ⊢
          exact hP ho
        · exact absurd h0 ho
      · exact hP
  exact ⟨hend.1, hend.2, fun e => hall e (List.mem_finRange e)⟩

/-- A dead task: no capability, no endpoint. -/
theorem CapInv.bury (h : CapInv (some j) none m) (hnone : ∀ i, ((m.parties j).caps i).endpoint = none)
    (hown : ∀ e, (m.channels e).owner ≠ 0 → (m.channels e).owner ≠ (m.parties j).pid) :
    CapInv none none (m.setState j .dead) := by
  have hself : (m.setState j .dead).parties j = { m.parties j with state := .dead } := setState_self _
  have hof : ∀ j', j' ≠ j → (m.setState j .dead).parties j' = m.parties j' := fun j' hj => setState_of_ne _ hj
  have hcap : ∀ j', ((m.setState j .dead).parties j').caps = (m.parties j').caps := setState_caps _
  have hpid : ∀ j', ((m.setState j .dead).parties j').pid = (m.parties j').pid := setState_pid _
  refine ⟨fun j' i e hc => ?_, fun e _ ho => ?_, fun e ho => ?_, fun j' hd i => ?_, fun j' hl => ?_, fun j' _ hb => ?_,
    fun j' => ?_, fun j₁ j₂ => ?_⟩
  · rw [hcap] at hc ⊢
    exact h.ref j' i e hc
  · obtain ⟨j', i, hc⟩ := h.held e nofun ho
    exact ⟨j', i, by rw [hcap]; exact hc⟩
  · obtain ⟨j', hp, hl⟩ := h.owner e ho
    have hj : j' ≠ j := fun he => hown e ho (by rw [← hp, he])
    exact ⟨j', (hpid j').trans hp, by rw [hof j' hj]; exact hl⟩
  · rw [hcap]
    by_cases hj : j' = j
    · subst hj; exact hnone i
    · rw [hof j' hj] at hd
      exact h.idle j' hd i
  · by_cases hj : j' = j
    · subst hj; rw [hself] at hl; simp [Party.Live] at hl
    · rw [hof j' hj] at hl ⊢
      exact h.live j' hl
  · by_cases hj : j' = j
    · subst hj; rw [hself] at hb; cases hb
    · rw [hof j' hj] at hb
      obtain ⟨i, e, hw, hc, hr⟩ := h.blocked j' (by simpa using hj) hb
      unfold Ipc.Has
      rw [hof j' hj]
      exact ⟨i, e, hw, hc, hr⟩
  · rw [hpid]
    exact h.pid_lt j'
  · rw [hpid, hpid]
    exact h.pid_inj j₁ j₂

theorem CapInv.die (h : CapInv none none m) : CapInv none none ((m.cleanup j).setState j .dead) := by
  obtain ⟨hown, hpid, hfree⟩ := (h.excuse (some j) none).cleanupOwned
  let I : Ipc → Prop := fun s => CapInv (some j) none s ∧ (s.parties j).pid = (m.parties j).pid ∧
    ∀ e, (s.channels e).owner ≠ 0 → (s.channels e).owner ≠ (m.parties j).pid
  have hI : ∀ s i, I s → I (Ipc.cleanupSlot j s i) := by
    rintro s i ⟨hs, hp, hf⟩
    have hsh : Shrinks s (Ipc.cleanupSlot j s i) := shrinks_cleanupSlot
    refine ⟨?_, (hsh.pid j).trans hp, fun e ho => ?_⟩
    · unfold Ipc.cleanupSlot
      split
      · exact hs
      · exact hs.close (by assumption) (Or.inl rfl)
    · rcases hsh.owner e with heq | h0
      · rw [heq] at ho ⊢
        exact hf e ho
      · exact absurd h0 ho
  have hend : I (m.cleanup j) := by
    unfold Ipc.cleanup
    exact Fold.keeps (I := I) _ (fun s i _ hs => hI s i hs) ⟨hown, hpid, hfree⟩
  exact hend.1.bury cleanup_slots fun e ho => by rw [hend.2.1]; exact hend.2.2 e ho

/-! ## Moves -/

theorem fades_setState (state : TaskState) : Fades m (m.setState j state) :=
  ⟨setState_pid state, fun j' i => Or.inl (by rw [setState_caps]), fun _ => Or.inl rfl, rfl, [],
    by simp [Ipc.setState, Ipc.setParty]⟩

theorem tick_fades (h : Tick m m') : Fades m m' := by
  cases h with
  | wake => exact fades_setState .ready
  | die => exact shrinks_cleanup.toFades.trans (fades_setState .dead)

/-- **Every move keeps the invariant.** -/
theorem move_capInv {actor : Option TaskId} (h : CapInv none none m) (hm : Move actor m m') :
    CapInv none none m' := by
  cases hm with
  | create _ hr hi he => exact h.create hr hi he
  | @derive j i₀ i e rights _ hc _ hi =>
    obtain ⟨ho, _⟩ := h.ref j i₀ e hc.1
    have hidle : ¬ ((m.parties j).state = .dead ∨ (m.parties j).pid = 0) := fun hd => by
      have := h.idle j hd i₀
      rw [hc.1] at this
      cases this
    exact ((h.excuse none (some e)).put ho hi (fun hd => hidle (Or.inl hd)) fun hd => hidle (Or.inr hd)).record _
  | grant hg =>
    obtain @⟨j, i₀, i, e, rights, _, _, hne, hp, hc, _, hi⟩ := hg
    obtain ⟨ho, _⟩ := h.ref j i₀ e hc.1
    exact ((h.excuse none (some e)).put ho hi (by simp [hne]) hp).record _
  | close _ hr hc => exact h.close hc.1 (Or.inr (by simp [hr]))
  | revoke => exact ((h.excuse none _).record _).invalidate
  | cancel => exact (h.setQueue _).record _
  | @deliver j r i e x _ _ hb _ =>
    exact ((h.setReady (h.live r (Or.inr hb))).record _).record _
  | enqueue => exact (h.setQueue _).record _
  | dequeue => exact (h.setQueue _).record _
  | @block j i e _ hr hc _ =>
    refine h.setParty rfl rfl (by simp) (fun _ => h.live j (Or.inl hr)) (fun _ => Or.inr rfl) fun _ => ⟨i, e, rfl, hc⟩
  | occupy hs => exact h.occupy hs
  | ready _ hp => exact h.setReady hp
  | tick ht =>
    cases ht with
    | @wake r hb => exact h.setReady (h.live r (Or.inr hb))
    | die => exact h.die

end Caps

end SpiritFox.Core
