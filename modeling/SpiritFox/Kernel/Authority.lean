import SpiritFox.Kernel.Runs

/-!
# Authority

Who can do what on an endpoint, and why. `Chain` is read off the history: a right comes from the creation of the endpoint
through derivations and grants, each out of a capability with the right to delegate. Every capability has such a chain for
every right in it, and whatever was done was done by someone who had one (`authority_shrinks`). Tasks that share
no endpoint with PID 1's side never will (`groups_stay_sealed`).
-/

namespace SpiritFox.Core

open Ipc List

/-! ## Reading the history -/

/-- The pid that owns the endpoint, 0 when it has no living incarnation. -/
def ownerAt (e : EpId) (log : List Event) : Nat :=
  log.foldl (fun owner ev => match ev with
    | .created e' pid => if e' = e then pid else owner
    | .invalidated e' => if e' = e then 0 else owner
    | _ => owner) 0

/-- The event begins or ends an incarnation of the endpoint. -/
def Event.Turns (e : EpId) : Event → Prop
  | .created e' _ => e' = e
  | .invalidated e' => e' = e
  | _ => False

/-- By this history, `pid` has got `rights` on the present incarnation of the endpoint, and every link carries `right`. -/
inductive Chain (e : EpId) (right : Nat) : List Event → Nat → Nat → Prop
  | create {log : List Event} {pid : Nat} (hr : 7 &&& right = right) : Chain e right (log ++ [.created e pid]) pid 7
  | derive {log : List Event} {pid held rights : Nat} (h : Chain e right log pid held)
      (hd : held &&& rightDelegate = rightDelegate) (hsub : rights &&& held = rights) (hr : rights &&& right = right) :
      Chain e right (log ++ [.derived e pid held rights]) pid rights
  | grant {log : List Event} {pid held rights : Nat} (h : Chain e right log 1 held)
      (hd : held &&& rightDelegate = rightDelegate) (hsub : rights &&& held = rights) (hr : rights &&& right = right) :
      Chain e right (log ++ [.granted e 1 pid held rights]) pid rights
  | later {log : List Event} {pid rights : Nat} {ev : Event} (h : Chain e right log pid rights) (hev : ¬ ev.Turns e) :
      Chain e right (log ++ [ev]) pid rights

/-- The history up to here entitles someone to what happened next. -/
def Permitted (log : List Event) : Event → Prop
  | .sent e pid _ => ∃ rights, Chain e rightSend log pid rights
  | .delivered e pid _ _ => ∃ rights, Chain e rightRecv log pid rights
  | .cancelled e pid _ => ∃ rights, Chain e rightSend log pid rights
  | .derived e pid held rights => Chain e rightDelegate log pid held ∧ rights &&& held = rights
  | .granted e parent _ held rights => parent = 1 ∧ Chain e rightDelegate log parent held ∧ rights &&& held = rights
  | .revoked e pid held => Chain e rightDelegate log pid held ∧ ownerAt e log = pid
  | _ => True

/-- Whatever happened was permitted when it happened. -/
def Justified (log : List Event) : Prop := ∀ before ev after, log = before ++ ev :: after → Permitted before ev

theorem ownerAt_append (e : EpId) (log : List Event) (ev : Event) (h : ¬ ev.Turns e) :
    ownerAt e (log ++ [ev]) = ownerAt e log := by
  unfold ownerAt
  rw [foldl_append]
  cases ev <;> simp_all [Event.Turns]

theorem justified_append {log : List Event} {ev : Event} (h : Justified log) (hev : Permitted log ev) :
    Justified (log ++ [ev]) := by
  intro before x after heq
  rcases eq_nil_or_concat after with rfl | ⟨after', y, rfl⟩
  · obtain ⟨rfl, hx⟩ := append_inj' heq rfl
    cases hx
    exact hev
  · rw [concat_eq_append, ← cons_append, ← append_assoc] at heq
    exact h before x after' (append_inj' heq rfl).1

/-! ## Rights -/

/-- A right of a smaller set is a right of a larger one. -/
theorem right_of_subset {rights held right : Nat} (hsub : rights &&& held = rights) (hr : rights &&& right = right) :
    held &&& right = right := by
  rw [← hr, ← Nat.and_assoc, Nat.and_comm held, hsub]

section Authority

variable {j : TaskId} {i : CapId} {e : EpId} {actor : Option TaskId} {m m' : Ipc} {right : Nat} {ev : Event}

/-! ## The invariant -/

/-- Every capability has a chain for every right in it, owners are the creators, and the history is justified. -/
structure Vested (m : Ipc) : Prop where
  chain : ∀ j i e, ((m.parties j).caps i).endpoint = some e → ∀ right, ((m.parties j).caps i).rights &&& right = right →
    Chain e right m.log (m.parties j).pid ((m.parties j).caps i).rights
  owner : ∀ e, (m.channels e).owner = ownerAt e m.log
  justified : Justified m.log

theorem Vested.of_has (h : Vested m) (hc : m.Has j i e right) :
    Chain e right m.log (m.parties j).pid ((m.parties j).caps i).rights := h.chain j i e hc.1 right hc.2

/-- Something happened that takes no endpoint away and makes none. -/
theorem Vested.record (h : Vested m) (hev : ∀ e, ¬ ev.Turns e) (hp : Permitted m.log ev) :
    Vested (m.record ev) where
  chain j i e hc right hr := Chain.later (h.chain j i e hc right hr) (hev e)
  owner e := by rw [Ipc.record, ownerAt_append e _ _ (hev e)]; exact h.owner e
  justified := justified_append h.justified hp

/-- A change that leaves the history and the owners alone, and takes capabilities away at most. -/
theorem Vested.keep (h : Vested m) (hlog : m'.log = m.log) (howner : ∀ e, (m'.channels e).owner = (m.channels e).owner)
    (hcap : ∀ j i e, ((m'.parties j).caps i).endpoint = some e →
      (m'.parties j).caps i = (m.parties j).caps i ∧ (m'.parties j).pid = (m.parties j).pid) : Vested m' where
  chain j i e hc right hr := by
    obtain ⟨hcap, hpid⟩ := hcap j i e hc
    rw [hcap] at hc hr
    rw [hcap, hpid, hlog]
    exact h.chain j i e hc right hr
  owner e := by rw [howner, hlog]; exact h.owner e
  justified := hlog ▸ h.justified

theorem Vested.setState (h : Vested m) {state : TaskState} : Vested (m.setState j state) :=
  h.keep rfl (fun _ => rfl) fun j' i e _ => ⟨by rw [setState_caps], setState_pid _ j'⟩

theorem Vested.setQueue (h : Vested m) {queue : List SfMessage} : Vested (m.setQueue e queue) := by
  refine h.keep rfl (fun e' => ?_) fun _ _ _ _ => ⟨rfl, rfl⟩
  unfold Ipc.setQueue
  by_cases he : e' = e
  · subst he
    simp
  · simp [he]

theorem Vested.drop (h : Vested m) (j : TaskId) (i : CapId) : Vested (m.drop j i) := by
  refine h.keep rfl (fun _ => rfl) fun j' i' e hc => ⟨?_, shrinks_drop.pid j'⟩
  obtain ⟨hne, _⟩ := drop_endpoint.1 hc
  rw [Ipc.drop, setCap_cap, if_neg hne]

theorem Vested.invalidate (h : Vested m) (e : EpId) : Vested (m.invalidate e) where
  chain j i e' hc right hr := by
    obtain ⟨hne, hc⟩ := invalidated_endpoint.1 hc
    have hcap : ((m.parties j).caps i).endpoint ≠ some e := fun he => hne (Option.some.inj (hc.symm.trans he))
    rw [invalidate_parties, invalidated_cap_of_ne hcap] at hr ⊢
    exact Chain.later (h.chain j i e' hc right hr) fun heq => hne heq.symm
  owner e' := by
    change _ = ownerAt e' (m.log ++ [.invalidated e])
    by_cases he : e' = e
    · subst he
      rw [invalidate_channel_self]
      simp [ownerAt, foldl_append]
    · have hev : ¬ (Event.invalidated e).Turns e' := fun heq => he heq.symm
      rw [invalidate_channel_of_ne he, ownerAt_append e' _ _ hev]
      exact h.owner e'
  justified := justified_append h.justified trivial

theorem put_cap (rights : Nat) (j' : TaskId) (i' : CapId) : ((m.put j i e rights).parties j').caps i' =
    if j' = j ∧ i' = i then ⟨some e, (m.channels e).epoch, rights, ((m.parties j).caps i).generation + 1⟩
    else (m.parties j').caps i' := by
  unfold Ipc.put
  rw [record_parties, setCap_cap]

/-- A new capability, with the event that explains it. -/
theorem Vested.put (h : Vested m) {rights : Nat} (hev : ∀ e, ¬ ev.Turns e)
    (hp : Permitted (m.put j i e rights).log ev) (hchain : ∀ right, rights &&& right = right →
      Chain e right ((m.put j i e rights).log ++ [ev]) (m.parties j).pid rights) :
    Vested ((m.put j i e rights).record ev) where
  chain j' i' e' hc right hr := by
    rw [record_parties] at hc hr ⊢
    rw [put_cap] at hc hr ⊢
    have hpid : ((m.put j i e rights).parties j').pid = (m.parties j').pid := (setCap_party _ j').1
    rw [hpid]
    split at hc
    · rename_i hji
      rw [if_pos hji] at hr ⊢
      cases hc
      rw [hji.1]
      exact hchain right hr
    · rename_i hji
      rw [if_neg hji] at hr ⊢
      exact Chain.later (Chain.later (h.chain j' i' e' hc right hr) id) (hev e')
  owner e' := by
    change (m.channels e').owner = ownerAt e' ((m.log ++ [_]) ++ [ev])
    rw [ownerAt_append e' _ _ (hev e'), ownerAt_append e' _ _ id]
    exact h.owner e'
  justified := justified_append (justified_append h.justified trivial) hp

/-- A new incarnation: nobody has a capability on the old one. -/
theorem Vested.create (h : Vested m) (hinv : CapInv none none m) (he : (m.channels e).owner = 0) :
    Vested (m.create j i e) := by
  have hcap : ∀ j' i' e', ((m.parties j').caps i').endpoint = some e' → e' ≠ e := fun j' i' e' hc heq =>
    (hinv.ref j' i' e' hc).1 (heq ▸ he)
  have hev : ∀ e', e' ≠ e → ¬ (Event.created e (m.parties j).pid).Turns e' := fun e' hne heq => hne heq.symm
  refine ⟨fun j' i' e' hc right hr => ?_, fun e' => ?_, justified_append (justified_append h.justified trivial) trivial⟩
  · unfold Ipc.create at hc hr ⊢
    rw [put_cap] at hc hr ⊢
    have hpid : ∀ m₁ : Ipc, ((m₁.put j i e 7).parties j').pid = (m₁.parties j').pid := fun _ => (setCap_party _ j').1
    rw [hpid]
    split at hc
    · rename_i hji
      rw [if_pos hji] at hr ⊢
      cases hc
      rw [hji.1]
      exact Chain.later (Chain.create hr) id
    · rename_i hji
      rw [if_neg hji] at hr ⊢
      exact Chain.later (Chain.later (h.chain j' i' e' hc right hr) (hev e' (hcap j' i' e' hc))) id
  · change (Function.update m.channels e _ e').owner = ownerAt e' ((m.log ++ [.created e (m.parties j).pid]) ++ [_])
    rw [ownerAt_append e' _ _ id]
    by_cases hee : e' = e
    · subst hee
      rw [Function.update_self]
      simp [ownerAt, foldl_append]
    · rw [Function.update_of_ne hee, ownerAt_append e' _ _ (hev e' hee)]
      exact h.owner e'

/-- **Every move keeps the chains.** -/
theorem move_vested (hinv : CapInv none none m) (h : Vested m) (hm : Move actor m m') : Vested m' := by
  cases hm with
  | create _ _ _ he => exact h.create hinv he
  | @derive j i₀ i e rights _ hc hsub hi =>
    have hd : Chain e rightDelegate (m.put j i e rights).log (m.parties j).pid (m.rightsAt j i₀) :=
      Chain.later (h.of_has hc) id
    refine h.put (fun _ => id) ⟨hd, hsub⟩ fun right hr => ?_
    have hheld := h.chain j i₀ e hc.1 right (right_of_subset hsub hr)
    exact Chain.derive (Chain.later hheld id) hc.2 hsub hr
  | @grant child _ hg =>
    obtain @⟨j, i₀, i, e, rights, _, hinit, _, _, hc, hsub, hi⟩ := hg
    have hd : Chain e rightDelegate (m.put child i e rights).log (m.parties j).pid (m.rightsAt j i₀) :=
      Chain.later (h.of_has hc) id
    refine h.put (fun _ => id) ⟨hinit, hd, hsub⟩ fun right hr => ?_
    have hheld := h.chain j i₀ e hc.1 right (right_of_subset hsub hr)
    rw [hinit] at hheld ⊢
    exact Chain.grant (Chain.later hheld id) hc.2 hsub hr
  | close => exact close_keeps (I := Vested) (fun _ j i h => h.drop j i) (fun _ e h => h.invalidate e) h
  | @revoke j i e _ hc ho =>
    have hp : Permitted m.log (.revoked e (m.parties j).pid (m.rightsAt j i)) := ⟨h.of_has hc, (h.owner e).symm.trans ho⟩
    exact (h.record (fun _ => id) hp).invalidate e
  | cancel _ hc => exact h.setQueue.record (fun _ => id) ⟨_, h.of_has hc⟩
  | @deliver j r i e x _ hc hb hw =>
    obtain ⟨i', e', hw', hc'⟩ := hinv.blocked r nofun hb
    cases hw.symm.trans hw'
    have hsend : Permitted (m.setState r .ready).log (.sent e (m.parties j).pid x) := ⟨_, h.of_has hc⟩
    exact (h.setState.record (fun _ => id) hsend).record (fun _ => id) ⟨_, Chain.later (h.of_has hc') id⟩
  | enqueue _ hc => exact h.setQueue.record (fun _ => id) ⟨_, h.of_has hc⟩
  | dequeue _ hc => exact h.setQueue.record (fun _ => id) ⟨_, h.of_has hc⟩
  | @block j _ e =>
    refine h.keep rfl (fun _ => rfl) fun j' i' e' _ => ?_
    by_cases hj : j' = j
    · subst hj
      simp
    · simp [hj]
  | @occupy j hs =>
    refine h.keep rfl (fun _ => rfl) fun j' i' e' hc => ?_
    by_cases hj : j' = j
    · subst hj
      rw [occupy_party_self] at hc
      cases hc
    · rw [occupy_party_of_ne hj]
      exact ⟨rfl, rfl⟩
  | ready => exact h.setState
  | tick ht =>
    cases ht with
    | wake => exact h.setState
    | die => exact (cleanup_keeps (I := Vested) (fun _ j i h => h.drop j i) (fun _ e h => h.invalidate e) h).setState

variable {L : Layout} {k : Kernel}

theorem reach_vested (h : Reach L k) : Vested k.ipc := by
  refine (reach_keeps (I := fun m => CapInv none none m ∧ Vested m) (fun mem iommu mmioReady => ?_) ?_ h).2
  · exact ⟨reach_capInv (Reach.init (L := L) mem iommu mmioReady), nofun, fun _ => rfl,
      fun before ev after heq => by simp [initial, Kernel.ipc] at heq⟩
  · exact fun hm hstep => ⟨move_capInv hm.1 hstep, move_vested hm.1 hm.2 hstep⟩

/-! ## Gains -/

/-- How `t` can come by a capability while `actor` acts: as the creator of the endpoint, out of one of its own, or, as a new
task, out of one of PID 1's. -/
inductive Gains (actor : Option TaskId) (m m' : Ipc) (t : TaskId) (e : EpId) (rights : Nat) : Prop
  | created (ends : List EpId) (h : Nat) (ha : actor = some t) (hr : rights = 7)
      (hlog : m'.log = m.log ++ ends.map Event.invalidated ++ [.created e (m.parties t).pid, .installed t h])
  | derived {i₀ : CapId} (ends : List EpId) (h : Nat) (ha : actor = some t) (hc : m.Has t i₀ e rightDelegate)
      (hsub : rights &&& m.rightsAt t i₀ = rights) (hlog : m'.log = m.log ++ ends.map Event.invalidated ++
        [.installed t h, .derived e (m.parties t).pid (m.rightsAt t i₀) rights])
  | granted {s : TaskId} {i₀ : CapId} (ha : actor = some s) (hinit : (m.parties s).pid = 1)
      (hnew : (m'.parties t).pid = m.nextPid) (hc : m.Has s i₀ e rightDelegate) (hsub : rights &&& m.rightsAt s i₀ = rights)

theorem Fades.cap_eq (h : Fades m m') (hc : ((m'.parties j).caps i).endpoint = some e) :
    (m'.parties j).caps i = (m.parties j).caps i := by
  rcases h.cap j i with heq | heq
  · exact heq
  · rw [heq] at hc
    cases hc

theorem Fades.has (h : Fades m m') (hc : m'.Has j i e right) : m.Has j i e right ∧
    m'.rightsAt j i = m.rightsAt j i := by
  have heq := h.cap_eq hc.1
  unfold Ipc.Has Ipc.rightsAt at *
  rw [heq] at hc
  exact ⟨hc, by rw [heq]⟩

/-- What is gained after ticks is gained from before them. -/
theorem Gains.of_fades {m₀ : Ipc} {rights : Nat} (h : Fades m₀ m) (hg : Gains actor m m' j e rights) :
    Gains actor m₀ m' j e rights := by
  cases hg with
  | created ends x ha hr hlog =>
    obtain ⟨ends', hlog'⟩ := h.log
    refine Gains.created (ends' ++ ends) x ha hr ?_
    rw [hlog, hlog', h.pid]
    simp
  | derived ends x ha hc hsub hlog =>
    obtain ⟨hc', hrights⟩ := h.has hc
    obtain ⟨ends', hlog'⟩ := h.log
    refine Gains.derived (ends' ++ ends) x ha hc' (hrights ▸ hsub) ?_
    rw [hlog, hlog', h.pid, hrights]
    simp
  | granted ha hinit hnew hc hsub =>
    obtain ⟨hc', hrights⟩ := h.has hc
    exact Gains.granted ha ((h.pid _).symm.trans hinit) (hnew.trans h.nextPid) hc' (hrights ▸ hsub)

/-- During a birth only the child gains, and only from the task that acts. -/
theorem grants_gain {child : TaskId} (hne : actor ≠ some child)
    (hg : Relation.ReflTransGen (Grant actor child) (m.occupy child) m') :
    (∀ t, t ≠ child → m'.parties t = m.parties t) ∧ (m'.parties child).pid = m.nextPid ∧
      ∀ i e, ((m'.parties child).caps i).endpoint = some e → ∃ s i₀, actor = some s ∧ (m.parties s).pid = 1 ∧
        m.Has s i₀ e rightDelegate ∧ ((m'.parties child).caps i).rights &&& m.rightsAt s i₀ =
          ((m'.parties child).caps i).rights := by
  induction hg with
  | refl =>
    refine ⟨fun t ht => occupy_party_of_ne ht, ?_, fun i e hc => ?_⟩
    · rw [occupy_party_self]
    · rw [occupy_party_self] at hc
      cases hc
  | @tail m₁ m₂ _ hstep ih =>
    obtain ⟨hother, hpid, hgain⟩ := ih
    obtain @⟨s, i₀, i, e, rights, ha, hinit, _, _, hc, hsub, _⟩ := hstep
    have hs : m₁.parties s = m.parties s := hother s fun heq => hne (heq ▸ ha)
    refine ⟨fun t ht => ?_, (setCap_party _ child).1.trans hpid, fun i' e' hc' => ?_⟩
    · rw [← hother t ht]
      exact Function.update_of_ne ht _ _
    rw [record_parties] at hc' ⊢
    rw [put_cap] at hc' ⊢
    split at hc'
    · rename_i hi
      cases hc'
      rw [if_pos hi]
      refine ⟨s, i₀, ha, hs ▸ hinit, ?_, ?_⟩
      · unfold Ipc.Has at hc ⊢
        rwa [hs] at hc
      · unfold Ipc.rightsAt at hsub ⊢
        rwa [hs] at hsub
    · rename_i hi
      rw [if_neg hi]
      exact hgain i' e' hc'

/-- **What a turn gives to whom.** -/
theorem turn_gains (hs : Settled m) (ht : Turn actor m m') (t : TaskId) (i : CapId) {e : EpId}
    (hc : ((m'.parties t).caps i).endpoint = some e) :
    (m'.parties t).caps i = (m.parties t).caps i ∨ Gains actor m m' t e ((m'.parties t).caps i).rights := by
  cases ht with
  | idle => exact Or.inl rfl
  | move hm =>
    cases hm with
    | @create j i' e' ha _ _ _ =>
      unfold Ipc.create at hc ⊢
      rw [put_cap] at hc ⊢
      split at hc
      · rename_i hi
        cases hc
        rw [if_pos hi]
        refine Or.inr (Gains.created [] (handle (((m.parties j).caps i').generation + 1) i') (hi.1 ▸ ha) rfl ?_)
        rw [hi.1]
        simp [Ipc.put, Ipc.record, Ipc.setCap, Ipc.setParty, Ipc.setChannel]
      · rename_i hi
        rw [if_neg hi]
        exact Or.inl rfl
    | @derive j i₀ i' e' rights ha hc₀ hsub _ =>
      rw [record_parties] at hc ⊢
      rw [put_cap] at hc ⊢
      split at hc
      · rename_i hi
        cases hc
        rw [if_pos hi, hi.1]
        refine Or.inr (Gains.derived [] (handle (((m.parties j).caps i').generation + 1) i') ha hc₀ hsub ?_)
        simp [Ipc.put, Ipc.record, Ipc.setCap, Ipc.setParty]
      · rename_i hi
        rw [if_neg hi]
        exact Or.inl rfl
    | @grant child _ hg =>
      -- Nobody is under construction here.
      obtain ⟨_, _, he, hp, _, _, _⟩ := hg
      exact absurd (hs child he) hp
    | close => exact Or.inl (shrinks_close.toFades.cap_eq hc)
    | revoke => exact Or.inl (shrinks_invalidate.toFades.cap_eq hc)
    | cancel => exact Or.inl rfl
    | deliver => exact Or.inl ((fades_setState .ready).cap_eq hc)
    | enqueue => exact Or.inl rfl
    | dequeue => exact Or.inl rfl
    | @block j _ e' =>
      have hcaps := setParty_caps (m := m) (j := j) (p := { m.parties j with state := .blocked, wait := some e' }) rfl t
      exact Or.inl (by rw [hcaps])
    | @occupy j hv =>
      by_cases hj : t = j
      · subst hj
        rw [occupy_party_self] at hc
        cases hc
      · rw [occupy_party_of_ne hj]
        exact Or.inl rfl
    | ready => exact Or.inl ((fades_setState .ready).cap_eq hc)
    | tick ht => exact Or.inl ((tick_fades ht).cap_eq hc)
  | @spawn child m₁ hv hne hp hg =>
    obtain ⟨hother, hpid, hgain⟩ := grants_gain hne hg
    have hcap := (fades_setState (m := m₁) (j := child) .ready).cap_eq hc
    rw [hcap] at hc ⊢
    by_cases hj : t = child
    · subst hj
      obtain ⟨s, i₀, ha, hinit, hc₀, hsub⟩ := hgain i e hc
      exact Or.inr (Gains.granted ha hinit ((setState_pid _ t).trans hpid) hc₀ hsub)
    · rw [hother t hj]
      exact Or.inl rfl
  | @abort child m₁ hv hne hp hg =>
    obtain ⟨hother, _, _⟩ := grants_gain hne hg
    have hcap := (fades_setState (m := m₁.cleanup child) (j := child) .dead).cap_eq hc
    rw [hcap] at hc ⊢
    by_cases hj : t = child
    · subst hj
      rw [cleanup_slots] at hc
      cases hc
    · rw [shrinks_cleanup.toFades.cap_eq hc, hother t hj]
      exact Or.inl rfl

theorem ticks_fades (h : Ticks m m') : Fades m m' := by
  induction h with
  | refl => exact Fades.refl
  | tail _ hstep ih => exact ih.trans (tick_fades hstep)

/-! ## Acts -/

/-- The task with this pid has the right on the endpoint now. -/
def Holder (m : Ipc) (pid : Nat) (e : EpId) (right : Nat) : Prop := ∃ j i, (m.parties j).pid = pid ∧ m.Has j i e right

/-- Whoever did this has, in `m`, the right to. -/
def Entitled (m : Ipc) : Event → Prop
  | .sent e pid _ => Holder m pid e rightSend
  | .delivered e pid _ _ => Holder m pid e rightRecv
  | .cancelled e pid _ => Holder m pid e rightSend
  | .derived e pid _ _ => Holder m pid e rightDelegate
  | .granted e parent _ _ _ => parent = 1 ∧ Holder m parent e rightDelegate
  | .revoked e pid _ => Holder m pid e rightDelegate ∧ (m.channels e).owner = pid
  | _ => True

theorem Fades.holder {pid : Nat} (h : Fades m m') (hh : Holder m' pid e right) : Holder m pid e right := by
  obtain ⟨j, i, hp, hc⟩ := hh
  exact ⟨j, i, (h.pid j).symm.trans hp, (h.has hc).1⟩

theorem Fades.entitled (h : Fades m m') (hlive : ∀ j i e, ((m'.parties j).caps i).endpoint = some e → (m'.parties j).pid ≠ 0)
    (he : Entitled m' ev) : Entitled m ev := by
  cases ev with
  | sent => exact h.holder he
  | delivered => exact h.holder he
  | cancelled => exact h.holder he
  | derived => exact h.holder he
  | granted => exact ⟨he.1, h.holder he.2⟩
  | revoked e pid held =>
    refine ⟨h.holder he.1, ?_⟩
    obtain ⟨j, i, hp, hc⟩ := he.1
    rcases h.owner e with heq | h0
    · exact heq.symm.trans he.2
    · exact absurd (hp.trans (he.2.symm.trans h0)) (hlive j i e hc.1)
  | _ => trivial

/-- The history grows by acts that `m` entitles someone to. -/
def Acts (m m' : Ipc) : Prop := ∃ acts, m'.log = m.log ++ acts ∧ ∀ ev ∈ acts, Entitled m ev

theorem Fades.acts (h : Fades m m') : Acts m m' := by
  obtain ⟨ends, hlog⟩ := h.log
  refine ⟨_, hlog, fun ev hev => ?_⟩
  obtain ⟨e, _, rfl⟩ := mem_map.1 hev
  trivial

theorem grants_acts {child : TaskId} (hne : actor ≠ some child)
    (hg : Relation.ReflTransGen (Grant actor child) (m.occupy child) m') : Acts m m' := by
  induction hg with
  | refl => exact ⟨[], (append_nil _).symm, nofun⟩
  | @tail m₁ m₂ hg hstep ih =>
    obtain ⟨hother, _, _⟩ := grants_gain hne hg
    obtain ⟨acts, hlog, hacts⟩ := ih
    obtain @⟨s, i₀, i, e, rights, ha, hinit, _, _, hc, _, _⟩ := hstep
    have hs : m₁.parties s = m.parties s := hother s fun heq => hne (heq ▸ ha)
    have hc' : m.Has s i₀ e rightDelegate := by
      unfold Ipc.Has at hc ⊢
      rwa [hs] at hc
    obtain ⟨x, hput⟩ : ∃ x, (m₁.put child i e rights).log = m₁.log ++ [.installed child x] := ⟨_, rfl⟩
    refine ⟨acts ++ [.installed child x, .granted e (m₁.parties s).pid (m₁.parties child).pid (m₁.rightsAt s i₀) rights],
      by rw [Ipc.record, hput, hlog]; simp, fun ev hev => ?_⟩
    rcases mem_append.1 hev with hev | hev
    · exact hacts ev hev
    rcases mem_cons.1 hev with rfl | hev
    · trivial
    · rw [mem_singleton.1 hev]
      exact ⟨hinit, s, i₀, by rw [hs], hc'⟩

theorem turn_acts (hinv : CapInv none none m) (ht : Turn actor m m') : Acts m m' := by
  cases ht with
  | idle => exact Fades.refl.acts
  | move hm =>
    cases hm with
    | create => exact ⟨[_, _], append_assoc _ _ _, by simp [Entitled]⟩
    | @derive j i₀ _ _ _ _ hc =>
      refine ⟨[_, _], append_assoc _ _ _, ?_⟩
      simpa [Entitled] using ⟨j, i₀, rfl, hc⟩
    | @grant child _ hg =>
      obtain @⟨j, i₀, _, _, _, _, hinit, _, _, hc, _, _⟩ := hg
      refine ⟨[_, _], append_assoc _ _ _, ?_⟩
      simpa [Entitled] using ⟨hinit, j, i₀, rfl, hc⟩
    | close => exact shrinks_close.toFades.acts
    | @revoke j i _ _ hc ho =>
      refine ⟨[_, _], append_assoc _ _ _, ?_⟩
      simpa [Entitled] using ⟨⟨j, i, rfl, hc⟩, ho⟩
    | @cancel j i _ _ _ hc =>
      refine ⟨[_], rfl, ?_⟩
      simpa [Entitled] using ⟨j, i, rfl, hc⟩
    | @deliver j r i e _ _ hc hb hw =>
      obtain ⟨i', e', hw', hc'⟩ := hinv.blocked r nofun hb
      cases hw.symm.trans hw'
      refine ⟨[_, _], append_assoc _ _ _, ?_⟩
      simpa [Entitled] using ⟨⟨j, i, rfl, hc⟩, r, i', rfl, hc'⟩
    | @enqueue j i _ _ _ hc =>
      refine ⟨[_], rfl, ?_⟩
      simpa [Entitled] using ⟨j, i, rfl, hc⟩
    | @dequeue j i _ _ _ _ hc =>
      refine ⟨[_], rfl, ?_⟩
      simpa [Entitled] using ⟨j, i, rfl, hc⟩
    | block => exact ⟨[], (append_nil _).symm, nofun⟩
    | occupy => exact ⟨[], (append_nil _).symm, nofun⟩
    | ready => exact (fades_setState .ready).acts
    | tick ht => exact (tick_fades ht).acts
  | spawn _ hne _ hg =>
    obtain ⟨acts, hlog, hacts⟩ := grants_acts hne hg
    exact ⟨acts, hlog, hacts⟩
  | abort _ hne _ hg =>
    obtain ⟨acts, hlog, hacts⟩ := grants_acts hne hg
    obtain ⟨ends, hlog'⟩ := (tick_fades (Tick.die (m := _))).log
    refine ⟨acts ++ ends.map Event.invalidated, by rw [hlog', hlog, append_assoc], fun ev hev => ?_⟩
    rcases mem_append.1 hev with hev | hev
    · exact hacts ev hev
    · obtain ⟨e, _, rfl⟩ := mem_map.1 hev
      trivial

/-! ## Steps and runs -/

/-- What a step gives to whom. -/
theorem step_gains (h : Reach L k) (a : Action) (t : TaskId) (i : CapId) {e : EpId}
    (hc : (((step L k a).tasks t).caps i).endpoint = some e) :
    ((step L k a).tasks t).caps i = (k.tasks t).caps i ∨
      Gains k.actor k.ipc (step L k a).ipc t e (((step L k a).tasks t).caps i).rights := by
  have hbound := reach_bound h
  obtain ⟨m₁, hticks, hturn⟩ := (step_sim L hbound a).rel
  have hfades := ticks_fades hticks
  rcases turn_gains (ticks_settled hticks hbound.settled) hturn t i hc with heq | hg
  · have hc' : ((m₁.parties t).caps i).endpoint = some e := by
      rw [← heq]
      exact hc
    exact Or.inl (heq.trans (hfades.cap_eq hc'))
  · exact Or.inr (hg.of_fades hfades)

theorem step_acts (h : Reach L k) (a : Action) : Acts k.ipc (step L k a).ipc := by
  obtain ⟨m₁, hticks, hturn⟩ := (step_sim L (reach_bound h) a).rel
  have hfades := ticks_fades hticks
  have hinv : CapInv none none m₁ :=
    moves_keep (I := CapInv none none) move_capInv (hticks.lift id fun _ _ h => (Move.tick h : Move none _ _))
      (reach_capInv h)
  have hlive : ∀ j i e, ((m₁.parties j).caps i).endpoint = some e → (m₁.parties j).pid ≠ 0 := fun j i e hc h0 => by
    rw [hinv.idle j (Or.inr h0) i] at hc
    cases hc
  obtain ⟨ends, hlog⟩ := hfades.log
  obtain ⟨acts, hlog', hacts⟩ := turn_acts hinv hturn
  refine ⟨ends.map Event.invalidated ++ acts, by rw [hlog', hlog, append_assoc], fun ev hev => ?_⟩
  rcases mem_append.1 hev with hev | hev
  · obtain ⟨e, _, rfl⟩ := mem_map.1 hev
    trivial
  · exact hfades.entitled hlive (hacts ev hev)

structure Confined (L : Layout) (k : Kernel) : Prop where
  /-- Whatever the next step is, a capability in it that is new was created, derived or granted. -/
  gains : ∀ a t i e, (((step L k a).tasks t).caps i).endpoint = some e →
    ((step L k a).tasks t).caps i = (k.tasks t).caps i ∨
      Gains k.actor k.ipc (step L k a).ipc t e (((step L k a).tasks t).caps i).rights
  /-- Whatever the next step is, whoever sends, receives, cancels, derives, grants or revokes in it has the right to. -/
  acts : ∀ a, Acts k.ipc (step L k a).ipc
  /-- Every right of a capability has a chain from the creator of the endpoint that carries it at every link. -/
  chained : ∀ j i e, ((k.tasks j).caps i).endpoint = some e → ∀ right, ((k.tasks j).caps i).rights &&& right = right →
    Chain e right k.log (k.tasks j).pid ((k.tasks j).caps i).rights
  /-- Everything done so far had such a chain behind it. -/
  justified : Justified k.log

/-- **Authority only shrinks.** -/
theorem authority_shrinks (h : Reach L k) : Confined L k :=
  ⟨fun a t i _ hc => step_gains h a t i hc, step_acts h, (reach_vested h).chain, (reach_vested h).justified⟩

theorem authority_shrinks_talk : Confined sampleLayout sampleTalk := authority_shrinks reach_sampleTalk

/-! ## Groups -/

open Function

variable {k' : Kernel} {n : Nat} {S : Nat → Prop} {side : EpId → Prop} {p : Party}

/-- Who holds an endpoint is in the group exactly if the endpoint is on its side. -/
def Sides (S : Nat → Prop) (side : EpId → Prop) (m : Ipc) : Prop :=
  ∀ j i e, ((m.parties j).caps i).endpoint = some e → (S (m.parties j).pid ↔ side e)

/-- No endpoint is shared by the group and the rest. -/
def Sealed (S : Nat → Prop) (m : Ipc) : Prop := ∃ side, Sides S side m

/-- Whoever is under construction has a pid from `n` on. -/
structure Fresh (n : Nat) (m : Ipc) : Prop where
  nextPid : n ≤ m.nextPid
  pid : ∀ j, (m.parties j).state = .empty → (m.parties j).pid = 0 ∨ n ≤ (m.parties j).pid

theorem fresh_update (h : Fresh n m) (hn : m.nextPid ≤ m'.nextPid) (hm : m'.parties = update m.parties j p)
    (hp : p.state = .empty → p.pid = 0 ∨ n ≤ p.pid) : Fresh n m' := by
  refine ⟨h.nextPid.trans hn, ?_⟩
  rw [hm]
  exact (forall_update_iff _ fun _ (q : Party) => q.state = .empty → q.pid = 0 ∨ n ≤ q.pid).2 ⟨hp, fun j _ => h.pid j⟩

theorem Shrinks.fresh (hs : Shrinks m m') (h : Fresh n m) : Fresh n m' := by
  refine ⟨hs.nextPid ▸ h.nextPid, fun j he => ?_⟩
  rw [hs.pid]
  rcases hs.state j with heq | ⟨_, hr⟩
  · exact h.pid j (heq.symm.trans he)
  · cases hr.symm.trans he

theorem move_fresh (h : Fresh n m) (hm : Move actor m m') : Fresh n m' := by
  cases hm with
  | create | derive => exact fresh_update h le_rfl rfl (h.pid _)
  | grant hg =>
    obtain ⟨_, _, _, _, _, _, _⟩ := hg
    exact fresh_update h le_rfl rfl (h.pid _)
  | close => exact shrinks_close.fresh h
  | revoke => exact shrinks_invalidate.fresh (m := m.record _) ⟨h.nextPid, h.pid⟩
  | cancel | enqueue | dequeue => exact ⟨h.nextPid, h.pid⟩
  | deliver | block | ready => exact fresh_update h le_rfl rfl nofun
  | occupy => exact fresh_update h (Nat.le_succ _) rfl fun _ => .inr h.nextPid
  | tick ht =>
    cases ht with
    | wake => exact fresh_update h le_rfl rfl nofun
    | @die j =>
      have h' := (shrinks_cleanup (j := j)).fresh h
      generalize m.cleanup j = m₁ at h' ⊢
      exact fresh_update h' le_rfl rfl nofun

theorem sides_update (h : Sides S side m) (hm : m'.parties = update m.parties j p)
    (hp : ∀ i e, (p.caps i).endpoint = some e → (S p.pid ↔ side e)) : Sides S side m' := by
  unfold Sides
  exact hm ▸ (forall_update_iff _ fun _ (q : Party) => ∀ i e, (q.caps i).endpoint = some e → (S q.pid ↔ side e)).2
    ⟨hp, fun j _ => h j⟩

theorem sides_put {rights : Nat} (h : Sides S side m) (he : S (m.parties j).pid ↔ side e) :
    Sides S side (m.put j i e rights) := by
  refine sides_update h rfl ((forall_update_iff (m.parties j).caps fun _ c => ∀ e', c.endpoint = some e' →
    (S (m.parties j).pid ↔ side e')).2 ⟨?_, fun i' _ => h j i'⟩)
  rintro _ ⟨⟩
  exact he

theorem Fades.sides (hf : Fades m m') (h : Sides S side m) : Sides S side m' := by
  intro j i e hc
  rw [hf.pid]
  exact h j i e (hf.cap_eq hc ▸ hc)

theorem move_sealed (hinv : CapInv none none m) (hnew : ∀ j, (m.parties j).state = .empty → (m.parties j).pid ≠ 0 →
    (S (m.parties j).pid ↔ S 1)) (h : Sealed S m) (hm : Move actor m m') : Sealed S m' := by
  obtain ⟨side, h⟩ := h
  cases hm with
  | @create j i e _ _ _ he =>
    -- nobody holds an endpoint that has no owner
    refine ⟨update side e (S (m.parties j).pid), sides_put (fun j' i' e' hc => ?_) (by rw [update_self]; rfl)⟩
    have hne : e' ≠ e := by
      rintro rfl
      exact (hinv.ref j' i' e' hc).1 he
    rw [update_of_ne hne]
    exact h j' i' e' hc
  | derive _ hc => exact ⟨side, sides_put h (h _ _ _ hc.1)⟩
  | grant hg =>
    obtain @⟨j, i₀, i, e, rights, _, hinit, hempty, hp, hc, _, _⟩ := hg
    exact ⟨side, sides_put h ((hnew _ hempty hp).trans (hinit ▸ h _ _ _ hc.1))⟩
  | close => exact ⟨side, shrinks_close.sides h⟩
  | revoke => exact ⟨side, shrinks_invalidate.sides (m := m.record _) h⟩
  | cancel | enqueue | dequeue => exact ⟨side, h⟩
  | deliver | block | ready => exact ⟨side, sides_update h rfl (h _)⟩
  | occupy => exact ⟨side, sides_update h rfl (by simp)⟩
  | tick ht => exact ⟨side, (tick_fades ht).sides h⟩

/-- **Groups stay sealed**, when whoever is still to come is counted to the side of PID 1. -/
theorem groups_stay_sealed (h : Reach L k) (hS : ∀ p, k.nextPid ≤ p → (S p ↔ S 1)) (hk : Sealed S k.ipc)
    (hl : Later L k k') : Sealed S k'.ipc := by
  refine (later_keeps (I := fun m => (CapInv none none m ∧ Fresh k.nextPid m) ∧ Sealed S m) ?_ h
    ⟨⟨reach_capInv h, le_rfl, fun j he => .inl ((reach_bound h).settled j he)⟩, hk⟩ hl).2
  rintro actor m m' ⟨⟨hinv, hf⟩, hs⟩ hm
  refine ⟨⟨move_capInv hinv hm, move_fresh hf hm⟩, move_sealed hinv (fun j he h0 => ?_) hs hm⟩
  exact hS _ ((hf.pid j he).resolve_left h0)

theorem sealed_own (h : ∀ j i e, ((k.tasks j).caps i).endpoint = some e → (k.tasks j).pid = e + 1) :
    Sealed (· ≠ 2) k.ipc := by
  refine ⟨fun e => e.val ≠ 1, fun j i e hc => ?_⟩
  have hpid : (k.ipc.parties j).pid = e + 1 := h j i e hc
  dsimp only
  omega

/-- PID 2 on one side and the rest on the other; in the step PID 1 makes another endpoint. -/
theorem groups_stay_sealed_talk :
    (sampleTalk.tasks 0).pid = 1 ∧ (sampleTalk.tasks 1).pid = 2 ∧ Sealed (· ≠ 2) sampleTalk.ipc ∧
    Sealed (· ≠ 2) (step sampleLayout sampleTalk (.interrupt 128 ⟨4, 0, 0, 0, sfStack - 8⟩ [] [])).ipc := by
  obtain ⟨hinit, hsecond, hnext, _, _, _, hown⟩ := sampleTalk_spec
  refine ⟨hinit, hsecond, sealed_own hown,
    groups_stay_sealed reach_sampleTalk (fun p hp => ?_) (sealed_own hown) (.step .refl _)⟩
  rw [hnext] at hp
  omega

end Authority

end SpiritFox.Core
