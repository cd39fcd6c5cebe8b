import SpiritFox.Kernel.Runs

/-!
# Handles

A capability slot keeps its generation when it is emptied and when its task slot is reused, and counts up when it is
filled, so it never goes back to a handle it has left behind (`Ages`). A slot whose generation has reached the end
is not filled again.
-/

namespace SpiritFox.Core

open Ipc

/-! ## The number -/

theorem handle_eq (generation : Nat) (i : CapId) : handle generation i = generation * 256 + (i + 1) := by
  unfold handle
  rw [← Nat.shiftLeft_add_eq_or_of_lt (by omega), Nat.shiftLeft_eq]

theorem handle_mod (generation : Nat) (i : CapId) : handle generation i % 256 = i + 1 := by
  rw [handle_eq]
  omega

theorem handle_div (generation : Nat) (i : CapId) : handle generation i / 256 = generation := by
  rw [handle_eq]
  omega

section Handles

variable {k k' : Kernel} {j : TaskId} {i : CapId} {e : EpId} {actor : Option TaskId} {m m' : Ipc} {g h : Nat}

/-! ## What a slot goes through -/

/-- The slot is as before, or has been emptied, or has been filled since. -/
def Ages (c c' : Cap) : Prop := c' = c ∨ c' = { c with endpoint := none } ∨ c.generation < c'.generation

theorem Ages.le {c c' : Cap} (h : Ages c c') (hg : g ≤ c.generation) : g ≤ c'.generation := by
  rcases h with rfl | rfl | h
  · exact hg
  · exact hg
  · exact Nat.le_trans hg (Nat.le_of_lt h)

theorem Fades.ages (h : Fades m m') (j : TaskId) (i : CapId) : Ages ((m.parties j).caps i) ((m'.parties j).caps i) :=
  (h.cap j i).imp_right Or.inl

theorem put_ages (j : TaskId) (i : CapId) (e : EpId) (rights : Nat) (j' : TaskId) (i' : CapId) :
    Ages ((m.parties j').caps i') (((m.put j i e rights).parties j').caps i') := by
  unfold Ipc.put
  rw [record_parties, setCap_cap]
  split
  · rename_i h
    rw [h.1, h.2]
    exact Or.inr (Or.inr (Nat.lt_succ_self _))
  · exact Or.inl rfl

/-- **No move takes a slot back.** -/
theorem move_ages (hm : Move actor m m') (j : TaskId) (i : CapId) : Ages ((m.parties j).caps i) ((m'.parties j).caps i) := by
  cases hm with
  | create => exact put_ages _ _ _ _ j i
  | derive => exact put_ages _ _ _ _ j i
  | grant hg =>
    obtain ⟨_, _, _, _, _, _, _⟩ := hg
    exact put_ages _ _ _ _ j i
  | close => exact shrinks_close.toFades.ages j i
  | revoke => exact shrinks_invalidate.toFades.ages j i
  | cancel => exact Or.inl rfl
  | deliver => exact (fades_setState .ready).ages j i
  | enqueue => exact Or.inl rfl
  | dequeue => exact Or.inl rfl
  | @block j' _ e =>
    have hcaps := setParty_caps (m := m) (j := j') (p := { m.parties j' with state := .blocked, wait := some e }) rfl j
    exact Or.inl (by rw [hcaps])
  | @occupy j' hs =>
    by_cases hj : j = j'
    · subst hj
      rw [occupy_party_self]
      exact Or.inr (Or.inl rfl)
    · rw [occupy_party_of_ne hj]
      exact Or.inl rfl
  | ready => exact (fades_setState .ready).ages j i
  | tick ht => exact (tick_fades ht).ages j i

/-! ## What has been handed out -/

/-- The handles that were installed in a task slot, in order. -/
def issued (j : TaskId) (log : List Event) : List Nat :=
  log.filterMap fun
    | .installed j' h => if j' = j then some h else none
    | _ => none

theorem issued_append (log log' : List Event) : issued j (log ++ log') = issued j log ++ issued j log' :=
  List.filterMap_append

theorem mem_issued {log : List Event} : h ∈ issued j log ↔ Event.installed j h ∈ log := by
  unfold issued
  rw [List.mem_filterMap]
  constructor
  · rintro ⟨ev, hmem, hev⟩
    split at hev
    · rename_i j' h'
      split at hev
      · rename_i hj
        cases hev
        exact hj ▸ hmem
      · cases hev
    · cases hev
  · intro hmem
    exact ⟨_, hmem, by simp⟩

theorem Fades.issued (h : Fades m m') (j : TaskId) : issued j m'.log = issued j m.log := by
  obtain ⟨ends, he⟩ := h.log
  have hnone : Core.issued j (ends.map Event.invalidated) = [] := by
    simp [Core.issued, List.filterMap_map]
  rw [he, issued_append, hnone, List.append_nil]

/-- Every handle that was handed out names a generation that its slot has reached, each once; and a filled slot
answers to one of them. -/
structure Numbered (m : Ipc) : Prop where
  reached : ∀ j, ∀ h ∈ issued j m.log, ∃ i g, h = handle g i ∧ 0 < g ∧ g ≤ 0x7fffff ∧ g ≤ ((m.parties j).caps i).generation
  distinct : ∀ j, (issued j m.log).Nodup
  filled : ∀ j i, ((m.parties j).caps i).endpoint ≠ none → handle ((m.parties j).caps i).generation i ∈ issued j m.log

/-- A change that hands out nothing and at most empties slots. -/
theorem Numbered.keep (h : Numbered m) (hlog : ∀ j, issued j m'.log = issued j m.log)
    (hcap : ∀ j i, (m'.parties j).caps i = (m.parties j).caps i ∨
      (m'.parties j).caps i = { (m.parties j).caps i with endpoint := none }) : Numbered m' where
  reached j x hx := by
    rw [hlog] at hx
    obtain ⟨i, g, heq, h0, hmax, hle⟩ := h.reached j x hx
    refine ⟨i, g, heq, h0, hmax, ?_⟩
    rcases hcap j i with hc | hc <;> rw [hc] <;> exact hle
  distinct j := by
    rw [hlog]
    exact h.distinct j
  filled j i hne := by
    rw [hlog]
    rcases hcap j i with hc | hc <;> rw [hc] at hne ⊢
    · exact h.filled j i hne
    · exact absurd rfl hne

theorem Numbered.record (h : Numbered m) {ev : Event} (hev : ∀ j x, ev ≠ .installed j x) : Numbered (m.record ev) := by
  refine h.keep (fun j => ?_) fun _ _ => Or.inl rfl
  have hnone : issued j [ev] = [] := by
    cases ev with
    | installed j' x => exact absurd rfl (hev j' x)
    | _ => rfl
  rw [Ipc.record, issued_append, hnone, List.append_nil]

theorem Numbered.put (h : Numbered m) (hf : m.Free j i) (rights : Nat) : Numbered (m.put j i e rights) := by
  have hcap : ∀ j' i', ((m.put j i e rights).parties j').caps i' = if j' = j ∧ i' = i then
      ⟨some e, (m.channels e).epoch, rights, ((m.parties j).caps i).generation + 1⟩ else (m.parties j').caps i' :=
        fun j' i' => by
    unfold Ipc.put
    rw [record_parties, setCap_cap]
  have hlog : ∀ j', issued j' (m.put j i e rights).log = issued j' m.log ++
      if j' = j then [handle (((m.parties j).caps i).generation + 1) i] else [] := fun j' => by
    unfold Ipc.put Ipc.record
    rw [issued_append]
    by_cases hj : j' = j
    · subst hj
      simp [issued, Ipc.setCap, Ipc.setParty]
    · simp [issued, Ipc.setCap, Ipc.setParty, hj, Ne.symm hj]
  refine ⟨fun j' x hx => ?_, fun j' => ?_, fun j' i' hne => ?_⟩
  · rw [hlog, List.mem_append] at hx
    rcases hx with hx | hx
    · obtain ⟨i', g, heq, h0, hmax, hle⟩ := h.reached j' x hx
      refine ⟨i', g, heq, h0, hmax, ?_⟩
      rw [hcap]
      split
      · rename_i hji
        rw [hji.1, hji.2] at hle
        exact Nat.le_succ_of_le hle
      · exact hle
    · split at hx
      · rename_i hj
        rw [List.mem_singleton] at hx
        refine ⟨i, _, hx, Nat.succ_pos _, hf.2, ?_⟩
        rw [hcap, if_pos ⟨hj, rfl⟩]
      · cases hx
  · rw [hlog]
    split
    · rename_i hj
      subst hj
      -- The new generation is above every one that the slot has had.
      refine List.nodup_append.2 ⟨h.distinct j', List.nodup_singleton _, fun x hx y hy heq => ?_⟩
      obtain ⟨i', g, hg, _, _, hle⟩ := h.reached j' x hx
      rw [List.mem_singleton.1 hy, hg, handle_eq, handle_eq] at heq
      have hi : i' = i := Fin.ext (by omega)
      subst hi
      omega
    · rw [List.append_nil]
      exact h.distinct j'
  · rw [hlog, List.mem_append]
    rw [hcap] at hne ⊢
    split at hne
    · rename_i hji
      right
      rw [if_pos hji, if_pos hji.1, hji.2]
      exact List.mem_singleton.2 rfl
    · rename_i hji
      left
      rw [if_neg hji]
      exact h.filled j' i' hne

theorem move_numbered (h : Numbered m) (hm : Move actor m m') : Numbered m' := by
  have hfades : ∀ {m m'}, Numbered m → Fades m m' → Numbered m' := fun h hs => h.keep hs.issued hs.cap
  have hqueue : ∀ {m : Ipc} {e queue}, Numbered m → Numbered (m.setQueue e queue) := fun h =>
    h.keep (fun _ => rfl) fun _ _ => Or.inl rfl
  cases hm with
  | @create j i e _ _ hi _ =>
    have hc : Numbered (m.setChannel e ⟨(m.parties j).pid, ((m.channels e).epoch + 1) % 2 ^ 32, []⟩) :=
      h.keep (fun _ => rfl) fun _ _ => Or.inl rfl
    exact (hc.record (by simp)).put hi 7
  | derive _ _ _ hi => exact (h.put hi _).record (by simp)
  | grant hg =>
    obtain ⟨_, _, _, _, _, _, hi⟩ := hg
    exact (h.put hi _).record (by simp)
  | close => exact hfades h shrinks_close.toFades
  | revoke => exact hfades (h.record (by simp)) shrinks_invalidate.toFades
  | cancel => exact (hqueue h).record (by simp)
  | deliver => exact ((hfades h (fades_setState .ready)).record (by simp)).record (by simp)
  | enqueue => exact (hqueue h).record (by simp)
  | dequeue => exact (hqueue h).record (by simp)
  | @block j _ e =>
    refine h.keep (fun _ => rfl) fun j' i => Or.inl ?_
    rw [setParty_caps (p := { m.parties j with state := .blocked, wait := some e }) rfl]
  | @occupy j hs =>
    refine h.keep (fun _ => rfl) fun j' i => ?_
    by_cases hj : j' = j
    · subst hj
      rw [occupy_party_self]
      exact Or.inr rfl
    · rw [occupy_party_of_ne hj]
      exact Or.inl rfl
  | ready => exact hfades h (fades_setState .ready)
  | tick ht => exact hfades h (tick_fades ht)

/-! ## Resolution -/

/-- A handle that resolves is the one its slot answers to now. -/
theorem handle_of_cap {rights : Nat} (hc : cap k j h rights = some (i, e)) :
    h = handle ((k.tasks j).caps i).generation i ∧ ((k.tasks j).caps i).endpoint = some e := by
  have he := (cap_has hc).1
  refine ⟨?_, he⟩
  rw [handle_eq]
  unfold cap at hc
  split at hc
  · cases hc
  split at hc
  · rename_i hs
    dsimp only at hc
    split at hc
    · cases hc
    split at hc
    · cases hc
    rename_i hgr
    split at hc
    · cases hc
      have hg := not_not.1 (not_or.1 hgr).1
      dsimp only at hg ⊢
      omega
    · cases hc
  · cases hc

/-- A slot that is filled answers to its handle. -/
theorem cap_of_handle (hinv : CapInv none none k.ipc) (he : ((k.tasks j).caps i).endpoint = some e)
    (hg : ((k.tasks j).caps i).generation ≤ 0x7fffff) :
    cap k j (handle ((k.tasks j).caps i).generation i) 0 = some (i, e) := by
  obtain ⟨ho, hepoch⟩ := hinv.ref j i e he
  have hmod := handle_mod ((k.tasks j).caps i).generation i
  have hdiv := handle_div ((k.tasks j).caps i).generation i
  have hlt : ¬ 0xffffffff < handle ((k.tasks j).caps i).generation i := by
    rw [handle_eq]
    omega
  have hslot : handle ((k.tasks j).caps i).generation i % 256 - 1 < 32 ∧
    handle ((k.tasks j).caps i).generation i % 256 ≠ 0 := by
    rw [hmod]
    omega
  have hi : (⟨handle ((k.tasks j).caps i).generation i % 256 - 1, hslot.1⟩ : CapId) = i := Fin.ext (by simp [hmod])
  unfold cap
  rw [if_neg hlt, dif_pos hslot]
  simp only [hi, he, hdiv]
  rw [if_neg (by simp)]
  exact if_pos ⟨ho, hepoch⟩

/-- The slot has left generation `g` behind. -/
def Past (g : Nat) (c : Cap) : Prop := g < c.generation ∨ g ≤ c.generation ∧ c.endpoint = none

theorem Past.ages {c c' : Cap} (h : Past g c) (ha : Ages c c') : Past g c' := by
  unfold Past at h ⊢
  rcases ha with rfl | rfl | ha
  · exact h
  · exact h.imp_right fun h => ⟨h.1, rfl⟩
  · left
    omega

variable {L : Layout}

theorem reach_numbered (h : Reach L k) : Numbered k.ipc :=
  reach_keeps (I := Numbered) (fun _ _ _ => ⟨nofun, fun _ => List.nodup_nil, fun _ _ hne => absurd rfl hne⟩) move_numbered h

theorem later_past (h : Reach L k) (hp : Past g ((k.tasks j).caps i)) (hl : Later L k k') :
    Past g ((k'.tasks j).caps i) :=
  later_keeps (I := fun m => Past g ((m.parties j).caps i)) (fun hp hm => hp.ages (move_ages hm j i)) h hp hl

structure HandleTable (L : Layout) (k : Kernel) (j : TaskId) : Prop where
  /-- A handle that resolves was installed in this task slot. -/
  installed : ∀ h rights, cap k j h rights ≠ none → Event.installed j h ∈ k.log
  /-- A handle that resolves here and not later on never resolves after that, whoever has the task slot. -/
  stopped : ∀ h rights, cap k j h rights ≠ none → ∀ k', Later L k k' → cap k' j h 0 = none →
    ∀ k'', Later L k' k'' → ∀ rights, cap k'' j h rights = none
  /-- A handle that was installed and does not resolve never resolves again, whoever has the task slot. -/
  stale : ∀ h, Event.installed j h ∈ k.log → cap k j h 0 = none → ∀ k', Later L k k' → ∀ rights, cap k' j h rights = none
  /-- No handle is installed twice. -/
  distinct : (issued j k.log).Nodup
  /-- A handle is a positive 31-bit number. -/
  positive : ∀ h, Event.installed j h ∈ k.log → 0 < h ∧ h < 2 ^ 31
  /-- What `install` returns, from any state, names the slot it filled and that slot's generation. -/
  decodes : ∀ k₀ e rights h k', install k₀ j e rights = (some h, k') → 0 < h ∧ h < 2 ^ 31 ∧ ∃ i : CapId,
    h % 256 = i + 1 ∧ h / 256 = ((k'.tasks j).caps i).generation ∧ ((k'.tasks j).caps i).endpoint = some e

theorem handle_bounds (i : CapId) (hg : g ≤ 0x7fffff) : 0 < handle g i ∧ handle g i < 2 ^ 31 := by
  rw [handle_eq]
  omega

theorem install_decodes {rights : Nat} (hi : install k j e rights = (some h, k')) : 0 < h ∧ h < 2 ^ 31 ∧ ∃ i : CapId,
    h % 256 = i + 1 ∧ h / 256 = ((k'.tasks j).caps i).generation ∧ ((k'.tasks j).caps i).endpoint = some e := by
  obtain ⟨i, hfree, hipc, rfl, _⟩ := install_some hi
  have hcap : (k'.tasks j).caps i = ⟨some e, (k.endpoints e).epoch, rights, ((k.tasks j).caps i).generation + 1⟩ := by
    change (k'.ipc.parties j).caps i = _
    rw [hipc, Ipc.put, record_parties, setCap_cap, if_pos ⟨rfl, rfl⟩]
    rfl
  have hbounds := handle_bounds i (Nat.succ_le_of_lt hfree.2)
  refine ⟨hbounds.1, hbounds.2, i, handle_mod _ i, ?_, ?_⟩
  · rw [handle_div, hcap]
  · rw [hcap]

/-- A generation that the slot has reached, and whose handle does not resolve, is past. -/
theorem past_of_unresolved (h : Reach L k) (hle : g ≤ ((k.tasks j).caps i).generation) (hmax : g ≤ 0x7fffff)
    (hnone : cap k j (handle g i) 0 = none) : Past g ((k.tasks j).caps i) := by
  rcases Nat.lt_or_eq_of_le hle with hlt | heq
  · exact Or.inl hlt
  refine Or.inr ⟨hle, ?_⟩
  cases he : ((k.tasks j).caps i).endpoint with
  | none => rfl
  | some e =>
    subst heq
    rw [cap_of_handle (reach_capInv h) he hmax] at hnone
    cases hnone

theorem unresolved_of_past (h : Past g ((k.tasks j).caps i)) (rights : Nat) :
    cap k j (handle g i) rights = none := by
  cases hc : cap k j (handle g i) rights with
  | none => rfl
  | some r =>
    obtain ⟨i', e⟩ := r
    obtain ⟨heq, he⟩ := handle_of_cap hc
    rw [handle_eq, handle_eq] at heq
    have hi : i' = i := Fin.ext (by omega)
    subst hi
    rcases h with hlt | ⟨_, hnone⟩
    · omega
    · rw [he] at hnone
      cases hnone

/-- **A handle that has stopped resolving never comes back**, and no handle is handed out twice. -/
theorem stale_handles (h : Reach L k) (j : TaskId) : HandleTable L k j := by
  have hnum := reach_numbered h
  have hinst : ∀ x rights, cap k j x rights ≠ none → Event.installed j x ∈ k.log := fun x rights hne => by
    obtain ⟨⟨i, e⟩, hc⟩ := Option.ne_none_iff_exists'.1 hne
    obtain ⟨rfl, he⟩ := handle_of_cap hc
    exact mem_issued.1 (hnum.filled j i (Option.ne_none_iff_exists'.2 ⟨e, he⟩))
  refine ⟨hinst, fun x rights hne k₁ hl hnone k₂ hl' => ?_, fun x hx hnone k₁ hl => ?_, hnum.distinct j, fun x hx => ?_,
    fun _ _ _ _ _ hi => install_decodes hi⟩
  · obtain ⟨i, g, rfl, _, hmax, hle⟩ := hnum.reached j x (mem_issued.2 (hinst x rights hne))
    have hle' : g ≤ ((k₁.tasks j).caps i).generation :=
      later_keeps (I := fun m => g ≤ ((m.parties j).caps i).generation) (fun hle hm => (move_ages hm j i).le hle) h hle hl
    exact unresolved_of_past (later_past (later_reach h hl) (past_of_unresolved (later_reach h hl) hle' hmax hnone) hl')
  · obtain ⟨i, g, rfl, _, hmax, hle⟩ := hnum.reached j x (mem_issued.2 hx)
    exact unresolved_of_past (later_past h (past_of_unresolved h hle hmax hnone) hl)
  · obtain ⟨i, g, rfl, _, hmax, _⟩ := hnum.reached j x (mem_issued.2 hx)
    exact handle_bounds i hmax

end Handles

theorem stale_handles_talk : HandleTable sampleLayout sampleTalk 0 := stale_handles reach_sampleTalk 0

end SpiritFox.Core
