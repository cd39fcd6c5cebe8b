import SpiritFox.Kernel.Frame
import SpiritFox.Kernel.Space

/-!
# Pages and their owners

`Isolated L k σ`: the tables in memory are the spaces of `σ`, every page of a space belongs to its task, and only
the owner of the device has the arena or the registers in its map. The functions of `Memory` keep this, and say what
becomes of the space of the task they work for; `Holds` is the form it takes while a task is under construction.
-/

namespace SpiritFox.Core

open ByteMem Function

section Mapping

variable {L : Layout} {k k' : Kernel} {j : TaskId} {σ : TaskId → Option (Space L)} {s : Space L} {i : PageId}
  {v : Nat} {m : Mem} {pid : Nat} {bytes : List UInt8}

/-- The task may have this target in its map. -/
def Target.Granted (k : Kernel) (j : TaskId) : Target L → Prop
  | .page _ => True
  | .bundle _ => True
  | .arena _ => k.deviceOwner = (k.tasks j).pid
  | .registers physical _ _ _ => k.deviceOwner = (k.tasks j).pid ∧ k.devicePt ≤ physical ∧ physical < k.devicePt + 16384

structure Isolated (L : Layout) (k : Kernel) (σ : TaskId → Option (Space L)) : Prop where
  represents : ∀ j s, σ j = some s → Represents k.mem s
  cr3 : ∀ j s, σ j = some s → (k.tasks j).cr3 = poolPage L s.top
  owned : ∀ j s, σ j = some s → ∀ i, s.role i ≠ none → k.owner i = (k.tasks j).pid
  granted : ∀ j s, σ j = some s → ∀ v x, s.mapped v = some x → x.target.Granted k j
  live : ∀ j, (k.tasks j).state = .ready ∨ (k.tasks j).state = .blocked → σ j ≠ none
  /-- A message can be copied to a task that waits for one. -/
  buffer : ∀ j s, σ j = some s → (k.tasks j).state = .blocked → s.Covers (k.tasks j).recvBuffer 328 true
  named : ∀ j, σ j ≠ none → (k.tasks j).pid ≠ 0
  distinct : ∀ j j', (k.tasks j).pid = (k.tasks j').pid → (k.tasks j).pid ≠ 0 → j = j'
  bounded : ∀ j, (k.tasks j).pid < k.nextPid

/-! ## What keeps the spaces -/

/-- Nothing that spaces rest on has changed, but blocked tasks may have become ready. -/
structure Calm (k k' : Kernel) : Prop where
  mem : k'.mem = k.mem
  owner : k'.owner = k.owner
  deviceOwner : k'.deviceOwner = k.deviceOwner
  window : k.deviceOwner = 0 ∨ k'.devicePt = k.devicePt
  nextPid : k'.nextPid = k.nextPid
  pid : ∀ j, (k'.tasks j).pid = (k.tasks j).pid
  cr3 : ∀ j, (k'.tasks j).cr3 = (k.tasks j).cr3
  recvBuffer : ∀ j, (k'.tasks j).recvBuffer = (k.tasks j).recvBuffer
  state : ∀ j, (k'.tasks j).state = (k.tasks j).state ∨ (k.tasks j).state = .blocked ∧ (k'.tasks j).state = .ready

theorem Calm.refl : Calm k k :=
  ⟨rfl, rfl, rfl, Or.inr rfl, rfl, fun _ => rfl, fun _ => rfl, fun _ => rfl, fun _ => Or.inl rfl⟩

theorem Calm.trans {k'' : Kernel} (h : Calm k k') (h' : Calm k' k'') : Calm k k'' where
  mem := h'.mem.trans h.mem
  owner := h'.owner.trans h.owner
  deviceOwner := h'.deviceOwner.trans h.deviceOwner
  window := by
    rcases h.window with h0 | hw
    · exact Or.inl h0
    rcases h'.window with h0 | hw'
    · exact Or.inl (h.deviceOwner ▸ h0)
    · exact Or.inr (hw'.trans hw)
  nextPid := h'.nextPid.trans h.nextPid
  pid j := (h'.pid j).trans (h.pid j)
  cr3 j := (h'.cr3 j).trans (h.cr3 j)
  recvBuffer j := (h'.recvBuffer j).trans (h.recvBuffer j)
  state j := by
    rcases h'.state j with heq' | ⟨hb', hr'⟩
    · rw [heq']
      exact h.state j
    rcases h.state j with heq | ⟨_, hr⟩
    · exact Or.inr ⟨heq ▸ hb', hr'⟩
    · rw [hr] at hb'
      cases hb'

theorem calm_setTask {t : Task} (hpid : t.pid = (k.tasks j).pid) (hcr3 : t.cr3 = (k.tasks j).cr3)
    (hbuffer : t.recvBuffer = (k.tasks j).recvBuffer)
    (hstate : t.state = (k.tasks j).state ∨ (k.tasks j).state = .blocked ∧ t.state = .ready) : Calm k (k.setTask j t) := by
  have htask : ∀ j', (k.setTask j t).tasks j' = if j' = j then t else k.tasks j' := fun j' => update_apply _ _ _ _
  refine ⟨rfl, rfl, rfl, Or.inr rfl, rfl, fun j' => ?_, fun j' => ?_, fun j' => ?_, fun j' => ?_⟩ <;> rw [htask] <;>
    split <;>
    rename_i hj
  · rw [hj, hpid]
  · rfl
  · rw [hj, hcr3]
  · rfl
  · rw [hj, hbuffer]
  · rfl
  · rw [hj]
    exact hstate
  · exact Or.inl rfl

theorem Target.Granted.device {x : Target L} (hx : x.Granted k j) (ho : k'.deviceOwner = k.deviceOwner)
    (hw : k'.devicePt = k.devicePt) (hp : (k'.tasks j).pid = (k.tasks j).pid) : x.Granted k' j := by
  cases x <;> simp only [Granted] at hx ⊢ <;> rw [ho, hp]
  · exact hx
  · rw [hw]
    exact hx

theorem Target.Granted.calm {x : Target L} (hx : x.Granted k j) (h : Calm k k') (hp : (k.tasks j).pid ≠ 0) :
    x.Granted k' j := by
  cases x with
  | page i => trivial
  | bundle n => trivial
  | arena n =>
    simp only [Granted] at hx ⊢
    rw [h.deviceOwner, h.pid, hx]
  | registers physical aligned low high =>
    obtain ⟨ho, hlow, hhigh⟩ := hx
    have hw : k'.devicePt = k.devicePt := h.window.resolve_left fun h0 => hp (ho.symm.trans h0)
    simp only [Granted]
    rw [h.deviceOwner, h.pid, hw]
    exact ⟨ho, hlow, hhigh⟩

section

variable (hk : Isolated L k σ)

include hk

theorem Isolated.calm (h : Calm k k') : Isolated L k' σ where
  represents j s hs := by
    rw [h.mem]
    exact hk.represents j s hs
  cr3 j s hs := (h.cr3 j).trans (hk.cr3 j s hs)
  owned j s hs i hi := by
    rw [h.owner, h.pid]
    exact hk.owned j s hs i hi
  granted j s hs v x hx := (hk.granted j s hs v x hx).calm h (hk.named j (by simp [hs]))
  live j hl := by
    refine hk.live j ?_
    rcases h.state j with heq | ⟨hb, _⟩
    · exact heq ▸ hl
    · exact Or.inr hb
  buffer j s hs hb := by
    rw [h.recvBuffer]
    rcases h.state j with heq | ⟨_, hr⟩
    · exact hk.buffer j s hs (heq ▸ hb)
    · rw [hr] at hb
      cases hb
  named j hs := by
    rw [h.pid]
    exact hk.named j hs
  distinct j j' he h0 := by
    rw [h.pid] at he h0
    rw [h.pid] at he
    exact hk.distinct j j' he h0
  bounded j := by
    rw [h.pid, h.nextPid]
    exact hk.bounded j

/-- One task changes, and keeps its pid and its tables. -/
theorem Isolated.setTask {t : Task} (hpid : t.pid = (k.tasks j).pid)
    (hcr3 : σ j ≠ none → t.cr3 = (k.tasks j).cr3) (hlive : t.state = .ready ∨ t.state = .blocked → σ j ≠ none)
    (hbuffer : ∀ s, σ j = some s → t.state = .blocked → s.Covers t.recvBuffer 328 true) : Isolated L (k.setTask j t) σ := by
  have htask : ∀ j', (k.setTask j t).tasks j' = if j' = j then t else k.tasks j' := fun j' => update_apply _ _ _ _
  have hpids : ∀ j', ((k.setTask j t).tasks j').pid = (k.tasks j').pid := fun j' => by
    rw [htask]
    split
    · rename_i hj
      rw [hj, hpid]
    · rfl
  refine ⟨hk.represents, fun j' s hs => ?_, fun j' s hs i hi => ?_, fun j' s hs v x hx => ?_, fun j' hl => ?_,
    fun j' s hs hb => ?_,
    fun j' hs => ?_, fun j₁ j₂ he h0 => ?_, fun j' => ?_⟩
  · rw [htask]
    split
    · rename_i hj
      subst hj
      rw [hcr3 (by simp [hs])]
      exact hk.cr3 j' s hs
    · exact hk.cr3 j' s hs
  · rw [hpids]
    exact hk.owned j' s hs i hi
  · exact (hk.granted j' s hs v x hx).device rfl rfl (hpids j')
  · by_cases hj : j' = j
    · rw [htask, if_pos hj] at hl
      exact hj ▸ hlive hl
    · rw [htask, if_neg hj] at hl
      exact hk.live j' hl
  · by_cases hj : j' = j
    · rw [htask, if_pos hj] at hb ⊢
      exact hbuffer s (hj ▸ hs) hb
    · rw [htask, if_neg hj] at hb ⊢
      exact hk.buffer j' s hs hb
  · rw [hpids]
    exact hk.named j' hs
  · rw [hpids] at he h0
    rw [hpids] at he
    exact hk.distinct j₁ j₂ he h0
  · rw [hpids]
    exact hk.bounded j'

theorem Isolated.setMem
    (h : ∀ j s, σ j = some s → ∀ r i, s.table r = some i → EqOn m k.mem (poolPage L i) 4096) :
    Isolated L { k with mem := m } σ where
  represents j s hs := (hk.represents j s hs).congr (h j s hs)
  cr3 := hk.cr3
  owned := hk.owned
  granted j s hs v x hx := (hk.granted j s hs v x hx).device rfl rfl rfl
  live := hk.live
  buffer := hk.buffer
  named := hk.named
  distinct := hk.distinct
  bounded := hk.bounded

/-- A write outside the pool. -/
theorem Isolated.outside (h : EqOn m k.mem L.pool (4096 * 4096)) :
    Isolated L { k with mem := m } σ :=
  hk.setMem fun _ _ _ _ i _ a h₁ h₂ => h a (by unfold poolPage at h₁; omega) (by unfold poolPage at h₂; omega)

/-- A page of data is no table, neither of its own task nor of another. -/
theorem Isolated.table_ne (hs : σ j = some s) (hi : s.role i = some .data) {j' : TaskId}
    {s' : Space L} {r : Role} {i' : PageId} (hs' : σ j' = some s') (ht : s'.table r = some i') : i ≠ i' := by
  rintro rfl
  have hrole := Space.role_table ht
  have hown := hk.owned j s hs i (by simp [hi])
  have hown' := hk.owned j' s' hs' i (by simp [hrole])
  have hj := hk.distinct j j' (hown.symm.trans hown') (hk.named j (by simp [hs]))
  subst hj
  cases hs.symm.trans hs'
  rw [hi] at hrole
  cases hrole
  cases ht

/-- A write to a page of data. -/
theorem Isolated.data (hs : σ j = some s) (hi : s.role i = some .data)
    (h : ∀ a, a < poolPage L i ∨ poolPage L i + 4096 ≤ a → m a = k.mem a) : Isolated L { k with mem := m } σ := by
  refine hk.setMem fun j' s' hs' r i' ht a h₁ h₂ => h a ?_
  rcases poolPage_disjoint (L := L) (hk.table_ne hs hi hs' ht) with hd | hd
  · exact Or.inr (by omega)
  · exact Or.inl (by omega)

end

/-! ## Allocation -/

theorem pageAlloc_none (h : pageAlloc L k pid = (none, k')) : k' = k := by
  unfold pageAlloc at h
  split at h
  · cases h
    rfl
  dsimp only at h
  split at h
  · cases h
    rfl
  split at h
  · cases h
    rfl
  · cases h

/-- What an allocation changes: the page is cleared and has an owner, and is counted. -/
structure Allocated (L : Layout) (k : Kernel) (pid : Nat) (i : PageId) (k' : Kernel) : Prop where
  free : k.owner i = 0
  pid_ne : pid ≠ 0
  owner : k'.owner = Function.update k.owner i pid
  mem : k'.mem = clear k.mem (poolPage L i) 4096
  calm : Calm k { k' with owner := k.owner, mem := k.mem }
  state : ∀ j, (k'.tasks j).state = (k.tasks j).state

/-- A fresh page is an empty table. -/
theorem Allocated.entry_eq_zero (h : Allocated L k pid i k') (n : Fin 512) :
    entry k'.mem (poolPage L i) n = 0 := by
  rw [h.mem]
  exact entry_clear n

theorem pageAlloc_some (h : pageAlloc L k pid = (some i, k')) : Allocated L k pid i k' := by
  unfold pageAlloc at h
  split at h
  · cases h
  rename_i j hj
  dsimp only at h
  split at h
  · cases h
  split at h
  · cases h
  rename_i i' hfind
  cases h
  have hpid : pid ≠ 0 := by
    rintro rfl
    simp [pageOwner] at hj
  have hc : Calm k (k.setTask j { k.tasks j with pageCount := (k.tasks j).pageCount + 1 }) :=
    calm_setTask rfl rfl rfl (Or.inl rfl)
  have hs : Same k (k.setTask j { k.tasks j with pageCount := (k.tasks j).pageCount + 1 }) := same_setTask rfl
  exact ⟨by simpa using List.find?_some hfind, hpid, rfl, rfl,
    ⟨rfl, rfl, rfl, Or.inr rfl, rfl, hc.pid, hc.cr3, hc.recvBuffer, hc.state⟩, hs.state⟩

/-- A page that is allocated had no role in any space. -/
theorem Isolated.unused (hk : Isolated L k σ) (hi : k.owner i = 0) (hs : σ j = some s) : s.role i = none := by
  by_contra hne
  have hown := hk.owned j s hs i hne
  exact hk.named j (by simp [hs]) (hown.symm.trans hi)

theorem Isolated.setOwner (hk : Isolated L k σ) (owner : PageId → Nat)
    (h : ∀ j s i, σ j = some s → s.role i ≠ none → owner i = k.owner i) : Isolated L { k with owner := owner } σ where
  represents := hk.represents
  cr3 := hk.cr3
  owned j s hs i hi := (h j s i hs hi).trans (hk.owned j s hs i hi)
  granted j s hs v x hx := (hk.granted j s hs v x hx).device rfl rfl rfl
  live := hk.live
  buffer := hk.buffer
  named := hk.named
  distinct := hk.distinct
  bounded := hk.bounded

theorem Isolated.alloc (hk : Isolated L k σ) (h : Allocated L k pid i k') : Isolated L k' σ := by
  have hunused : ∀ j s, σ j = some s → s.role i = none := fun j s hs => hk.unused h.free hs
  have hmem : Isolated L { k' with owner := k.owner } σ := by
    refine (hk.calm h.calm).setMem (m := k'.mem) fun j s hs r i' ht => ?_
    rw [h.mem]
    refine eqOn_clear_page fun he => ?_
    have hrole := Space.role_table ht
    rw [← he, hunused j s hs] at hrole
    cases hrole
  refine hmem.setOwner k'.owner fun j s i' hs hi' => ?_
  rw [h.owner, update_of_ne]
  rintro rfl
  exact hi' (hunused j s hs)

/-! ## Spaces under construction -/

/-- A space is forgotten when its task does not run. -/
theorem Isolated.drop (hk : Isolated L k σ) (hdead : (k.tasks j).state ≠ .ready ∧ (k.tasks j).state ≠ .blocked) :
    Isolated L k (update σ j none) := by
  have hof : ∀ {j' s}, update σ j none j' = some s → σ j' = some s := fun {j' s} h => by
    by_cases hj : j' = j
    · subst hj
      rw [update_self] at h
      cases h
    · rwa [update_of_ne hj] at h
  refine ⟨fun j' s hs => hk.represents j' s (hof hs), fun j' s hs => hk.cr3 j' s (hof hs),
    fun j' s hs => hk.owned j' s (hof hs),
    fun j' s hs => hk.granted j' s (hof hs), fun j' hl => ?_, fun j' s hs =>
      hk.buffer j' s (hof hs), fun j' hs => ?_, hk.distinct,
    hk.bounded⟩
  · have hj : j' ≠ j := by
      rintro rfl
      exact hl.elim hdead.1 hdead.2
    rw [update_of_ne hj]
    exact hk.live j' hl
  · obtain ⟨s, hs⟩ := Option.ne_none_iff_exists'.1 hs
    exact hk.named j' (by simp [hof hs])

/-- `j` is under construction with the space `s`; the other tasks have theirs. -/
structure Holds (L : Layout) (σ : TaskId → Option (Space L)) (j : TaskId) (s : Space L) (k : Kernel) : Prop where
  isolated : Isolated L k (Function.update σ j (some s))
  state : (k.tasks j).state = .empty
  pid_le : (k.tasks j).pid ≤ 0x7fffffff

/-- A task that had no space gets one, with tables in pages that it owns. -/
theorem Isolated.add (hk : Isolated L k σ) (hσ : σ j = none) (hstate : (k.tasks j).state = .empty)
    (hpid : (k.tasks j).pid ≠ 0 ∧ (k.tasks j).pid ≤ 0x7fffffff) (hcr3 : (k.tasks j).cr3 = poolPage L s.top)
    (hrep : Represents m s) (howned : ∀ i, s.role i ≠ none → k.owner i = (k.tasks j).pid)
    (hgranted : ∀ v x, s.mapped v = some x → x.target.Granted k j)
    (hm : ∀ i, k.owner i ≠ (k.tasks j).pid → EqOn m k.mem (poolPage L i) 4096) : Holds L σ j s { k with mem := m } := by
  have hself : ∀ {s' : Space L}, update σ j (some s) j = some s' → s' = s := fun h => by
    rw [update_self] at h
    exact (Option.some.inj h).symm
  have hother : ∀ {j' : TaskId} {s' : Space L}, j' ≠ j → update σ j (some s) j' = some s' →
    σ j' = some s' := fun hj h => by
    rwa [update_of_ne hj] at h
  refine ⟨⟨fun j' s' hs => ?_, fun j' s' hs => ?_, fun j' s' hs i hr => ?_, fun j' s' hs v x hx => ?_, fun j' hl => ?_,
    fun j' s' hs hb => ?_, fun j' hs => ?_, hk.distinct, hk.bounded⟩, hstate, hpid.2⟩
  · by_cases hj : j' = j
    · subst hj
      cases hself hs
      exact hrep
    · have hs' := hother hj hs
      refine (hk.represents j' s' hs').congr fun r i ht => hm i fun hown => hj ?_
      have hown' := hk.owned j' s' hs' i (by simp [Space.role_table ht])
      exact hk.distinct j' j (hown'.symm.trans hown) (hk.named j' (by simp [hs']))
  · by_cases hj : j' = j
    · subst hj
      cases hself hs
      exact hcr3
    · exact hk.cr3 j' s' (hother hj hs)
  · by_cases hj : j' = j
    · subst hj
      cases hself hs
      exact howned i hr
    · exact hk.owned j' s' (hother hj hs) i hr
  · have hg : x.target.Granted k j' := by
      by_cases hj : j' = j
      · subst hj
        cases hself hs
        exact hgranted v x hx
      · exact hk.granted j' s' (hother hj hs) v x hx
    exact hg.device rfl rfl rfl
  · by_cases hj : j' = j
    · subst hj
      simp
    · rw [update_of_ne hj]
      exact hk.live j' hl
  · by_cases hj : j' = j
    · subst hj
      have hb' : (k.tasks j').state = .blocked := hb
      rw [hstate] at hb'
      cases hb'
    · exact hk.buffer j' s' (hother hj hs) hb
  · by_cases hj : j' = j
    · subst hj
      exact hpid.1
    · rw [update_of_ne hj] at hs
      exact hk.named j' hs

namespace Holds

variable {m : Mem}

section

variable (h : Holds L σ j s k)

include h

theorem represents : Represents k.mem s := h.isolated.represents j s (update_self _ _ _)

theorem cr3 : (k.tasks j).cr3 = poolPage L s.top := h.isolated.cr3 j s (update_self _ _ _)

theorem owned (hi : s.role i ≠ none) : k.owner i = (k.tasks j).pid :=
  h.isolated.owned j s (update_self _ _ _) i hi

theorem pid_ne : (k.tasks j).pid ≠ 0 := h.isolated.named j (by simp)

theorem granted {x : Mapping L} (hx : s.mapped v = some x) : x.target.Granted k j :=
  h.isolated.granted j s (update_self _ _ _) v x hx

theorem calm (hc : Calm k k') : Holds L σ j s k' := by
  refine ⟨h.isolated.calm hc, ?_, by rw [hc.pid]; exact h.pid_le⟩
  rcases hc.state j with heq | ⟨hb, _⟩
  · exact heq.trans h.state
  · rw [h.state] at hb
    cases hb

theorem data (hi : s.role i = some .data)
    (heq : ∀ a, a < poolPage L i ∨ poolPage L i + 4096 ≤ a → m a = k.mem a) : Holds L σ j s { k with mem := m } :=
  ⟨h.isolated.data (update_self _ _ _) hi heq, h.state, h.pid_le⟩

theorem outside (heq : EqOn m k.mem L.pool (4096 * 4096)) :
    Holds L σ j s { k with mem := m } :=
  ⟨h.isolated.outside heq, h.state, h.pid_le⟩

/-- A new space for the task, with tables in pages that it owns. -/
theorem replace {s' : Space L} (hrep : Represents m s') (htop : s'.top = s.top)
    (howned : ∀ i, s'.role i ≠ none → k.owner i = (k.tasks j).pid)
    (hgranted : ∀ v x, s'.mapped v = some x → x.target.Granted k j)
    (hm : ∀ i, k.owner i ≠ (k.tasks j).pid → EqOn m k.mem (poolPage L i) 4096) : Holds L σ j s' { k with mem := m } := by
  have hd := h.isolated.drop (j := j) (by simp [h.state])
  rw [update_idem] at hd
  have hadd := hd.add (update_self _ _ _) h.state ⟨h.pid_ne, h.pid_le⟩ (htop ▸ h.cr3) hrep howned hgranted hm
  refine ⟨?_, h.state, h.pid_le⟩
  have hi := hadd.isolated
  rwa [update_idem] at hi

/-- A page is allocated for the task. -/
theorem alloc (ha : Allocated L k (k.tasks j).pid i k') : Holds L σ j s k' ∧ s.role i = none ∧
    k'.owner i = (k'.tasks j).pid := by
  have hpid : (k'.tasks j).pid = (k.tasks j).pid := ha.calm.pid j
  refine ⟨⟨h.isolated.alloc ha, (ha.state j).trans h.state, hpid ▸ h.pid_le⟩,
    h.isolated.unused ha.free (update_self _ _ _), ?_⟩
  rw [ha.owner, update_self, hpid]

/-- The page becomes one of data. -/
theorem claim (hi : s.role i = none) (hown : k.owner i = (k.tasks j).pid) :
    Holds L σ j (s.claim i hi) k := by
  refine h.replace (m := k.mem) (Space.represents_claim h.represents hi) rfl (fun i' hr => ?_) (fun v x hx => h.granted hx)
    fun _ _ _ _ _ => rfl
  by_cases hii : i' = i
  · rw [hii, hown]
  refine h.owned (i := i') ?_
  have hrole : (s.claim i hi).role i' = s.role i' := update_of_ne hii _ _
  rwa [← hrole]

end

end Holds

/-- There is no page left for the task: its limit is reached, or every page has an owner. -/
def Short (j : TaskId) (k : Kernel) : Prop := (k.tasks j).pageLimit ≤ (k.tasks j).pageCount ∨ ∀ i, k.owner i ≠ 0

theorem Isolated.short (hk : Isolated L k σ) (hstate : (k.tasks j).state = .empty) (hpid : (k.tasks j).pid ≠ 0)
    (hle : (k.tasks j).pid ≤ 0x7fffffff) (h : (pageAlloc L k (k.tasks j).pid).1 = none) : Short j k := by
  unfold pageAlloc at h
  split at h
  · rename_i hnone
    unfold pageOwner at hnone
    rw [if_neg (by omega)] at hnone
    have hj := List.find?_eq_none.1 hnone j (List.mem_finRange j)
    simp [hstate] at hj
  · rename_i j' hfind
    unfold pageOwner at hfind
    rw [if_neg (by omega)] at hfind
    have hj' := List.find?_some hfind
    simp only [decide_eq_true_eq] at hj'
    obtain rfl := hk.distinct j j' hj'.1.symm hpid
    dsimp only at h
    split at h
    · exact Or.inl (by assumption)
    split at h
    · rename_i hnone
      refine Or.inr fun i => ?_
      simpa using List.find?_eq_none.1 hnone i (List.mem_finRange i)
    · cases h

/-! ## Tables -/

theorem device_pageAlloc (L : Layout) (k : Kernel) (pid : Nat) : (pageAlloc L k pid).2.deviceOwner = k.deviceOwner ∧
    (pageAlloc L k pid).2.devicePt = k.devicePt := by
  unfold pageAlloc
  split
  · exact ⟨rfl, rfl⟩
  dsimp only
  split
  · exact ⟨rfl, rfl⟩
  · split <;> exact ⟨rfl, rfl⟩

theorem device_nextTable (L : Layout) (k : Kernel) (pid table e : Nat) (create : Bool) :
    (nextTable L k pid table e create).2.deviceOwner = k.deviceOwner ∧
    (nextTable L k pid table e create).2.devicePt = k.devicePt := by
  have h := device_pageAlloc L k pid
  unfold nextTable
  split
  · exact ⟨rfl, rfl⟩
  split
  · exact ⟨rfl, rfl⟩
  split <;> rename_i heq <;> rw [heq] at h <;> exact h

theorem device_pte (L : Layout) (k : Kernel) (j : TaskId) (v : Nat) (create : Bool) :
    (pte L k j v create).2.deviceOwner = k.deviceOwner ∧ (pte L k j v create).2.devicePt = k.devicePt := by
  have h := device_nextTable L k (k.tasks j).pid (entry k.mem (k.tasks j).cr3 0 &&& entryMask) (v / 2 ^ 30) create
  unfold pte
  split
  · exact ⟨rfl, rfl⟩
  dsimp only
  split <;> rename_i heq <;> rw [heq] at h
  · exact h
  rename_i p₂ k₁
  have h' := device_nextTable L k₁ (k.tasks j).pid p₂ (v / 2 ^ 21 % 512) create
  split <;> rename_i heq' <;> rw [heq'] at h' <;> exact ⟨h'.1.trans h.1, h'.2.trans h.2⟩

theorem device_spaceMap (L : Layout) (k : Kernel) (j : TaskId) (v physical flags : Nat) :
    (spaceMap L k j v physical flags).2.deviceOwner = k.deviceOwner ∧
    (spaceMap L k j v physical flags).2.devicePt = k.devicePt := by
  have h := device_pte L k j v true
  unfold spaceMap
  split
  · exact ⟨rfl, rfl⟩
  split <;> rename_i heq <;> rw [heq] at h
  · exact h
  · split <;> exact h

theorem device_spaceMapMmio (L : Layout) (k : Kernel) (j : TaskId) (v physical : Nat) :
    (spaceMapMmio L k j v physical).2.deviceOwner = k.deviceOwner ∧
    (spaceMapMmio L k j v physical).2.devicePt = k.devicePt := by
  have h := device_spaceMap L k j v physical 3
  unfold spaceMapMmio
  split <;> rename_i heq <;> rw [heq] at h
  · exact h
  · split <;> exact h

theorem nextTable_fails {table e : Nat} (h : nextTable L k pid table e true = (none, k')) :
    k' = k ∧ (pageAlloc L k pid).1 = none := by
  unfold nextTable at h
  split at h
  · cases h
  simp only [Bool.true_eq_false, if_false] at h
  split at h
  · rename_i heq
    cases h
    exact ⟨pageAlloc_none heq, by rw [heq]⟩
  · cases h

/-- A missing table is made from a new page. -/
theorem nextTable_makes {table e a : Nat} (h0 : entry k.mem table e = 0)
    (h : nextTable L k pid table e true = (some a, k')) :
    ∃ i k₁, Allocated L k pid i k₁ ∧ a = poolPage L i ∧
      k' = { k₁ with mem := setEntry k₁.mem table e (poolPage L i ||| 7) } := by
  unfold nextTable at h
  rw [h0, if_neg (by decide)] at h
  simp only [Bool.true_eq_false, if_false] at h
  split at h
  · cases h
  rename_i i k₁ heq
  cases h
  refine ⟨i, k₁, pageAlloc_some heq, ?_, rfl⟩
  have hself : entry (setEntry k₁.mem table e (poolPage L i ||| 7)) table e = link (L := L) (some i) :=
    load_store_self _ _ (link_lt (L := L) (some i))
  rw [hself, link_and]

/-- A write to a page of the task. -/
theorem eqOn_setEntry_page {i i' : PageId} {n : Fin 512} {x : Nat} (h : i ≠ i') :
    EqOn (setEntry m (poolPage L i) n x) m (poolPage L i') 4096 := by
  refine eqOn_store ?_
  rcases poolPage_disjoint (L := L) h with hd | hd <;> omega

namespace Holds

variable {r : Option Nat}

/-- A page of another owner keeps its bytes when an entry of one of the task's tables is written. -/
theorem eqOn_entry (h : Holds L σ j s k) (hi : s.role i ≠ none) (n : Fin 512) (x : Nat) (i' : PageId)
    (hi' : k.owner i' ≠ (k.tasks j).pid) : EqOn (setEntry k.mem (poolPage L i) n x) k.mem (poolPage L i') 4096 := by
  refine eqOn_setEntry_page fun he => hi' ?_
  rw [← he]
  exact h.owned hi

theorem second (h : Holds L σ j s k) (hv : 0x40000000 ≤ v ∧ v < 0x80000000)
    (hr : nextTable L k (k.tasks j).pid (poolPage L s.third) (v / 2 ^ 30) true = (r, k')) :
    ∃ s', Holds L σ j s' k' ∧ s.Extends s' ∧ match r with
      | none => Short j k'
      | some a => ∃ i, s'.second = some i ∧ a = poolPage L i := by
  have h3 := third_of_user h.represents hv
  cases h₂ : s.second with
  | some i₂ =>
    rw [h₂] at h3
    rw [nextTable_link h3] at hr
    cases hr
    exact ⟨s, h, Space.Extends.refl, i₂, h₂, rfl⟩
  | none =>
    rw [h₂] at h3
    cases r with
    | none =>
      obtain ⟨rfl, hshort⟩ := nextTable_fails hr
      exact ⟨s, h, Space.Extends.refl, h.isolated.short h.state h.pid_ne h.pid_le hshort⟩
    | some a =>
      obtain ⟨i, k₁, ha, rfl, rfl⟩ := nextTable_makes h3 hr
      obtain ⟨h₁, hrole, hown⟩ := h.alloc ha
      have hone : v / 2 ^ 30 = 1 := by omega
      refine ⟨s.setSecond i hrole h₂, ?_, Space.extends_setSecond hrole h₂, i, rfl, rfl⟩
      rw [hone]
      refine h₁.replace (Space.represents_setSecond h₁.represents hrole h₂ ha.entry_eq_zero) rfl (fun i' hr' => ?_)
        (fun v x hx => h₁.granted hx)
        (h₁.eqOn_entry (by simp [s.role_third]) 1 _)
      by_cases hii : i' = i
      · rw [hii, hown]
      · have hsame : (s.setSecond i hrole h₂).role i' = s.role i' := update_of_ne hii _ _
        exact h₁.owned (by rwa [← hsame])

theorem first (h : Holds L σ j s k) {i₂ : PageId} (h₂ : s.second = some i₂)
    (hr : nextTable L k (k.tasks j).pid (poolPage L i₂) (v / 2 ^ 21 % 512) true = (r, k')) :
    ∃ s', Holds L σ j s' k' ∧ s.Extends s' ∧ match r with
      | none => Short j k'
      | some a => ∃ i, s'.first (secondIndex v) = some i ∧ a = poolPage L i := by
  have h2 : entry k.mem (poolPage L i₂) (v / 2 ^ 21 % 512) = link (L := L) (s.first (secondIndex v)) :=
    h.represents.second h₂ (secondIndex v)
  cases h₁ : s.first (secondIndex v) with
  | some i₁ =>
    rw [h₁] at h2
    rw [nextTable_link h2] at hr
    cases hr
    exact ⟨s, h, Space.Extends.refl, i₁, h₁, rfl⟩
  | none =>
    rw [h₁] at h2
    cases r with
    | none =>
      obtain ⟨rfl, hshort⟩ := nextTable_fails hr
      exact ⟨s, h, Space.Extends.refl, h.isolated.short h.state h.pid_ne h.pid_le hshort⟩
    | some a =>
      obtain ⟨i, k₁, ha, rfl, rfl⟩ := nextTable_makes h2 hr
      obtain ⟨hk₁, hrole, hown⟩ := h.alloc ha
      have hs : s.second ≠ none := by simp [h₂]
      refine ⟨s.setFirst i (secondIndex v) hrole hs h₁, ?_, Space.extends_setFirst hrole hs h₁, i,
        update_self _ _ _, rfl⟩
      refine hk₁.replace (Space.represents_setFirst hk₁.represents hrole h₂ h₁ ha.entry_eq_zero) rfl (fun i' hr' => ?_)
        (fun v x hx => hk₁.granted hx) (hk₁.eqOn_entry (by simp [s.role_second i₂ h₂]) (secondIndex v) _)
      by_cases hii : i' = i
      · rw [hii, hown]
      · have hsame : (s.setFirst i (secondIndex v) hrole hs h₁).role i' = s.role i' := update_of_ne hii _ _
        exact hk₁.owned (by rwa [← hsame])

/-- The entry for `v`, with its tables made. -/
theorem makeEntry (h : Holds L σ j s k) (hv : 0x40000000 ≤ v ∧ v < 0x80000000)
    (hr : pte L k j v true = (r, k')) :
    ∃ s', Holds L σ j s' k' ∧ s.Extends s' ∧ match r with
      | none => Short j k'
      | some a => ∃ i, s'.first (secondIndex v) = some i ∧ a = poolPage L i + 8 * firstIndex v := by
  unfold pte at hr
  rw [if_neg (by omega)] at hr
  dsimp only at hr
  rw [h.cr3, top_third h.represents] at hr
  split at hr
  · rename_i k₁ heq
    cases hr
    exact h.second hv heq
  · rename_i p₂ k₁ heq
    obtain ⟨s₁, h₁, hext, i₂, h₂, rfl⟩ := h.second hv heq
    have hpid : (k₁.tasks j).pid = (k.tasks j).pid := by
      have hsame := same_nextTable L k (k.tasks j).pid (poolPage L s.third) (v / 2 ^ 30) true
      rw [heq] at hsame
      exact hsame.pid j
    rw [← hpid] at hr
    split at hr
    · rename_i k₂ heq'
      cases hr
      obtain ⟨s₂, h₂', hext', hshort⟩ := h₁.first h₂ heq'
      exact ⟨s₂, h₂', hext.trans hext', hshort⟩
    · rename_i p₁ k₂ heq'
      cases hr
      obtain ⟨s₂, h₂', hext', i₁, hi₁, rfl⟩ := h₁.first h₂ heq'
      exact ⟨s₂, h₂', hext.trans hext', i₁, hi₁, rfl⟩

end Holds

/-! ## Mappings -/

/-- The access that the flags of a segment ask for. -/
def Access.ofFlags (flags : Nat) : Access := if flags &&& 2 ≠ 0 then .write else if flags &&& 4 ≠ 0 then .execute else .read

/-- The flags that the kernel maps pages with. -/
def MapFlags (flags : Nat) : Prop := flags = 1 ∨ flags = 3 ∨ flags = 5

theorem Access.bits_ofFlags {flags : Nat} (h : MapFlags flags) : 5 ||| (if flags &&& 2 ≠ 0 then 2 else 0) |||
    (if flags &&& 4 ≠ 0 then 0 else nx) = (Access.ofFlags flags).bits false := by
  rcases h with rfl | rfl | rfl <;> decide

/-- `s'` maps the page of `v` to `x`, and everything else as `s` does. -/
structure Space.Maps (s s' : Space L) (v : Nat) (x : Mapping L) : Prop where
  mapped : ∀ v', s'.mapped v' = if v' / 4096 = v / 4096 then some x else s.mapped v'
  role : ∀ i r, s.role i = some r → s'.role i = some r

/-- What comes of mapping the page of `v` to `x`, with the space `s'` after it. -/
def Mapped (j : TaskId) (s s' : Space L) (v : Nat) (x : Mapping L) (k : Kernel) : Except SfError Unit → Prop
  | .ok _ => s.mapped v = none ∧ s.Maps s' v x
  | .error e => s.Extends s' ∧ (e = .noSpace ∧ Short j k ∨ e = .invalid ∧ s.mapped v ≠ none)

/-- **What a mapping does**: the page is mapped, or there was no page for a table, or the page was mapped already. -/
theorem Holds.map (h : Holds L σ j s k) {x : Mapping L} {flags : Nat} (hv : 0x40000000 ≤ v ∧ v < 0x80000000)
    (hva : v % 4096 = 0) (hflags : MapFlags flags) (hx : x.access = Access.ofFlags flags) (hdevice : x.device = false)
    (hrole : ∀ i, x.target = .page i → s.role i = some .data) (hgranted : x.target.Granted k j) {r : Except SfError Unit}
    (hr : spaceMap L k j v x.target.address flags = (r, k')) : ∃ s', Holds L σ j s' k' ∧ Mapped j s s' v x k' r := by
  have hok : ¬ (v % 4096 ≠ 0 ∨ x.target.address % 4096 ≠ 0 ∨ flags &&& 1 = 0 ∨ flags &&& 6 = 6) := by
    have ha := x.target.aligned
    have hf : flags &&& 1 ≠ 0 ∧ flags &&& 6 ≠ 6 := by rcases hflags with rfl | rfl | rfl <;> decide
    omega
  unfold spaceMap at hr
  rw [if_neg hok] at hr
  split at hr
  · rename_i k₁ heq
    cases hr
    obtain ⟨s', h', hext, hshort⟩ := h.makeEntry hv heq
    exact ⟨s', h', hext, Or.inl ⟨rfl, hshort⟩⟩
  · rename_i a k₁ heq
    obtain ⟨s₁, h₁, hext, i, hi, rfl⟩ := h.makeEntry hv heq
    have hentry : load k₁.mem (poolPage L i + 8 * firstIndex v) 8 = ((s.mapped v).map Mapping.entry).getD 0 := by
      refine (h₁.represents.first hi (firstIndex v)).trans ?_
      rw [← hext.mapped v]
      simp [Space.mapped, hv]
    rw [hentry] at hr
    cases hm : s.mapped v with
    | some y =>
      rw [hm] at hr
      have hy : y.entry &&& 1 ≠ 0 := y.accessible_entry.1
      simp only [Option.map_some, Option.getD_some, hy, ne_eq, not_false_iff, if_true] at hr
      cases hr
      exact ⟨s₁, h₁, hext, Or.inr ⟨rfl, by simp [hm]⟩⟩
    | none =>
      rw [hm] at hr
      simp only [Option.map_none, Option.getD_none] at hr
      rw [if_neg (by decide)] at hr
      have hbits : x.target.address ||| 5 ||| (if flags &&& 2 ≠ 0 then 2 else 0) |||
        (if flags &&& 4 ≠ 0 then 0 else nx) = x.entry := by
        rw [Nat.or_assoc, Nat.or_assoc, ← Nat.or_assoc 5, Access.bits_ofFlags hflags]
        unfold Mapping.entry Mapping.bits
        rw [hx, hdevice]
      rw [hbits] at hr
      cases hr
      have hpage : ∀ i, x.target = .page i → s₁.role i = some .data := fun i hi => hext.role i _ (hrole i hi)
      have hf : s₁.first (secondIndex v) ≠ none := by simp [hi]
      refine ⟨s₁.setLeaf (secondIndex v) (firstIndex v) x hf hpage, ?_, hm, ?_, fun i r hr => hext.role i r hr⟩
      · refine h₁.replace (Space.represents_setLeaf h₁.represents hi hpage) rfl (fun i' hr' => h₁.owned hr')
          (fun v' y hy => ?_)
          (h₁.eqOn_entry (by simp [s₁.role_first _ i hi]) (firstIndex v) _)
        rw [Space.mapped_setLeaf hv hf hpage] at hy
        split at hy
        · cases hy
          have hsame := same_pte L k j v true
          have hdev := device_pte L k j v true
          rw [heq] at hsame hdev
          exact hgranted.device hdev.1 hdev.2 (hsame.pid j)
        · exact h₁.granted hy
      · intro v'
        rw [Space.mapped_setLeaf hv hf hpage, hext.mapped]

/-- The same for a page of registers, whose entry is marked in a second write. -/
theorem Holds.mapMmio (h : Holds L σ j s k) {t : Target L} (hv : 0x40000000 ≤ v ∧ v < 0x80000000) (hva : v % 4096 = 0)
    (hpage : ∀ i, t ≠ .page i) (hbundle : ∀ n, t = .bundle n → Access.write = .read) (hgranted : t.Granted k j)
    {r : Except SfError Unit} (hr : spaceMapMmio L k j v t.address = (r, k')) :
    ∃ s', Holds L σ j s' k' ∧ Mapped j s s' v ⟨t, .write, true, hbundle⟩ k' r := by
  let x : Mapping L := ⟨t, .write, false, hbundle⟩
  have hmap : ∀ {r k'}, spaceMap L k j v t.address 3 = (r, k') → ∃ s', Holds L σ j s' k' ∧ Mapped j s s' v x k' r :=
    h.map (x := x) hv hva (Or.inr (Or.inl rfl)) rfl rfl (fun i hi => absurd hi (hpage i)) hgranted
  unfold spaceMapMmio at hr
  split at hr
  · rename_i e k₁ heq
    cases hr
    exact hmap heq
  · rename_i k₁ heq
    obtain ⟨s₁, h₁, hnone, hmaps⟩ := hmap heq
    have hm : s₁.mapped v = some x := by rw [hmaps.mapped v, if_pos rfl]
    have hleaf : s₁.leaf (secondIndex v) (firstIndex v) = some x := by simpa [Space.mapped, hv] using hm
    cases hf : s₁.first (secondIndex v) with
    | none =>
      rw [s₁.leaf_none _ hf] at hleaf
      cases hleaf
    | some i =>
      have hpte := pte_false h₁.cr3 h₁.represents (v := v)
      rw [if_pos hv, hf] at hpte
      have hentry : load k₁.mem (poolPage L i + 8 * firstIndex v) 8 = x.entry := by
        refine (h₁.represents.first hf (firstIndex v)).trans ?_
        rw [hleaf]
        rfl
      have hbits : x.entry ||| 0x18 ||| pteMmio = Mapping.entry ⟨t, .write, true, hbundle⟩ := by
        unfold Mapping.entry Mapping.bits
        rw [Nat.or_assoc, Nat.or_assoc]
        have h : Access.write.bits false ||| (0x18 ||| pteMmio) = Access.write.bits true := by decide
        exact congrArg (t.address ||| ·) h
      rw [hpte] at hr
      dsimp only [Option.map_some] at hr
      rw [hentry, hbits] at hr
      cases hr
      have hf' : s₁.first (secondIndex v) ≠ none := by simp [hf]
      have hrole : ∀ i, t = .page i → s₁.role i = some .data := fun i hi => absurd hi (hpage i)
      refine ⟨s₁.setLeaf (secondIndex v) (firstIndex v) ⟨t, .write, true, hbundle⟩ hf' hrole, ?_, hnone,
        fun v' => ?_, hmaps.role⟩
      · refine h₁.replace (Space.represents_setLeaf h₁.represents hf hrole) rfl (fun i' hr' => h₁.owned hr')
          (fun v' y hy => ?_)
          (h₁.eqOn_entry (by simp [s₁.role_first _ i hf]) (firstIndex v) _)
        rw [Space.mapped_setLeaf hv hf' hrole] at hy
        split at hy
        · cases hy
          have hg : x.target.Granted k₁ j := h₁.granted hm
          exact hg
        · exact h₁.granted hy
      · rw [Space.mapped_setLeaf hv hf' hrole]
        split
        · rfl
        · rename_i hne
          rw [hmaps.mapped, if_neg hne]

/-! ## Birth and death of a space -/

theorem calm_uncount (pid : Nat) (k : Kernel) :
    Calm k { k with tasks := fun j => if (k.tasks j).pid = pid then { k.tasks j with pageCount := 0 } else k.tasks j } := by
  refine ⟨rfl, rfl, rfl, Or.inr rfl, rfl, fun j => ?_, fun j => ?_, fun j => ?_, fun j => ?_⟩ <;> dsimp only <;> split
  · rfl
  · rfl
  · rfl
  · rfl
  · rfl
  · rfl
  · exact Or.inl rfl
  · exact Or.inl rfl

/-- The pages of a task that does not run are freed. -/
theorem Isolated.free (hk : Isolated L k σ) (hdead : (k.tasks j).state ≠ .ready ∧ (k.tasks j).state ≠ .blocked) :
    Isolated L (pagesFree L k (k.tasks j).pid) (update σ j none) := by
  have hd := hk.drop hdead
  unfold pagesFree
  split
  · exact hd
  · -- The pages of another space belong to another task.
    have hother : ∀ j' s i, update σ j none j' = some s → s.role i ≠ none → k.owner i ≠ (k.tasks j).pid := by
      intro j' s i hs hr hown
      have hj := hd.distinct j' j ((hd.owned j' s hs i hr).symm.trans hown) (hd.named j' (by simp [hs]))
      subst hj
      rw [update_self] at hs
      cases hs
    have hmem : Isolated L { k with mem := fun a => if ownedByte L k (k.tasks j).pid a then 0 else k.mem a }
      (update σ j none) := by
      refine hd.setMem fun j' s hs r i ht a h₁ h₂ => if_neg ?_
      rintro ⟨i', hown, h₁', h₂'⟩
      have hne : i ≠ i' := by
        rintro rfl
        exact hother j' s i hs (by simp [Space.role_table ht]) hown
      rcases poolPage_disjoint (L := L) hne with h | h <;> omega
    generalize (fun a => if ownedByte L k (k.tasks j).pid a then 0 else k.mem a) = m at hmem ⊢
    have howner := hmem.setOwner (fun i => if k.owner i = (k.tasks j).pid then 0 else k.owner i)
      fun j' s i hs hr => if_neg (hother j' s i hs hr)
    exact howner.calm (calm_uncount (k.tasks j).pid _)

/-- A task without a space may point anywhere. -/
theorem Isolated.setCr3 (hk : Isolated L k σ) (hσ : σ j = none) (cr3 : Nat) :
    Isolated L (k.setTask j { k.tasks j with cr3 := cr3 }) σ :=
  hk.setTask rfl (fun h => absurd hσ h) (hk.live j) fun s hs => by rw [hσ] at hs; cases hs

/-- The tables of a new task: there is no page for them, or its space is empty. -/
theorem isolated_spaceNew (hk : Isolated L k σ) (hσ : σ j = none) (hstate : (k.tasks j).state = .empty)
    (hpid : (k.tasks j).pid ≠ 0)
    (hle : (k.tasks j).pid ≤ 0x7fffffff) {cr3 : Nat} (hr : spaceNew L k (k.tasks j).pid = (cr3, k')) :
    cr3 = 0 ∧ Isolated L k' σ ∧ Short j k' ∨
    cr3 ≠ 0 ∧ ∃ s : Space L, (∀ v, s.mapped v = none) ∧ Holds L σ j s (k'.setTask j { k'.tasks j with cr3 := cr3 }) := by
  unfold spaceNew at hr
  rcases ha : pageAlloc L k (k.tasks j).pid with ⟨_ | p4, k₁⟩
  · obtain rfl := pageAlloc_none ha
    rw [ha] at hr
    dsimp only at hr
    rw [ha] at hr
    cases hr
    exact Or.inl ⟨rfl, hk, hk.short hstate hpid hle (by rw [ha])⟩
  · rw [ha] at hr
    dsimp only at hr
    have halloc := pageAlloc_some ha
    have hk₁ := hk.alloc halloc
    have hpid₁ : (k₁.tasks j).pid = (k.tasks j).pid := halloc.calm.pid j
    rcases hb : pageAlloc L k₁ (k.tasks j).pid with ⟨_ | p3, k₂⟩
    · obtain rfl := pageAlloc_none hb
      rw [hb] at hr
      cases hr
      refine Or.inl ⟨rfl, hk₁, hk₁.short ((halloc.state j).trans hstate) (hpid₁ ▸ hpid) (hpid₁ ▸ hle) ?_⟩
      rw [hpid₁, hb]
    · rw [hb] at hr
      cases hr
      have hblloc := pageAlloc_some hb
      have hpid₂ : (k₂.tasks j).pid = (k.tasks j).pid := (hblloc.calm.pid j).trans hpid₁
      have hne : p4 ≠ p3 := fun he => by
        have hfree := hblloc.free
        rw [← he, halloc.owner, update_self] at hfree
        exact hpid hfree
      refine Or.inr ⟨?_, Space.fresh p4 p3 hne k₂.mmioReady, fun v => by simp [Space.mapped, Space.fresh], ?_⟩
      · have hpos := L.pool_pos
        unfold poolPage
        omega
      · have htop : ∀ n : Fin 512, entry k₂.mem (poolPage L p4) n = 0 := fun n => by
          rw [hblloc.mem, entry_eqOn (eqOn_clear_page (Ne.symm hne)), halloc.mem, entry_clear]
        have hthird : ∀ n : Fin 512, entry k₂.mem (poolPage L p3) n = 0 := fun n => by rw [hblloc.mem, entry_clear]
        have howner : k₂.owner p4 = (k.tasks j).pid ∧ k₂.owner p3 = (k.tasks j).pid := by
          rw [hblloc.owner, update_self, update_of_ne hne, halloc.owner, update_self]
          exact ⟨rfl, rfl⟩
        have hself : ∀ cr3, (k₂.setTask j { k₂.tasks j with cr3 := cr3 }).tasks j =
          { k₂.tasks j with cr3 := cr3 } := fun _ =>
          update_self _ _ _
        refine ((hk₁.alloc hblloc).setCr3 hσ (poolPage L p4)).add hσ ?_ ?_ ?_
          (Space.represents_fresh hne k₂.mmioReady htop hthird) ?_ ?_ ?_
        · rw [hself]
          exact (hblloc.state j).trans ((halloc.state j).trans hstate)
        · rw [hself]
          exact ⟨hpid₂ ▸ hpid, hpid₂ ▸ hle⟩
        · rw [hself]
          rfl
        · intro i hi
          rw [hself]
          change k₂.owner i = (k₂.tasks j).pid
          rw [hpid₂]
          simp only [Space.fresh] at hi
          split at hi
          · rename_i he
            rw [he]
            exact howner.1
          · split at hi
            · rename_i he
              rw [he]
              exact howner.2
            · exact absurd rfl hi
        · intro v x hx
          simp [Space.mapped, Space.fresh] at hx
        · intro i hi
          rw [hself] at hi
          change k₂.owner i ≠ (k₂.tasks j).pid at hi
          rw [hpid₂] at hi
          have h4 : p4 ≠ i := fun he => hi (he ▸ howner.1)
          have h3 : p3 ≠ i := fun he => hi (he ▸ howner.2)
          have htwo : EqOn (setEntry (setEntry k₂.mem (poolPage L p4) 0 (poolPage L p3 ||| 7)) (poolPage L p3) 0
            (L.kernelPd ||| 3))
              k₂.mem (poolPage L i) 4096 := (eqOn_setEntry_page (n := 0) h3).trans (eqOn_setEntry_page (n := 0) h4)
          split
          · exact (eqOn_setEntry_page (n := 3) h3).trans htwo
          · exact htwo

/-! ## Stores and copies -/

/-- A write to a page that the task has in its map. -/
theorem Isolated.store (hk : Isolated L k σ) (hs : σ j = some s) {x : Mapping L} (hx : s.mapped v = some x)
    {o : Nat} (ho : o + bytes.length ≤ 4096) :
    Isolated L { k with mem := blit k.mem (x.target.address + o) bytes } σ := by
  by_cases hpage : ∃ i, x.target = .page i
  · obtain ⟨i, ht⟩ := hpage
    refine hk.data hs (Space.role_mapped hx ht) fun a ha => blit_of_lt ?_
    rw [ht]
    simp only [Target.address]
    omega
  · have hout := Target.outside fun i ht => hpage ⟨i, ht⟩
    exact hk.outside (eqOn_blit (by omega))

theorem Isolated.copyOutLoop (hs : σ j = some s) (rounds : Nat) {k : Kernel} {dst : Nat}
    (hk : Isolated L k σ) (hc : s.Covers dst bytes.length true) : Isolated L (copyOutLoop L j rounds k dst bytes) σ := by
  induction rounds generalizing k dst bytes with
  | zero => exact hk
  | succ rounds ih =>
    unfold SpiritFox.Core.copyOutLoop
    split
    · exact hk
    rename_i hne
    have hlen : 0 < bytes.length := List.length_pos_iff.2 hne
    obtain ⟨x, hx, _⟩ := hc dst (Nat.le_refl _) (by omega)
    have hchunk := chunk_le dst bytes.length
    dsimp only
    rw [userPhys_eq (hk.cr3 j s hs) (hk.represents j s hs) hx]
    refine ih (hk.store hs hx (by rw [List.length_take]; omega)) ?_
    rw [List.length_drop]
    exact hc.add hchunk.2

theorem Isolated.copyOut (hk : Isolated L k σ) (hs : σ j = some s) {dst : Nat}
    (h : copyOut L k j dst bytes = some k') : Isolated L k' σ := by
  unfold SpiritFox.Core.copyOut at h
  split at h
  · rename_i hu
    cases h
    exact Isolated.copyOutLoop hs _ hk (covers_of_userRange (hk.cr3 j s hs) (hk.represents j s hs) hu)
  · cases h

theorem Isolated.userStore (hk : Isolated L k σ) (hs : σ j = some s) (v : Nat) (byte : UInt8) :
    Isolated L (userStore k j v byte) σ := by
  unfold SpiritFox.Core.userStore
  rw [hk.cr3 j s hs, walk_eq (hk.represents j s hs)]
  cases hx : s.mapped (v % 2 ^ 48) with
  | none => exact hk
  | some x =>
    dsimp only [Option.map_some]
    split
    · exact hk.store hs hx (by simp; omega)
    · exact hk

end Mapping

end SpiritFox.Core
