import SpiritFox.Kernel.Birth

/-!
# The work of a construction

A task under construction gets pages, mappings, capabilities and a device in many places, and each of them can fail.
`Work` lists what one of these places does to the kernel, and `working_construct` says that a construction does
nothing else, wherever it stops.
-/

namespace SpiritFox.Core

open ByteMem Proc Relation

/-- What a task has and may have. -/
def Task.holdings (t : Task) : Nat × Nat × Nat × Nat × (CapId → Cap) := (t.pid, t.pageCount, t.pageLimit, t.capLimit, t.caps)

/-- One piece of the construction of task `j`; `device` says whether the grant of a device is among them. -/
inductive Work (L : Layout) (device : Bool) (parent : Option TaskId) (j : TaskId) (k : Kernel) : Kernel → Prop
  | page : Work L device parent j k (pageAlloc L k (k.tasks j).pid).2
  | write (m : Mem) : Work L device parent j k { k with mem := m }
  | task (t : Task) (holdings : t.holdings = (k.tasks j).holdings) (state : t.state = (k.tasks j).state ∨ t.state = .ready) :
      Work L device parent j k (k.setTask j t)
  | grant (q : TaskId) (hq : parent = some q) (h rights : Nat) : Work L device parent j k (ipcGrant k q j h rights).2
  | ask {k' : Kernel} (h : Asked k k') : Work L device parent j k k'
  | window (physical : Nat) : Work L device parent j k { k with devicePt := physical }
  | take (hd : device = true) (free : k.deviceOwner = 0) : Work L device parent j k { k with deviceOwner := (k.tasks j).pid }
  | release (hd : device = true) : Work L device parent j k (deviceRelease k j).2

abbrev Works (L : Layout) (device : Bool) (parent : Option TaskId) (j : TaskId) : Kernel → Kernel → Prop :=
  ReflTransGen (Work L device parent j)

section Works

variable {L : Layout} {device : Bool} {parent : Option TaskId} {j : TaskId} {k k' : Kernel}

theorem Work.works (h : Work L device parent j k k') : Works L device parent j k k' := .single h

/-! ## Memory -/

/-- A page is given out when the account of its owner has room for it, and counted there. -/
theorem pageAlloc_cases (L : Layout) (k : Kernel) (pid : Nat) : (pageAlloc L k pid).2 = k ∨
    ∃ j i, pid ≠ 0 ∧ (k.tasks j).pid = pid ∧ (k.tasks j).state ≠ .dead ∧
      (k.tasks j).pageCount < (k.tasks j).pageLimit ∧ k.owner i = 0 ∧
      (pageAlloc L k pid).2 = { k.setTask j { k.tasks j with pageCount := (k.tasks j).pageCount + 1 } with
        owner := Function.update k.owner i pid, mem := clear k.mem (poolPage L i) 4096 } := by
  unfold pageAlloc
  split
  · exact Or.inl rfl
  rename_i j hj
  dsimp only
  split
  · exact Or.inl rfl
  split
  · exact Or.inl rfl
  rename_i hroom i hi
  have hfree : k.owner i = 0 := by simpa using List.find?_some hi
  unfold pageOwner at hj
  split at hj
  · cases hj
  rename_i hpid
  have hfound := List.find?_some hj
  simp only [decide_eq_true_eq] at hfound
  exact Or.inr ⟨j, i, (not_or.1 hpid).1, hfound.1, hfound.2, by omega, hfree, rfl⟩

theorem works_page (k : Kernel) {pid : Nat} (hpid : (k.tasks j).pid = pid) :
    Works L device parent j k (pageAlloc L k pid).2 := by
  subst hpid
  exact Work.page.works

theorem works_spaceNew (k : Kernel) : Works L device parent j k (spaceNew L k (k.tasks j).pid).2 := by
  have h : Works L device parent j k (pageAlloc L k (k.tasks j).pid).2 := Work.page.works
  have h' := h.trans (works_page (pageAlloc L k (k.tasks j).pid).2 ((same_pageAlloc L k _).pid j))
  unfold spaceNew
  dsimp only
  split
  · exact h'.tail (.write _)
  · exact h'

theorem works_nextTable {pid : Nat} (k : Kernel) (hpid : (k.tasks j).pid = pid) (table i : Nat) (create : Bool) :
    Works L device parent j k (nextTable L k pid table i create).2 := by
  have h : Works L device parent j k (pageAlloc L k pid).2 := works_page k hpid
  unfold nextTable
  split
  · exact .refl
  split
  · exact .refl
  split <;> rename_i heq <;> rw [heq] at h
  · exact h
  · exact h.tail (.write _)

theorem works_pte (k : Kernel) (v : Nat) (create : Bool) : Works L device parent j k (pte L k j v create).2 := by
  have h : Works L device parent j k (nextTable L k (k.tasks j).pid (entry k.mem (k.tasks j).cr3 0 &&& entryMask)
    (v / 2 ^ 30) create).2 :=
    works_nextTable k rfl _ _ create
  have hs := same_nextTable L k (k.tasks j).pid (entry k.mem (k.tasks j).cr3 0 &&& entryMask) (v / 2 ^ 30) create
  unfold pte
  split
  · exact .refl
  dsimp only
  split <;> rename_i heq <;> rw [heq] at h hs
  · exact h
  rename_i p2 k₁
  have h' := h.trans (works_nextTable k₁ (hs.pid j) p2 (v / 2 ^ 21 % 512) create)
  split <;> rename_i heq' <;> rw [heq'] at h' <;> exact h'

theorem works_spaceMap (k : Kernel) (v physical flags : Nat) :
    Works L device parent j k (spaceMap L k j v physical flags).2 := by
  have h : Works L device parent j k (pte L k j v true).2 := works_pte k v true
  unfold spaceMap
  split
  · exact .refl
  split <;> rename_i heq <;> rw [heq] at h
  · exact h
  split
  · exact h
  · exact h.tail (.write _)

theorem works_spaceMapMmio (k : Kernel) (v physical : Nat) :
    Works L device parent j k (spaceMapMmio L k j v physical).2 := by
  have h : Works L device parent j k (spaceMap L k j v physical 3).2 := works_spaceMap k v physical 3
  unfold spaceMapMmio
  split <;> rename_i heq <;> rw [heq] at h
  · exact h
  split
  · exact h
  · exact h.tail (.write _)

/-! ## Procedures -/

/-- The procedure only does work for the task. -/
abbrev Working (L : Layout) (device : Bool) (parent : Option TaskId) (j : TaskId) {α : Type} (p : KProc α) : Prop :=
  Within (Works L device parent j) p

theorem working_pure {α : Type} (a : α) : Working L device parent j (pure a : KProc α) := within_pure (fun _ => .refl) a

theorem working_fail {α : Type} (e : SfError) : Working L device parent j (fail e : KProc α) :=
  within_fail (fun _ => .refl) e

theorem working_bind {α β : Type} {p : KProc α} {f : α → KProc β} (hp : Working L device parent j p)
    (hf : ∀ a, Working L device parent j (f a)) :
    Working L device parent j (p >>= f) :=
  within_bind (R := Works L device parent j) (fun _ _ _ => .trans) hp hf

theorem working_forM {α : Type} {body : α → KProc PUnit} (xs : List α) (h : ∀ x, Working L device parent j (body x)) :
    Working L device parent j (xs.forM body) :=
  within_forM (fun _ => .refl) (fun _ _ _ => .trans) xs h

theorem working_update {f : Kernel → Kernel} (h : ∀ k, Work L device parent j k (f k)) :
    Working L device parent j (Proc.update f : KProc Unit) :=
  fun k => (h k).works

theorem working_mapStep {α : Type} {a : α} {f : Kernel → Except SfError Unit × Kernel}
    (h : ∀ k, Works L device parent j k (f k).2) :
    Working L device parent j (fun k => match f k with
      | (.error _, k) => (.error .noSpace, k)
      | (.ok _, k) => (.ok a, k) : KProc α) := by
  intro k
  have hk := h k
  rcases hr : f k with ⟨_ | _, k'⟩ <;> rw [hr] at hk <;> simpa only [hr] using hk

theorem working_mapNew (v flags : Nat) : Working L device parent j (mapNew L j v flags) := by
  unfold mapNew
  exact working_bind (within_callSome fun k => Work.page.works) fun page => working_mapStep fun k =>
    works_spaceMap k v _ flags

theorem working_loadSegment (base : Nat) (s : SfLoadSegment) :
    Working L device parent j (loadSegment L parent j base s) := by
  unfold loadSegment
  refine working_forM _ fun i => ?_
  unfold loadPage
  refine working_bind (working_mapNew _ _) fun page k => ?_
  cases parent with
  | none => exact (Work.write _).works
  | some q =>
    dsimp only
    split
    · exact .refl
    · exact (Work.write _).works

theorem working_grantBundle (p : SfLoadPlan) (args : Nat) : Working L device parent j (grantBundle L parent j p args) := by
  unfold grantBundle mapBundle
  refine within_ite (working_bind (working_forM _ fun i => ?_) fun _ => working_update fun k => .write _) (working_pure _)
  exact working_mapStep fun k => works_spaceMap k _ _ _

theorem working_grantCap {q : TaskId} (hq : parent = some q) (h rights field : Nat) :
    Working L device parent j (grantCap q j h rights field) := by
  unfold grantCap
  refine within_ite (working_pure _) (within_ite (working_fail _) ?_)
  exact working_bind (within_callSome fun k => (Work.grant q hq h rights).works) fun _ => working_update fun k => .write _

theorem working_grantCaps (p : SfLoadPlan) (args : Nat) : Working L device parent j (grantCaps parent j p args) := by
  cases parent with
  | none => exact working_pure _
  | some q => exact working_bind (working_grantCap rfl _ _ _) fun _ => working_grantCap rfl _ _ _

/-! ## The device -/

/-- Work has been done since `k₀`, and the device is nobody's. -/
def Unclaimed (L : Layout) (parent : Option TaskId) (j : TaskId) (k₀ k : Kernel) : Prop :=
  Works L true parent j k₀ k ∧ k.deviceOwner = 0

variable {k₀ : Kernel}

theorem Unclaimed.asked (h : Unclaimed L parent j k₀ k) (ha : Asked k k') : Unclaimed L parent j k₀ k' := by
  refine ⟨h.1.tail (.ask ha), ?_⟩
  obtain ⟨hw, iommu, rfl⟩ := ha
  exact h.2

theorem Unclaimed.window (h : Unclaimed L parent j k₀ k) (physical : Nat) :
    Unclaimed L parent j k₀ { k with devicePt := physical } :=
  ⟨h.1.tail (.window physical), h.2⟩

theorem unclaimed_modernWindow (bar : Nat) :
    Triple (Unclaimed L parent j k₀) (modernWindow bar) (fun _ => Unclaimed L parent j k₀) fun _ =>
      Works L true parent j k₀ := by
  have hread : Triple (Unclaimed L parent j k₀) configRead (fun _ => Unclaimed L parent j k₀) fun _ =>
    Works L true parent j k₀ :=
    triple_configRead .asked
  have hfail : ∀ {α : Type} {Q : α → Kernel → Prop} (e : SfError), Triple (Unclaimed L parent j k₀) (fail e : KProc α) Q
      fun _ => Works L true parent j k₀ := fun e => triple_fail fun k hk => hk.1
  unfold modernWindow spaceDeviceMmio
  refine triple_read_of fun _ _ => triple_ite (fun _ => hfail _) fun _ => ?_
  refine triple_bind hread fun high => triple_ite (fun _ => hfail _) fun _ => triple_bind hread fun first => ?_
  refine triple_bind (triple_weaken (triple_walkCaps .asked 48 (first % 256) 0) (fun _ hk => hk)
    (fun _ _ hk => hk) fun _ _ hk => hk.1.1)
    fun (cap, found) => triple_ite (fun _ => hfail _) fun _ => ?_
  refine triple_bind (Q := fun _ => Unclaimed L parent j k₀) ?_ fun _ => triple_pure fun _ hk => hk
  exact triple_read_of fun _ _ => triple_ite (fun _ => hfail _) fun _ => triple_update fun k hk => hk.window _

theorem working_mapDevice (modern : Bool) (physical : Nat) : Working L true parent j (mapDevice L j modern physical) := by
  have hdma : Working L true parent j
    ((List.range 16).forM fun i => fun k => match spaceMap L k j (sfDma + 4096 * i) (L.dma + 4096 * i) 3 with
      | (.error _, k) => (.error .noSpace, k)
      | (.ok _, k) => (.ok ⟨⟩, k) : KProc PUnit) := working_forM _ fun i => working_mapStep fun k => works_spaceMap k _ _ _
  unfold mapDevice
  split
  · exact working_bind (working_forM _ fun i => working_mapStep fun k => works_spaceMapMmio k _ _) fun _ => hdma
  · exact hdma

theorem working_configRead : Working L true parent j configRead := fun _ => (Work.ask asked_hwRead).works

theorem working_enableDevice (bdf : Nat) (modern : Bool) : Working L true parent j (enableDevice L bdf modern) := by
  unfold enableDevice
  refine working_bind (fun k => (Work.ask (asked_iommuGrant k bdf L.dma)).works) fun address => ?_
  exact working_bind working_configRead fun _ => working_bind working_configRead fun _ =>
    within_ite (working_fail _) (working_pure _)

theorem Unclaimed.updateTask (h : Unclaimed L parent j k₀ k) {t : Task} (hholdings : t.holdings = (k.tasks j).holdings)
    (hstate : t.state = (k.tasks j).state) : Unclaimed L parent j k₀ (k.setTask j t) :=
  ⟨h.1.tail (.task t hholdings (Or.inl hstate)), h.2⟩

theorem unclaimed_takeDevice (args bdf rights io physical : Nat) (modern : Bool) :
    Triple (Unclaimed L parent j k₀) (takeDevice L j args bdf rights io physical modern) (fun _ => Works L true parent j k₀)
      fun _ => Works L true parent j k₀ := by
  unfold takeDevice
  refine triple_bind (Q := fun _ => Unclaimed L parent j k₀) (triple_update fun k hk => hk.updateTask rfl rfl) fun _ => ?_
  refine triple_bind (Q := fun _ => Unclaimed L parent j k₀)
    (triple_call fun k hk => ⟨hk.1.tail (.release rfl), ?_⟩) fun gone => ?_
  · rw [(mild_deviceRelease k j).calm.deviceOwner]
    exact hk.2
  refine triple_ite (fun _ => triple_fail fun k hk => hk.1) fun _ => ?_
  refine triple_bind (Q := fun _ => Unclaimed L parent j k₀) (triple_update fun k hk => hk.updateTask rfl rfl) fun _ => ?_
  refine triple_bind (Q := fun _ => Works L true parent j k₀)
    (triple_update fun k hk => (hk.1.tail (.take rfl hk.2)).tail (.write _)) fun _ => ?_
  refine Within.triple (fun _ _ _ => .trans)
    (within_onError (R := Works L true parent j) (fun _ _ _ => .trans) ?_ fun _ _ => (Work.release rfl).works) k₀
  refine working_bind (working_mapDevice modern physical) fun _ => working_bind (working_enableDevice bdf modern) fun _ => ?_
  exact working_update fun k => .write _

theorem working_deviceGrant (bdfPlusOne rights args : Nat) :
    Working L true parent j (deviceGrant L j bdfPlusOne rights args) := by
  refine within_of_triple fun k₀ => ?_
  unfold deviceGrant
  have hfail : ∀ {α : Type} {Q : α → Kernel → Prop} (e : SfError), Triple (fun k => k = k₀) (fail e : KProc α) Q
      fun _ => Works L true parent j k₀ := fun e => triple_fail fun k hk => hk ▸ .refl
  refine triple_read fun k hk => ?_
  obtain rfl := hk
  refine triple_ite (fun _ => hfail _) fun _ => triple_ite (fun _ => hfail _) fun hbusy =>
    triple_ite (fun _ => hfail _) fun _ => ?_
  refine triple_weaken (S := Unclaimed L parent j k) (T := fun _ => Works L true parent j k)
    (F := fun _ => Works L true parent j k) ?_ ?_
    (fun _ _ h => h) fun _ _ h => h
  · have hread : Triple (Unclaimed L parent j k) configRead (fun _ => Unclaimed L parent j k) fun _ =>
      Works L true parent j k :=
      triple_configRead .asked
    have hfail' : ∀ {α : Type} {Q : α → Kernel → Prop} (e : SfError), Triple (Unclaimed L parent j k) (fail e : KProc α) Q
        fun _ => Works L true parent j k := fun e => triple_fail fun k hk => hk.1
    refine triple_bind hread fun identity => ?_
    split
    · exact hfail' _
    refine triple_bind hread fun bar => triple_ite (fun _ => ?_) fun _ => triple_ite (fun _ => hfail' _) fun _ => ?_
    · exact triple_bind (unclaimed_modernWindow bar) fun physical => unclaimed_takeDevice _ _ _ _ _ _
    · exact unclaimed_takeDevice _ _ _ _ _ _
  · rintro k' rfl
    exact ⟨.refl, by simpa using (not_or.1 hbusy).1⟩

/-! ## Construction -/

theorem working_grantDevice (p : SfLoadPlan) (args : Nat) : Working L true parent j (grantDevice L j p args) :=
  within_ite (working_deviceGrant _ _ _) (working_pure _)

theorem working_updateTask {f : Task → Task}
    (h : ∀ t, (f t).holdings = t.holdings ∧ ((f t).state = t.state ∨ (f t).state = .ready)) :
    Working L device parent j (updateTask j f) := working_update fun _ => .task _ (h _).1 (h _).2

theorem working_stackPage (i : Nat) : Working L device parent j (stackPage L j i) := by
  unfold stackPage
  exact working_bind (working_mapNew _ _) fun _ => working_pure _

/-- **A construction is work for the new task, and nothing else.** -/
theorem working_construct (p : SfLoadPlan) : Working L true parent j (construct L parent j p) := by
  unfold construct
  refine working_bind (fun k => works_spaceNew k) fun cr3 =>
    working_bind (working_updateTask fun t => ⟨rfl, Or.inl rfl⟩) fun _ => ?_
  refine within_ite (working_fail _) (working_bind (working_forM _ fun s => working_loadSegment _ s) fun _ => ?_)
  refine working_bind (working_forM _ working_stackPage) fun _ => working_bind (working_mapNew _ _) fun page => ?_
  refine working_bind (working_update fun k => .write _) fun _ => working_bind (working_grantBundle p _) fun _ => ?_
  refine working_bind (working_grantCaps p _) fun _ => working_bind (working_grantDevice p _) fun _ => ?_
  exact working_update fun k => .task _ rfl (Or.inr rfl)

end Works

end SpiritFox.Core
