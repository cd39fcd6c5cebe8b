import SpiritFox.Ns.Runs

/-!
# Stale handles

The value of a handle is a slot and a generation. A slot never goes back to an earlier generation, and once it is
empty it gets a new generation before it holds a handle again (`Ages`), so a value that was closed is `Gone` for the
rest of the run.

The main result is `closed_handles`.
-/

namespace SpiritFox.Ns

open Tally Refs Names Checks

variable {n n' : SfNamespace} {owner h : Nat} {k : SlotId} {d : DescId}

/-! ## Handles that come to an end -/

/-- Generations grow, and an empty slot stays empty in its generation. -/
def Ages (n n' : SfNamespace) : Prop :=
  ∀ k, (n.handles k).generation ≤ (n'.handles k).generation ∧
    ((n'.handles k).generation = (n.handles k).generation → (n.handles k).description = none →
      (n'.handles k).description = none)

/-- The value belongs to the past of its slot. -/
def Gone (n : SfNamespace) (h : Nat) : Prop :=
  ∃ g k, h = fileHandle g k ∧
    (g < (n.handles k).generation ∨ g = (n.handles k).generation ∧ (n.handles k).description = none)

theorem Ages.refl (n : SfNamespace) : Ages n n := fun _ => ⟨le_rfl, fun _ hk => hk⟩

theorem Ages.of_handles (hh : n'.handles = n.handles) : Ages n n' := by
  intro k
  rw [hh]
  exact ⟨le_rfl, fun _ hk => hk⟩

theorem Ages.trans {m : SfNamespace} (h₁ : Ages n m) (h₂ : Ages m n') : Ages n n' := by
  intro k
  obtain ⟨hle₁, hempty₁⟩ := h₁ k
  obtain ⟨hle₂, hempty₂⟩ := h₂ k
  refine ⟨hle₁.trans hle₂, fun hgen hk => ?_⟩
  exact hempty₂ (by omega) (hempty₁ (by omega) hk)

theorem Gone.later (hg : Gone n h) (ha : Ages n n') : Gone n' h := by
  obtain ⟨g, k, rfl, hcase⟩ := hg
  obtain ⟨hle, hempty⟩ := ha k
  refine ⟨g, k, rfl, ?_⟩
  rcases hcase with hlt | ⟨heq, hk⟩
  · exact .inl (lt_of_lt_of_le hlt hle)
  by_cases hsame : (n'.handles k).generation = (n.handles k).generation
  · exact .inr ⟨heq.trans hsame.symm, hempty hsame hk⟩
  · exact .inl (by omega)

theorem fileHandle_inj {g g' : Nat} {k k' : SlotId} (heq : fileHandle g k = fileHandle g' k') : g = g' ∧ k = k' := by
  unfold fileHandle at heq
  have hk := k.isLt
  have hk' := k'.isLt
  exact ⟨by omega, Fin.ext (by omega)⟩

theorem attach_ages (owner : Nat) (d : DescId) (k : SlotId) (n : SfNamespace) : Ages n (attach owner d k n) := by
  intro k'
  rw [attach_handles]
  split
  · rename_i hk
    subst hk
    exact ⟨Nat.le_succ _, fun hgen => absurd hgen (Nat.succ_ne_self _)⟩
  · exact ⟨le_rfl, fun _ hk => hk⟩

theorem detach_handles (k : SlotId) (d : DescId) (n : SfNamespace) (k' : SlotId) : (detach k d n).handles k' =
    if k' = k then { n.handles k with description := none } else n.handles k' := by
  change Function.update (release d n).handles k { (release d n).handles k with description := none } k' = _
  rw [(release_rest d n).2.1, Function.update_apply]

theorem detach_ages (k : SlotId) (d : DescId) (n : SfNamespace) : Ages n (detach k d n) := by
  intro k'
  rw [detach_handles]
  split
  · rename_i hk
    subst hk
    exact ⟨le_rfl, fun _ _ => rfl⟩
  · exact ⟨le_rfl, fun _ hk => hk⟩

theorem Effect.ages (he : Effect owner n n') : Ages n n' := by
  cases he with
  | content same =>
    have hhandles : n'.outline.handles = n.outline.handles := by rw [same]
    exact .of_handles hhandles
  | turnedAway unused => exact .of_handles rfl
  | @enter i d k mode node unused valid free room =>
    have hattach : Ages n (attach owner d k (prepare mode i d n)) := attach_ages owner d k (prepare mode i d n)
    exact hattach.trans (.of_handles (adjustWriters_rest _ _ _ _).2.1)
  | dup held mine free room => exact attach_ages owner _ _ n
  | close held mine => exact detach_ages _ _ n
  | tree quiet good untagged => exact .of_handles quiet.handles

theorem Effects.ages (he : Effects owner n n') : Ages n n' := by
  induction he with
  | refl => exact .refl n
  | tail _ he ih => exact ih.trans he.ages

theorem Step.ages {s s' : Service} (hs : Fit s) (hstep : Step s s') : Ages s.ns s'.ns := by
  cases hstep with
  | request b r => exact (run_effects hs.good b r).ages
  | @transfer _ _ k _ pid held fresh =>
    intro k'
    by_cases hk : k' = k <;> simp [SfNamespace.setOwner, SfNamespace.setHandle, hk]
  | storageInit => exact .refl _
  | mount ready m => exact .of_handles (hs.mount ready m).2.handles

/-- **A value that is gone stays gone.** -/
theorem Gone.run {s s' : Service} (hs : Fit s) (hrun : Relation.ReflTransGen Step s s') (hg : Gone s.ns h) :
    Gone s'.ns h := by
  have hboth : Fit s' ∧ Gone s'.ns h := by
    induction hrun with
    | refl => exact ⟨hs, hg⟩
    | tail _ hstep ih => exact ⟨hstep.fit ih.1, ih.2.later (hstep.ages ih.1)⟩
  exact hboth.2

/-! ## What is refused -/

/-- Every call on the handle is refused and does nothing. -/
structure Refused (n : SfNamespace) (owner h : Nat) : Prop where
  openat : ∀ b relative mode, sfNsOpenat b owner h relative mode n = (stop .staleHandle, n)
  dup : sfNsDup owner h n = (stop .staleHandle, n)
  close : sfNsClose owner h n = (stop .staleHandle, n)
  read : ∀ b bytes, sfNsRead b owner h bytes n = (stop .staleHandle, n)
  pread : ∀ b bytes offset, sfNsPread b owner h bytes offset n = (stop .staleHandle, n)
  write : ∀ b data, sfNsWrite b owner h data n = (stop .staleHandle, n)
  seek : ∀ offset, sfNsSeek owner h offset n = (stop .staleHandle, n)
  truncate : ∀ b bytes, sfNsTruncate b owner h bytes n = (stop .staleHandle, n)
  unlink : ∀ relative, sfNsUnlink owner h relative n = (stop .staleHandle, n)
  rmdir : ∀ relative, sfNsRmdir owner h relative n = (stop .staleHandle, n)
  stat : sfNsStat owner h n = (stop .staleHandle, n)
  poll : sfNsPoll owner h n = (stop .staleHandle, n)
  enumerate : ∀ size, sfNsEnumerate owner h size n = (stop .staleHandle, n)

/-- The value is refused for everyone, and no call makes it again. -/
structure Buried (n : SfNamespace) (h : Nat) : Prop where
  refused : ∀ owner, Refused n owner h
  opened : ∀ b owner base path mode, (sfNsOpen b owner base path mode n).1 ≠ .ok h
  openedAt : ∀ b owner directory relative mode, (sfNsOpenat b owner directory relative mode n).1 ≠ .ok h
  dupped : ∀ owner directory, (sfNsDup owner directory n).1 ≠ .ok h

theorem withDescription_none {α : Type} {f : SlotId → DescId → SfNamespace → Except Int α × SfNamespace}
    (hd : description n owner h = none) : withDescription owner h f n = (stop .staleHandle, n) := by
  unfold withDescription
  rw [hd]

theorem removeNode_none (hd : description n owner h = none) (relative : Path) (kind : NodeType) :
    removeNode owner h relative kind n = (stop .staleHandle, n) := by
  have hcheck : removeCheck owner h relative kind n = stop .staleHandle := by
    unfold removeCheck
    rw [hd]
  unfold removeNode checked
  rw [hcheck]
  rfl

theorem refused_of_description (hd : description n owner h = none) : Refused n owner h where
  openat _ _ _ := withDescription_none hd
  dup := withDescription_none hd
  close := withDescription_none hd
  read _ _ := withDescription_none hd
  pread _ _ _ := withDescription_none hd
  write _ _ := withDescription_none hd
  seek _ := withDescription_none hd
  truncate _ _ := withDescription_none hd
  unlink relative := removeNode_none hd relative .file
  rmdir relative := removeNode_none hd relative .dir
  stat := withDescription_none hd
  poll := withDescription_none hd
  enumerate _ := withDescription_none hd

theorem Gone.description_none (hg : Gone n h) (owner : Nat) : description n owner h = none := by
  cases hd : description n owner h with
  | none => rfl
  | some x =>
    obtain ⟨hheld, -, heq⟩ := description_some (k := x.1) (d := x.2) hd
    obtain ⟨g, k, rfl, hcase⟩ := hg
    obtain ⟨rfl, rfl⟩ := fileHandle_inj heq
    rcases hcase with hlt | ⟨-, hempty⟩
    · exact absurd hlt (lt_irrefl _)
    · rw [hempty] at hheld
      cases hheld

/-- A new handle has a value that its slot has not had. -/
theorem Gone.ne_new (hg : Gone n h) {k : SlotId} : h ≠ fileHandle ((n.handles k).generation + 1) k := by
  intro heq
  obtain ⟨g, k', rfl, hcase⟩ := hg
  obtain ⟨rfl, rfl⟩ := fileHandle_inj heq
  omega

theorem Gone.handleNew_ne (hg : Gone n h) (owner : Nat) (d : DescId) : (handleNew owner d n).1 ≠ .ok h := by
  rcases handleNew_cases owner d n with hfull | ⟨k, -, -, hnew⟩
  · rw [hfull]
    exact nofun
  rw [hnew]
  intro heq
  exact hg.ne_new (Except.ok.inj heq).symm

theorem Gone.opening_ne (hg : Gone n h) {mode : Nat} {path : Path} {r : Except Int Nat × SfNamespace}
    (ho : Opening owner mode path n r) : r.1 ≠ .ok h := by
  cases ho with
  | refused e => exact nofun
  | turnedAway unused => exact nofun
  | entered found unused valid free room =>
    intro heq
    exact hg.ne_new (Except.ok.inj heq).symm

theorem Gone.openat_ne (hg : Gone n h) (b : Backend) (owner directory : Nat) (relative : Path) (mode : Nat) :
    (sfNsOpenat b owner directory relative mode n).1 ≠ .ok h := by
  rcases sfNsOpenat_opening b owner directory relative mode n with ⟨e, hsame⟩ | ⟨k, d, path, -, -, -, -, hopening⟩
  · rw [hsame]
    exact nofun
  · exact hg.opening_ne hopening

theorem Gone.dup_ne (hg : Gone n h) (owner directory : Nat) : (sfNsDup owner directory n).1 ≠ .ok h := by
  unfold sfNsDup withDescription
  split
  · exact nofun
  · exact hg.handleNew_ne owner _

theorem Gone.buried (hg : Gone n h) : Buried n h where
  refused owner := refused_of_description (hg.description_none owner)
  opened b owner base path mode := hg.opening_ne (sfNsOpen_opening b owner base path mode n)
  openedAt := hg.openat_ne
  dupped := hg.dup_ne

theorem sfNsClose_some (hd : description n owner h = some (k, d)) : sfNsClose owner h n = (.ok (), detach k d n) := by
  unfold sfNsClose withDescription
  rw [hd]

theorem gone_close (hd : description n owner h = some (k, d)) : Gone (sfNsClose owner h n).2 h := by
  obtain ⟨-, -, heq⟩ := description_some hd
  rw [sfNsClose_some hd]
  refine ⟨(n.handles k).generation, k, heq, .inr ?_⟩
  rw [detach_handles, if_pos rfl]
  exact ⟨rfl, rfl⟩

/-! ## Reaping -/

/-- `n'` is `n` after the end of the handles of `owner` in the slots `ks`. -/
structure Reaped (owner : Nat) (ks : List SlotId) (n n' : SfNamespace) : Prop where
  owners : ∀ k, (n'.handles k).owner = (n.handles k).owner
  closed : ∀ k ∈ ks, (n.handles k).owner = owner → (n'.handles k).description = none
  kept : ∀ k, (n.handles k).owner ≠ owner → n'.handles k = n.handles k ∧
    ∀ d, (n.handles k).description = some d → n'.descriptions d = n.descriptions d

theorem description_held (hk : (n.handles k).description = some d) :
    description n (n.handles k).owner (fileHandle (n.handles k).generation k) = some (k, d) := by
  have hlt := k.isLt
  have hmod : fileHandle (n.handles k).generation k % 256 = k + 1 := by
    unfold fileHandle
    omega
  have hdiv : fileHandle (n.handles k).generation k / 256 = (n.handles k).generation := by
    unfold fileHandle
    omega
  unfold description
  rw [dif_pos (by omega)]
  simp only [hmod, hdiv, Nat.add_sub_cancel, Fin.eta, ne_eq, not_true_eq_false, or_self, if_false, hk, Option.map_some]

theorem reapSlot_cases (owner : Nat) (n : SfNamespace) (k : SlotId) :
    (∃ d, (n.handles k).description = some d ∧ (n.handles k).owner = owner ∧ reapSlot owner n k = detach k d n) ∨
      ((n.handles k).owner = owner → (n.handles k).description = none) ∧ reapSlot owner n k = n := by
  unfold reapSlot
  cases hk : (n.handles k).description with
  | none => exact .inr ⟨fun _ => rfl, by simp⟩
  | some d =>
    by_cases howner : (n.handles k).owner = owner
    · refine .inl ⟨d, rfl, howner, ?_⟩
      rw [if_pos ⟨rfl, howner⟩, ← howner, sfNsClose_some (description_held hk)]
    · exact .inr ⟨fun ho => absurd ho howner, by simp [howner]⟩

theorem detach_description_of_ne {c : DescId} (hc : c ≠ d) : (detach k d n).descriptions c = n.descriptions c := by
  change (release d n).descriptions c = _
  rw [(release_rest d n).1, dropRef_of_ne hc]

theorem Reaped.round {m : SfNamespace} {ks : List SlotId} (hm : Good m) (hr : Reaped owner ks n m) (k : SlotId) :
    Reaped owner (k :: ks) n (reapSlot owner m k) := by
  rcases reapSlot_cases owner m k with ⟨d, hd, howner, heq⟩ | ⟨hempty, heq⟩
  · rw [heq]
    refine ⟨?_, ?_, ?_⟩
    · intro a
      rw [detach_handles, ← hr.owners a]
      split
      · rename_i hak
        rw [hak]
      · rfl
    · intro a ha hown
      rw [detach_handles]
      split
      · rfl
      · rename_i hak
        exact hr.closed a ((List.mem_cons.1 ha).resolve_left hak) hown
    · intro a hown
      obtain ⟨hsame, hdescs⟩ := hr.kept a hown
      have hak : a ≠ k := by
        rintro rfl
        exact hown ((hr.owners a).symm.trans howner)
      refine ⟨by rw [detach_handles, if_neg hak, hsame], ?_⟩
      intro c hc
      have hcd : c ≠ d := by
        rintro rfl
        rw [← hsame] at hc
        have heqOwner := hm.owners hc hd
        rw [hr.owners a, howner] at heqOwner
        exact hown heqOwner
      rw [detach_description_of_ne hcd]
      exact hdescs c hc
  · rw [heq]
    refine ⟨hr.owners, ?_, hr.kept⟩
    intro a ha hown
    rcases List.mem_cons.1 ha with rfl | ha
    · exact hempty ((hr.owners a).trans hown)
    · exact hr.closed a ha hown

/-- **Reaping closes the handles of the owner and nothing else.** -/
theorem Good.reaped (hn : Good n) (owner : Nat) : Reaped owner (List.finRange 64) n (sfNsReap owner n) := by
  have hloop : ∀ (l ks : List SlotId) (m : SfNamespace), Good m → Reaped owner ks n m →
      ∃ ks', (∀ k, k ∈ ks' ↔ k ∈ ks ∨ k ∈ l) ∧ Reaped owner ks' n (l.foldl (reapSlot owner) m) := by
    intro l
    induction l with
    | nil => exact fun ks m _ hr => ⟨ks, by simp, hr⟩
    | cons k l ih =>
      intro ks m hm hr
      have hgood : Good (reapSlot owner m k) := by
        rcases reapSlot_cases owner m k with ⟨d, hd, howner, heq⟩ | ⟨-, heq⟩
        · rw [heq]
          exact Effect.good hm (.close hd howner)
        · rw [heq]
          exact hm
      obtain ⟨ks', hks', hr'⟩ := ih (k :: ks) _ hgood (hr.round hm k)
      refine ⟨ks', fun a => ?_, hr'⟩
      rw [hks', List.mem_cons, List.mem_cons]
      tauto
  obtain ⟨ks', hks', hr⟩ := hloop (List.finRange 64) [] n hn
    ⟨fun _ => rfl, fun _ hk => absurd hk List.not_mem_nil, fun _ _ => ⟨rfl, fun _ _ => rfl⟩⟩
  unfold sfNsReap
  exact ⟨hr.owners, fun k hk => hr.closed k ((hks' k).2 (.inr hk)), hr.kept⟩

theorem gone_reap (hn : Good n) (hd : description n owner h = some (k, d)) : Gone (sfNsReap owner n) h := by
  obtain ⟨-, howner, heq⟩ := description_some hd
  have hclosed := (hn.reaped owner).closed k (List.mem_finRange k) howner
  obtain ⟨hle, -⟩ := (effects_reap owner n).ages k
  refine ⟨(n.handles k).generation, k, heq, ?_⟩
  rcases Nat.lt_or_eq_of_le hle with hlt | hsame
  · exact .inl hlt
  · exact .inr ⟨hsame, hclosed⟩

/-! ## The whole run -/

/-- From `s` on, closed handles do not come back, and owners do not reach each other's handles. -/
structure HandlesStayClosed (s : Service) : Prop where
  closed : ∀ owner h k d, description s.ns owner h = some (k, d) → ∀ s',
    Relation.ReflTransGen Step { s with ns := (sfNsClose owner h s.ns).2 } s' → Buried s'.ns h
  reaped : ∀ owner h k d, description s.ns owner h = some (k, d) → ∀ s',
    Relation.ReflTransGen Step { s with ns := sfNsReap owner s.ns } s' → Buried s'.ns h
  foreign : ∀ owner other h k d, description s.ns owner h = some (k, d) → other ≠ owner → Refused s.ns other h
  exact : ∀ owner, Reaped owner (List.finRange 64) s.ns (sfNsReap owner s.ns)

theorem description_other {other : Nat} (hd : description n owner h = some (k, d)) (hne : other ≠ owner) :
    description n other h = none := by
  cases ho : description n other h with
  | none => rfl
  | some x =>
    obtain ⟨-, howner, heq⟩ := description_some hd
    obtain ⟨-, howner', heq'⟩ := description_some (k := x.1) (d := x.2) ho
    obtain ⟨-, hk⟩ := fileHandle_inj (heq.symm.trans heq')
    rw [← hk, howner] at howner'
    exact absurd howner'.symm hne

/-- **Stale handles never come back.** -/
theorem closed_handles {s : Service} (hs : Reachable s) : HandlesStayClosed s := by
  have hfit := reachable_fit hs
  refine ⟨?_, ?_, ?_, hfit.good.reaped⟩
  · intro owner h k d hd s' hrun
    have hfit' : Fit { s with ns := (sfNsClose owner h s.ns).2 } := Step.fit hfit (.request bareBackend (.nsClose owner h))
    exact (Gone.run hfit' hrun (gone_close hd)).buried
  · intro owner h k d hd s' hrun
    have hfit' : Fit { s with ns := sfNsReap owner s.ns } := Step.fit hfit (.request bareBackend (.nsReap owner))
    have hgone := gone_reap hfit.good hd
    generalize sfNsReap owner s.ns = n at hrun hfit' hgone
    exact (Gone.run hfit' hrun hgone).buried
  · intro owner other h k d hd hne
    exact refused_of_description (description_other hd hne)

theorem closed_handles_pipe : description pipeNamespace 1 257 = some (0, 0) ∧ HandlesStayClosed ⟨pipeNamespace, false⟩ :=
  ⟨by decide +kernel, closed_handles pipe_reachable⟩

end SpiritFox.Ns
