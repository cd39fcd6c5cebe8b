import SpiritFox.Ns.Effects

/-!
# Whole runs of the namespace

A mount makes its nodes while its directories are not yet read-only, so that `Good` does not hold in between;
`Mounting` does, and it is enough for the end of the mount and for its failure. `reachable_fit`: every state of a
run is `Good`.

The main result is `representation_invariant`.
-/

namespace SpiritFox.Ns

open Tally Refs Names Checks Proc

variable {n n₀ : SfNamespace} {i : NodeId} {p : Path} {t : NodeType}

/-! ## The disk -/

/-- Between the first node of a mount and the last. -/
structure Mounting (n₀ n : SfNamespace) : Prop where
  sound : Sound n
  quiet : Quiet n₀ n
  hooks : n.mountHooks = true
  idle : ∀ d, Live n d → (n.node d).mountTag = 0
  under : ∀ j q, name n j = some q → IsParent diskPath q → (n.nodes j).mountTag ≠ 0
  away : ∀ d, Live n d → (n.node d).path ≠ diskPath

theorem Quiet.refl (n : SfNamespace) : Quiet n n := ⟨rfl, rfl, fun _ _ => rfl, fun _ _ => rfl⟩

theorem Quiet.inUse_iff {n' : SfNamespace} (h : Quiet n n') (i : NodeId) : InUse n' i ↔ InUse n i := by
  simp only [InUse, h.descriptions]

theorem Quiet.trans {n' : SfNamespace} (h : Quiet n₀ n) (h' : Quiet n n') : Quiet n₀ n' := by
  refine ⟨h'.handles.trans h.handles, h'.descriptions.trans h.descriptions, ?_, ?_⟩
  · intro i hi
    exact (h'.inUse i ((h.inUse_iff i).2 hi)).trans (h.inUse i hi)
  intro i hi
  refine (h'.consoles i ?_).trans (h.consoles i hi)
  rw [h.consoles i hi]
  exact hi

/-- A node joins the mount. -/
theorem Mounting.setNode (h : Mounting n₀ n) {x : SfNode} (hs : Sound (n.setNode i x)) (hidle : ¬ InUse n i)
    (hc : (n.nodes i).type ≠ some .console) (htag : x.mountTag ≠ 0) : Mounting n₀ (n.setNode i x) := by
  have hnode : ∀ d, Live n d → (n.setNode i x).node d = n.node d := by
    intro d hd
    exact setNode_of_ne fun hdi => hidle ⟨d, hd, hdi⟩
  refine ⟨hs, h.quiet.trans (Quiet.setNode hidle hc), h.hooks, ?_, ?_, ?_⟩
  · intro d hd
    rw [hnode d hd]
    exact h.idle d hd
  · intro j q hj hq
    by_cases hji : j = i
    · rw [hji, setNode_self]
      exact htag
    rw [name_setNode_of_ne hji] at hj
    rw [setNode_of_ne hji]
    exact h.under j q hj hq
  · intro d hd
    rw [hnode d hd]
    exact h.away d hd

theorem NodeType.ofCode_code (t : NodeType) : NodeType.ofCode t.code = some t := by cases t <;> rfl

theorem sfNsCreate_cases (p : Path) (type : Nat) (ro : Bool) (n : SfNamespace) :
    (∃ e, sfNsCreate p type ro n = (.error e, n)) ∨
      ∃ i t, createCheck p type n = .ok (i, t) ∧
        sfNsCreate p type ro n = (.ok (), n.setNode i (newNode p t ro)) := by
  unfold sfNsCreate checked
  cases hc : createCheck p type n with
  | error e => exact .inl ⟨e, rfl⟩
  | ok a => exact .inr ⟨a.1, a.2, rfl, rfl⟩

theorem newNode_type_ne {ro : Bool} : (newNode p t ro).type ≠ none := nofun

section Claim

variable {path : Path} {type : NodeType} {external size : Nat}

/-- A node that was there joins the mount only as the mount point or if it has joined before. -/
theorem Mounting.claimed (h : Mounting n₀ n) (hroot : path ≠ rootPath) (hkind : type = .dir ∨ type = .disk) :
    Mounting n₀ (claimNode path type external size true n).2 := by
  unfold claimNode
  split
  · exact h
  rename_i i hfind
  split
  · exact h
  rename_i hok
  simp only [not_or, not_not, true_and, not_and] at hok
  obtain ⟨htype, hjoin⟩ := hok
  have hname := nodeFind_some hfind
  have hpath : (n.nodes i).path = path := (name_eq_some.1 hname).2
  have hkind' : (n.nodes i).type = some .dir ∨ (n.nodes i).type = some .disk := by
    rw [htype]
    rcases hkind with rfl | rfl
    · exact .inl rfl
    · exact .inr rfl
  have hidle : ¬ InUse n i := by
    rintro ⟨d, hd, rfl⟩
    by_cases hdisk : path = diskPath
    · exact h.away d hd (hpath.trans hdisk)
    have hzero := h.idle d hd
    rw [SfNamespace.node, hjoin hdisk] at hzero
    cases hzero
  refine h.setNode ?_ hidle (by rcases hkind' with hk | hk <;> rw [hk] <;> rintro ⟨⟩) Nat.one_ne_zero
  refine h.sound.retag rfl rfl rfl rfl hkind' (by rw [hpath]; exact hroot) h.hooks hidle ?_
  intro j q hj hq
  by_cases hdisk : path = diskPath
  · exact h.under j q hj (hdisk ▸ hpath ▸ hq)
  refine h.sound.closed (name_eq_some.2 ⟨(name_eq_some.1 hname).1, rfl⟩) hj hq ?_
  rw [hjoin hdisk]
  decide

/-- One node of the mount. -/
theorem Mounting.namespaceNode (h : Mounting n₀ n) (hroot : path ≠ rootPath) (hkind : type = .dir ∨ type = .disk) :
    Mounting n₀ (namespaceNode path type external size n).2 := by
  unfold Ns.namespaceNode
  rcases sfNsCreate_cases path type.code (type = .disk) n with ⟨e, he⟩ | ⟨i, t, hok, hnew⟩
  · rw [he]
    dsimp only
    split
    · exact h.claimed hroot hkind
    · exact h
  · obtain ⟨-, hfree, hpath, habsent, ht, j, hj, hdir, -⟩ := h.sound.created hok
    rw [NodeType.ofCode_code] at ht
    cases ht
    rw [hnew]
    dsimp only
    -- the node that is claimed is the one that was made
    have hname : name (n.setNode i (newNode path type (type = .disk))) i =
        some path := name_setNode_self newNode_type_ne
    have hfind : nodeFind (n.setNode i (newNode path type (type = .disk))) path =
        some i := by
      cases hf : nodeFind (n.setNode i (newNode path type (type = .disk))) path with
      | none => exact absurd hname (nodeFind_none hf i)
      | some a =>
        by_cases hai : a = i
        · rw [hai]
        have ha := nodeFind_some hf
        rw [name_setNode_of_ne hai] at ha
        exact absurd ha (habsent a)
    unfold claimNode
    rw [hfind]
    dsimp only
    rw [setNode_self, if_neg (by simp [newNode])]
    have hidle := h.sound.not_inUse hfree
    simp only [SfNamespace.setNode, Function.update_idem]
    refine h.setNode ?_ hidle (by rw [hfree]; rintro ⟨⟩) Nat.one_ne_zero
    refine h.sound.add hfree (by rintro ⟨⟩) hpath habsent hj hdir (fun _ => Nat.one_ne_zero) rfl fun _ =>
      ⟨rfl, ?_, hroot, h.hooks⟩
    rcases hkind with rfl | rfl
    · exact .inl rfl
    · exact .inr rfl

end Claim

/-- Each of the steps of a mount keeps `Mounting`. -/
abbrev StillMounting (n₀ : SfNamespace) (n n' : SfNamespace) : Prop := Mounting n₀ n → Mounting n₀ n'

theorem StillMounting.refl (n₀ n : SfNamespace) : StillMounting n₀ n n := id

theorem StillMounting.trans (n₀ n n' n'' : SfNamespace) (h : StillMounting n₀ n n') (h' : StillMounting n₀ n' n'') :
    StillMounting n₀ n n'' := h' ∘ h

theorem parents_ne_rootPath {start : Nat} {path : Path} (hstart : 2 ≤ start) (hp : p ∈ parents start path) :
    p ≠ rootPath := by
  unfold parents at hp
  obtain ⟨i, hi, hip⟩ := List.mem_filterMap.1 hp
  split at hip
  · rename_i hcond
    cases hip
    intro heq
    have hlen := congrArg List.length heq
    have hlt := List.mem_range.1 hi
    simp only [List.length_take, rootPath, List.length_singleton] at hlen
    omega
  · cases hip

theorem within_mountFile (n₀ : SfNamespace) (f : SfReadFile) (index : Nat) :
    Within (StillMounting n₀) (mountFile f index) := by
  refine within_bind (StillMounting.trans n₀) ?_ fun _ => ?_
  · -- the loop is over the parents, so the body may use that `p` is one
    have hall : ∀ ps : List Path, (∀ p ∈ ps, p ≠ rootPath) →
        Within (StillMounting n₀) (ps.forM fun p => Ns.namespaceNode p .dir 0 0) := by
      intro ps
      induction ps with
      | nil => exact fun _ => StillMounting.refl n₀
      | cons p ps ih =>
        intro hps
        refine within_bind (StillMounting.trans n₀) ?_ fun _ => ih fun q hq => hps q (List.mem_cons_of_mem p hq)
        exact fun n h => h.namespaceNode (hps p List.mem_cons_self) (.inl rfl)
    exact hall _ fun p hp => parents_ne_rootPath (by decide) hp
  · intro n h
    refine h.namespaceNode ?_ (.inr rfl)
    intro heq
    have hlen := congrArg List.length heq
    simp [diskPath, rootPath] at hlen

theorem within_mountFiles (n₀ : SfNamespace) (files : List SfReadFile) : Within (StillMounting n₀) (mountFiles files) := by
  refine within_bind (StillMounting.trans n₀) ?_ fun _ => ?_
  · exact fun n h => h.namespaceNode (by decide) (.inl rfl)
  · exact within_forM (StillMounting.refl n₀) (StillMounting.trans n₀) _ fun x => within_mountFile n₀ x.1 x.2

/-- **The end of a mount**: its nodes are locked. -/
theorem Mounting.lock (h : Mounting n₀ n) : Good { n with nodes := fun i => lockNode (n.nodes i) } ∧
    Quiet n₀ { n with nodes := fun i => lockNode (n.nodes i) } := by
  have hsame : ∀ i, (n.nodes i).mountTag = 0 → lockNode (n.nodes i) = n.nodes i := by
    intro i hi
    rw [lockNode, if_neg (by rw [hi]; decide)]
  have hface : ∀ i, (lockNode (n.nodes i)).face = (n.nodes i).face ∧
    (lockNode (n.nodes i)).writers = (n.nodes i).writers := by
    intro i
    unfold lockNode
    split <;> exact ⟨rfl, rfl⟩
  have hlive : ∀ d, Live n d → lockNode (n.node d) = n.node d := fun d hd => hsame _ (h.idle d hd)
  have hquiet : Quiet n { n with nodes := fun i => lockNode (n.nodes i) } := by
    refine ⟨rfl, rfl, ?_, ?_⟩
    · rintro i ⟨d, hd, rfl⟩
      exact hlive d hd
    intro i hi
    refine hsame i ?_
    by_contra htag
    rcases (h.sound.tagged htag).2.1 with hk | hk <;> rw [hi] at hk <;> cases hk
  refine ⟨⟨⟨h.sound.toTables.congr rfl rfl, h.sound.toTree.congr (fun i => (hface i).1) rfl, ?_⟩, ?_⟩, h.quiet.trans hquiet⟩
  · refine h.sound.toLinked.quiet hlive ?_
    intro i hi ht
    rw [(hface i).2]
    have htype : (lockNode (n.nodes i)).type = (n.nodes i).type := congrArg (·.2.1) (hface i).1
    exact h.sound.idle hi (htype ▸ ht)
  · intro i htag _
    have hone : (n.nodes i).mountTag = 1 := by
      have heq : (lockNode (n.nodes i)).mountTag = (n.nodes i).mountTag := congrArg (·.2.2) (hface i).1
      exact (h.sound.tagged (heq ▸ htag)).1
    change (lockNode (n.nodes i)).readonly = true
    rw [lockNode, if_pos hone]

/-! ## Services -/

/-- Before a mount, and after its end, no node has a tag. -/
structure Fit (s : Service) : Prop where
  good : Good s.ns
  clean : s.mounted = false → ∀ i, (s.ns.nodes i).mountTag = 0

variable {s : Service}

theorem sfNsUnmount_idle (hidle : ∀ d, Live n d → (n.node d).mountTag = 0) :
    sfNsUnmount 1 n = (.ok (), { n with nodes := fun i => unmountNode 1 (n.nodes i) }) := by
  unfold sfNsUnmount
  rw [if_neg (by decide), if_neg]
  rintro ⟨d, hd, htag⟩
  rw [hidle d hd] at htag
  cases htag

/-- The state in which a mount of the disk begins. -/
theorem Fit.mounting (h : Fit s) (hhooks : s.ns.mountHooks = true) (hmounted : s.mounted = false)
    (hocc : ¬ Occupied s.ns diskPath) (huse : ¬ DiskInUse s.ns) : Mounting s.ns s.ns := by
  refine ⟨h.good.toSound, .refl _, hhooks, fun d _ => h.clean hmounted _, ?_, ?_⟩
  · intro j q hj hq
    exact absurd hq.2 (not_occupied hocc (by decide) hj (slash_mem_of_pathOk (h.good.canonical hj)))
  · intro d hd hdisk
    exact huse ⟨d, hd, .inl hdisk⟩

/-- **A mount of the disk**, whatever comes of it. -/
theorem Fit.storageMount (h : Fit s) (hhooks : s.ns.mountHooks = true) (disk : Disk) :
    Fit (sfStorageMount disk s).2 ∧ Quiet s.ns (sfStorageMount disk s).2.ns := by
  unfold sfStorageMount
  split
  · exact ⟨h, .refl _⟩
  rename_i hmounted
  split
  · exact ⟨h, .refl _⟩
  split
  · exact ⟨h, .refl _⟩
  rename_i hocc
  split
  · exact ⟨h, .refl _⟩
  rename_i huse
  split
  · exact ⟨h, .refl _⟩
  rename_i files _
  have hstart := h.mounting hhooks (by simpa using hmounted) hocc huse
  have hend := within_mountFiles s.ns files s.ns hstart
  cases hrun : mountFiles files s.ns with
  | mk r n =>
    rw [hrun] at hend
    cases r with
    | error e =>
      obtain ⟨hgood, hquiet, hclean⟩ := hend.sound.unmount hend.idle
      dsimp only
      rw [sfNsUnmount_idle hend.idle]
      exact ⟨⟨hgood, fun _ => hclean⟩, hend.quiet.trans hquiet⟩
    | ok u =>
      obtain ⟨hgood, hquiet⟩ := hend.lock
      exact ⟨⟨hgood, nofun⟩, hquiet⟩

theorem Fit.storageUnmount (h : Fit s) (ready stopped : Except Int Unit) :
    Fit (sfStorageUnmount ready stopped s).2 ∧ Quiet s.ns (sfStorageUnmount ready stopped s).2.ns := by
  unfold sfStorageUnmount
  split
  · exact ⟨h, .refl _⟩
  rename_i hmounted
  split
  · exact ⟨h, .refl _⟩
  have hstill : s.mounted = true := by simpa using hmounted
  by_cases hidle : ∀ d, Live s.ns d → (s.ns.node d).mountTag = 0
  · obtain ⟨hgood, hquiet, hclean⟩ := h.good.toSound.unmount hidle
    rw [sfNsUnmount_idle hidle]
    cases stopped with
    | error e => exact ⟨⟨hgood, fun hm => absurd (hstill.symm.trans hm) nofun⟩, hquiet⟩
    | ok u => exact ⟨⟨hgood, fun _ => hclean⟩, hquiet⟩
  · have hrun : sfNsUnmount 1 s.ns = (stop .busy, s.ns) := by
      unfold sfNsUnmount
      push Not at hidle
      obtain ⟨d, hd, htag⟩ := hidle
      rw [if_neg (by decide), if_pos ⟨d, hd, (h.good.tagged htag).1⟩]
    rw [hrun]
    exact ⟨h, .refl _⟩

/-! ## The persistent volume -/

theorem lastNamed_eq (hi : (n.nodes i).path = p) (honly : ∀ j, (n.nodes j).path = p → j = i) :
    lastNamed n p = i := by
  unfold lastNamed
  cases hf : (List.finRange 32).reverse.find? fun i => decide ((n.nodes i).path = p) with
  | none =>
    have hno := List.find?_eq_none.1 hf i (by simp)
    exact absurd hi (by simpa using hno)
  | some j => exact honly j (by simpa using List.find?_some hf)

/-- Free nodes have no path, so a path that is not empty is in one node at most. -/
theorem Sound.path_unique (h : Sound n) {j : NodeId} (hi : name n i = some p) (hp : p ≠ [])
    (hj : (n.nodes j).path = p) : j = i := by
  refine h.rooted.distinct (name_eq_some.2 ⟨?_, hj⟩) hi
  intro hfree
  rw [(h.free hfree).1] at hj
  exact hp hj.symm

theorem tagNotes_eq {size : Nat} (hi : (n.nodes i).path = notesPath)
    (honly : ∀ j, (n.nodes j).path = notesPath → j = i) :
    tagNotes size n = n.setNode i { n.nodes i with external := 0xffffffff, mountTag := 1, size := size } := by
  have hnodes : (tagNotes size n).nodes =
      (n.setNode i { n.nodes i with external := 0xffffffff, mountTag := 1, size := size }).nodes := by
    funext j
    by_cases hji : j = i
    · rw [hji, setNode_self]
      exact if_pos hi
    · rw [setNode_of_ne hji]
      exact if_neg fun hj => hji (honly j hj)
  exact congrArg (fun f => { n with nodes := f }) hnodes

/-- The directory of the volume, before it has the notes. -/
structure Founded (n₀ n : SfNamespace) (i : NodeId) : Prop where
  good : Good n
  quiet : Quiet n₀ n
  hooks : n.mountHooks = true
  named : name n i = some persistPath
  dir : (n.nodes i).type = some .dir
  unused : ¬ InUse n i
  childless : ∀ j q, name n j = some q → parentOf q ≠ persistPath

theorem Good.founded (h : Good n) (hhooks : n.mountHooks = true)
    (hok : createCheck persistPath NodeType.dir.code n = .ok (i, t)) :
    Founded n (n.setNode i (newNode persistPath t false)) i := by
  obtain ⟨-, hfree, -, habsent, ht, -⟩ := h.toSound.created hok
  cases ht
  obtain ⟨hgood, hquiet⟩ := h.create false hok
  refine ⟨hgood, hquiet, hhooks, name_setNode_self newNode_type_ne, by rw [setNode_self]; rfl, ?_, ?_⟩
  · rw [hquiet.inUse_iff]
    exact h.toSound.not_inUse hfree
  intro j q hj hpar
  by_cases hji : j = i
  · rw [hji, name_setNode_self newNode_type_ne] at hj
    cases hj
    exact absurd hpar (by decide)
  · rw [name_setNode_of_ne hji] at hj
    refine h.rooted.parent_ne_of_absent habsent hj ?_ hpar
    rintro rfl
    exact absurd hpar (by decide)

/-- The notes of the volume, as they are in the mount. -/
def notesNode (size : Nat) : SfNode :=
  { newNode notesPath .disk false with external := 0xffffffff, mountTag := 1, size := size }

/-- **The volume's nodes join the mount**: first the notes, then their directory. -/
theorem Founded.joined {j : NodeId} (h : Founded n₀ n i) (size : Nat)
    (hok : createCheck notesPath NodeType.disk.code n = .ok (j, t)) :
    ∃ n', n' = tagNotes size (n.setNode j (newNode notesPath t false)) ∧
      Good (n'.setNode i { n'.nodes i with readonly := true, mountTag := 1 }) ∧
      Quiet n₀ (n'.setNode i { n'.nodes i with readonly := true, mountTag := 1 }) ∧
      (n'.setNode i { n'.nodes i with readonly := true, mountTag := 1 }).nodes j = notesNode size := by
  obtain ⟨-, hfree, -, habsent, ht, -⟩ := h.good.toSound.created hok
  cases ht
  obtain ⟨hgood, hquiet⟩ := h.good.create false hok
  have hij : i ≠ j := by
    rintro rfl
    rw [h.dir] at hfree
    cases hfree
  have hname : name (n.setNode j (newNode notesPath .disk false)) j = some notesPath := name_setNode_self newNode_type_ne
  have hnode : (n.setNode j (newNode notesPath .disk false)).nodes j = newNode notesPath .disk false := setNode_self
  have hidle : ¬ InUse (n.setNode j (newNode notesPath .disk false)) j := by
    rw [hquiet.inUse_iff]
    exact h.good.toSound.not_inUse hfree
  have htagged : tagNotes size (n.setNode j (newNode notesPath .disk false)) =
      (n.setNode j (newNode notesPath .disk false)).setNode j (notesNode size) := by
    rw [tagNotes_eq (by rw [hnode]; rfl) fun a ha => hgood.toSound.path_unique hname (by decide) ha, hnode]
    rfl
  -- the notes are no directory, so nothing is under them
  have hnotes : Sound ((n.setNode j (newNode notesPath .disk false)).setNode j (notesNode size)) := by
    refine hgood.toSound.retag (x := notesNode size) (by rw [hnode]; rfl) (by rw [hnode]; rfl)
      (by rw [hnode]; rfl) rfl (.inr rfl)
      (show notesPath ≠ rootPath by decide) h.hooks hidle ?_
    intro a q ha hpar
    refine absurd hpar.2 (hgood.rooted.parent_ne hname ?_ ha hpar.1)
    rw [IsDir, hnode]
    rintro ⟨⟩
  have hquiet' : Quiet n₀ ((n.setNode j (newNode notesPath .disk false)).setNode j (notesNode size)) := by
    refine (h.quiet.trans hquiet).trans (Quiet.setNode hidle ?_)
    rw [hnode]
    rintro ⟨⟩
  refine ⟨_, rfl, ?_⟩
  rw [htagged]
  have hdirNode : ((n.setNode j (newNode notesPath .disk false)).setNode j (notesNode size)).nodes i = n.nodes i := by
    rw [setNode_of_ne hij, setNode_of_ne hij]
  have hpath : (n.nodes i).path = persistPath := (name_eq_some.1 h.named).2
  have hunused : ¬ InUse ((n.setNode j (newNode notesPath .disk false)).setNode j (notesNode size)) i := h.unused
  rw [hdirNode]
  refine ⟨⟨?_, ?_⟩, hquiet'.trans (Quiet.setNode hunused (by rw [hdirNode, h.dir]; rintro ⟨⟩)), ?_⟩
  · refine hnotes.retag (by rw [hdirNode]) (by rw [hdirNode]) (by rw [hdirNode]) rfl (.inl h.dir)
      (by rw [hpath]; decide) h.hooks hunused ?_
    intro a q ha hpar
    by_cases haj : a = j
    · rw [haj, setNode_self]
      exact Nat.one_ne_zero
    · -- every other node was there before, and the directory was empty
      rw [name_setNode_of_ne haj, name_setNode_of_ne haj] at ha
      rw [hpath] at hpar
      exact absurd hpar.2 (h.childless a q ha)
  · intro a htag hd
    by_cases hai : a = i
    · rw [hai, setNode_self]
    rw [setNode_of_ne hai] at htag hd ⊢
    by_cases haj : a = j
    · rw [haj, setNode_self] at hd
      cases hd
    · rw [setNode_of_ne haj, setNode_of_ne haj] at htag hd ⊢
      exact h.good.locked htag hd
  · rw [setNode_of_ne hij.symm, setNode_self]

/-- **A mount of the persistent volume**, whatever comes of it. -/
theorem Good.persistNodes (h : Good n) (hhooks : n.mountHooks = true) (size : Nat) :
    Good (persistNodes size n).2 ∧ Quiet n (persistNodes size n).2 ∧
      ((persistNodes size n).1 = .ok () → ∃ j, (persistNodes size n).2.nodes j = notesNode size) := by
  have htriple : Triple (fun m => m = n) (Ns.persistNodes size)
      (fun _ m => Good m ∧ Quiet n m ∧ ∃ j, m.nodes j = notesNode size) (fun _ m => Good m ∧ Quiet n m) := by
    unfold Ns.persistNodes
    refine triple_bind (Q := fun _ m => ∃ i, Founded n m i) ?_ fun _ => triple_read ?_
    · rintro m rfl
      rcases sfNsCreate_cases persistPath NodeType.dir.code false m with ⟨e, he⟩ | ⟨i, t, hok, hnew⟩
      · rw [he]
        exact ⟨h, .refl m⟩
      · rw [hnew]
        exact ⟨i, h.founded hhooks hok⟩
    · rintro m ⟨i, hm⟩
      have hdir : lastNamed m persistPath = i :=
        lastNamed_eq (name_eq_some.1 hm.named).2 fun a ha => hm.good.toSound.path_unique hm.named (by decide) ha
      dsimp only
      rw [hdir]
      refine triple_bind (Q := fun _ m' => ∃ j t, createCheck notesPath NodeType.disk.code m = .ok (j, t) ∧
        m' = m.setNode j (newNode notesPath t false)) ?_ fun _ => ?_
      · refine triple_onError (F := fun _ m' => m' = m) ?_ ?_
        · rintro m' rfl
          rcases sfNsCreate_cases notesPath NodeType.disk.code false m' with ⟨e, he⟩ | ⟨j, t, hok, hnew⟩
          · rw [he]
          · rw [hnew]
            exact ⟨j, t, hok, rfl⟩
        · rintro e m' rfl
          refine ⟨hm.good.remove hm.named (by decide) hm.unused fun j q hj _ => hm.childless j q hj, ?_⟩
          exact hm.quiet.trans (Quiet.setNode hm.unused (by rw [hm.dir]; exact nofun))
      · refine triple_bind (triple_update (Q := fun _ m' => ∃ j t, createCheck notesPath NodeType.disk.code m = .ok (j, t) ∧
          m' = tagNotes size (m.setNode j (newNode notesPath t false))) ?_) fun _ => triple_update ?_
        · rintro m' ⟨j, t, hok, rfl⟩
          exact ⟨j, t, hok, rfl⟩
        · rintro m' ⟨j, t, hok, rfl⟩
          obtain ⟨n', rfl, hgood, hquiet, hnotes⟩ := hm.joined size hok
          exact ⟨hgood, hquiet, j, hnotes⟩
  have hrun := htriple n rfl
  rcases hr : Ns.persistNodes size n with ⟨_ | _, m⟩ <;> rw [hr] at hrun
  · exact ⟨hrun.1, hrun.2, nofun⟩
  · exact ⟨hrun.1, hrun.2.1, fun _ => hrun.2.2⟩

theorem Fit.persistMount (h : Fit s) (hhooks : s.ns.mountHooks = true) (volume : Except Int Nat) :
    Fit (sfPersistMount volume s).2 ∧ Quiet s.ns (sfPersistMount volume s).2.ns := by
  unfold sfPersistMount
  split
  · exact ⟨h, .refl _⟩
  rename_i hmounted
  split
  · exact ⟨h, .refl _⟩
  rename_i size
  obtain ⟨hgood, hquiet, -⟩ := h.good.persistNodes hhooks size
  exact ⟨⟨hgood, fun hm => absurd hm hmounted⟩, hquiet⟩

/-! ## Every state of a run -/

/-- **A handle that is alone on its description changes hands.** -/
theorem Good.transfer (h : Good n) {k : SlotId} {d : DescId} (pid : Nat) (hk : (n.handles k).description = some d)
    (hfresh : (n.descriptions d).refs = 1) : Good (n.setOwner k pid) := by
  have hhandle : ∀ k', ((n.setOwner k pid).handles k').description = (n.handles k').description ∧
      ((n.setOwner k pid).handles k').generation = (n.handles k').generation := by
    intro k'
    by_cases hk' : k' = k <;> simp [SfNamespace.setOwner, SfNamespace.setHandle, hk']
  have hdescs : (fun k' => ((n.setOwner k pid).handles k').description) = fun k' => (n.handles k').description :=
    funext fun k' => (hhandle k').1
  refine ⟨⟨⟨?_, ?_, h.modes, ?_⟩, ⟨h.rooted, h.canonical, h.free, h.tagged, h.closed⟩,
    ⟨h.live, h.writers, h.leases⟩⟩, h.locked⟩
  · rw [hdescs]
    exact h.counted
  · intro k₁ k₂ c h₁ h₂
    rw [(hhandle k₁).1] at h₁
    rw [(hhandle k₂).1] at h₂
    by_cases hc : c = d
    · subst hc
      rw [h.counted.unique hfresh h₁ hk, h.counted.unique hfresh h₂ hk]
    have hne : ∀ {k'}, (n.handles k').description = some c → k' ≠ k := by
      rintro k' hk' rfl
      rw [hk] at hk'
      exact hc (Option.some.inj hk').symm
    simp only [SfNamespace.setOwner, SfNamespace.setHandle, Function.update_of_ne (hne h₁), Function.update_of_ne (hne h₂)]
    exact h.owners h₁ h₂
  · intro k'
    rw [(hhandle k').2]
    exact h.generations k'

/-- **A mount, or the end of one**, leaves alone what is open. -/
theorem Fit.mount (h : Fit s) (ready : s.ns.mountHooks = true) (m : Mount) : Fit (m.run s) ∧ Quiet s.ns (m.run s).ns := by
  cases m with
  | storage disk => exact h.storageMount ready disk
  | storageEnd r t => exact h.storageUnmount r t
  | persist volume => exact h.persistMount ready volume

theorem Step.fit {s' : Service} (h : Fit s) (hstep : Step s s') : Fit s' := by
  cases hstep with
  | request b r =>
    have heffects := run_effects h.good b r
    exact ⟨heffects.good h.good, fun hm => heffects.untagged h.good (h.clean hm)⟩
  | transfer pid held fresh =>
    exact ⟨h.good.transfer pid (description_some held).1 fresh, h.clean⟩
  | storageInit =>
    refine ⟨⟨⟨h.good.toTables.congr rfl rfl, ⟨h.good.rooted, h.good.canonical, h.good.free, ?_, h.good.closed⟩,
      ⟨h.good.live, h.good.writers, h.good.leases⟩⟩, h.good.locked⟩, h.clean⟩
    intro i htag
    obtain ⟨hone, hkind, hroot, -⟩ := h.good.tagged htag
    exact ⟨hone, hkind, hroot, rfl⟩
  | mount ready m => exact (h.mount ready m).1

theorem sfNsInit_eq : sfNsInit = emptyNamespace.setNode 0 (newNode rootPath .dir false) := by
  have hcheck : createCheck rootPath NodeType.dir.code emptyNamespace = .ok (0, .dir) := by decide +kernel
  simp only [sfNsInit, sfNsCreate, checked, hcheck]

theorem name_sfNsInit (h : name sfNsInit i = some p) : i = 0 ∧ p = rootPath := by
  rw [sfNsInit_eq] at h
  by_cases hi : i = 0
  · rw [hi, name_setNode_self newNode_type_ne] at h
    exact ⟨hi, (Option.some.inj h).symm⟩
  · rw [name_setNode_of_ne hi] at h
    cases h

theorem nodes_sfNsInit (i : NodeId) : sfNsInit.nodes i = if i = 0 then newNode rootPath .dir false else emptyNode := by
  rw [sfNsInit_eq]
  by_cases hi : i = 0
  · rw [hi, setNode_self, if_pos rfl]
  · rw [setNode_of_ne hi, if_neg hi]
    rfl

theorem good_sfNsInit : Good sfNsInit := by
  have htag : ∀ i, (sfNsInit.nodes i).mountTag = 0 := by
    intro i
    rw [nodes_sfNsInit]
    split <;> rfl
  have hname : name sfNsInit 0 = some rootPath := by
    rw [sfNsInit_eq]
    exact name_setNode_self newNode_type_ne
  have hdead : ∀ d, ¬ Live sfNsInit d := by
    intro d hd
    rw [Live, sfNsInit_eq] at hd
    exact hd rfl
  have hclosed : ∀ k, (sfNsInit.handles k).description = none := by
    intro k
    rw [sfNsInit_eq]
    rfl
  refine ⟨⟨⟨?_, ?_, fun hd => absurd hd (hdead _), ?_⟩, ⟨⟨?_, ?_, ?_⟩, ?_, ?_, fun h => absurd (htag _) h,
    fun _ _ _ h => absurd (htag _) h⟩, ⟨fun hd => absurd hd (hdead _), ?_, ?_⟩⟩, fun h => absurd (htag _) h⟩
  · intro d
    refine (not_not.1 (hdead d)).trans (tally_eq_zero.2 ?_).symm
    intro k hk
    cases (hclosed k).symm.trans hk
  · intro k k' d hk
    rw [hclosed k] at hk
    cases hk
  · intro k
    rw [sfNsInit_eq]
    exact Nat.zero_le _
  · intro i j p hi hj
    rw [(name_sfNsInit hi).1, (name_sfNsInit hj).1]
  · refine ⟨0, hname, ?_⟩
    rw [IsDir, nodes_sfNsInit]
    rfl
  · intro i p hi hp
    exact absurd (name_sfNsInit hi).2 hp
  · intro i p hi
    rw [(name_sfNsInit hi).2]
    decide
  · intro i hi
    rw [nodes_sfNsInit] at hi ⊢
    split at hi
    · cases hi
    rename_i hne
    rw [if_neg hne]
    exact ⟨rfl, rfl⟩
  · intro i hi
    rw [nodes_sfNsInit] at hi
    split at hi <;> cases hi
  · have hzero : tally (Leased sfNsInit) = 0 := tally_eq_zero.2 fun d hd => hdead d hd.1
    rw [hzero, sfNsInit_eq]
    rfl

/-- **Every state of a run is fit.** -/
theorem reachable_fit (h : Reachable s) : Fit s := by
  induction h with
  | refl =>
    refine ⟨good_sfNsInit, fun _ i => ?_⟩
    rw [nodes_sfNsInit]
    split <;> rfl
  | tail _ hstep ih => exact hstep.fit ih

/-- What the tables of a namespace say about each other. -/
structure Represents (n : SfNamespace) : Prop where
  refs : ∀ d, (n.descriptions d).refs = tally fun k => (n.handles k).description = some d
  handles : ∀ k d, (n.handles k).description = some d → 0 < (n.descriptions d).refs ∧ (n.node d).type ≠ none
  distinct : ∀ i j, (n.nodes i).type ≠ none → (n.nodes j).type ≠ none → (n.nodes i).path = (n.nodes j).path → i = j
  canonical : ∀ i, (n.nodes i).type ≠ none → pathOk (n.nodes i).path = true
  root : ∃ i, (n.nodes i).type ≠ none ∧ (n.nodes i).path = rootPath
  parent : ∀ i, (n.nodes i).type ≠ none → (n.nodes i).path ≠ rootPath →
    ∃ j, (n.nodes j).type = some .dir ∧ (n.nodes j).path = parentOf (n.nodes i).path
  writers : ∀ i, (n.nodes i).type = some .pipe → (n.nodes i).writers =
    tally fun d => (n.descriptions d).refs ≠ 0 ∧ (n.descriptions d).node = i ∧ (n.descriptions d).mode &&& openWrite ≠ 0
  leases : (n.opens : Int) - n.closes = tally fun d => (n.descriptions d).refs ≠ 0 ∧ (n.node d).mountTag ≠ 0
  owners : ∀ k k' d, (n.handles k).description = some d → (n.handles k').description = some d →
    (n.handles k).owner = (n.handles k').owner

theorem Sound.represents (h : Sound n) : Represents n := by
  refine ⟨h.counted, ?_, ?_, ?_, ?_, ?_, fun i hi => h.writers hi, ?_, fun k k' d hk hk' => h.owners hk hk'⟩
  · intro k d hk
    have hlive : Live n d := h.counted.pos hk
    exact ⟨Nat.pos_of_ne_zero hlive, h.live hlive⟩
  · intro i j hi hj hpath
    exact h.rooted.distinct (name_eq_some.2 ⟨hi, hpath⟩) (name_eq_some.2 ⟨hj, rfl⟩)
  · intro i hi
    exact h.canonical (name_eq_some.2 ⟨hi, rfl⟩)
  · obtain ⟨i, hi, -⟩ := h.rooted.top
    exact ⟨i, name_eq_some.1 hi⟩
  · intro i hi hroot
    obtain ⟨j, hj, hdir⟩ := h.rooted.above (name_eq_some.2 ⟨hi, rfl⟩) hroot
    exact ⟨j, hdir, (name_eq_some.1 hj).2⟩
  · have hleases := h.leases
    change _ = (tally (Leased n) : Int)
    omega

/-- **The representation invariant of the namespace.** -/
theorem representation_invariant (h : Reachable s) : Represents s.ns := (reachable_fit h).good.toSound.represents

/-- Callbacks that are not set, and a mount that can be opened. -/
def bareBackend : Backend := ⟨none, none, none, none, fun _ => none⟩

/-- A pipe in the root that is open for writing. -/
def pipeNamespace : SfNamespace :=
  (Request.nsOpen 1 rootPath [47, 112] openWrite).run bareBackend
    ((Request.nsCreate [47, 112] 3 false).run bareBackend sfNsInit)

theorem pipe_reachable : Reachable ⟨pipeNamespace, false⟩ := by
  have hpipe : Reachable ⟨(Request.nsCreate [47, 112] 3 false).run bareBackend sfNsInit, false⟩ :=
    Relation.ReflTransGen.refl.tail (.request bareBackend (.nsCreate [47, 112] 3 false))
  exact hpipe.tail (.request bareBackend (.nsOpen 1 rootPath [47, 112] openWrite))

theorem representation_invariant_pipe : (pipeNamespace.nodes 1).writers = 1 ∧ Represents pipeNamespace :=
  ⟨by decide +kernel, representation_invariant pipe_reachable⟩

end SpiritFox.Ns
