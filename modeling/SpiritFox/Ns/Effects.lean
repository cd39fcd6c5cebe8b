import SpiritFox.Lib.Fold
import SpiritFox.Ns.Invariant

/-!
# What a call does to the namespace

`Effect` lists what one call can do to the tables: move contents and cursors, open, fail to open, duplicate, close,
or change the tree away from everything that is open. Every request is a sequence of effects (`run_effects`), and
each effect keeps `Good`.
-/

namespace SpiritFox.Ns

open Tally Refs Names Checks

/-- Outside a mount the directories of a mount take no new names. -/
structure Good (n : SfNamespace) : Prop extends Sound n where
  locked : ∀ {i : NodeId}, (n.nodes i).mountTag ≠ 0 → (n.nodes i).type = some .dir → (n.nodes i).readonly = true

/-- The namespace without contents and cursors. -/
def SfNamespace.outline (n : SfNamespace) : SfNamespace :=
  { n with
    nodes := fun i => { n.nodes i with size := 0, head := 0, external := 0, data := ByteMem.zeros }
    descriptions := fun d => { n.descriptions d with offset := 0 } }

/-- What is open, and every console, is as it was, and so are the handles. -/
structure Quiet (n n' : SfNamespace) : Prop where
  handles : n'.handles = n.handles
  descriptions : n'.descriptions = n.descriptions
  inUse : ∀ i, InUse n i → n'.nodes i = n.nodes i
  consoles : ∀ i, (n.nodes i).type = some .console → n'.nodes i = n.nodes i

/-- What a call for `owner` does at one time. -/
inductive Effect (owner : Nat) (n : SfNamespace) : SfNamespace → Prop
  | content {n' : SfNamespace} (same : n'.outline = n.outline) : Effect owner n n'
  | turnedAway {i : NodeId} {d : DescId} {mode : Nat} (unused : ¬ Live n d) :
    Effect owner n (tellClose i (prepare mode i d n))
  | enter {i : NodeId} {d : DescId} {k : SlotId} {mode : Nat} (node : (n.nodes i).type ≠ none) (unused : ¬ Live n d)
      (valid : mode &&& 3 ≠ 0 ∧ mode ≤ 15) (free : (n.handles k).description = none)
      (room : (n.handles k).generation < 0x7fffff) :
      Effect owner n (adjustWriters (· + 1) mode i (attach owner d k (prepare mode i d n)))
  | dup {k₀ k : SlotId} {d : DescId} (held : (n.handles k₀).description = some d) (mine : (n.handles k₀).owner = owner)
      (free : (n.handles k).description = none) (room : (n.handles k).generation < 0x7fffff) :
      Effect owner n (attach owner d k n)
  | close {k : SlotId} {d : DescId} (held : (n.handles k).description = some d) (mine : (n.handles k).owner = owner) :
      Effect owner n (detach k d n)
  | tree {n' : SfNamespace} (quiet : Quiet n n') (good : Good n')
      (untagged : ∀ i, (n.nodes i).mountTag = 0 → (n'.nodes i).mountTag = 0) : Effect owner n n'

abbrev Effects (owner : Nat) : SfNamespace → SfNamespace → Prop := Relation.ReflTransGen (Effect owner)

section Effects

variable {n n' : SfNamespace} {owner : Nat}

theorem outline_sound : Sound n.outline ↔ Sound n :=
  ⟨fun h => ⟨⟨h.counted, h.owners, h.modes, h.generations⟩, ⟨h.rooted, h.canonical, h.free, h.tagged, h.closed⟩,
      ⟨h.live, h.writers, h.leases⟩⟩,
    fun h => ⟨⟨h.counted, h.owners, h.modes, h.generations⟩, ⟨h.rooted, h.canonical, h.free, h.tagged, h.closed⟩,
      ⟨h.live, h.writers, h.leases⟩⟩⟩

theorem outline_good : Good n.outline ↔ Good n :=
  ⟨fun h => ⟨outline_sound.1 h.toSound, h.locked⟩, fun h => ⟨outline_sound.2 h.toSound, h.locked⟩⟩

theorem Good.content (h : Good n) (same : n'.outline = n.outline) : Good n' :=
  outline_good.1 (same ▸ outline_good.2 h)

/-- The locks are about these fields of the nodes. -/
theorem Good.of_sound (h : Good n) (hn : Sound n') (hnodes : ∀ i, ∃ w, n'.nodes i = { n.nodes i with writers := w }) :
    Good n' := by
  refine ⟨hn, ?_⟩
  intro i htag hdir
  obtain ⟨w, hw⟩ := hnodes i
  rw [hw] at htag hdir ⊢
  exact h.locked htag hdir

/-- **Every effect keeps the invariant.** -/
theorem Effect.good (h : Good n) (he : Effect owner n n') : Good n' := by
  cases he with
  | content same => exact h.content same
  | turnedAway unused => exact h.of_sound (h.toSound.turnedAway unused) fun i => ⟨_, rfl⟩
  | enter node unused valid free room =>
    refine h.of_sound (h.toSound.enter node unused valid free room) ?_
    intro j
    rw [adjustWriters_node]
    exact ⟨_, rfl⟩
  | dup held mine free room => exact h.of_sound (h.toSound.dup held mine free room) fun i => ⟨_, rfl⟩
  | close held mine =>
    refine h.of_sound (h.toSound.detach held) ?_
    intro j
    exact ⟨_, h.toTables.release_node (h.counted.pos held) j⟩
  | tree quiet good untagged => exact good

theorem Effects.good (h : Good n) (he : Effects owner n n') : Good n' := by
  induction he with
  | refl => exact h
  | tail _ he ih => exact he.good ih

/-- A call mounts nothing. -/
theorem Effect.untagged (h : Good n) (he : Effect owner n n') (i : NodeId) (hi : (n.nodes i).mountTag = 0) :
    (n'.nodes i).mountTag = 0 := by
  cases he with
  | content same =>
    have hnode := congrArg (fun m : SfNamespace => (m.nodes i).mountTag) same
    exact hnode.trans hi
  | turnedAway unused => exact hi
  | enter node unused valid free room =>
    rw [adjustWriters_node]
    exact hi
  | dup held mine free room => exact hi
  | close held mine =>
    change ((release _ n).nodes i).mountTag = 0
    rw [h.toTables.release_node (h.counted.pos held)]
    exact hi
  | tree quiet good untagged => exact untagged i hi

theorem Effects.untagged (h : Good n) (he : Effects owner n n') (hzero : ∀ i, (n.nodes i).mountTag = 0) (i : NodeId) :
    (n'.nodes i).mountTag = 0 := by
  induction he generalizing i with
  | refl => exact hzero i
  | tail hs he ih => exact he.untagged (Effects.good h hs) i (ih i)

end Effects

/-! ## The calls -/

section Calls

variable {n : SfNamespace} {owner h : Nat} {b : Backend} {i : NodeId} {p : Path} {type : Nat} {t : NodeType}

theorem description_some {k : SlotId} {d : DescId} (hd : description n owner h = some (k, d)) :
    (n.handles k).description = some d ∧ (n.handles k).owner = owner ∧ h = fileHandle (n.handles k).generation k := by
  unfold description at hd
  split at hd
  · rename_i hi
    dsimp only at hd
    split at hd
    · cases hd
    rename_i hx
    obtain ⟨c, hc, hpair⟩ := Option.map_eq_some_iff.1 hd
    obtain ⟨rfl, rfl⟩ := Prod.mk.inj hpair
    simp only [ne_eq, not_or, not_not] at hx
    refine ⟨hc, hx.1, ?_⟩
    rw [hx.2, fileHandle]
    dsimp only
    omega
  · cases hd

/-- A call on a handle does nothing where the handle is stale. -/
theorem effects_withDescription {α : Type} {f : SlotId → DescId → SfNamespace → Except Int α × SfNamespace}
    (hf : ∀ k d, (n.handles k).description = some d → (n.handles k).owner = owner → Effects owner n (f k d n).2) :
    Effects owner n (withDescription owner h f n).2 := by
  unfold withDescription
  split
  · exact .refl
  rename_i k d hd
  obtain ⟨hheld, howner, -⟩ := description_some hd
  exact hf k d hheld howner

theorem effects_checked {α β : Type} {check : SfNamespace → Except Int α} {f : α → SfNamespace → Except Int β × SfNamespace}
    (hf : ∀ a, check n = .ok a → Effects owner n (f a n).2) : Effects owner n (checked check f n).2 := by
  unfold checked
  split
  · exact .refl
  · rename_i a ha
    exact hf a ha

theorem handleNew_cases (owner : Nat) (d : DescId) (n : SfNamespace) : handleNew owner d n = (stop .noSpace, n) ∨
    ∃ k, (n.handles k).description = none ∧ (n.handles k).generation < 0x7fffff ∧
      handleNew owner d n = (.ok (fileHandle ((n.handles k).generation + 1) k), attach owner d k n) := by
  unfold handleNew
  split
  · exact .inl rfl
  rename_i k hk
  have hfree := List.find?_some hk
  simp only [Bool.and_eq_true, Option.isNone_iff_eq_none, decide_eq_true_eq] at hfree
  exact .inr ⟨k, hfree.1, hfree.2, rfl⟩

theorem openCheck_ok {base path : Path} {mode : Nat} {d : DescId}
    (hok : openCheck owner base path mode n = .ok (i, d)) :
    name n i = some path ∧ ¬ Live n d ∧ mode &&& 3 ≠ 0 ∧ mode ≤ 15 := by
  unfold openCheck at hok
  rw [guard_eq_ok, guard_eq_ok] at hok
  obtain ⟨hargs, -, hok⟩ := hok
  simp only [not_or, not_lt] at hargs
  split at hok
  · cases hok
  rw [guard_eq_ok] at hok
  obtain ⟨-, hok⟩ := hok
  split at hok
  · cases hok
  rename_i j hfind
  rw [guard_eq_ok, guard_eq_ok] at hok
  obtain ⟨-, -, hok⟩ := hok
  split at hok
  · cases hok
  rename_i c hc
  cases hok
  have hfree := List.find?_some hc
  simp only [decide_eq_true_eq] at hfree
  exact ⟨nodeFind_some hfind, not_not.2 hfree, hargs.2.2.2.1, hargs.2.2.2.2⟩

/-- What an attempt to open `path` comes to: the answer and the namespace. -/
inductive Opening (owner mode : Nat) (path : Path) (n : SfNamespace) : Except Int Nat × SfNamespace → Prop
  | refused (e : Int) : Opening owner mode path n (.error e, n)
  | turnedAway {i : NodeId} {d : DescId} (unused : ¬ Live n d) :
      Opening owner mode path n (stop .noSpace, tellClose i (prepare mode i d n))
  | entered {i : NodeId} {d : DescId} {k : SlotId} (found : name n i = some path) (unused : ¬ Live n d)
      (valid : mode &&& 3 ≠ 0 ∧ mode ≤ 15) (free : (n.handles k).description = none)
      (room : (n.handles k).generation < 0x7fffff) :
      Opening owner mode path n (.ok (fileHandle ((n.handles k).generation + 1) k),
        adjustWriters (· + 1) mode i (attach owner d k (prepare mode i d n)))

theorem sfNsOpen_opening (b : Backend) (owner : Nat) (base path : Path) (mode : Nat) (n : SfNamespace) :
    Opening owner mode path n (sfNsOpen b owner base path mode n) := by
  unfold sfNsOpen checked
  split
  · exact .refused _
  rename_i a hok
  obtain ⟨hname, hunused, hvalid⟩ := openCheck_ok (i := a.1) (d := a.2) hok
  change Opening owner mode path n (openNode b owner mode a.1 a.2 n)
  unfold openNode
  split
  · exact .refused _
  rcases handleNew_cases owner a.2 (prepare mode a.1 a.2 n) with hfull | ⟨k, hfree, hroom, hnew⟩
  · rw [hfull]
    exact .turnedAway hunused
  · rw [hnew]
    exact .entered hname hunused hvalid hfree hroom

theorem Opening.effects {mode : Nat} {path : Path} {r : Except Int Nat × SfNamespace} (ho : Opening owner mode path n r) :
    Effects owner n r.2 := by
  cases ho with
  | refused e => exact .refl
  | turnedAway unused => exact .single (.turnedAway unused)
  | entered found unused valid free room => exact .single (.enter (name_eq_some.1 found).1 unused valid free room)

/-- What `sf_ns_openat` checks before it opens. -/
theorem sfNsOpenat_opening (b : Backend) (owner directory : Nat) (relative : Path) (mode : Nat) (n : SfNamespace) :
    (∃ e, sfNsOpenat b owner directory relative mode n = (.error e, n)) ∨
      ∃ k d path, description n owner directory = some (k, d) ∧ (n.node d).type = some .dir ∧
        mode &&& 3 &&& (n.descriptions d).mode = mode &&& 3 ∧ relativePath (n.node d).path relative = .ok path ∧
        Opening owner mode path n (sfNsOpenat b owner directory relative mode n) := by
  unfold sfNsOpenat withDescription
  split
  · exact .inl ⟨_, rfl⟩
  rename_i k d hd
  dsimp only
  split
  · exact .inl ⟨_, rfl⟩
  rename_i hdir
  split
  · exact .inl ⟨_, rfl⟩
  split
  · exact .inl ⟨_, rfl⟩
  rename_i hmode
  split
  · exact .inl ⟨_, rfl⟩
  · rename_i path hpath
    exact .inr ⟨k, d, path, hd, not_not.1 hdir, not_not.1 hmode, hpath, sfNsOpen_opening b owner _ path mode n⟩

theorem effects_openat (b : Backend) (owner directory : Nat) (relative : Path) (mode : Nat) (n : SfNamespace) :
    Effects owner n (sfNsOpenat b owner directory relative mode n).2 := by
  rcases sfNsOpenat_opening b owner directory relative mode n with ⟨e, hsame⟩ | ⟨k, d, path, -, -, -, -, hopening⟩
  · rw [hsame]
  · exact hopening.effects

theorem effects_dup (owner h : Nat) (n : SfNamespace) : Effects owner n (sfNsDup owner h n).2 := by
  refine effects_withDescription ?_
  intro k₀ d hheld howner
  rcases handleNew_cases owner d n with hfull | ⟨k, hfree, hroom, hnew⟩
  · rw [hfull]
  · rw [hnew]
    exact .single (.dup hheld howner hfree hroom)

theorem effects_close (owner h : Nat) (n : SfNamespace) : Effects owner n (sfNsClose owner h n).2 :=
  effects_withDescription fun _ _ hheld howner => .single (.close hheld howner)

theorem effects_reap (owner : Nat) (n : SfNamespace) : Effects owner n (sfNsReap owner n) := by
  refine Fold.keeps (List.finRange 64) ?_ .refl
  intro m k _ hm
  unfold reapSlot
  split
  · exact hm.trans (effects_close owner _ m)
  · exact hm

/-! ### Contents -/

theorem outline_setOffset (n : SfNamespace) (d : DescId) (offset : Nat) : (n.setOffset d offset).outline = n.outline := by
  have hdescs : (n.setOffset d offset).outline.descriptions = n.outline.descriptions := by
    funext c
    by_cases hc : c = d <;> simp [SfNamespace.outline, SfNamespace.setOffset, SfNamespace.setDescription, hc]
  exact congrArg (fun f => { n.outline with descriptions := f }) hdescs

theorem outline_setContent (n : SfNamespace) (i : NodeId) (size head : Nat) (data : ByteMem.Mem) :
    (n.setContent i size head data).outline = n.outline := by
  have hnodes : (n.setContent i size head data).outline.nodes = n.outline.nodes := by
    funext j
    by_cases hj : j = i <;> simp [SfNamespace.outline, SfNamespace.setContent, SfNamespace.setNode, hj]
  exact congrArg (fun f => { n.outline with nodes := f }) hnodes

theorem Effects.offset (d : DescId) (offset : Nat) : Effects owner n (n.setOffset d offset) :=
  .single (.content (outline_setOffset n d offset))

theorem Effects.content (i : NodeId) (size head : Nat) (data : ByteMem.Mem) :
    Effects owner n (n.setContent i size head data) :=
  .single (.content (outline_setContent n i size head data))

theorem effects_read (b : Backend) (owner h bytes : Nat) (n : SfNamespace) :
    Effects owner n (sfNsRead b owner h bytes n).2 := by
  refine effects_withDescription ?_
  intro k d _ _
  dsimp only
  split
  · exact .refl
  split
  · exact .refl
  · exact .refl
  · split
    · exact .refl
    split
    · exact .refl
    · exact .offset d _
  · split
    · exact .refl
    split
    · exact .refl
    · exact .content _ _ _ _
  · split
    · exact .refl
    · exact .offset d _

theorem effects_write (b : Backend) (owner h : Nat) (data : List UInt8) (n : SfNamespace) :
    Effects owner n (sfNsWrite b owner h data n).2 := by
  refine effects_withDescription ?_
  intro k d _ _
  dsimp only
  split
  · exact .refl
  split
  · exact .refl
  split
  · exact .refl
  split
  · exact .refl
  split
  · exact .refl
  split
  · unfold writeDisk
    dsimp only
    split
    · exact .refl
    split
    · exact .refl
    split
    · exact .refl
    · exact (Effects.offset d _).trans (Effects.content _ _ _ _)
  split
  · exact .refl
  split
  · unfold writePipe
    dsimp only
    split
    · exact .refl
    · exact .content _ _ _ _
  · unfold writeFile
    dsimp only
    split
    · exact .refl
    · exact (Effects.offset d _).trans (Effects.content _ _ _ _)

theorem effects_truncate (b : Backend) (owner h bytes : Nat) (n : SfNamespace) :
    Effects owner n (sfNsTruncate b owner h bytes n).2 := by
  refine effects_withDescription ?_
  intro k d _ _
  dsimp only
  split
  · exact .refl
  split
  · exact .refl
  split
  · exact .refl
  split
  · exact .refl
  split
  · split
    · exact .refl
    · exact .content _ _ _ _
  split
  · exact .refl
  · exact .content _ _ _ _

theorem effects_seek (owner h offset : Nat) (n : SfNamespace) : Effects owner n (sfNsSeek owner h offset n).2 := by
  refine effects_withDescription ?_
  intro k d _ _
  dsimp only
  split
  · exact .refl
  split
  · exact .refl
  · exact .offset d offset

/-! ### The tree -/

theorem Quiet.setNode {x : SfNode} (hi : ¬ InUse n i) (hc : (n.nodes i).type ≠ some .console) :
    Quiet n (n.setNode i x) := by
  refine ⟨rfl, rfl, ?_, ?_⟩
  · intro j hj
    exact setNode_of_ne fun hji => hi (hji ▸ hj)
  · intro j hj
    exact setNode_of_ne fun hji => hc (hji ▸ hj)

theorem parentCheck_ok (hp : p ≠ rootPath) (hok : parentCheck n p = .ok ()) :
    ∃ j, name n j = some (parentOf p) ∧ IsDir n j ∧ (n.nodes j).readonly = false := by
  unfold parentCheck at hok
  rw [if_neg hp] at hok
  split at hok
  · cases hok
  rename_i j hfind
  rw [guard_eq_ok, guard_eq_ok] at hok
  exact ⟨j, nodeFind_some hfind, not_not.1 hok.1, by simpa using hok.2.1⟩

theorem createCheck_ok (hok : createCheck p type n = .ok (i, t)) :
    (n.nodes i).type = none ∧ pathOk p = true ∧ (∀ j, name n j ≠ some p) ∧ NodeType.ofCode type = some t ∧
      (p ≠ rootPath → ∃ j, name n j = some (parentOf p) ∧ IsDir n j ∧ (n.nodes j).readonly = false) := by
  unfold createCheck at hok
  split at hok
  · cases hok
  rename_i u hu
  rw [guard_eq_ok, guard_eq_ok, bind_eq_ok] at hok
  obtain ⟨hpath, hnew, u', hparent, hok⟩ := hok
  split at hok
  · cases hok
  rename_i j hj
  cases hok
  have hfree := List.find?_some hj
  rw [Option.isNone_iff_eq_none] at hfree
  rw [Bool.not_eq_true, Option.isSome_eq_false_iff, Option.isNone_iff_eq_none] at hnew
  refine ⟨hfree, by simpa using hpath, nodeFind_none hnew, hu, ?_⟩
  intro hroot
  exact parentCheck_ok hroot hparent

theorem Sound.name_root (hn : Sound n) : ∃ i, name n i = some rootPath := hn.rooted.top.imp fun _ hi => hi.1

/-- A node that was made has its place in a directory that is not locked. -/
theorem Sound.created (hn : Sound n)
    (hok : createCheck p type n = .ok (i, t)) : p ≠ rootPath ∧ (n.nodes i).type = none ∧ pathOk p = true ∧
      (∀ j, name n j ≠ some p) ∧ NodeType.ofCode type = some t ∧
      ∃ j, name n j = some (parentOf p) ∧ IsDir n j ∧ (n.nodes j).readonly = false := by
  obtain ⟨hfree, hpath, hnew, ht, hparent⟩ := createCheck_ok hok
  have hroot : p ≠ rootPath := by
    rintro rfl
    obtain ⟨j, hj⟩ := hn.name_root
    exact hnew j hj
  exact ⟨hroot, hfree, hpath, hnew, ht, hparent hroot⟩

theorem Good.locked_setNode (hn : Good n) {x : SfNode} (hx : x.mountTag = 0) {a : NodeId}
    (htag : ((n.setNode i x).nodes a).mountTag ≠ 0) (hd : ((n.setNode i x).nodes a).type = some .dir) :
    ((n.setNode i x).nodes a).readonly = true := by
  by_cases hai : a = i
  · rw [hai, setNode_self] at htag
    exact absurd hx htag
  · rw [setNode_of_ne hai] at htag hd ⊢
    exact hn.locked htag hd

theorem Good.create (hn : Good n) (ro : Bool)
    (hok : createCheck p type n = .ok (i, t)) :
    Good (n.setNode i (newNode p t ro)) ∧
      Quiet n (n.setNode i (newNode p t ro)) := by
  obtain ⟨hroot, hfree, hpath, hnew, -, j, hj, hdir, hro⟩ := hn.toSound.created hok
  refine ⟨⟨?_, ?_⟩, Quiet.setNode (hn.toSound.not_inUse hfree) (by rw [hfree]; exact nofun)⟩
  · refine hn.toSound.add hfree nofun hpath hnew hj hdir ?_ rfl (fun h => absurd rfl h)
    intro htag
    rw [hn.locked htag hdir] at hro
    cases hro
  · exact hn.locked_setNode rfl

theorem effects_create (hn : Good n) (owner : Nat) (p : Path) (type : Nat) (ro : Bool) :
    Effects owner n (sfNsCreate p type ro n).2 := by
  refine effects_checked ?_
  rintro ⟨i, t⟩ hok
  obtain ⟨hgood, hquiet⟩ := hn.create ro hok
  refine .single (.tree hquiet hgood ?_)
  intro j hj
  by_cases hji : j = i
  · rw [hji, setNode_self]
    rfl
  · rw [setNode_of_ne hji]
    exact hj

theorem removeCheck_ok {directory : Nat} {relative : Path} {kind : NodeType}
    (hok : removeCheck owner directory relative kind n = .ok i) :
    ∃ k d path, description n owner directory = some (k, d) ∧ (n.node d).type = some .dir ∧
      (n.descriptions d).mode &&& openWrite ≠ 0 ∧ relativePath (n.node d).path relative = .ok path ∧ name n i = some path ∧
      (n.nodes i).mountTag = 0 ∧ (n.nodes i).type = some kind ∧ ¬ InUse n i ∧ (kind = .dir → ¬ Occupied n path) := by
  unfold removeCheck at hok
  split at hok
  · cases hok
  rename_i k d hd
  rw [guard_eq_ok, guard_eq_ok, bind_eq_ok] at hok
  obtain ⟨hbase, hwrite, path, hpath, hok⟩ := hok
  rw [guard_eq_ok, bind_eq_ok] at hok
  obtain ⟨-, u, -, hok⟩ := hok
  split at hok
  · cases hok
  rename_i j hfind
  rw [guard_eq_ok, guard_eq_ok, guard_eq_ok, guard_eq_ok] at hok
  obtain ⟨hlock, hkind, hidle, hempty, hj⟩ := hok
  cases hj
  simp only [not_or, not_not] at hlock
  refine ⟨k, d, path, hd, not_not.1 hbase, hwrite, hpath, nodeFind_some hfind, hlock.2, not_not.1 hkind, hidle, ?_⟩
  intro hdir hocc
  exact hempty ⟨hdir, hocc⟩

theorem not_occupied (hocc : ¬ Occupied n p) (hp : p ≠ rootPath) {j : NodeId} {q : Path} (hj : name n j = some q)
    (hq : slash ∈ q) : parentOf q ≠ p := by
  intro hpar
  obtain ⟨c, rfl⟩ := eq_append_of_parentOf hq hpar hp
  obtain ⟨htype, hpath⟩ := name_eq_some.1 hj
  refine hocc ⟨j, Option.isSome_iff_ne_none.2 htype, ?_⟩
  simp [continues, hpath]

theorem Good.remove (hn : Good n) (hi : name n i = some p) (hp : p ≠ rootPath) (hidle : ¬ InUse n i)
    (hchild : ∀ j q, name n j = some q → q ≠ rootPath → parentOf q ≠ p) : Good (n.setNode i emptyNode) := by
  have hlive : ∀ d, Live n d → (n.descriptions d).node ≠ i := fun d hd hnode => hidle ⟨d, hd, hnode⟩
  refine ⟨?_, ?_⟩
  · refine hn.toSound.prune (· = i) ?_ ?_ (.inl ?_) ?_ ?_ ?_
    · rintro a rfl
      exact setNode_self
    · intro a ha
      rw [Function.update_of_ne ha]
      exact ⟨rfl, rfl, rfl⟩
    · intro a ha
      rw [Function.update_of_ne ha]
    · intro d hd
      exact Function.update_of_ne (hlive d hd) _ _
    · rintro a rfl ha
      rw [hi] at ha
      exact hp (Option.some.inj ha)
    · rintro a j p' q rfl ha hj hpq
      rw [hi] at ha
      cases ha
      exact absurd hpq.2 (hchild j q hj hpq.1)
  · exact hn.locked_setNode rfl

theorem effects_remove (hn : Good n) (owner directory : Nat) (relative : Path) {kind : NodeType}
    (hkind : kind = .file ∨ kind = .dir) : Effects owner n (removeNode owner directory relative kind n).2 := by
  refine effects_checked ?_
  intro i hok
  obtain ⟨k, d, path, hd, -, -, hrel, hname, -, htype, hidle, hempty⟩ := removeCheck_ok hok
  obtain ⟨hheld, -, -⟩ := description_some hd
  have hpath : path ≠ rootPath := by
    obtain ⟨rfl, hne, -, -⟩ := relativePath_ok hrel
    have hbase : name n (n.descriptions d).node = some (n.node d).path :=
      name_eq_some.2 ⟨hn.live (hn.counted.pos hheld), rfl⟩
    refine join_ne_rootPath ?_ hne
    intro hnil
    have hhead := pathOk_head (hn.canonical hbase)
    rw [hnil] at hhead
    cases hhead
  refine .single (.tree (Quiet.setNode hidle ?_) (hn.remove hname hpath hidle ?_) ?_)
  · rw [htype]
    rcases hkind with rfl | rfl <;> rintro ⟨⟩
  · intro j q hj hq
    rcases hkind with rfl | rfl
    · exact hn.rooted.parent_ne hname (by rw [IsDir, htype]; rintro ⟨⟩) hj hq
    · exact not_occupied (hempty rfl) hpath hj (slash_mem_of_pathOk (hn.canonical hj))
  · intro j hj
    by_cases hji : j = i
    · rw [hji, setNode_self]
      rfl
    · rw [setNode_of_ne hji]
      exact hj

/-- **An unmount** of a mount that nothing is open on. -/
theorem Sound.unmount (hn : Sound n) (hidle : ∀ d, Live n d → (n.node d).mountTag = 0) :
    Good { n with nodes := fun i => unmountNode 1 (n.nodes i) } ∧
      Quiet n { n with nodes := fun i => unmountNode 1 (n.nodes i) } ∧ ∀ i, (unmountNode 1 (n.nodes i)).mountTag = 0 := by
  have hzero : ∀ i, (unmountNode 1 (n.nodes i)).mountTag = 0 := by
    intro i
    unfold unmountNode
    split
    · split
      · rfl
      · rfl
    · rename_i hne
      by_contra htag
      exact hne (hn.tagged htag).1
  have hsame : ∀ i, (n.nodes i).mountTag = 0 → unmountNode 1 (n.nodes i) = n.nodes i := by
    intro i hi
    rw [unmountNode, if_neg (by rw [hi]; decide)]
  refine ⟨⟨?_, ?_⟩, ⟨rfl, rfl, ?_, ?_⟩, hzero⟩
  · refine hn.prune (fun i => (n.nodes i).mountTag = 1 ∧ (n.nodes i).path ≠ diskPath) ?_ ?_ (.inr hzero) ?_ ?_ ?_
    · rintro i ⟨htag, hpath⟩
      rw [unmountNode, if_pos htag, if_neg hpath]
    · intro i hi
      unfold unmountNode
      by_cases htag : (n.nodes i).mountTag = 1
      · rw [if_pos htag, if_pos (by by_contra hpath; exact hi ⟨htag, hpath⟩)]
        exact ⟨rfl, rfl, rfl⟩
      · rw [if_neg htag]
        exact ⟨rfl, rfl, rfl⟩
    · intro d hd
      exact hsame _ (hidle d hd)
    · rintro i ⟨htag, -⟩ hroot
      exact (hn.tagged (by rw [htag]; decide)).2.2.1 (name_eq_some.1 hroot).2
    · rintro i j p q ⟨htag, -⟩ hi hj hpq
      have htag' : (n.nodes i).mountTag ≠ 0 := by rw [htag]; decide
      refine ⟨(hn.tagged (hn.closed hi hj hpq htag')).1, ?_⟩
      -- the mount point is in the root, which is no part of a mount
      intro hdisk
      rw [(name_eq_some.1 hj).2] at hdisk
      apply (hn.tagged htag').2.2.1
      rw [(name_eq_some.1 hi).2, ← hpq.2, hdisk]
      decide
  · intro i htag _
    exact absurd (hzero i) htag
  · rintro i ⟨d, hd, rfl⟩
    exact hsame _ (hidle d hd)
  · intro i hi
    refine hsame i ?_
    by_contra htag
    rcases (hn.tagged htag).2.1 with h | h <;> rw [hi] at h <;> cases h

theorem effects_unmount (hn : Good n) (owner tag : Nat) : Effects owner n (sfNsUnmount tag n).2 := by
  unfold sfNsUnmount
  split
  · exact .refl
  rename_i hzero
  split
  · exact .refl
  rename_i hbusy
  by_cases htag : tag = 1
  · subst htag
    obtain ⟨hgood, hquiet, hzero⟩ := hn.toSound.unmount (by
      intro d hd
      by_contra hne
      exact hbusy ⟨d, hd, (hn.tagged hne).1⟩)
    exact .single (.tree hquiet hgood fun i _ => hzero i)
  · -- no node has another tag
    have hsame : (fun i => unmountNode tag (n.nodes i)) = n.nodes := by
      funext i
      unfold unmountNode
      split
      · rename_i hi
        have hne : (n.nodes i).mountTag ≠ 0 := by rw [hi]; exact hzero
        exact absurd (hi.symm.trans (hn.tagged hne).1) htag
      · rfl
    simp only [hsame]
    exact .refl

/-- **Every request is a sequence of effects.** -/
theorem run_effects (hn : Good n) (b : Backend) (r : Request) : Effects r.owner n (r.run b n) := by
  cases r with
  | nsCreate p type ro => exact effects_create hn 0 p type ro
  | nsOpen owner base path mode => exact (sfNsOpen_opening b owner base path mode n).effects
  | nsOpenat owner directory relative mode => exact effects_openat b owner directory relative mode n
  | nsDup owner h => exact effects_dup owner h n
  | nsClose owner h => exact effects_close owner h n
  | nsRead owner h bytes => exact effects_read b owner h bytes n
  | nsWrite owner h data => exact effects_write b owner h data n
  | nsSeek owner h offset => exact effects_seek owner h offset n
  | nsTruncate owner h bytes => exact effects_truncate b owner h bytes n
  | nsUnlink owner directory relative => exact effects_remove hn owner directory relative (.inl rfl)
  | nsRmdir owner directory relative => exact effects_remove hn owner directory relative (.inr rfl)
  | nsReap owner => exact effects_reap owner n
  | nsUnmount tag => exact effects_unmount hn 0 tag

end Calls

end SpiritFox.Ns
