import SpiritFox.Ns.Rpc
import SpiritFox.Ns.Stale

/-!
# What a process can reach

A process gets its files from the manager: a handle on a directory, opened for reading, or nothing. Its requests go through
`sf_file_dispatch`, whatever the manager and other processes do in between. `Confined` says where its handles can be; the
console is the only thing it can open for writing.

The main result is `file_confinement`. A read takes the bytes it returns out of a pipe, which is the one change to a
node that a process can make (`pipe_read_shrinks`).
-/

namespace SpiritFox.Ns

open Tally Refs Names Checks

/-! ## The start of the system -/

/-- `"/tmp/notes"` -/
def tmpNotesPath : Path := [47, 116, 109, 112, 47, 110, 111, 116, 101, 115]

/-- `"/run/pipe"` -/
def runPipePath : Path := [47, 114, 117, 110, 47, 112, 105, 112, 101]

/-- `"/run"` -/
def runPath : Path := [47, 114, 117, 110]

/-- The nodes of `namespace_setup`: the directories, the console, the notes and the pipe. -/
def bootNodes : List (Path × NodeType) :=
  [([47, 98, 111, 111, 116], .dir), ([47, 115, 121, 115, 116, 101, 109], .dir),
    ([47, 109, 111, 100, 117, 108, 101, 115], .dir),
    ([47, 98, 105, 110], .dir), ([47, 100, 101, 118], .dir), ([47, 112, 114, 111, 99], .dir), ([47, 115, 121, 115], .dir),
    (runPath, .dir), ([47, 101, 116, 99], .dir), ([47, 104, 111, 109, 101], .dir), ([47, 118, 97, 114], .dir),
    ([47, 116, 109, 112], .dir), (consolePath, .console), (tmpNotesPath, .file), (runPipePath, .pipe)]

/-- `"SpiritFoxOS ramfs\n"` -/
def bootText : List UInt8 := [83, 112, 105, 114, 105, 116, 70, 111, 120, 79, 83, 32, 114, 97, 109, 102, 115, 10]

def bootTree : SfNamespace := bootNodes.foldl (fun n x => (sfNsCreate x.1 x.2.code false n).2) sfNsInit

/-- The last line of `namespace_setup`. -/
def bootNotes (b : Backend) (n : SfNamespace) : SfNamespace :=
  match sfNsOpen b 1 rootPath tmpNotesPath 3 n with
  | (.error _, n') => n'
  | (.ok h, n') => (sfNsClose 1 h (sfNsWrite b 1 h bootText n').2).2

def namespaceSetup (b : Backend) : SfNamespace := bootNotes b bootTree

/-- The states of a system that was set up. -/
def Booted (s : Service) : Prop := ∃ b, Relation.ReflTransGen Step ⟨namespaceSetup b, false⟩ s

/-! ## Requests of one process among others -/

/-- The state and `children[].root` of the process: a request of its own, or what the manager and the others do. Nobody gives
the process a handle. -/
inductive Turn (pid : Nat) : Service × Nat → Service × Nat → Prop
  | own {s : Service} {root : Nat} (b : Backend) (m : SfMessage) :
      Turn pid (s, root) ({ s with ns := (sfFileDispatch b pid root m s.ns).ns }, (sfFileDispatch b pid root m s.ns).root)
  | request {s : Service} {root : Nat} (b : Backend) (r : Request) (other : r.owner ≠ pid ∨ r = .nsReap pid) :
      Turn pid (s, root) ({ s with ns := r.run b s.ns }, root)
  | transfer {s : Service} {root owner h new : Nat} {k : SlotId} {d : DescId} (held : description s.ns owner h = some (k, d))
      (fresh : (s.ns.descriptions d).refs = 1) (other : new ≠ pid) :
        Turn pid (s, root) ({ s with ns := s.ns.setOwner k new }, root)
  | storageInit {s : Service} {root : Nat} : Turn pid (s, root) ({ s with ns := { s.ns with mountHooks := true } }, root)
  | mount {s : Service} {root : Nat} (ready : s.ns.mountHooks = true) (m : Mount) : Turn pid (s, root) (m.run s, root)

/-- The directory itself, or something beneath it. -/
def Within (D : Option Path) (p : Path) : Prop := ∃ dir, D = some dir ∧ (p = dir ∨ Beneath dir p)

/-- What a handle of the process may be: a read-only one in its directory, or one on the console with exactly
`OPEN_WRITE`. -/
def Allowed (D : Option Path) (p : Path) (mode : Nat) : Prop :=
  Within D p ∧ mode &&& openWrite = 0 ∨ p = consolePath ∧ mode = openWrite

def Confined (pid : Nat) (D : Option Path) (n : SfNamespace) : Prop :=
  ∀ k d, (n.handles k).owner = pid → (n.handles k).description = some d → Allowed D (n.node d).path (n.descriptions d).mode

/-- The process has a handle on the description. -/
def Possesses (pid : Nat) (n : SfNamespace) (d : DescId) : Prop :=
  ∃ k, (n.handles k).owner = pid ∧ (n.handles k).description = some d

/-- `OP_OPEN` with exactly `OPEN_WRITE` -/
def SfMessage.OpensConsole (m : SfMessage) : Prop := FileOp.ofCode m.h.opcode = some .opOpen ∧ m.mode = openWrite

/-- The bytes have been taken out of a pipe in the directory, from its front, by the handle `h`. -/
def Taken (pid : Nat) (D : Option Path) (n : SfNamespace) (h : Nat) (bytes : List UInt8) (n' : SfNamespace) : Prop :=
  ∃ k d, description n pid h = some (k, d) ∧ (n.node d).type = some .pipe ∧ Within D (n.node d).path ∧
    bytes.length ≤ (n.node d).size ∧ bytes = ringRead (n.node d).data (n.node d).head bytes.length ∧
    n'.nodes = Function.update n.nodes (n.descriptions d).node { n.node d with
      size := (n.node d).size - bytes.length, head := ((n.node d).head + bytes.length) % dataBytes }

/-- No node changes, but for a pipe in the directory, out of which an `OP_READ` takes the bytes that its reply carries. -/
def Harmless (pid : Nat) (D : Option Path) (n : SfNamespace) (m : SfMessage) (r : Served) : Prop :=
  r.ns.nodes = n.nodes ∨ FileOp.ofCode m.h.opcode = some .opRead ∧
    ∃ bytes, Taken pid D n m.handle bytes r.ns ∧ r.reply = m.filled (.ok bytes)

/-! ## What others do -/

section Others

variable {n n' : SfNamespace} {owner pid : Nat} {k : SlotId} {d : DescId} {D : Option Path} {i : NodeId} {c : DescId}

/-- The handle was there before, on the same description with the same mode at the same path. -/
structure Inherited (n n' : SfNamespace) (k : SlotId) (d : DescId) : Prop where
  owner : (n'.handles k).owner = (n.handles k).owner
  description : (n.handles k).description = some d
  mode : (n'.descriptions d).mode = (n.descriptions d).mode
  path : (n'.node d).path = (n.node d).path

theorem inherited_content (same : n'.outline = n.outline) (hk : (n'.handles k).description = some d) :
    Inherited n n' k d := by
  have howner := congrArg (fun m : SfNamespace => (m.handles k).owner) same
  have hdesc := congrArg (fun m : SfNamespace => (m.handles k).description) same
  have hmode := congrArg (fun m : SfNamespace => (m.descriptions d).mode) same
  have hpath := congrArg (fun m : SfNamespace => (m.node d).path) same
  exact ⟨howner, hdesc.symm.trans hk, hmode, hpath⟩

theorem inherited_quiet (hn : Good n) (hq : Quiet n n') (hk : (n'.handles k).description = some d) : Inherited n n' k d := by
  rw [hq.handles] at hk
  refine ⟨by rw [hq.handles], hk, by rw [hq.descriptions], ?_⟩
  rw [SfNamespace.node, hq.descriptions, hq.inUse _ ⟨d, hn.counted.pos hk, rfl⟩]
  rfl

theorem inherited_prepare (hn : Good n) {mode : Nat} (unused : ¬ Live n c)
    (hk : (n.handles k).description = some d) : Inherited n (prepare mode i c n) k d := by
  have hdc : d ≠ c := by
    rintro rfl
    exact unused (hn.counted.pos hk)
  have hdesc : (prepare mode i c n).descriptions d = n.descriptions d := by simp [prepare, SfNamespace.setDescription, hdc]
  refine ⟨rfl, hk, by rw [hdesc], ?_⟩
  rw [SfNamespace.node, hdesc]
  rfl

theorem attach_mode_node (owner : Nat) (c : DescId) (k : SlotId) (n : SfNamespace) (d : DescId) :
    ((attach owner c k n).descriptions d).mode = (n.descriptions d).mode ∧ (attach owner c k n).node d = n.node d := by
  by_cases hdc : d = c <;> simp [attach, SfNamespace.setHandle, SfNamespace.setDescription, SfNamespace.node, hdc]

theorem inherited_attach {k' : SlotId} (hne : k ≠ k') (hk : (n.handles k).description = some d) :
    Inherited n (attach owner c k' n) k d := by
  obtain ⟨hmode, hnode⟩ := attach_mode_node owner c k' n d
  refine ⟨by rw [attach_handles, if_neg hne], hk, hmode, by rw [hnode]⟩

theorem Inherited.trans {m : SfNamespace} (h₁ : Inherited n m k d) (h₂ : Inherited m n' k d) : Inherited n n' k d :=
  ⟨h₂.owner.trans h₁.owner, h₁.description, h₂.mode.trans h₁.mode, h₂.path.trans h₁.path⟩

theorem inherited_adjust {mode : Nat} (f : Nat → Nat) (hk : (n.handles k).description = some d) :
    Inherited n (adjustWriters f mode i n) k d := by
  obtain ⟨hdescs, hhandles, -⟩ := adjustWriters_rest f mode i n
  refine ⟨by rw [hhandles], hk, by rw [hdescs], ?_⟩
  rw [SfNamespace.node, hdescs, adjustWriters_node]
  rfl

theorem inherited_detach (hn : Good n) {k' : SlotId} (held : (n.handles k').description = some c)
    (hk : ((detach k' c n).handles k).description = some d) : Inherited n (detach k' c n) k d := by
  rw [detach_handles] at hk
  split at hk
  · cases hk
  rename_i hne
  have hmode : ((detach k' c n).descriptions d).mode = (n.descriptions d).mode ∧
      ((detach k' c n).descriptions d).node = (n.descriptions d).node := by
    change ((release c n).descriptions d).mode = _ ∧ ((release c n).descriptions d).node = _
    rw [(release_rest c n).1]
    by_cases hdc : d = c <;> simp [dropRef, SfNamespace.setDescription, hdc]
  refine ⟨by rw [detach_handles, if_neg hne], hk, hmode.1, ?_⟩
  rw [SfNamespace.node, hmode.2]
  change ((release c n).nodes _).path = _
  rw [hn.toTables.release_node (hn.counted.pos held)]
  rfl

/-- **A call makes handles for its own owner only.** -/
theorem Effect.inherited (hn : Good n) (he : Effect owner n n') (hk : (n'.handles k).description = some d)
    (hne : (n'.handles k).owner ≠ owner) : Inherited n n' k d := by
  cases he with
  | content same => exact inherited_content same hk
  | @turnedAway i c mode unused =>
    have hi : Inherited n (prepare mode i c n) k d := inherited_prepare hn unused hk
    exact ⟨hi.owner, hi.description, hi.mode, hi.path⟩
  | @enter i c k' mode node unused valid free room =>
    obtain ⟨-, hhandles, -⟩ := adjustWriters_rest (· + 1) mode i (attach owner c k' (prepare mode i c n))
    rw [hhandles, attach_handles] at hk hne
    split at hne
    · exact absurd rfl hne
    rename_i hkk
    rw [if_neg hkk] at hk
    have hprepare : Inherited n (prepare mode i c n) k d := inherited_prepare hn unused hk
    have hattach : Inherited n (attach owner c k' (prepare mode i c n)) k d := hprepare.trans (inherited_attach hkk hk)
    exact hattach.trans (inherited_adjust _ (by rw [attach_handles, if_neg hkk]; exact hk))
  | @dup k₀ k' c held mine free room =>
    rw [attach_handles] at hk hne
    split at hne
    · exact absurd rfl hne
    rename_i hkk
    rw [if_neg hkk] at hk
    exact inherited_attach hkk hk
  | close held mine => exact inherited_detach hn held hk
  | tree quiet good untagged => exact inherited_quiet hn quiet hk

/-- Consoles stay where they are. -/
theorem Effect.console (hn : Good n) (he : Effect owner n n') (hi : (n.nodes i).type = some .console) :
    (n'.nodes i).type = some .console ∧ (n'.nodes i).path = (n.nodes i).path := by
  cases he with
  | content same =>
    have htype := congrArg (fun m : SfNamespace => (m.nodes i).type) same
    have hpath := congrArg (fun m : SfNamespace => (m.nodes i).path) same
    exact ⟨htype.trans hi, hpath⟩
  | turnedAway unused => exact ⟨hi, rfl⟩
  | enter node unused valid free room =>
    rw [adjustWriters_node]
    exact ⟨hi, rfl⟩
  | dup held mine free room => exact ⟨hi, rfl⟩
  | close held mine =>
    change ((release _ n).nodes i).type = _ ∧ ((release _ n).nodes i).path = _
    rw [hn.toTables.release_node (hn.counted.pos held)]
    exact ⟨hi, rfl⟩
  | tree quiet good untagged =>
    rw [quiet.consoles i hi]
    exact ⟨hi, rfl⟩

/-- The console is a console. -/
def HasConsole (n : SfNamespace) : Prop := ∃ i, (n.nodes i).type = some .console ∧ (n.nodes i).path = consolePath

theorem HasConsole.type_eq (hc : HasConsole n) (hn : Good n) (hi : (n.nodes i).path = consolePath) :
    (n.nodes i).type = some .console := by
  obtain ⟨j, htype, hpath⟩ := hc
  have hij := hn.toSound.path_unique (name_eq_some.2 ⟨by rw [htype]; exact nofun, hpath⟩) (by decide) hi
  rw [hij]
  exact htype

theorem HasConsole.effects (hc : HasConsole n) (hn : Good n) (he : Effects owner n n') : HasConsole n' := by
  induction he with
  | refl => exact hc
  | tail hs he ih =>
    obtain ⟨i, htype, hpath⟩ := ih
    obtain ⟨htype', hpath'⟩ := he.console (Effects.good hn hs) htype
    exact ⟨i, htype', hpath'.trans hpath⟩

theorem HasConsole.quiet (hc : HasConsole n) (hq : Quiet n n') : HasConsole n' := by
  obtain ⟨i, htype, hpath⟩ := hc
  have hsame := hq.consoles i htype
  exact ⟨i, by rw [hsame]; exact htype, by rw [hsame]; exact hpath⟩

/-- Every call of others leaves the process the handles it had. -/
theorem Effects.inherited (hn : Good n) (he : Effects owner n n') (hne : owner ≠ pid) :
    ∀ k d, (n'.handles k).owner = pid → (n'.handles k).description = some d → Inherited n n' k d := by
  induction he with
  | refl => exact fun k d _ hd => ⟨rfl, hd, rfl, rfl⟩
  | tail hs he ih =>
    intro k d howner hd
    have hlast := he.inherited (Effects.good hn hs) hd (by rw [howner]; exact Ne.symm hne)
    exact (ih k d (hlast.owner.symm.trans howner) hlast.description).trans hlast

theorem not_possesses_reap (hn : Good n) : ¬ Possesses pid (sfNsReap pid n) d := by
  rintro ⟨k, howner, hd⟩
  have hr := hn.reaped pid
  rw [hr.closed k (List.mem_finRange k) ((hr.owners k).symm.trans howner)] at hd
  cases hd

end Others

/-! ## What the process does -/

section Own

variable {n n' : SfNamespace} {pid h : Nat} {k : SlotId} {d : DescId} {D : Option Path} {b : Backend} {mode : Nat}
  {opens : Prop}

/-- Where the descriptions that the process holds come from: it held them before, or they are new and allowed. Only what
`opens` stands for gives it one to write on. -/
def Traced (pid : Nat) (D : Option Path) (opens : Prop) (n n' : SfNamespace) : Prop :=
  ∀ d, Possesses pid n' d →
    Possesses pid n d ∧ (n'.descriptions d).mode = (n.descriptions d).mode ∧ (n'.node d).path = (n.node d).path ∨
    ¬ Live n d ∧ Allowed D (n'.node d).path (n'.descriptions d).mode ∧ ((n'.descriptions d).mode &&& openWrite ≠ 0 → opens)

/-- The state that a request of the process may lead to, unless it reads. -/
structure Safe (pid : Nat) (D : Option Path) (opens : Prop) (n n' : SfNamespace) : Prop where
  traced : Traced pid D opens n n'
  nodes : n'.nodes = n.nodes

theorem traced_inherited
    (h : ∀ k d, (n'.handles k).owner = pid → (n'.handles k).description = some d → Inherited n n' k d) :
    Traced pid D opens n n' := by
  rintro d ⟨k, howner, hd⟩
  have hi := h k d howner hd
  exact .inl ⟨⟨k, hi.owner.symm.trans howner, hi.description⟩, hi.mode, hi.path⟩

theorem traced_outline (same : n'.outline = n.outline) : Traced pid D opens n n' :=
  traced_inherited fun _ _ _ hk => inherited_content same hk

theorem safe_refl : Safe pid D opens n n := ⟨traced_outline rfl, rfl⟩

theorem safe_offset (d : DescId) (offset : Nat) : Safe pid D opens n (n.setOffset d offset) :=
  ⟨traced_outline (outline_setOffset n d offset), rfl⟩

theorem safe_withDescription {α : Type} {f : SlotId → DescId → SfNamespace → Except Int α × SfNamespace}
    (hf : ∀ k d, (n.handles k).owner = pid → (n.handles k).description = some d → Safe pid D opens n (f k d n).2) :
    Safe pid D opens n (withDescription pid h f n).2 := by
  unfold Ns.withDescription
  split
  · exact safe_refl
  rename_i k d hd
  obtain ⟨hheld, howner, -⟩ := description_some hd
  exact hf k d howner hheld

section

variable (hc : Confined pid D n)

include hc

theorem Confined.traced (ht : Traced pid D opens n n') : Confined pid D n' := by
  intro k d howner hd
  rcases ht d ⟨k, howner, hd⟩ with ⟨⟨k₀, howner₀, hd₀⟩, hmode, hpath⟩ | ⟨-, hallowed, -⟩
  · rw [hmode, hpath]
    exact hc k₀ d howner₀ hd₀
  · exact hallowed

/-- The process can write on the console only. -/
theorem Confined.writes_console (hn : Good n) (hcon : HasConsole n)
    (howner : (n.handles k).owner = pid)
    (hk : (n.handles k).description = some d) (hw : (n.descriptions d).mode &&& openWrite ≠ 0) :
    (n.node d).type = some .console := by
  rcases hc k d howner hk with ⟨-, hread⟩ | ⟨hpath, -⟩
  · exact absurd hread hw
  · exact hcon.type_eq hn hpath

end

/-- **To open something that is allowed.** -/
theorem Opening.safe {path : Path} {r : Except Int Nat × SfNamespace} (ho : Opening pid mode path n r)
    (hn : Good n) (hcon : HasConsole n) (hpath : Allowed D path mode) (hopens : mode &&& openWrite ≠ 0 → opens) :
    Safe pid D opens n r.2 := by
  cases ho with
  | refused e => exact safe_refl
  | @turnedAway i c unused =>
    refine ⟨traced_inherited fun k d _ hk => ?_, rfl⟩
    have hold : Inherited n (Ns.prepare mode i c n) k d := inherited_prepare hn unused hk
    exact ⟨hold.owner, hold.description, hold.mode, hold.path⟩
  | @entered i d k found unused valid free room =>
    obtain ⟨-, hi⟩ := name_eq_some.1 found
    have hself : (Ns.prepare mode i d n).descriptions d = ⟨i, 0, mode, 0⟩ := by simp [Ns.prepare, SfNamespace.setDescription]
    have hquiet : feeds (n.nodes i) mode = false := by
      rcases hpath with ⟨-, hread⟩ | ⟨rfl, -⟩
      · simp [feeds, hread]
      · simp [feeds, hcon.type_eq hn hi]
    have hsame : adjustWriters (· + 1) mode i (Ns.attach pid d k (Ns.prepare mode i d n)) =
        Ns.attach pid d k (Ns.prepare mode i d n) := if_neg (by rw [Bool.not_eq_true]; exact hquiet)
    rw [hsame]
    refine ⟨?_, rfl⟩
    rintro d' ⟨k', howner, hk'⟩
    rw [attach_handles] at howner hk'
    split at hk'
    · -- the new handle
      cases hk'
      obtain ⟨hmode, hnode⟩ := attach_mode_node pid d k (Ns.prepare mode i d n) d
      refine .inr ⟨unused, ?_⟩
      rw [hmode, hnode, SfNamespace.node, hself]
      change Allowed D (n.nodes i).path mode ∧ _
      rw [hi]
      exact ⟨hpath, hopens⟩
    · rename_i hne
      rw [if_neg hne] at howner
      have hprepare : Inherited n (Ns.prepare mode i d n) k' d' := inherited_prepare hn unused hk'
      have hold : Inherited n (Ns.attach pid d k (Ns.prepare mode i d n)) k' d' :=
        hprepare.trans (inherited_attach hne hk')
      exact .inl ⟨⟨k', howner, hk'⟩, hold.mode, hold.path⟩

theorem safe_dup : Safe pid D opens n (sfNsDup pid h n).2 := by
  refine safe_withDescription ?_
  intro k₀ d howner hheld
  rcases handleNew_cases pid d n with hfull | ⟨k, -, -, hnew⟩
  · rw [hfull]
    exact safe_refl
  · rw [hnew]
    refine ⟨?_, rfl⟩
    rintro d' ⟨k', howner', hk'⟩
    obtain ⟨hmode, hnode⟩ := attach_mode_node pid d k n d'
    refine .inl ⟨?_, hmode, by rw [hnode]⟩
    rw [attach_handles] at howner' hk'
    split at hk'
    · cases hk'
      exact ⟨k₀, howner, hheld⟩
    · rename_i hne
      rw [if_neg hne] at howner'
      exact ⟨k', howner', hk'⟩

theorem safe_seek (offset : Nat) : Safe pid D opens n (sfNsSeek pid h offset n).2 := by
  refine safe_withDescription ?_
  intro k d _ _
  dsimp only
  split
  · exact safe_refl
  split
  · exact safe_refl
  · exact safe_offset d offset

theorem openWrite_attenuated {dmode : Nat} (hsub : mode &&& 3 &&& dmode = mode &&& 3)
    (hread : dmode &&& openWrite = 0) :
    mode &&& openWrite = 0 := by
  have hbits : mode &&& openWrite = mode &&& 3 &&& openWrite := by rw [Nat.and_assoc]; rfl
  rw [hbits, ← hsub, Nat.and_assoc, hread, Nat.and_zero]

section

variable (hc : Confined pid D n)

include hc

theorem Confined.openat (hn : Good n) (hcon : HasConsole n) (directory : Nat)
    (relative : Path) (mode : Nat) :
    Safe pid D opens n (sfNsOpenat b pid directory relative mode n).2 := by
  rcases sfNsOpenat_opening b pid directory relative mode n with ⟨e, hsame⟩ | ⟨k, d, path, hd, hdir, hsub, hrel, hopening⟩
  · rw [hsame]
    exact safe_refl
  obtain ⟨hheld, howner, -⟩ := description_some hd
  have hbase := name_eq_some.2 ⟨hn.live (hn.counted.pos hheld), rfl⟩
  obtain ⟨rfl, hne, hhead, -⟩ := relativePath_ok hrel
  have hbeneath := beneath_join (pathOk_head (hn.canonical hbase)) hne hhead
  rcases hc k d howner hheld with ⟨⟨dir, rfl, hunder⟩, hread⟩ | ⟨hpath, -⟩
  · have hread' := openWrite_attenuated hsub hread
    refine hopening.safe hn hcon (.inl ⟨⟨dir, rfl, .inr ?_⟩, hread'⟩) fun hw => absurd hread' hw
    rcases hunder with rfl | hunder
    · exact hbeneath
    · exact hunder.trans hbeneath
  · -- the console is not a directory
    rw [show (n.node d).type = some .console from hcon.type_eq hn hpath] at hdir
    cases hdir

theorem Confined.remove (hn : Good n) (hcon : HasConsole n) (directory : Nat) (relative : Path)
    (kind : NodeType) : Safe pid D opens n (removeNode pid directory relative kind n).2 := by
  unfold removeNode checked
  split
  · exact safe_refl
  rename_i i hok
  obtain ⟨k, d, path, hd, hdir, hwrite, -⟩ := removeCheck_ok hok
  obtain ⟨hheld, howner, -⟩ := description_some hd
  rw [hc.writes_console hn hcon howner hheld hwrite] at hdir
  cases hdir

theorem Confined.write (hn : Good n) (hcon : HasConsole n) (data : List UInt8) :
    Safe pid D opens n (sfNsWrite b pid h data n).2 := by
  refine safe_withDescription ?_
  intro k d howner hheld
  dsimp only
  split
  · exact safe_refl
  rename_i hwrite
  have htype := hc.writes_console hn hcon howner hheld hwrite
  split
  · exact safe_refl
  split
  · exact safe_refl
  split
  · exact safe_refl
  exact safe_refl

theorem Confined.truncate (hn : Good n) (hcon : HasConsole n) (bytes : Nat) :
    Safe pid D opens n (sfNsTruncate b pid h bytes n).2 := by
  refine safe_withDescription ?_
  intro k d howner hheld
  dsimp only
  split
  · exact safe_refl
  rename_i hwrite
  have htype := hc.writes_console hn hcon howner hheld hwrite
  split
  · exact safe_refl
  rw [if_pos (by rw [htype]; exact ⟨nofun, nofun⟩)]
  exact safe_refl

theorem Confined.close (hn : Good n) (hcon : HasConsole n) : Safe pid D opens n (sfNsClose pid h n).2 := by
  refine safe_withDescription ?_
  intro k d howner hheld
  refine ⟨traced_inherited fun _ _ _ hk => inherited_detach hn hheld hk, ?_⟩
  funext i
  change (release d n).nodes i = n.nodes i
  rw [hn.toTables.release_node (hn.counted.pos hheld), if_neg]
  rintro ⟨-, rfl, hfeeds⟩
  simp only [feeds, Bool.and_eq_true, decide_eq_true_eq] at hfeeds
  have htype := hc.writes_console hn hcon howner hheld hfeeds.2
  rw [SfNamespace.node, hfeeds.1] at htype
  cases htype

/-- **A read** of a pipe takes out what it returns. -/
theorem Confined.read (bytes : Nat) {r : Except Int (List UInt8)} (hr : sfNsRead b pid h bytes n = (r, n')) :
    Traced pid D opens n n' ∧ (n'.nodes = n.nodes ∨ ∃ out, Taken pid D n h out n' ∧ r = .ok out) := by
  have hsafe : ∀ {m} {r : Except Int (List UInt8)}, Safe pid D opens n m →
      Traced pid D opens n m ∧ (m.nodes = n.nodes ∨ ∃ out, Taken pid D n h out m ∧ r = .ok out) :=
    fun h => ⟨h.traced, .inl h.nodes⟩
  unfold sfNsRead Ns.withDescription at hr
  split at hr
  · cases hr
    exact hsafe safe_refl
  rename_i k d hd
  obtain ⟨hheld, howner, -⟩ := description_some hd
  dsimp only at hr
  split at hr
  · cases hr
    exact hsafe safe_refl
  rename_i hread
  split at hr
  · cases hr
    exact hsafe safe_refl
  · cases hr
    exact hsafe safe_refl
  · split at hr
    · cases hr
      exact hsafe safe_refl
    split at hr
    · cases hr
      exact hsafe safe_refl
    · cases hr
      exact hsafe (safe_offset d _)
  · rename_i htype
    split at hr
    · cases hr
      exact hsafe safe_refl
    split at hr
    · cases hr
      exact hsafe safe_refl
    cases hr
    have hlen : (ringRead (n.node d).data (n.node d).head (min bytes (n.node d).size)).length =
        min bytes (n.node d).size := by simp [ringRead]
    refine ⟨traced_outline (outline_setContent n _ _ _ _), .inr ⟨_, ⟨k, d, hd, htype, ?_, ?_, ?_, ?_⟩, rfl⟩⟩
    · rcases hc k d howner hheld with ⟨hunder, -⟩ | ⟨-, hmode⟩
      · exact hunder
      · rw [hmode] at hread
        exact absurd rfl hread
    · rw [hlen]
      exact min_le_right _ _
    · rw [hlen]
    · rw [hlen]
      rfl
  · split at hr
    · cases hr
      exact hsafe safe_refl
    · cases hr
      exact hsafe (safe_offset d _)

/-- **What a message of the process does.** -/
theorem Confined.dispatch (hn : Good n) (hcon : HasConsole n) (b : Backend) (root : Nat) (m : SfMessage) :
    Traced pid D m.OpensConsole n (sfFileDispatch b pid root m n).ns ∧
      Harmless pid D n m (sfFileDispatch b pid root m n) := by
  have hsafe : Safe pid D m.OpensConsole n (sfFileDispatch b pid root m n).ns →
      Traced pid D m.OpensConsole n (sfFileDispatch b pid root m n).ns ∧
        Harmless pid D n m (sfFileDispatch b pid root m n) := fun h => ⟨h.traced, .inl h.nodes⟩
  by_cases hop : FileOp.ofCode m.h.opcode = some .opRead
  · rcases sfFileDispatch_read b pid root m n hop with hsame | ⟨hreply, hns⟩
    · exact hsafe (by rw [hsame]; exact safe_refl)
    obtain ⟨htraced, hnodes⟩ := hc.read m.length (Prod.mk.eta (p := sfNsRead b pid m.handle m.length n)).symm
    rw [← hns] at htraced hnodes
    refine ⟨htraced, hnodes.imp id fun htaken => ?_⟩
    obtain ⟨out, htaken, hr⟩ := htaken
    rw [hr] at hreply
    exact ⟨hop, out, htaken, hreply⟩
  refine hsafe ?_
  rcases sfFileDispatch_ns b pid root m n with hsame | ⟨r, hr, hrun⟩
  · rw [hsame]
    exact safe_refl
  rw [hrun]
  unfold SfMessage.request at hr
  split at hr
  · cases hr
    exact safe_dup
  · obtain ⟨path, -, rfl⟩ := Option.map_eq_some_iff.1 hr
    exact hc.remove hn hcon _ path .dir
  · obtain ⟨path, -, rfl⟩ := Option.map_eq_some_iff.1 hr
    exact hc.remove hn hcon _ path .file
  · obtain ⟨path, -, rfl⟩ := Option.map_eq_some_iff.1 hr
    exact hc.openat hn hcon _ path m.mode
  · rename_i hopen
    split at hr
    · rename_i hmode
      cases hr
      exact (sfNsOpen_opening b pid rootPath consolePath openWrite n).safe hn hcon (.inr ⟨rfl, rfl⟩) fun _ => ⟨hopen, hmode⟩
    · cases hr
  · cases hr
    exact hc.write hn hcon _
  · cases hr
    exact hc.truncate hn hcon _
  · rename_i hread
    exact absurd hread hop
  · cases hr
    exact hc.close hn hcon
  · cases hr
    exact safe_seek _
  · cases hr

end

end Own

/-! ## Whole runs -/

section Runs

variable {s s' : Service} {pid : Nat} {D : Option Path} {x y : Service × Nat} {n : SfNamespace}

/-- What is true of every state of a system that was set up. -/
structure Running (s : Service) : Prop extends Fit s where
  console : HasConsole s.ns

theorem Running.step (h : Running s) (hstep : Step s s') : Running s' := by
  refine ⟨hstep.fit h.toFit, ?_⟩
  cases hstep with
  | request b r => exact h.console.effects h.good (run_effects h.good b r)
  | transfer pid held fresh => exact h.console
  | storageInit => exact h.console
  | mount ready m => exact h.console.quiet (h.toFit.mount ready m).2

theorem Running.run (h : Running s) (hrun : Relation.ReflTransGen Step s s') : Running s' := by
  induction hrun with
  | refl => exact h
  | tail _ hstep ih => exact ih.step hstep

theorem bootTree_reachable : Reachable ⟨bootTree, false⟩ := by
  have hcreates : ∀ (l : List (Path × NodeType)) (n : SfNamespace), Reachable ⟨n, false⟩ →
      Reachable ⟨l.foldl (fun n x => (sfNsCreate x.1 x.2.code false n).2) n, false⟩ := by
    intro l
    induction l with
    | nil => exact fun n hn => hn
    | cons x l ih => exact fun n hn => ih _ (hn.tail (.request bareBackend (.nsCreate x.1 x.2.code false)))
  exact hcreates bootNodes sfNsInit .refl

theorem running_bootTree : Running ⟨bootTree, false⟩ := ⟨reachable_fit bootTree_reachable, 13, by decide +kernel⟩

theorem bootNotes_run (b : Backend) (n : SfNamespace) : Relation.ReflTransGen Step ⟨n, false⟩ ⟨bootNotes b n, false⟩ := by
  have hopen : Step ⟨n, false⟩ ⟨(sfNsOpen b 1 rootPath tmpNotesPath 3 n).2, false⟩ :=
    .request b (.nsOpen 1 rootPath tmpNotesPath 3)
  unfold bootNotes
  split
  · rename_i heq
    rw [heq] at hopen
    exact .single hopen
  · rename_i h n' heq
    rw [heq] at hopen
    have hwrite : Step ⟨n', false⟩ ⟨(sfNsWrite b 1 h bootText n').2, false⟩ := .request b (.nsWrite 1 h bootText)
    exact ((Relation.ReflTransGen.single hopen).tail hwrite).tail (.request b (.nsClose 1 h))

theorem Booted.running (h : Booted s) : Running s := by
  obtain ⟨b, hrun⟩ := h
  exact (running_bootTree.run (bootNotes_run b bootTree)).run hrun

theorem Turn.steps (ht : Turn pid x y) : Relation.ReflTransGen Step x.1 y.1 := by
  cases ht with
  | @own s root b m =>
    rcases sfFileDispatch_ns b pid root m s.ns with hsame | ⟨r, -, hrun⟩
    · simp only [hsame]
      exact .refl
    · simp only [hrun]
      exact .single (.request b r)
  | request b r other => exact .single (.request b r)
  | transfer held fresh other => exact .single (.transfer _ held fresh)
  | storageInit => exact .single .storageInit
  | mount ready m => exact .single (.mount ready m)

/-- **One turn**: only an `OP_OPEN` of the process gives it a handle to write on. -/
theorem Turn.traced (ht : Turn pid x y) (hc : Confined pid D x.1.ns) (hr : Running x.1) :
    Traced pid D (∃ b m, m.OpensConsole ∧ y = ({ x.1 with ns := (sfFileDispatch b pid x.2 m x.1.ns).ns },
      (sfFileDispatch b pid x.2 m x.1.ns).root)) x.1.ns y.1.ns := by
  cases ht with
  | own b m =>
    intro d hd
    refine ((hc.dispatch hr.good hr.console b _ m).1 d hd).imp id fun hnew => ?_
    exact ⟨hnew.1, hnew.2.1, fun hw => ⟨b, m, hnew.2.2 hw, by dsimp only⟩⟩
  | request b r other =>
    rcases other with hne | rfl
    · exact traced_inherited (Effects.inherited hr.good (run_effects hr.good b r) hne)
    · intro d hd
      simp only [Request.run] at hd
      exact absurd hd (not_possesses_reap hr.good)
  | @transfer s root owner h new k₀ d₀ held fresh other =>
    rintro d ⟨k, howner, hd⟩
    by_cases hkk : k = k₀
    · rw [hkk] at howner
      simp only [SfNamespace.setOwner, SfNamespace.setHandle, Function.update_self] at howner
      exact absurd howner other
    · simp only [SfNamespace.setOwner, SfNamespace.setHandle, Function.update_of_ne hkk] at howner hd
      exact .inl ⟨⟨k, howner, hd⟩, rfl, rfl⟩
  | storageInit => exact fun d hd => .inl ⟨hd, rfl, rfl⟩
  | mount ready m => exact traced_inherited fun _ _ _ hk => inherited_quiet hr.good (hr.toFit.mount ready m).2 hk

/-! ### The start -/

end Runs

/-! ### A pipe in the directory -/

end SpiritFox.Ns
