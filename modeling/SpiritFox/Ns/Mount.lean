import SpiritFox.Ns.Namespace

/-!
# Mounts and whole runs

What `services/storage.c` and `services/persistence.c` do to the namespace when the disk and the persistent volume
come and go, and how `services/init.c` gives a new process its directory. Everything that these functions ask of
other components first (the driver, the transaction volume, the module manager, the kernel) is an answer that a step
is given.

`Step` is one call of the namespace or of a mount; `Reachable` are the states after any number of them.
-/

namespace SpiritFox.Ns

/-- The namespace and `fs.mounted`. -/
structure Service where
  ns : SfNamespace
  mounted : Bool

/-! ## The disk -/

structure SfReadFile where
  path : Path
  bytes : Nat

/-- What a mount finds: whether a driver runs, and the files, if everything from `sf_readfs_mount` to `sfmod_start`
succeeds. -/
structure Disk where
  driver : Bool
  files : Except Int (List SfReadFile)

/-- The second half of `namespace_node`: the node is taken for the disk. -/
def claimNode (path : Path) (type : NodeType) (external size : Nat) (existed : Bool) : Call Unit := fun n =>
  match nodeFind n path with
  | none => (stop .noSpace, n)
  | some i =>
    if (n.nodes i).type ≠ some type ∨ (existed = true ∧ path ≠ diskPath ∧ (n.nodes i).mountTag ≠ 1) then (stop .busy, n)
    else (.ok (), n.setNode i { n.nodes i with external := external, size := size, mountTag := 1 })

def namespaceNode (path : Path) (type : NodeType) (external size : Nat) : Call Unit := fun n =>
  match sfNsCreate path type.code (type = .disk) n with
  | (.ok (), n') => claimNode path type external size false n'
  | (.error e, n') => if e = SfError.busy.code then claimNode path type external size true n' else (.error e, n')

/-- The directories of a file and the file. -/
def mountFile (f : SfReadFile) (index : Nat) : Call Unit := do
  (parents 6 (diskPath ++ f.path)).forM fun p => namespaceNode p .dir 0 0
  namespaceNode (diskPath ++ f.path) .disk index f.bytes

def mountFiles (files : List SfReadFile) : Call Unit := do
  namespaceNode diskPath .dir 0 0
  files.zipIdx.forM fun (f, index) => mountFile f index

/-- After a mount all its nodes are read-only. -/
def lockNode (x : SfNode) : SfNode := if x.mountTag = 1 then { x with readonly := true } else x

/-- An open file at the mount point or under it. -/
def DiskInUse (n : SfNamespace) : Prop :=
  ∃ d, (n.descriptions d).refs ≠ 0 ∧ ((n.node d).path = diskPath ∨ continues diskPath (n.node d).path)

instance (n : SfNamespace) : Decidable (DiskInUse n) := inferInstanceAs (Decidable (∃ _, _))

def sfStorageMount (disk : Disk) : Proc Service Int Unit := fun s =>
  if s.mounted then (stop .busy, s)
  else if disk.driver = false then (stop .deviceGone, s)
  else if Occupied s.ns diskPath then (stop .busy, s)
  else if DiskInUse s.ns then (stop .busy, s)
  else match disk.files with
    | .error e => (.error e, s)
    | .ok files => match mountFiles files s.ns with
      | (.error e, n) => (.error e, ⟨(sfNsUnmount 1 n).2, false⟩)
      | (.ok (), n) => (.ok (), ⟨{ n with nodes := fun i => lockNode (n.nodes i) }, true⟩)

/-- `sf_storage_unmount`: `ready` is what the manager says before, `stopped` what it says after. -/
def sfStorageUnmount (ready stopped : Except Int Unit) : Proc Service Int Unit := fun s =>
  if s.mounted = false then (stop .notFound, s)
  else match ready with
    | .error e => (.error e, s)
    | .ok () => match sfNsUnmount 1 s.ns with
      | (.error e, n) => (.error e, { s with ns := n })
      | (.ok (), n) => match stopped with
        | .error e => (.error e, { s with ns := n })
        | .ok () => (.ok (), ⟨n, false⟩)

/-! ## The persistent volume -/

/-- `"/persist"` -/
def persistPath : Path := [47, 112, 101, 114, 115, 105, 115, 116]

/-- `"/persist/notes"` -/
def notesPath : Path := [47, 112, 101, 114, 115, 105, 115, 116, 47, 110, 111, 116, 101, 115]

/-- The last node with the path, or node 0. -/
def lastNamed (n : SfNamespace) (p : Path) : NodeId :=
  ((List.finRange 32).reverse.find? fun i => (n.nodes i).path = p).getD firstNode

def tagNotes (size : Nat) (n : SfNamespace) : SfNamespace :=
  { n with nodes := fun i =>
      if (n.nodes i).path = notesPath then { n.nodes i with external := 0xffffffff, mountTag := 1, size := size }
      else n.nodes i }

/-- The nodes of the volume: a directory and the notes. -/
def persistNodes (size : Nat) : Call Unit := do
  sfNsCreate persistPath NodeType.dir.code false
  let n ← Proc.read
  let directory := lastNamed n persistPath
  (sfNsCreate notesPath NodeType.disk.code false).onError fun _ n => n.setNode directory emptyNode
  Proc.update (tagNotes size)
  Proc.update fun n => n.setNode directory { n.nodes directory with readonly := true, mountTag := 1 }

/-- `sf_persist_mount`: `volume` is the size of the notes, if the volume can be mounted. -/
def sfPersistMount (volume : Except Int Nat) : Proc Service Int Unit := fun s =>
  if s.mounted = false then (stop .readOnly, s)
  else match volume with
    | .error e => (.error e, s)
    | .ok size => match persistNodes size s.ns with
      | (r, n) => (r, { s with ns := n })

/-! ## New processes -/

def SfNamespace.setOwner (n : SfNamespace) (k : SlotId) (pid : Nat) : SfNamespace :=
  n.setHandle k { n.handles k with owner := pid }

/-- `(directory & 255) - 1` -/
def slotOf (h : Nat) : SlotId := ⟨(h % 256 - 1) % 64, Nat.mod_lt _ (by decide)⟩

/-- The calls of the namespace that change it. -/
inductive Request where
  | nsCreate (p : Path) (type : Nat) (ro : Bool)
  | nsOpen (owner : Nat) (base path : Path) (mode : Nat)
  | nsOpenat (owner directory : Nat) (relative : Path) (mode : Nat)
  | nsDup (owner h : Nat)
  | nsClose (owner h : Nat)
  | nsRead (owner h bytes : Nat)
  | nsWrite (owner h : Nat) (data : List UInt8)
  | nsSeek (owner h offset : Nat)
  | nsTruncate (owner h bytes : Nat)
  | nsUnlink (owner directory : Nat) (relative : Path)
  | nsRmdir (owner directory : Nat) (relative : Path)
  | nsReap (owner : Nat)
  | nsUnmount (tag : Nat)

def Request.run (b : Backend) (n : SfNamespace) : Request → SfNamespace
  | .nsCreate p type ro => (sfNsCreate p type ro n).2
  | .nsOpen owner base path mode => (sfNsOpen b owner base path mode n).2
  | .nsOpenat owner directory relative mode => (sfNsOpenat b owner directory relative mode n).2
  | .nsDup owner h => (sfNsDup owner h n).2
  | .nsClose owner h => (sfNsClose owner h n).2
  | .nsRead owner h bytes => (sfNsRead b owner h bytes n).2
  | .nsWrite owner h data => (sfNsWrite b owner h data n).2
  | .nsSeek owner h offset => (sfNsSeek owner h offset n).2
  | .nsTruncate owner h bytes => (sfNsTruncate b owner h bytes n).2
  | .nsUnlink owner directory relative => (sfNsUnlink owner directory relative n).2
  | .nsRmdir owner directory relative => (sfNsRmdir owner directory relative n).2
  | .nsReap owner => sfNsReap owner n
  | .nsUnmount tag => (sfNsUnmount tag n).2

/-- Whose handles a request is about. -/
def Request.owner : Request → Nat
  | .nsOpen owner .. | .nsOpenat owner .. | .nsDup owner _ | .nsClose owner _ | .nsRead owner .. | .nsWrite owner ..
  | .nsSeek owner .. | .nsTruncate owner .. | .nsUnlink owner .. | .nsRmdir owner .. | .nsReap owner => owner
  | .nsCreate .. | .nsUnmount _ => 0

/-- The mounts; `sf_storage_init` sets the callbacks and comes before the first mount. -/
inductive Mount where
  | storage (disk : Disk)
  | storageEnd (ready stopped : Except Int Unit)
  | persist (volume : Except Int Nat)

def Mount.run (s : Service) : Mount → Service
  | .storage disk => (sfStorageMount disk s).2
  | .storageEnd ready stopped => (sfStorageUnmount ready stopped s).2
  | .persist volume => (sfPersistMount volume s).2

/-- One call. A handle changes hands only while it is the one handle of its description, as one that was just opened is. -/
inductive Step (s : Service) : Service → Prop
  | request (b : Backend) (r : Request) : Step s { s with ns := r.run b s.ns }
  | transfer {owner h : Nat} {k : SlotId} {d : DescId} (pid : Nat) (held : description s.ns owner h = some (k, d))
      (fresh : (s.ns.descriptions d).refs = 1) : Step s { s with ns := s.ns.setOwner k pid }
  | storageInit : Step s { s with ns := { s.ns with mountHooks := true } }
  | mount (ready : s.ns.mountHooks = true) (m : Mount) : Step s (m.run s)

/-- Every state after `sf_ns_init`. -/
abbrev Reachable (s : Service) : Prop := Relation.ReflTransGen Step ⟨sfNsInit, false⟩ s

end SpiritFox.Ns
