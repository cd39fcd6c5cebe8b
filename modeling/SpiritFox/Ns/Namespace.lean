import SpiritFox.Lib.ByteMem
import SpiritFox.Lib.Proc
import SpiritFox.Ns.Path
import Mathlib.Data.List.FinRange

/-!
# The namespace

`services/namespace.c`: a table of nodes, a table of descriptions (open files, with a cursor and a mode) and a table
of handles, each of which belongs to an owner and points at a description. A node without a type is free.

The callbacks of the namespace lead to other components. What they answer during a call is its `Backend`; the calls of
`mount_open` that succeeded and the calls of `mount_close` are counted. A call is a procedure on the namespace, since a call
that fails can have changed it.
-/

namespace SpiritFox.Ns

open ByteMem

/-! ## The tables -/

inductive NodeType where
  | dir
  | file
  | pipe
  | console
  | disk
  deriving DecidableEq, Repr

/-- `NODE_DIR` = 1 and so on. -/
def NodeType.code : NodeType → Nat
  | .dir => 1
  | .file => 2
  | .pipe => 3
  | .console => 4
  | .disk => 5

def NodeType.ofCode : Nat → Option NodeType
  | 1 => some .dir
  | 2 => some .file
  | 3 => some .pipe
  | 4 => some .console
  | 5 => some .disk
  | _ => none

abbrev NodeId := Fin 32
abbrev DescId := Fin 32
abbrev SlotId := Fin 64

/-- `sizeof(x->data)` -/
def dataBytes : Nat := 1024

structure SfNode where
  path : Path
  type : Option NodeType
  readonly : Bool
  writers : Nat
  size : Nat
  head : Nat
  external : Nat
  mountTag : Nat
  data : Mem

def firstNode : NodeId := 0

structure SfDescription where
  node : NodeId
  offset : Nat
  mode : Nat
  refs : Nat

/-- `description` is a number and zero is none in the source. -/
structure SfFileHandle where
  owner : Nat
  generation : Nat
  description : Option DescId

/-- `mountHooks`: `mount_open` and `mount_close` are set, which happens in one place. `opens` and `closes` count the calls of
`mount_open` that succeeded and the calls of `mount_close`; the source has no such fields. -/
structure SfNamespace where
  nodes : NodeId → SfNode
  descriptions : DescId → SfDescription
  handles : SlotId → SfFileHandle
  mountHooks : Bool
  opens : Nat
  closes : Nat

/-- `memset(x, 0, sizeof(*x))` -/
def emptyNode : SfNode := ⟨[], none, false, 0, 0, 0, 0, 0, zeros⟩

/-- What the callbacks answer during a call; a callback that is not set is `none`. A reader also leaves bytes in the
buffer. -/
structure Backend where
  console : Option (List UInt8 → Int)
  externalRead : Option (Nat → Nat → Nat → Int × Mem)
  externalWrite : Option (Nat → Nat → List UInt8 → Int)
  externalTruncate : Option (Nat → Nat → Int)
  mountOpen : Nat → Option SfError

def openRead : Nat := 1
def openWrite : Nat := 2
def openDirectory : Nat := 8

/-- A call of the namespace. -/
abbrev Call (α : Type) := Proc SfNamespace Int α

namespace SfNamespace

variable (n : SfNamespace)

def setNode (i : NodeId) (x : SfNode) : SfNamespace := { n with nodes := Function.update n.nodes i x }

def setDescription (d : DescId) (x : SfDescription) : SfNamespace :=
  { n with descriptions := Function.update n.descriptions d x }

def setHandle (k : SlotId) (x : SfFileHandle) : SfNamespace := { n with handles := Function.update n.handles k x }

/-- `&n->nodes[d->node]` -/
def node (d : DescId) : SfNode := n.nodes (n.descriptions d).node

end SfNamespace

def nodeFind (n : SfNamespace) (path : Path) : Option NodeId :=
  (List.finRange 32).find? fun i => (n.nodes i).type.isSome && (n.nodes i).path = path

/-- `(h->generation << 8) | (i + 1)` -/
def fileHandle (generation : Nat) (i : SlotId) : Nat := generation * 256 + (i + 1)

/-- `description`: the slot of the handle and its description. -/
def description (n : SfNamespace) (owner h : Nat) : Option (SlotId × DescId) :=
  if hi : 1 ≤ h % 256 ∧ h % 256 ≤ 64 then
    let i : SlotId := ⟨h % 256 - 1, by omega⟩
    let x := n.handles i
    if x.owner ≠ owner ∨ x.generation ≠ h / 256 then none else x.description.map fun d => (i, d)
  else none

/-- Most calls start with the description of a handle. -/
def withDescription {α : Type} (owner h : Nat) (f : SlotId → DescId → SfNamespace → Except Int α × SfNamespace) :
    Call α := fun n =>
  match description n owner h with
  | none => (stop .staleHandle, n)
  | some (k, d) => f k d n

/-- The checks of a call, and what it does after them. -/
def checked {α β : Type} (check : SfNamespace → Except Int α) (f : α → SfNamespace → Except Int β × SfNamespace) : Call β :=
  fun n => match check n with
    | .error e => (.error e, n)
    | .ok a => f a n

/-! ## Nodes -/

/-- The parent, if there is one, is a directory that takes new names. -/
def parentCheck (n : SfNamespace) (p : Path) : Except Int Unit :=
  if p = rootPath then pure ()
  else match nodeFind n (parentOf p) with
    | none => stop .notFound
    | some i =>
      if (n.nodes i).type ≠ some .dir then stop .notFound
      else if (n.nodes i).readonly then stop .readOnly
      else pure ()

/-- The checks of `sf_ns_create`: the free node and its type. -/
def createCheck (p : Path) (type : Nat) (n : SfNamespace) : Except Int (NodeId × NodeType) :=
  match NodeType.ofCode type with
  | none => stop .invalid
  | some t =>
    if pathOk p = false then stop .invalid
    else if (nodeFind n p).isSome then stop .busy
    else do
      parentCheck n p
      match (List.finRange 32).find? fun i => (n.nodes i).type.isNone with
      | none => stop .noSpace
      | some i => pure (i, t)

def newNode (p : Path) (t : NodeType) (ro : Bool) : SfNode := { emptyNode with path := p, type := some t, readonly := ro }

def sfNsCreate (p : Path) (type : Nat) (ro : Bool) : Call Unit :=
  checked (createCheck p type) fun (i, t) n => (.ok (), n.setNode i (newNode p t ro))

/-- `memset(n, 0, sizeof(*n))` -/
def emptyNamespace : SfNamespace := ⟨fun _ => emptyNode, fun _ => ⟨0, 0, 0, 0⟩, fun _ => ⟨0, 0, none⟩, false, 0, 0⟩

def sfNsInit : SfNamespace := (sfNsCreate rootPath NodeType.dir.code false emptyNamespace).2

/-! ## Handles -/

/-- The free slot `k` becomes a handle on `d`. -/
def attach (owner : Nat) (d : DescId) (k : SlotId) (n : SfNamespace) : SfNamespace :=
  (n.setHandle k ⟨owner, (n.handles k).generation + 1, some d⟩).setDescription d
    { n.descriptions d with refs := ((n.descriptions d).refs + 1) % 2 ^ 32 }

/-- `handle_new`: a slot whose generations are used up is passed over. -/
def handleNew (owner : Nat) (d : DescId) : Call Nat := fun n =>
  match (List.finRange 64).find? fun k => (n.handles k).description.isNone && (n.handles k).generation < 0x7fffff with
  | none => (stop .noSpace, n)
  | some k => (.ok (fileHandle ((n.handles k).generation + 1) k), attach owner d k n)

/-- The checks of `sf_ns_open`: the node and a free description. -/
def openCheck (owner : Nat) (base path : Path) (mode : Nat) (n : SfNamespace) : Except Int (NodeId × DescId) :=
  if owner = 0 ∨ pathOk base = false ∨ pathOk path = false ∨ mode &&& 3 = 0 ∨ 15 < mode then stop .invalid
  else if base ≠ rootPath ∧ covers base path = false then stop .denied
  else match nodeFind n base with
    | none => stop .notFound
    | some b =>
      if (n.nodes b).type ≠ some .dir then stop .invalid
      else match nodeFind n path with
        | none => stop .notFound
        | some i =>
          if mode &&& openDirectory ≠ 0 ∧ (n.nodes i).type ≠ some .dir then stop .invalid
          else if (n.nodes i).readonly ∧ mode &&& openWrite ≠ 0 then stop .readOnly
          else match (List.finRange 32).find? fun d => (n.descriptions d).refs = 0 with
            | none => stop .noSpace
            | some d => pure (i, d)

/-- `x->mount_tag && n->mount_open` -/
def hooked (n : SfNamespace) (i : NodeId) : Bool := (n.nodes i).mountTag ≠ 0 && n.mountHooks

/-- `x->type == NODE_PIPE && (mode & OPEN_WRITE)` -/
def feeds (x : SfNode) (mode : Nat) : Bool := x.type = some .pipe && mode &&& openWrite ≠ 0

/-- `x->writers` after a description with the mode came or went. -/
def adjustWriters (f : Nat → Nat) (mode : Nat) (i : NodeId) (n : SfNamespace) : SfNamespace :=
  if feeds (n.nodes i) mode then n.setNode i { n.nodes i with writers := f (n.nodes i).writers % 2 ^ 16 } else n

/-- The mount is told, and the description is filled in. -/
def prepare (mode : Nat) (i : NodeId) (d : DescId) (n : SfNamespace) : SfNamespace :=
  { n with opens := n.opens + if hooked n i then 1 else 0 }.setDescription d ⟨i, 0, mode, 0⟩

def tellClose (i : NodeId) (n : SfNamespace) : SfNamespace := { n with closes := n.closes + if hooked n i then 1 else 0 }

/-- What `sf_ns_open` does with the node and the description that it found. -/
def openNode (b : Backend) (owner mode : Nat) (i : NodeId) (d : DescId) : Call Nat := fun n =>
  match (if hooked n i then b.mountOpen (n.nodes i).mountTag else none) with
  | some e => (stop e, n)
  | none => match handleNew owner d (prepare mode i d n) with
    | (.error e, n') => (.error e, tellClose i n')
    | (.ok h, n') => (.ok h, adjustWriters (· + 1) mode i n')

def sfNsOpen (b : Backend) (owner : Nat) (base path : Path) (mode : Nat) : Call Nat :=
  checked (openCheck owner base path mode) fun (i, d) => openNode b owner mode i d

def sfNsOpenat (b : Backend) (owner directory : Nat) (relative : Path) (mode : Nat) : Call Nat :=
  withDescription owner directory fun _ d n =>
    if (n.node d).type ≠ some .dir then (stop .invalid, n)
    else if mode &&& 3 = 0 ∨ 15 < mode then (stop .invalid, n)
    -- `(mode & 3) & ~d->mode`
    else if mode &&& 3 &&& (n.descriptions d).mode ≠ mode &&& 3 then (stop .denied, n)
    else match relativePath (n.node d).path relative with
      | .error e => (.error e, n)
      | .ok path => sfNsOpen b owner (n.node d).path path mode n

def sfNsDup (owner h : Nat) : Call Nat := withDescription owner h fun _ d => handleNew owner d

/-- One handle of `d` less. -/
def dropRef (d : DescId) (n : SfNamespace) : SfNamespace :=
  n.setDescription d { n.descriptions d with refs := ((n.descriptions d).refs + 0xffffffff) % 2 ^ 32 }

/-- What the end of the last handle of `d` does to its node. -/
def lastClose (d : DescId) (n : SfNamespace) : SfNamespace :=
  tellClose (n.descriptions d).node (adjustWriters (· + 0xffff) (n.descriptions d).mode (n.descriptions d).node n)

/-- `if (!--d->refs)` -/
def release (d : DescId) (n : SfNamespace) : SfNamespace :=
  if ((dropRef d n).descriptions d).refs = 0 then lastClose d (dropRef d n) else dropRef d n

/-- The handle in slot `k`, on `d`, is closed. -/
def detach (k : SlotId) (d : DescId) (n : SfNamespace) : SfNamespace :=
  (release d n).setHandle k { (release d n).handles k with description := none }

def sfNsClose (owner h : Nat) : Call Unit := withDescription owner h fun k d n => (.ok (), detach k d n)

/-- One turn of the loop of `sf_ns_reap`. -/
def reapSlot (owner : Nat) (n : SfNamespace) (i : SlotId) : SfNamespace :=
  if (n.handles i).description.isSome ∧ (n.handles i).owner = owner
    then (sfNsClose owner (fileHandle (n.handles i).generation i) n).2 else n

def sfNsReap (owner : Nat) (n : SfNamespace) : SfNamespace := (List.finRange 64).foldl (reapSlot owner) n

/-! ## Removal -/

/-- The paths that end before a slash of `path`, from byte `start` on. -/
def parents (start : Nat) (path : Path) : List Path :=
  (List.range path.length).filterMap fun i => if start ≤ i ∧ path[i]? = some slash then some (path.take i) else none

def openParent (n : SfNamespace) (p : Path) : Except Int Unit :=
  match nodeFind n p with
  | none => stop .notFound
  | some i =>
    if (n.nodes i).type ≠ some .dir then stop .notFound
    else if (n.nodes i).readonly ∨ (n.nodes i).mountTag ≠ 0 then stop .readOnly
    else pure ()

/-- Some handle is open on the node. -/
def InUse (n : SfNamespace) (i : NodeId) : Prop := ∃ d, (n.descriptions d).refs ≠ 0 ∧ (n.descriptions d).node = i

instance (n : SfNamespace) (i : NodeId) : Decidable (InUse n i) := inferInstanceAs (Decidable (∃ _, _))

/-- `q` goes on after `p` with a slash. -/
def continues (p q : Path) : Bool := p.length < q.length && p.isPrefixOf q && q[p.length]? = some slash

/-- There is a node under the path. -/
def Occupied (n : SfNamespace) (p : Path) : Prop := ∃ i, (n.nodes i).type.isSome ∧ continues p (n.nodes i).path

instance (n : SfNamespace) (p : Path) : Decidable (Occupied n p) := inferInstanceAs (Decidable (∃ _, _))

/-- The checks of `remove_node`. -/
def removeCheck (owner directory : Nat) (relative : Path) (kind : NodeType) (n : SfNamespace) : Except Int NodeId :=
  match description n owner directory with
  | none => stop .staleHandle
  | some (_, d) =>
    if (n.node d).type ≠ some .dir then stop .invalid
    else if (n.descriptions d).mode &&& openWrite = 0 then stop .denied
    else do
      let path ← relativePath (n.node d).path relative
      if (n.node d).readonly ∨ (n.node d).mountTag ≠ 0 then stop .readOnly
      else do
        (parents (n.node d).path.length path).forM (openParent n)
        match nodeFind n path with
        | none => stop .notFound
        | some i =>
          if (n.nodes i).readonly ∨ (n.nodes i).mountTag ≠ 0 then stop .readOnly
          else if (n.nodes i).type ≠ some kind then stop .invalid
          else if InUse n i then stop .busy
          else if kind = .dir ∧ Occupied n path then stop .busy
          else pure i

def removeNode (owner directory : Nat) (relative : Path) (kind : NodeType) : Call Unit :=
  checked (removeCheck owner directory relative kind) fun i n => (.ok (), n.setNode i emptyNode)

def sfNsUnlink (owner directory : Nat) (relative : Path) : Call Unit := removeNode owner directory relative .file

def sfNsRmdir (owner directory : Nat) (relative : Path) : Call Unit := removeNode owner directory relative .dir

/-- `"/disk"` -/
def diskPath : Path := [47, 100, 105, 115, 107]

/-- The mount point stays as a directory. -/
def unmountNode (tag : Nat) (x : SfNode) : SfNode :=
  if x.mountTag = tag then if x.path = diskPath then { x with mountTag := 0, readonly := false } else emptyNode else x

def sfNsUnmount (tag : Nat) : Call Unit := fun n =>
  if tag = 0 then (stop .invalid, n)
  else if ∃ d, (n.descriptions d).refs ≠ 0 ∧ (n.node d).mountTag = tag then (stop .busy, n)
  else (.ok (), { n with nodes := fun i => unmountNode tag (n.nodes i) })

/-! ## Contents -/

/-- A count or a code, as a callback returns it. -/
def ofStatus (r : Int) : Except Int Nat := if r < 0 then .error r else .ok r.toNat

def SfNamespace.setOffset (n : SfNamespace) (d : DescId) (offset : Nat) : SfNamespace :=
  n.setDescription d { n.descriptions d with offset := offset }

def SfNamespace.setContent (n : SfNamespace) (i : NodeId) (size head : Nat) (data : Mem) : SfNamespace :=
  n.setNode i { n.nodes i with size := size, head := head, data := data }

/-- The loop over a pipe's ring. -/
def ringRead (data : Mem) (head count : Nat) : List UInt8 := (List.range count).map fun i => data ((head + i) % dataBytes)

def ringWrite (data : Mem) (start : Nat) (bs : List UInt8) : Mem :=
  bs.zipIdx.foldl (fun m (b, i) => Function.update m ((start + i) % dataBytes) b) data

/-- `external_read` at a position, where a count over `bytes` or over `room` is refused. -/
def readExternal (b : Backend) (x : SfNode) (offset bytes room : Nat) : Except Int (List UInt8) :=
  match b.externalRead with
  | none => stop .deviceGone
  | some f => do
    let (r, out) := f x.external offset bytes
    let count ← ofStatus r
    if bytes < count ∨ room < count then stop .badFormat else pure (slice out 0 count)

def sfNsRead (b : Backend) (owner h bytes : Nat) : Call (List UInt8) :=
  withDescription owner h fun _ d n =>
    let x := n.node d
    let offset := (n.descriptions d).offset
    if (n.descriptions d).mode &&& openRead = 0 then (stop .denied, n)
    else match x.type with
      | some .dir => (stop .invalid, n)
      | some .console => (if bytes = 0 then .ok [] else stop .wouldBlock, n)
      | some .disk =>
        if bytes = 0 then (.ok [], n)
        else match readExternal b x offset bytes (0xffffffff - offset) with
          | .error e => (.error e, n)
          | .ok out => (.ok out, n.setOffset d (offset + out.length))
      | some .pipe =>
        if bytes = 0 then (.ok [], n)
        else if x.size = 0 then (if x.writers = 0 then .ok [] else stop .wouldBlock, n)
        else
          let count := min bytes x.size
          (.ok (ringRead x.data x.head count),
            n.setContent (n.descriptions d).node (x.size - count) ((x.head + count) % dataBytes) x.data)
      | _ =>
        if bytes = 0 ∨ x.size ≤ offset then (.ok [], n)
        else
          let count := min bytes (x.size - offset)
          (.ok (slice x.data offset count), n.setOffset d (offset + count))

/-- `sf_ns_pread`, which changes nothing; the buffer is there. -/
def sfNsPread (b : Backend) (owner h bytes offset : Nat) : Call (List UInt8) :=
  withDescription owner h fun _ d n =>
    let x := n.node d
    let result : Except Int (List UInt8) :=
      if (n.descriptions d).mode &&& openRead = 0 then stop .denied
      else match x.type with
        | some .dir => stop .invalid
        | some .pipe | some .console => stop .notSeekable
        | some .disk => if bytes = 0 then pure [] else readExternal b x offset bytes (0xffffffffffffffff - offset)
        | _ => if bytes = 0 ∨ x.size ≤ offset then pure [] else pure (slice x.data offset (min bytes (x.size - offset)))
    (result, n)

def writeDisk (b : Backend) (d : DescId) (data : List UInt8) : Call Nat := fun n =>
  let x := n.node d
  let offset := (n.descriptions d).offset
  match b.externalWrite with
  | none => (stop .readOnly, n)
  | some f =>
    match ofStatus (f x.external offset data) with
    | .error e => (.error e, n)
    | .ok count =>
      if data.length < count ∨ 0xffffffff - offset < count then (stop .badFormat, n)
      else (.ok count, (n.setOffset d (offset + count)).setContent (n.descriptions d).node
        (max x.size (offset + count)) x.head x.data)

def writePipe (d : DescId) (data : List UInt8) : Call Nat := fun n =>
  let x := n.node d
  let count := min data.length (dataBytes - x.size)
  if count = 0 then (stop .wouldBlock, n)
  else (.ok count, n.setContent (n.descriptions d).node (x.size + count) x.head
    (ringWrite x.data (x.head + x.size) (data.take count)))

def writeFile (d : DescId) (data : List UInt8) : Call Nat := fun n =>
  let x := n.node d
  let offset := (n.descriptions d).offset
  let count := min data.length (dataBytes - offset)
  if count = 0 then (stop .noSpace, n)
  else
    -- the gap after the end reads as zero
    let m := if x.size < offset then clear x.data x.size (offset - x.size) else x.data
    (.ok count, (n.setOffset d (offset + count)).setContent (n.descriptions d).node (max x.size (offset + count)) x.head
      (blit m offset (data.take count)))

def sfNsWrite (b : Backend) (owner h : Nat) (data : List UInt8) : Call Nat :=
  withDescription owner h fun _ d n =>
    let x := n.node d
    if (n.descriptions d).mode &&& openWrite = 0 then (stop .denied, n)
    else if x.readonly then (stop .readOnly, n)
    else if x.type = some .dir then (stop .invalid, n)
    else if data = [] then (.ok 0, n)
    else if x.type = some .console then (match b.console with | none => stop .deviceGone | some f => ofStatus (f data), n)
    else if x.type = some .disk then writeDisk b d data n
    else if dataBytes < (n.descriptions d).offset ∨ dataBytes < x.size then (stop .invalid, n)
    else if x.type = some .pipe then writePipe d data n
    else writeFile d data n

/-- `external_truncate`, where a positive answer is refused. -/
def truncateExternal (b : Backend) (x : SfNode) (bytes : Nat) : Except Int Unit :=
  match b.externalTruncate with
  | none => stop .readOnly
  | some f =>
    let r := f x.external bytes
    if r = 0 then pure () else if 0 < r then stop .badFormat else throw r

def sfNsTruncate (b : Backend) (owner h bytes : Nat) : Call Unit :=
  withDescription owner h fun _ d n =>
    let x := n.node d
    let i := (n.descriptions d).node
    if (n.descriptions d).mode &&& openWrite = 0 then (stop .denied, n)
    else if x.readonly then (stop .readOnly, n)
    else if x.type ≠ some .file ∧ x.type ≠ some .disk then (stop .invalid, n)
    else if 0xffffffff < bytes then (stop .noSpace, n)
    else if x.type = some .disk then
      match truncateExternal b x bytes with
      | .error e => (.error e, n)
      | .ok () => (.ok (), n.setContent i bytes x.head x.data)
    else if dataBytes < bytes then (stop .noSpace, n)
    else
      let start := min bytes x.size
      (.ok (), n.setContent i bytes x.head (clear x.data start (dataBytes - start)))

/-- How far a cursor may go. -/
def seekLimit (x : SfNode) : Nat := if x.type = some .disk then x.size else dataBytes

def sfNsSeek (owner h offset : Nat) : Call Nat :=
  withDescription owner h fun _ d n =>
    let x := n.node d
    if x.type = some .pipe ∨ x.type = some .console then (stop .notSeekable, n)
    else if (x.type ≠ some .file ∧ x.type ≠ some .disk) ∨ seekLimit x < offset then (stop .invalid, n)
    else (.ok offset, n.setOffset d offset)

/-! ## Questions -/

structure SfFileStat where
  bytes : Nat
  type : Nat
  mode : Nat
  flags : Nat
  size : Nat
  offset : Nat
  deriving DecidableEq

def seekable (x : SfNode) : Bool := x.type = some .file || x.type = some .disk

/-- `sf_ns_stat`; the place for the answer is there. -/
def sfNsStat (owner h : Nat) : Call SfFileStat :=
  withDescription owner h fun _ d n =>
    let x := n.node d
    (.ok ⟨32, (x.type.map NodeType.code).getD 0, (n.descriptions d).mode,
      (if x.readonly then 1 else 0) + (if x.mountTag ≠ 0 then 2 else 0) + (if seekable x then 4 else 0),
      (if x.type = some .dir ∨ x.type = some .console then 0 else x.size) % 2 ^ 64, (n.descriptions d).offset % 2 ^ 64⟩, n)

def pollMask (x : SfNode) (mode : Nat) : Nat :=
  if x.type = some .pipe then
    (if mode &&& 1 ≠ 0 ∧ (x.size ≠ 0 ∨ x.writers = 0) then 1 else 0) +
      (if mode &&& 2 ≠ 0 ∧ x.size < dataBytes then 2 else 0) +
      if x.writers = 0 then 4 else 0
  else (if mode &&& 1 ≠ 0 then 1 else 0) + if mode &&& 2 ≠ 0 ∧ x.readonly = false then 2 else 0

def sfNsPoll (owner h : Nat) : Call Nat :=
  withDescription owner h fun _ d n => (.ok (pollMask (n.node d) (n.descriptions d).mode), n)

/-- The name of a child of the directory `p`. -/
def childName (p : Path) (x : SfNode) : Option Path :=
  if x.type = none ∨ p = x.path ∨ x.path.length ≤ p.length then none
  else
    let child := if p = rootPath then some (x.path.drop 1)
      else if continues p x.path then some (x.path.drop (p.length + 1)) else none
    child.filter fun c => slash ∉ c

/-- The loop of `sf_ns_enumerate`: a name that does not fit ends it. -/
def listNames (size : Nat) : List Path → List UInt8 → Except Int (List UInt8)
  | [], out => pure out
  | name :: names, out =>
    if size - out.length < name.length + 1 then if out = [] then stop .noSpace else pure out
    else listNames size names (out ++ name ++ [10])

def sfNsEnumerate (owner h size : Nat) : Call (List UInt8) :=
  withDescription owner h fun _ d n =>
    if (n.descriptions d).mode &&& openRead = 0 then (stop .denied, n)
    else if (n.node d).type ≠ some .dir then (stop .invalid, n)
    else (listNames size ((List.finRange 32).filterMap fun i => childName (n.node d).path (n.nodes i)) [], n)

end SpiritFox.Ns
