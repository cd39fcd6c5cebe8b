import SpiritFox.Ns.Contents
import SpiritFox.Ns.PlainFile
import SpiritFox.Persist.Effects

/-!
# The notes

`/persist/notes` is the one file that the transaction volume keeps for users. A call of the namespace on it ends in
`notes_read`, `notes_write` or `notes_truncate` of `services/persistence.c`, so that the length is kept twice: in
the node and in the volume.

`NotesSystem.plain` is the plain file that a state stands for. The main result is `notes_refine`: every call on the
notes is the call on that file, or fails and leaves it alone.
-/

namespace SpiritFox.Ns

open ByteMem

/-! ## The callbacks -/

/-- The contents of `/notes/user`, which is empty when there is none. -/
def notesContent (s : Persist.State) : List UInt8 := (s.volume.files.get? Persist.notesUser).getD []

/-- `notes_read` on the notes. -/
def notesRead (s : Persist.State) (io : Persist.Io) (offset bytes : Nat) : Except SfError (List UInt8) :=
  if io.writable = false then .error .deviceGone
  else match Persist.getOrEmpty s.volume Persist.notesUser Txn.sfTxnFileBytes with
    | .error e => .error e
    | .ok text => .ok ((text.drop offset).take bytes)

/-- A result as a callback returns it. -/
def callbackStatus : Except SfError Nat → Int
  | .ok v => v
  | .error e => e.code

/-- The callbacks while the volume is mounted; `b` has those of the disk, which stay for every other index. -/
def notesBackend (b : Backend) (s : Persist.State) (io : Persist.Io) : Backend :=
  { b with
    externalRead := some fun index offset bytes =>
      if index ≠ 0xffffffff then match b.externalRead with
        | none => (SfError.deviceGone.code, zeros)
        | some f => f index offset bytes
      else match notesRead s io offset bytes with
        | .error e => (e.code, zeros)
        | .ok out => (out.length, blit zeros 0 out)
    externalWrite := some fun index offset data =>
      if index ≠ 0xffffffff then SfError.readOnly.code else callbackStatus (Persist.notesWrite s io offset data).1
    externalTruncate := some fun index bytes =>
      if index ≠ 0xffffffff then SfError.readOnly.code else callbackStatus (Persist.notesTruncate s io bytes).1 }

/-- Where `sf_ns_write` has `notes_write` write the data, if it gets that far. -/
def writeCall (n : SfNamespace) (owner h : Nat) (data : List UInt8) : Option Nat :=
  match description n owner h with
  | none => none
  | some (_, d) =>
    if (n.descriptions d).mode &&& openWrite = 0 ∨ (n.node d).readonly ∨ data = [] ∨ (n.node d).type ≠ some .disk ∨
      (n.node d).external ≠ 0xffffffff then none
    else some (n.descriptions d).offset

/-- `sf_ns_truncate` gets to `notes_truncate`. -/
def truncateCall (n : SfNamespace) (owner h bytes : Nat) : Bool :=
  match description n owner h with
  | none => false
  | some (_, d) =>
    if (n.descriptions d).mode &&& openWrite = 0 ∨ (n.node d).readonly ∨ (n.node d).type ≠ some .disk ∨ 0xffffffff < bytes ∨
      (n.node d).external ≠ 0xffffffff then false
    else true

/-! ## The system -/

/-- The namespace and the persistence service under it. -/
structure NotesSystem where
  ns : SfNamespace
  store : Persist.State

namespace NotesSystem

variable (sys : NotesSystem) (b : Backend) (io : Persist.Io)

/-- The result of a call on the namespace. -/
def withNs {α : Type} (r : Except Int α × SfNamespace) : Except Int α × NotesSystem := (r.1, { sys with ns := r.2 })

def read (owner h bytes : Nat) : Except Int (List UInt8) × NotesSystem :=
  sys.withNs (sfNsRead (notesBackend b sys.store io) owner h bytes sys.ns)

def pread (owner h bytes offset : Nat) : Except Int (List UInt8) × NotesSystem :=
  sys.withNs (sfNsPread (notesBackend b sys.store io) owner h bytes offset sys.ns)

def seek (owner h offset : Nat) : Except Int Nat × NotesSystem := sys.withNs (sfNsSeek owner h offset sys.ns)

/-- The volume after a write. -/
def written (owner h : Nat) (data : List UInt8) : Persist.State :=
  match writeCall sys.ns owner h data with
  | none => sys.store
  | some offset => (Persist.notesWrite sys.store io offset data).2

def write (owner h : Nat) (data : List UInt8) : Except Int Nat × NotesSystem :=
  { sys with store := sys.written io owner h data }.withNs (sfNsWrite (notesBackend b sys.store io) owner h data sys.ns)

/-- The volume after a truncate. -/
def truncated (owner h bytes : Nat) : Persist.State :=
  if truncateCall sys.ns owner h bytes then (Persist.notesTruncate sys.store io bytes).2 else sys.store

def truncate (owner h bytes : Nat) : Except Int Unit × NotesSystem :=
  { sys with store := sys.truncated io owner h bytes }.withNs
    (sfNsTruncate (notesBackend b sys.store io) owner h bytes sys.ns)

/-- What a request does to the whole system. -/
def request : Request → NotesSystem
  | .nsWrite owner h data => (sys.write b io owner h data).2
  | .nsTruncate owner h bytes => (sys.truncate b io owner h bytes).2
  | r => { sys with ns := r.run (notesBackend b sys.store io) sys.ns }

/-- The file that the system stands for. -/
def plain : PlainFile := ⟨notesContent sys.store, fun d => (sys.ns.descriptions d).offset⟩

/-- The handle is open on the notes. -/
def OnNotes (owner h : Nat) (d : DescId) : Prop :=
  ∃ k, description sys.ns owner h = some (k, d) ∧ (sys.ns.node d).path = notesPath

end NotesSystem

/-- The request writes or truncates through the description. -/
def Request.Changes (r : Request) (n : SfNamespace) (d : DescId) : Prop :=
  match r with
  | .nsWrite owner h _ | .nsTruncate owner h _ => ∃ k, description n owner h = some (k, d)
  | _ => False

/-- One thing that happens while the volume is mounted: a request on any handle, a commit of other files, or a handle that
changes hands. Only `sf_storage_unmount` calls `sf_ns_unmount`; the other disk nodes are read-only. -/
inductive NotesStep (sys : NotesSystem) : NotesSystem → Prop
  | request (b : Backend) (io : Persist.Io) (r : Request) (mounted : ∀ tag, r ≠ .nsUnmount tag)
      (apart : ∀ d, r.Changes sys.ns d → (sys.ns.node d).type = some .disk → (sys.ns.node d).path = notesPath) :
      NotesStep sys (sys.request b io r)
  | commit (io : Persist.Io) (batch : List (List UInt8 × List UInt8)) (other : ∀ x ∈ batch, x.1 ≠ Persist.notesUser) :
      NotesStep sys { sys with store := (Persist.commit sys.store io batch).2 }
  | transfer {owner h : Nat} {k : SlotId} {d : DescId} (pid : Nat) (held : description sys.ns owner h = some (k, d))
      (fresh : (sys.ns.descriptions d).refs = 1) : NotesStep sys { sys with ns := sys.ns.setOwner k pid }

/-- `sf_persist_mount` has just made the nodes, with the length of the notes. -/
def NotesMounted (sys : NotesSystem) : Prop :=
  ∃ s : Service, Reachable s ∧ s.ns.mountHooks = true ∧
    sfPersistMount (.ok (notesContent sys.store).length) s = (.ok (), { s with ns := sys.ns })

/-! ## The volume -/

section Volume

variable {s : Persist.State} {io : Persist.Io}

/-- A commit fails and leaves the files alone, or it is done. -/
theorem commit_files (s : Persist.State) (io : Persist.Io) (batch : List (List UInt8 × List UInt8)) :
    ((∃ e, (Persist.commit s io batch).1 = .error e) ∧ (Persist.commit s io batch).2.volume.files = s.volume.files ∧
        ((Persist.commit s io batch).2.volume.ready = true → s.volume.ready = true)) ∨
      (Persist.commit s io batch).1 = .ok () ∧ s.volume.ready = true ∧
        Txn.Updated s.volume.files batch (Persist.commit s io batch).2.volume.files := by
  unfold Persist.commit
  cases io.refused with
  | some e => exact .inl ⟨⟨e, rfl⟩, rfl, id⟩
  | none =>
    unfold Persist.atomicCommit
    cases hstage : Txn.stage s.volume batch with
    | error e => exact .inl ⟨⟨e, rfl⟩, rfl, id⟩
    | ok next =>
      obtain ⟨hready, -, hfiles⟩ := Txn.stage_ok hstage
      cases io.outcome with
      | done => exact .inr ⟨rfl, hready, Txn.updated_of_stageFiles hfiles⟩
      | uncertain kept => exact .inl ⟨⟨_, rfl⟩, rfl, nofun⟩

theorem getOrEmpty_notes (hready : s.volume.ready = true) :
    Persist.getOrEmpty s.volume Persist.notesUser Txn.sfTxnFileBytes = .ok (notesContent s) := by
  unfold Persist.getOrEmpty notesContent
  cases hg : s.volume.files.get? Persist.notesUser with
  | none =>
    rw [Persist.sfTxnGet_none hready hg (by decide)]
    rfl
  | some data =>
    rw [Persist.sfTxnGet_some hready hg (Txn.FileTable.length_get?_le hg)]
    rfl

theorem getOrEmpty_gone (hready : s.volume.ready = false) :
    Persist.getOrEmpty s.volume Persist.notesUser Txn.sfTxnFileBytes = .error .deviceGone := by
  simp [Persist.getOrEmpty, Txn.sfTxnGet, hready]

theorem length_notesContent (s : Persist.State) : (notesContent s).length ≤ PlainFile.capacity := by
  unfold notesContent
  cases hg : s.volume.files.get? Persist.notesUser with
  | none => exact Nat.zero_le _
  | some data => exact Txn.FileTable.length_get?_le hg

/-- Bytes up to `offset`, with zeros where there are none. -/
theorem take_padded (content : List UInt8) (offset : Nat) :
    (content ++ List.replicate (offset - content.length) 0).take offset =
    content.take offset ++ List.replicate (offset - content.length) 0 := by
  rw [List.take_append, List.take_replicate, Nat.min_self]

/-- The notes are as they were, and the volume is not ready unless it was. -/
structure NotesKept (s s' : Persist.State) : Prop where
  content : notesContent s' = notesContent s
  ready : s'.volume.ready = true → s.volume.ready = true

theorem NotesKept.refl (s : Persist.State) : NotesKept s s := ⟨rfl, id⟩

/-- A commit of the notes. -/
theorem commit_notes (s : Persist.State) (io : Persist.Io) (text : List UInt8) :
    ((∃ e, (Persist.commit s io [(Persist.notesUser, text)]).1 = .error e) ∧
        NotesKept s (Persist.commit s io [(Persist.notesUser, text)]).2) ∨
      (Persist.commit s io [(Persist.notesUser, text)]).1 = .ok () ∧ s.volume.ready = true ∧
        notesContent (Persist.commit s io [(Persist.notesUser, text)]).2 = text := by
  rcases commit_files s io [(Persist.notesUser, text)] with ⟨he, hfiles, hready⟩ | ⟨hok, hready, hupd⟩
  · exact .inl ⟨he, congrArg (fun f : Txn.FileTable => (f.get? _).getD []) hfiles, hready⟩
  refine .inr ⟨hok, hready, ?_⟩
  rw [notesContent, hupd]
  simp

/-- **What `notes_write` does.** -/
theorem notesWrite_cases (s : Persist.State) (io : Persist.Io) (offset : Nat) (data : List UInt8) :
    ((∃ e, (Persist.notesWrite s io offset data).1 = .error e) ∧ NotesKept s (Persist.notesWrite s io offset data).2) ∨
      (Persist.notesWrite s io offset data).1 = .ok data.length ∧ s.volume.ready = true ∧
        offset + data.length ≤ PlainFile.capacity ∧
        notesContent (Persist.notesWrite s io offset data).2 = PlainFile.spliced (notesContent s) offset data := by
  unfold Persist.notesWrite
  split
  · exact .inl ⟨⟨_, rfl⟩, .refl s⟩
  split
  · exact .inl ⟨⟨_, rfl⟩, .refl s⟩
  rename_i hroom
  cases hready : s.volume.ready with
  | false =>
    rw [getOrEmpty_gone hready]
    exact .inl ⟨⟨_, rfl⟩, .refl s⟩
  | true =>
    rw [getOrEmpty_notes hready]
    have hcap : Txn.sfTxnFileBytes = PlainFile.capacity := rfl
    rcases commit_notes s io (Persist.writtenNotes (notesContent s) offset data) with ⟨⟨e, he⟩, hkept⟩ | ⟨hok, -, hcontent⟩
    · refine .inl ⟨⟨e, ?_⟩, hkept⟩
      dsimp only
      rw [he]
      rfl
    · refine .inr ⟨?_, rfl, by omega, ?_⟩
      · dsimp only
        rw [hok]
        rfl
      · dsimp only
        rw [hcontent, Persist.writtenNotes, take_padded, PlainFile.spliced]

/-- `notes_truncate` where nothing stands in its way. -/
theorem notesTruncate_granted {bytes : Nat} (hready : io.writable = true ∧ s.volume.ready = true)
    (hrefused : io.refused = none) (hcap : bytes ≤ PlainFile.capacity) : Persist.notesTruncate s io bytes =
      if bytes = (notesContent s).length then (.ok 0, s)
      else
        let r := Persist.commit s io
          [(Persist.notesUser, (notesContent s ++ List.replicate (bytes - (notesContent s).length) 0).take bytes)]
        (r.1.map fun _ => 0, r.2) := by
  unfold Persist.notesTruncate
  rw [if_neg (by simp [hready]), hrefused]
  exact if_neg (not_lt.2 hcap)

/-- **What `notes_truncate` does.** -/
theorem notesTruncate_cases (s : Persist.State) (io : Persist.Io) (bytes : Nat) :
    ((∃ e, (Persist.notesTruncate s io bytes).1 = .error e) ∧ NotesKept s (Persist.notesTruncate s io bytes).2) ∨
      (Persist.notesTruncate s io bytes).1 = .ok 0 ∧ s.volume.ready = true ∧ bytes ≤ PlainFile.capacity ∧
        notesContent (Persist.notesTruncate s io bytes).2 =
          (notesContent s).take bytes ++ List.replicate (bytes - (notesContent s).length) 0 := by
  by_cases hgranted : (io.writable = true ∧ s.volume.ready = true) ∧ io.refused = none ∧ bytes ≤ PlainFile.capacity
  · obtain ⟨hready, hrefused, hcap⟩ := hgranted
    rw [notesTruncate_granted hready hrefused hcap]
    split
    · rename_i hsame
      refine .inr ⟨rfl, hready.2, hcap, ?_⟩
      simp [hsame]
    · rcases commit_notes s io ((notesContent s ++ List.replicate (bytes - (notesContent s).length) 0).take bytes) with
        ⟨⟨e, he⟩, hkept⟩ | ⟨hok, -, hcontent⟩
      · refine .inl ⟨⟨e, ?_⟩, hkept⟩
        dsimp only
        rw [he]
        rfl
      · refine .inr ⟨?_, hready.2, hcap, hcontent.trans (take_padded _ _)⟩
        dsimp only
        rw [hok]
        rfl
  · refine .inl ?_
    unfold Persist.notesTruncate
    split
    · exact ⟨⟨_, rfl⟩, .refl s⟩
    rename_i hready
    split
    · exact ⟨⟨_, rfl⟩, .refl s⟩
    rename_i hrefused
    rw [if_pos]
    · exact ⟨⟨_, rfl⟩, .refl s⟩
    · simp only [not_or, Bool.not_eq_false] at hready
      exact not_le.1 fun hcap => hgranted ⟨hready, hrefused, hcap⟩

end Volume

/-! ## Calls on the notes -/

structure IsNotes (x : SfNode) : Prop where
  path : x.path = notesPath
  type : x.type = some .disk
  external : x.external = 0xffffffff
  tagged : x.mountTag ≠ 0

/-- A call answers as the plain file does, or it fails: then the namespace and the notes are as they were. -/
def Answers {α : Type} (sys : NotesSystem) (r : Except Int α × NotesSystem) (ideal : Option (α × PlainFile)) : Prop :=
  match r.1 with
  | .ok v => ideal = some (v, r.2.plain)
  | .error _ => r.2.ns = sys.ns ∧ r.2.plain = sys.plain

section Calls

variable {sys : NotesSystem} {b : Backend} {io : Persist.Io} {owner h : Nat} {k : SlotId} {d : DescId}

theorem plain_setOffset (sys : NotesSystem) (d : DescId) (offset : Nat) :
    NotesSystem.plain { sys with ns := sys.ns.setOffset d offset } = sys.plain.moveTo d offset := by
  have hcursor : (fun c => ((sys.ns.setOffset d offset).descriptions c).offset) =
      Function.update (fun c => (sys.ns.descriptions c).offset) d offset := by
    funext c
    by_cases hc : c = d <;> simp [SfNamespace.setOffset, SfNamespace.setDescription, hc]
  exact congrArg (PlainFile.mk _) hcursor

theorem ofStatus_ok (v : Nat) : ofStatus v = .ok v := if_neg (by omega)

theorem ofStatus_code (e : SfError) : ofStatus e.code = .error e.code := if_pos e.code_neg

/-- `external_read` on the notes. -/
theorem readExternal_notes {x : SfNode} (hx : IsNotes x) (hready : sys.store.volume.ready = true) {offset room : Nat}
    (b : Backend) (io : Persist.Io) (bytes : Nat) (hroom : PlainFile.capacity ≤ offset + room) :
    (∃ e, readExternal (notesBackend b sys.store io) x offset bytes room = .error e) ∨
      readExternal (notesBackend b sys.store io) x offset bytes room = .ok (sys.plain.bytesAt offset bytes) := by
  have hcap := length_notesContent sys.store
  have hlen : (sys.plain.bytesAt offset bytes).length = min bytes ((notesContent sys.store).length - offset) := by
    simp [PlainFile.bytesAt, NotesSystem.plain]
  unfold readExternal
  simp only [notesBackend, hx.external, ne_eq, not_true, if_false]
  rcases hn : notesRead sys.store io offset bytes with e | out
  · refine .inl ⟨e.code, ?_⟩
    simp only [ofStatus_code]
    rfl
  · have hout : out = sys.plain.bytesAt offset bytes := by
      unfold notesRead at hn
      split at hn
      · cases hn
      · rw [getOrEmpty_notes hready] at hn
        exact (Except.ok.inj hn).symm
    subst hout
    refine .inr ?_
    simp only [ofStatus_ok]
    change (if _ then _ else _) = _
    rw [if_neg (by omega), slice_blit_self]
    rfl

section

variable (hd : description sys.ns owner h = some (k, d))

include hd

theorem sfNsRead_disk (hx : (sys.ns.node d).type = some .disk) (b : Backend)
    (bytes : Nat) : sfNsRead b owner h bytes sys.ns =
      if (sys.ns.descriptions d).mode &&& openRead = 0 then (stop .denied, sys.ns)
      else if bytes = 0 then (.ok [], sys.ns)
      else match readExternal b (sys.ns.node d) (sys.plain.cursor d) bytes (0xffffffff - sys.plain.cursor d) with
        | .error e => (.error e, sys.ns)
        | .ok out => (.ok out, sys.ns.setOffset d (sys.plain.cursor d + out.length)) := by
  simp only [sfNsRead, withDescription, hd, hx]
  rfl

theorem answers_read (hx : IsNotes (sys.ns.node d))
    (hready : sys.store.volume.ready = true) (b : Backend) (io : Persist.Io) (bytes : Nat) :
    Answers sys (sys.read b io owner h bytes) (some (sys.plain.read d bytes)) := by
  have hroom : PlainFile.capacity ≤ sys.plain.cursor d + (0xffffffff - sys.plain.cursor d) := by
    rw [PlainFile.capacity]
    omega
  unfold NotesSystem.read
  rw [sfNsRead_disk hd hx.type]
  split
  · exact ⟨rfl, rfl⟩
  split
  · rename_i hzero
    change some (sys.plain.read d bytes) = some ([], sys.plain)
    rw [hzero, PlainFile.read, PlainFile.bytesAt, List.take_zero]
    exact congrArg some (congrArg (Prod.mk []) (moveTo_cursor sys.plain d))
  · rcases readExternal_notes hx hready b io bytes hroom with ⟨e, he⟩ | hok
    · rw [he]
      exact ⟨rfl, rfl⟩
    · rw [hok]
      change some (sys.plain.read d bytes) = some (_, NotesSystem.plain { sys with ns := _ })
      rw [plain_setOffset]
      rfl

theorem answers_pread (hx : IsNotes (sys.ns.node d))
    (hready : sys.store.volume.ready = true) (b : Backend) (io : Persist.Io) (bytes offset : Nat) :
    Answers sys (sys.pread b io owner h bytes offset) (some (sys.plain.bytesAt offset bytes, sys.plain)) := by
  have hroom : PlainFile.capacity ≤ offset + (0xffffffffffffffff - offset) := by
    rw [PlainFile.capacity]
    omega
  unfold NotesSystem.pread
  simp only [sfNsPread, withDescription, hd, hx.type]
  split
  · exact ⟨rfl, rfl⟩
  split
  · rename_i hzero
    change some (sys.plain.bytesAt offset bytes, sys.plain) = some ([], sys.plain)
    rw [hzero, PlainFile.bytesAt, List.take_zero]
  · rcases readExternal_notes hx hready b io bytes hroom with ⟨e, he⟩ | hok
    · rw [he]
      exact ⟨rfl, rfl⟩
    · rw [hok]
      rfl

theorem answers_seek (hx : IsNotes (sys.ns.node d))
    (hsize : (sys.ns.node d).size = sys.plain.content.length) (offset : Nat) :
    Answers sys (sys.seek owner h offset) (sys.plain.seek d offset) := by
  have hcall : sfNsSeek owner h offset sys.ns =
      if sys.plain.content.length < offset then (stop .invalid, sys.ns) else (.ok offset, sys.ns.setOffset d offset) := by
    simp [sfNsSeek, withDescription, hd, hx.type, seekLimit, hsize]
  unfold NotesSystem.seek PlainFile.seek
  rw [hcall]
  by_cases hlong : sys.plain.content.length < offset
  · rw [if_pos hlong]
    exact ⟨rfl, rfl⟩
  rw [if_neg hlong, if_neg hlong]
  change some _ = some (offset, NotesSystem.plain { sys with ns := _ })
  rw [plain_setOffset]

/-- A write to a disk node is refused, has nothing to write, or gets to the callback. -/
theorem sfNsWrite_disk (hx : IsNotes (sys.ns.node d)) (b : Backend)
    (data : List UInt8) :
    ((∃ e, sfNsWrite b owner h data sys.ns = (.error e, sys.ns)) ∨ data = [] ∧
      sfNsWrite b owner h data sys.ns = (.ok 0, sys.ns)) ∧
        writeCall sys.ns owner h data = none ∨
      data ≠ [] ∧ sfNsWrite b owner h data sys.ns = writeDisk b d data sys.ns ∧
        writeCall sys.ns owner h data = some (sys.plain.cursor d) := by
  by_cases hmode : (sys.ns.descriptions d).mode &&& openWrite = 0
  · exact .inl ⟨.inl ⟨_, by simp only [sfNsWrite, withDescription, hd, hmode, if_true]; rfl⟩, by simp [writeCall, hd, hmode]⟩
  by_cases hro : (sys.ns.node d).readonly = true
  · exact .inl ⟨.inl ⟨_, by simp only [sfNsWrite, withDescription, hd, hmode, if_false, hro, if_true]; rfl⟩,
      by simp [writeCall, hd, hro]⟩
  by_cases hnil : data = []
  · exact .inl ⟨.inr ⟨hnil, by simp [sfNsWrite, withDescription, hd, hmode, hro, hx.type, hnil]⟩,
      by simp [writeCall, hd, hnil]⟩
  refine .inr ⟨hnil, by simp [sfNsWrite, withDescription, hd, hmode, hro, hx.type, hnil], ?_⟩
  simp [writeCall, hd, hmode, hro, hx.type, hnil, hx.external]
  rfl

end

/-- The namespace after a write of the notes that went well. -/
def wroteNotes (n : SfNamespace) (d : DescId) (offset count : Nat) : SfNamespace :=
  (n.setOffset d (offset + count)).setContent (n.descriptions d).node (max (n.node d).size (offset + count)) (n.node d).head
    (n.node d).data

theorem writeDisk_error (hx : IsNotes (sys.ns.node d)) {data : List UInt8} {e : SfError}
    (he : (Persist.notesWrite sys.store io (sys.plain.cursor d) data).1 = .error e) :
    writeDisk (notesBackend b sys.store io) d data sys.ns = (.error e.code, sys.ns) := by
  have hstatus : callbackStatus (Persist.notesWrite sys.store io (sys.ns.descriptions d).offset data).1 = e.code :=
    congrArg callbackStatus he
  simp [writeDisk, notesBackend, hx.external, hstatus, ofStatus_code]

theorem writeDisk_ok (hx : IsNotes (sys.ns.node d)) {data : List UInt8}
    (hok : (Persist.notesWrite sys.store io (sys.plain.cursor d) data).1 = .ok data.length)
    (hcap : sys.plain.cursor d + data.length ≤ PlainFile.capacity) :
    writeDisk (notesBackend b sys.store io) d data sys.ns =
      (.ok data.length, wroteNotes sys.ns d (sys.plain.cursor d) data.length) := by
  have hstatus : callbackStatus (Persist.notesWrite sys.store io (sys.ns.descriptions d).offset data).1 = data.length :=
    congrArg callbackStatus hok
  have hroom : ¬ (data.length < data.length ∨ 0xffffffff - (sys.ns.descriptions d).offset < data.length) := by
    rw [PlainFile.capacity] at hcap
    change (sys.ns.descriptions d).offset + _ ≤ _ at hcap
    omega
  simp only [writeDisk, notesBackend, hx.external, ne_eq, not_true, if_false, hstatus, ofStatus_ok, hroom]
  rfl

theorem answers_write (hd : description sys.ns owner h = some (k, d)) (hx : IsNotes (sys.ns.node d)) (b : Backend)
    (io : Persist.Io) (data : List UInt8) : Answers sys (sys.write b io owner h data) (sys.plain.write d data) := by
  unfold NotesSystem.write NotesSystem.written
  rcases sfNsWrite_disk hd hx (notesBackend b sys.store io) data with ⟨⟨e, he⟩ | ⟨hnil, hzero⟩, hcall⟩ | ⟨hne, hdisk, hcall⟩
  · rw [he, hcall]
    exact ⟨rfl, rfl⟩
  · rw [hzero, hcall, PlainFile.write, if_pos hnil]
    rfl
  rw [hdisk, hcall]
  rcases notesWrite_cases sys.store io (sys.plain.cursor d) data with ⟨⟨e, he⟩, hkept⟩ | ⟨hok, -, hcap, hcontent⟩
  · rw [writeDisk_error hx he]
    exact ⟨rfl, congrArg (fun text => PlainFile.mk text _) hkept.content⟩
  rw [writeDisk_ok hx hok hcap, PlainFile.write, if_neg hne, if_neg (not_lt.2 hcap)]
  refine (congrArg (fun text => some (data.length, (PlainFile.mk text _).moveTo d _)) hcontent.symm).trans ?_
  exact congrArg (fun f => some (data.length, f)) (plain_setOffset ⟨sys.ns, _⟩ d _).symm

/-- `external_truncate` on the notes, whose callback returns 0 or an error. -/
theorem truncateExternal_error (hx : IsNotes (sys.ns.node d)) {bytes : Nat} {e : SfError}
    (he : (Persist.notesTruncate sys.store io bytes).1 = .error e) :
    truncateExternal (notesBackend b sys.store io) (sys.ns.node d) bytes = .error e.code := by
  have hneg := e.code_neg
  simp only [truncateExternal, notesBackend, hx.external, ne_eq, not_true, if_false, he, callbackStatus]
  rw [if_neg (by omega), if_neg (by omega)]
  rfl

theorem truncateExternal_ok (hx : IsNotes (sys.ns.node d)) {bytes : Nat}
    (hok : (Persist.notesTruncate sys.store io bytes).1 = .ok 0) :
    truncateExternal (notesBackend b sys.store io) (sys.ns.node d) bytes = .ok () := by
  simp only [truncateExternal, notesBackend, hx.external, ne_eq, not_true, if_false, hok, callbackStatus]
  rfl

/-- A truncate of a disk node is refused, or it gets to the callback. -/
theorem sfNsTruncate_disk (hd : description sys.ns owner h = some (k, d)) (hx : IsNotes (sys.ns.node d)) (b : Backend)
    (bytes : Nat) :
    (∃ e, sfNsTruncate b owner h bytes sys.ns = (.error e, sys.ns)) ∧ truncateCall sys.ns owner h bytes = false ∨
      sfNsTruncate b owner h bytes sys.ns = (match truncateExternal b (sys.ns.node d) bytes with
        | .error e => (.error e, sys.ns)
        | .ok () => (.ok (), sys.ns.setContent (sys.ns.descriptions d).node bytes (sys.ns.node d).head
          (sys.ns.node d).data)) ∧
        truncateCall sys.ns owner h bytes = true := by
  by_cases hmode : (sys.ns.descriptions d).mode &&& openWrite = 0
  · exact .inl ⟨⟨_, by simp only [sfNsTruncate, withDescription, hd, hmode, if_true]; rfl⟩,
      by simp [truncateCall, hd, hmode]⟩
  by_cases hro : (sys.ns.node d).readonly = true
  · exact .inl ⟨⟨_, by simp only [sfNsTruncate, withDescription, hd, hmode, if_false, hro, if_true]; rfl⟩,
      by simp [truncateCall, hd, hro]⟩
  by_cases hlong : 0xffffffff < bytes
  · exact .inl ⟨⟨SfError.noSpace.code, by simp [sfNsTruncate, withDescription, hd, hmode, hro, hx.type, hlong, stop]; rfl⟩,
      by simp [truncateCall, hd, hlong]⟩
  refine .inr ⟨?_, by simp [truncateCall, hd, hmode, hro, hx.type, hlong, hx.external]⟩
  cases hanswer : truncateExternal b (sys.ns.node d) bytes <;>
    simp only [sfNsTruncate, withDescription, hd, hmode, hro, hx.type, hlong, hanswer, if_false, if_true, ne_eq, not_true,
      and_false, Bool.false_eq_true]

theorem answers_truncate (hd : description sys.ns owner h = some (k, d)) (hx : IsNotes (sys.ns.node d)) (b : Backend)
    (io : Persist.Io) (bytes : Nat) : Answers sys (sys.truncate b io owner h bytes) (sys.plain.truncate bytes) := by
  unfold NotesSystem.truncate NotesSystem.truncated
  rcases sfNsTruncate_disk hd hx (notesBackend b sys.store io) bytes with ⟨⟨e, he⟩, hcall⟩ | ⟨hdisk, hcall⟩
  · rw [he, hcall]
    exact ⟨rfl, rfl⟩
  rw [hdisk, if_pos hcall]
  rcases notesTruncate_cases sys.store io bytes with ⟨⟨e, he⟩, hkept⟩ | ⟨hok, -, hcap, hcontent⟩
  · rw [truncateExternal_error hx he]
    exact ⟨rfl, congrArg (fun text => PlainFile.mk text _) hkept.content⟩
  · rw [truncateExternal_ok hx hok, PlainFile.truncate, if_neg (not_lt.2 hcap)]
    exact congrArg (fun text => some ((), PlainFile.mk text _)) hcontent.symm

end Calls

/-! ## The node of the notes -/

section Node

variable {n n' : SfNamespace} {i : NodeId} {owner h : Nat}

theorem untouched_read (hi : (n.nodes i).type = some .disk) (b : Backend) (bytes : Nat) :
    Untouched i n (sfNsRead b owner h bytes n).2 := by
  refine untouched_withDescription ?_
  intro k d hd
  dsimp only
  split
  · exact .of_eq rfl
  split
  · exact .of_eq rfl
  · exact .of_eq rfl
  · split
    · exact .of_eq rfl
    split
    · exact .of_eq rfl
    · exact .of_eq rfl
  · rename_i hpipe
    split
    · exact .of_eq rfl
    split
    · exact .of_eq rfl
    refine .of_eq (setNode_of_ne ?_)
    rintro rfl
    rw [SfNamespace.node, hi] at hpipe
    cases hpipe
  · split
    · exact .of_eq rfl
    · exact .of_eq rfl

theorem untouched_create (hi : (n.nodes i).type = some .disk) (p : Path) (type : Nat) (ro : Bool) :
    Untouched i n (sfNsCreate p type ro n).2 := by
  rcases sfNsCreate_cases p type ro n with ⟨e, he⟩ | ⟨j, t, hok, hnew⟩
  · rw [he]
    exact .of_eq rfl
  rw [hnew]
  refine .of_eq (setNode_of_ne ?_)
  rintro rfl
  rw [(createCheck_ok hok).1] at hi
  cases hi

theorem untouched_remove (hi : (n.nodes i).type = some .disk) (directory : Nat) (relative : Path) {kind : NodeType}
    (hkind : kind ≠ .disk) : Untouched i n (removeNode owner directory relative kind n).2 := by
  unfold removeNode checked
  split
  · exact .of_eq rfl
  rename_i j hok
  obtain ⟨k, d, path, -, -, -, -, -, -, htype, -⟩ := removeCheck_ok hok
  refine .of_eq (setNode_of_ne ?_)
  rintro rfl
  rw [hi] at htype
  exact hkind (Option.some.inj htype).symm

/-- **A request touches a disk node only where it writes or truncates it.** -/
theorem untouched_run (hn : Good n) (hi : (n.nodes i).type = some .disk) (b : Backend) (r : Request)
    (hmounted : ∀ tag, r ≠ .nsUnmount tag) (hr : ∀ d, r.Changes n d → i ≠ (n.descriptions d).node) :
    Untouched i n (r.run b n) := by
  cases r with
  | nsCreate p type ro => exact untouched_create hi p type ro
  | nsOpen owner base path mode => exact untouched_opening (sfNsOpen_opening b owner base path mode n)
  | nsOpenat owner directory relative mode => exact untouched_openat b owner directory relative mode
  | nsDup owner h => exact untouched_dup owner h
  | nsClose owner h => exact untouched_close hn owner h
  | nsRead owner h bytes => exact untouched_read hi b bytes
  | nsWrite owner h data => exact untouched_onHandle (fun _ _ hd => sfNsWrite_outcome hd b data) fun k d hd => hr d ⟨k, hd⟩
  | nsSeek owner h offset =>
    refine untouched_withDescription ?_
    intro k d _
    dsimp only
    split
    · exact .of_eq rfl
    split
    · exact .of_eq rfl
    · exact .of_eq rfl
  | nsTruncate owner h bytes =>
    exact untouched_onHandle (fun _ _ hd => sfNsTruncate_outcome hd b bytes) fun k d hd => hr d ⟨k, hd⟩
  | nsUnlink owner directory relative => exact untouched_remove hi directory relative nofun
  | nsRmdir owner directory relative => exact untouched_remove hi directory relative nofun
  | nsReap owner => exact untouched_reap hn owner
  | nsUnmount tag => exact absurd rfl (hmounted tag)

end Node

/-! ## Every state -/

/-- **The invariant**: the notes are there, and their two lengths agree while the volume is ready. -/
structure Mirrors (sys : NotesSystem) : Prop where
  good : Good sys.ns
  notes : ∃ i, IsNotes (sys.ns.nodes i) ∧
    (sys.store.volume.ready = true → (sys.ns.nodes i).size = (notesContent sys.store).length)

section Runs

variable {sys sys' : NotesSystem} {owner h : Nat} {d : DescId}

theorem Mirrors.node (hs : Mirrors sys) {i : NodeId} (hi : (sys.ns.nodes i).path = notesPath) : IsNotes (sys.ns.nodes i) ∧
    (sys.store.volume.ready = true → (sys.ns.nodes i).size = (notesContent sys.store).length) := by
  obtain ⟨j, hj, hsize⟩ := hs.notes
  have hname : name sys.ns j = some notesPath := name_eq_some.2 ⟨by rw [hj.type]; exact nofun, hj.path⟩
  rw [hs.good.toSound.path_unique hname (by decide) hi]
  exact ⟨hj, hsize⟩

theorem request_ns (sys : NotesSystem) (b : Backend) (io : Persist.Io) (r : Request) :
    (sys.request b io r).ns = r.run (notesBackend b sys.store io) sys.ns := by
  cases r with
  | nsReap owner => simp only [NotesSystem.request]
  | _ => rfl

theorem IsNotes.untouched {n n' : SfNamespace} {i : NodeId} (hi : IsNotes (n.nodes i)) (hu : Untouched i n n') :
    IsNotes (n'.nodes i) ∧ (n'.nodes i).size = (n.nodes i).size := by
  obtain ⟨w, hw⟩ := hu
  rw [hw]
  exact ⟨⟨hi.path, hi.type, hi.external, hi.tagged⟩, rfl⟩

/-- Where the notes and their node stay, so does the invariant. -/
theorem Mirrors.kept (hs : Mirrors sys) (hgood : Good sys'.ns)
    (hu : ∀ i, IsNotes (sys.ns.nodes i) → Untouched i sys.ns sys'.ns)
    (hkept : NotesKept sys.store sys'.store) : Mirrors sys' := by
  obtain ⟨i, hi, hsize⟩ := hs.notes
  obtain ⟨hi', hsame⟩ := hi.untouched (hu i hi)
  refine ⟨hgood, i, hi', ?_⟩
  intro hready
  rw [hsame, hkept.content]
  exact hsize (hkept.ready hready)

theorem isNotes_setContent {n : SfNamespace} {i : NodeId} (hi : IsNotes (n.nodes i)) (size head : Nat) (data : Mem) :
    IsNotes ((n.setContent i size head data).nodes i) ∧ ((n.setContent i size head data).nodes i).size = size := by
  unfold SfNamespace.setContent
  rw [setNode_self]
  exact ⟨⟨hi.path, hi.type, hi.external, hi.tagged⟩, rfl⟩

theorem Mirrors.write (hs : Mirrors sys) {k : SlotId} (hd : description sys.ns owner h = some (k, d))
    (hx : (sys.ns.node d).path = notesPath) (b : Backend) (io : Persist.Io) (data : List UInt8)
    (hgood : Good (sys.write b io owner h data).2.ns) : Mirrors (sys.write b io owner h data).2 := by
  obtain ⟨hnotes, hsize⟩ := hs.node hx
  have hsame : ∀ e : Except Int Nat, sfNsWrite (notesBackend b sys.store io) owner h data sys.ns = (e, sys.ns) →
      NotesKept sys.store (sys.written io owner h data) → Mirrors (sys.write b io owner h data).2 := by
    intro e he hkept
    refine hs.kept hgood ?_ hkept
    intro i _
    exact .of_eq (congrArg (fun r : Except Int Nat × SfNamespace => r.2.nodes i) he)
  rcases sfNsWrite_disk hd hnotes (notesBackend b sys.store io) data with ⟨hrefused, hcall⟩ | ⟨hne, hdisk, hcall⟩
  · have hstore : sys.written io owner h data = sys.store := by rw [NotesSystem.written, hcall]
    rcases hrefused with ⟨e, he⟩ | ⟨-, hzero⟩
    · exact hsame _ he (hstore ▸ .refl _)
    · exact hsame _ hzero (hstore ▸ .refl _)
  · have hstore : sys.written io owner h data = (Persist.notesWrite sys.store io (sys.plain.cursor d) data).2 := by
      rw [NotesSystem.written, hcall]
    rcases notesWrite_cases sys.store io (sys.plain.cursor d) data with ⟨⟨e, he⟩, hkept⟩ | ⟨hok, hready, hcap, hcontent⟩
    · exact hsame _ (hdisk.trans (writeDisk_error hnotes he)) (hstore ▸ hkept)
    have hns : (sys.write b io owner h data).2.ns = wroteNotes sys.ns d (sys.plain.cursor d) data.length :=
      congrArg Prod.snd (hdisk.trans (writeDisk_ok hnotes hok hcap))
    obtain ⟨hi, hsize'⟩ := isNotes_setContent (n := sys.ns.setOffset d (sys.plain.cursor d + data.length)) hnotes
      (max (sys.ns.node d).size (sys.plain.cursor d + data.length)) (sys.ns.node d).head (sys.ns.node d).data
    refine ⟨hgood, (sys.ns.descriptions d).node, by rw [hns]; exact hi, fun _ => ?_⟩
    change _ = (notesContent (sys.written io owner h data)).length
    rw [hns, hstore, hcontent, length_spliced]
    exact hsize'.trans (congrArg (max · _) (hsize hready))

theorem Mirrors.truncate (hs : Mirrors sys) {k : SlotId} (hd : description sys.ns owner h = some (k, d))
    (hx : (sys.ns.node d).path = notesPath) (b : Backend) (io : Persist.Io) (bytes : Nat)
    (hgood : Good (sys.truncate b io owner h bytes).2.ns) : Mirrors (sys.truncate b io owner h bytes).2 := by
  obtain ⟨hnotes, hsize⟩ := hs.node hx
  have hsame : ∀ e : Except Int Unit, sfNsTruncate (notesBackend b sys.store io) owner h bytes sys.ns = (e, sys.ns) →
      NotesKept sys.store (sys.truncated io owner h bytes) → Mirrors (sys.truncate b io owner h bytes).2 := by
    intro e he hkept
    refine hs.kept hgood ?_ hkept
    intro i _
    exact .of_eq (congrArg (fun r : Except Int Unit × SfNamespace => r.2.nodes i) he)
  rcases sfNsTruncate_disk hd hnotes (notesBackend b sys.store io) bytes with ⟨⟨e, he⟩, hcall⟩ | ⟨hdisk, hcall⟩
  · refine hsame _ he ?_
    rw [NotesSystem.truncated, hcall]
    exact .refl _
  · have hstore : sys.truncated io owner h bytes = (Persist.notesTruncate sys.store io bytes).2 := if_pos hcall
    rcases notesTruncate_cases sys.store io bytes with ⟨⟨e, he⟩, hkept⟩ | ⟨hok, -, hcap, hcontent⟩
    · refine hsame (.error e.code) ?_ (hstore ▸ hkept)
      rw [hdisk, truncateExternal_error hnotes he]
    have hns : (sys.truncate b io owner h bytes).2.ns =
        sys.ns.setContent (sys.ns.descriptions d).node bytes (sys.ns.node d).head (sys.ns.node d).data := by
      change (sfNsTruncate (notesBackend b sys.store io) owner h bytes sys.ns).2 = _
      rw [hdisk, truncateExternal_ok hnotes hok]
    obtain ⟨hi, hsize'⟩ := isNotes_setContent (n := sys.ns) hnotes bytes (sys.ns.node d).head (sys.ns.node d).data
    refine ⟨hgood, (sys.ns.descriptions d).node, by rw [hns]; exact hi, fun _ => ?_⟩
    change _ = (notesContent (sys.truncated io owner h bytes)).length
    rw [hns, hstore, hcontent, hsize', List.length_append, List.length_take, List.length_replicate]
    omega

/-- A request that changes nothing in the volume. -/
theorem request_store (sys : NotesSystem) (b : Backend) (io : Persist.Io) (r : Request) (hr : ∀ d, ¬ r.Changes sys.ns d) :
    (sys.request b io r).store = sys.store := by
  cases r with
  | nsWrite owner h data =>
    have hnone : description sys.ns owner h = none :=
      Option.eq_none_iff_forall_ne_some.2 fun kd hd => hr kd.2 ⟨kd.1, hd⟩
    change sys.written io owner h data = _
    rw [NotesSystem.written, writeCall, hnone]
  | nsTruncate owner h bytes =>
    have hnone : description sys.ns owner h = none :=
      Option.eq_none_iff_forall_ne_some.2 fun kd hd => hr kd.2 ⟨kd.1, hd⟩
    change sys.truncated io owner h bytes = _
    rw [NotesSystem.truncated, truncateCall, hnone]
    rfl
  | nsReap owner => simp only [NotesSystem.request]
  | _ => rfl

/-- Nothing but a write or a truncate of a disk node gets to a callback that commits. -/
theorem request_store_of_not_disk (sys : NotesSystem) (b : Backend) (io : Persist.Io) {r : Request} (hr : r.Changes sys.ns d)
    (hd : (sys.ns.node d).type ≠ some .disk) : (sys.request b io r).store = sys.store := by
  cases r with
  | nsWrite owner h data =>
    obtain ⟨k, hk⟩ := hr
    change sys.written io owner h data = _
    simp [NotesSystem.written, writeCall, hk, hd]
  | nsTruncate owner h bytes =>
    obtain ⟨k, hk⟩ := hr
    change sys.truncated io owner h bytes = _
    simp [NotesSystem.truncated, truncateCall, hk, hd]
  | _ => exact hr.elim

theorem Mirrors.request (hs : Mirrors sys) (b : Backend) (io : Persist.Io) {r : Request}
    (hmounted : ∀ tag, r ≠ .nsUnmount tag)
    (hapart : ∀ d, r.Changes sys.ns d → (sys.ns.node d).type = some .disk → (sys.ns.node d).path = notesPath) :
    Mirrors (sys.request b io r) := by
  have hgood : Good (sys.request b io r).ns := by
    rw [request_ns]
    exact (run_effects hs.good _ r).good hs.good
  by_cases hnotes : ∃ d, r.Changes sys.ns d ∧ (sys.ns.node d).path = notesPath
  · obtain ⟨d, hr, hx⟩ := hnotes
    cases r with
    | nsWrite owner h data =>
      obtain ⟨k, hd⟩ := hr
      exact hs.write hd hx b io data hgood
    | nsTruncate owner h bytes =>
      obtain ⟨k, hd⟩ := hr
      exact hs.truncate hd hx b io bytes hgood
    | _ => exact hr.elim
  · have hstore : (sys.request b io r).store = sys.store := by
      by_cases hr : ∃ d, r.Changes sys.ns d
      · obtain ⟨d, hr⟩ := hr
        exact request_store_of_not_disk sys b io hr fun hdisk => hnotes ⟨d, hr, hapart d hr hdisk⟩
      · exact request_store sys b io r fun d hd => hr ⟨d, hd⟩
    refine hs.kept hgood ?_ (hstore ▸ .refl _)
    intro i hi
    rw [request_ns]
    refine untouched_run hs.good hi.type _ r hmounted ?_
    rintro d hr rfl
    exact hnotes ⟨d, hr, hi.path⟩

theorem NotesStep.mirrors (hs : Mirrors sys) (hstep : NotesStep sys sys') : Mirrors sys' := by
  cases hstep with
  | request b io r mounted apart => exact hs.request b io mounted apart
  | commit io batch other =>
    refine hs.kept hs.good (fun i _ => .of_eq rfl) ?_
    rcases commit_files sys.store io batch with ⟨-, hfiles, hready⟩ | ⟨-, hready, hupd⟩
    · exact ⟨congrArg (fun f : Txn.FileTable => (f.get? _).getD []) hfiles, hready⟩
    refine ⟨?_, fun _ => hready⟩
    have hnone : batch.lookup Persist.notesUser = none :=
      List.lookup_eq_none_iff.2 fun x hx => by simpa using (other x hx).symm
    change ((Persist.commit sys.store io batch).2.volume.files.get? _).getD [] = _
    rw [hupd, hnone]
    rfl
  | transfer pid held fresh =>
    exact hs.kept (hs.good.transfer pid (description_some held).1 fresh) (fun i _ => .of_eq rfl) (.refl _)

theorem NotesMounted.mirrors (h : NotesMounted sys) : Mirrors sys := by
  obtain ⟨s, hs, hhooks, hmount⟩ := h
  have hfit := (reachable_fit hs)
  unfold sfPersistMount at hmount
  split at hmount
  · cases hmount
  obtain ⟨hgood, -, hnode⟩ := hfit.good.persistNodes hhooks (notesContent sys.store).length
  obtain ⟨hr, hns⟩ := Prod.mk.inj hmount
  have hns' : (persistNodes (notesContent sys.store).length s.ns).2 = sys.ns := congrArg Service.ns hns
  obtain ⟨j, hj⟩ := hnode hr
  rw [hns'] at hgood hj
  refine ⟨hgood, j, ?_, ?_⟩
  · rw [hj]
    exact ⟨rfl, rfl, rfl, nofun⟩
  intro _
  rw [hj]
  rfl

theorem mirrors_run {sys₀ : NotesSystem} (h : NotesMounted sys₀) (hrun : Relation.ReflTransGen NotesStep sys₀ sys) :
    Mirrors sys := by
  induction hrun with
  | refl => exact h.mirrors
  | tail _ hstep ih => exact hstep.mirrors ih

end Runs

/-! ## The refinement -/

/-- The calls on the notes are those on the plain file, and their two lengths agree. A truncate to the length they
have commits nothing, so that how a commit would end makes no difference. -/
structure RefinesPlain (b : Backend) (sys : NotesSystem) : Prop where
  size : ∀ i, name sys.ns i = some notesPath → (sys.ns.nodes i).size = sys.plain.content.length
  read : ∀ io owner h d bytes, sys.OnNotes owner h d →
    Answers sys (sys.read b io owner h bytes) (some (sys.plain.read d bytes))
  pread : ∀ io owner h d bytes offset, sys.OnNotes owner h d →
    Answers sys (sys.pread b io owner h bytes offset) (some (sys.plain.bytesAt offset bytes, sys.plain))
  write : ∀ io owner h d data, sys.OnNotes owner h d → Answers sys (sys.write b io owner h data) (sys.plain.write d data)
  seek : ∀ owner h d offset, sys.OnNotes owner h d → Answers sys (sys.seek owner h offset) (sys.plain.seek d offset)
  truncate : ∀ io owner h d bytes, sys.OnNotes owner h d →
    Answers sys (sys.truncate b io owner h bytes) (sys.plain.truncate bytes)
  sameLength : ∀ io owner h d, sys.OnNotes owner h d →
    (sys.truncate b io owner h sys.plain.content.length).2.store = sys.store

theorem truncated_same {sys : NotesSystem} (hready : sys.store.volume.ready = true) (io : Persist.Io) (owner h : Nat) :
    sys.truncated io owner h (notesContent sys.store).length = sys.store := by
  unfold NotesSystem.truncated
  split
  · by_cases hgranted : io.writable = true ∧ io.refused = none
    · rw [notesTruncate_granted ⟨hgranted.1, hready⟩ hgranted.2 (length_notesContent _), if_pos rfl]
    · unfold Persist.notesTruncate
      split
      · rfl
      rename_i hgone
      simp only [not_or, Bool.not_eq_false] at hgone
      split
      · rfl
      · rename_i hrefused
        exact absurd ⟨hgone.1, hrefused⟩ hgranted
  · rfl

/-- **The notes refine a plain file**, in every state of every run in which the volume is ready. -/
theorem notes_refine {sys₀ sys : NotesSystem} (hmount : NotesMounted sys₀) (hrun : Relation.ReflTransGen NotesStep sys₀ sys)
    (hready : sys.store.volume.ready = true) (b : Backend) : RefinesPlain b sys := by
  have hs := mirrors_run hmount hrun
  refine ⟨?_, ?_, ?_, ?_, ?_, ?_, ?_⟩
  · intro i hi
    exact (hs.node (name_eq_some.1 hi).2).2 hready
  · rintro io owner h d bytes ⟨k, hd, hx⟩
    exact answers_read hd (hs.node hx).1 hready b io bytes
  · rintro io owner h d bytes offset ⟨k, hd, hx⟩
    exact answers_pread hd (hs.node hx).1 hready b io bytes offset
  · rintro io owner h d data ⟨k, hd, hx⟩
    exact answers_write hd (hs.node hx).1 b io data
  · rintro owner h d offset ⟨k, hd, hx⟩
    exact answers_seek hd (hs.node hx).1 ((hs.node hx).2 hready) offset
  · rintro io owner h d bytes ⟨k, hd, hx⟩
    exact answers_truncate hd (hs.node hx).1 b io bytes
  · intro io owner h d _
    exact truncated_same hready io owner h

/-- A disk without files is mounted, and then an empty volume. -/
def notesService : Service := (sfStorageMount ⟨true, .ok []⟩ ⟨{ sfNsInit with mountHooks := true }, false⟩).2

def notesStart : NotesSystem :=
  ⟨(sfPersistMount (.ok 0) notesService).2.ns, ⟨1, .empty⟩, ⟨true, 1, false, [], .empty⟩, Trust.sfTrustInit []⟩

def notesOpened : NotesSystem := notesStart.request bareBackend ⟨true, none, .done⟩ (.nsOpen 1 rootPath notesPath 3)

def notesWritten : NotesSystem := notesOpened.request bareBackend ⟨true, none, .done⟩ (.nsWrite 1 257 [104, 105])

theorem sfPersistMount_rest (volume : Except Int Nat) (s : Service) :
    (sfPersistMount volume s).2 = { s with ns := (sfPersistMount volume s).2.ns } := by
  unfold sfPersistMount
  split
  · rfl
  · split <;> rfl

theorem notes_mounted : NotesMounted notesStart := by
  refine ⟨notesService, ?_, by decide +kernel, ?_⟩
  · exact (Relation.ReflTransGen.refl.tail .storageInit).tail (.mount rfl (.storage ⟨true, .ok []⟩))
  · have hok : (sfPersistMount (.ok 0) notesService).1 = .ok () := by decide +kernel
    exact Prod.ext hok (sfPersistMount_rest (.ok 0) notesService)

theorem notes_run : Relation.ReflTransGen NotesStep notesStart notesWritten := by
  refine (Relation.ReflTransGen.refl.tail (.request _ _ _ nofun nofun)).tail (.request _ _ _ nofun ?_)
  rintro d ⟨k, hd⟩ -
  have hopened : description notesOpened.ns 1 257 = some (0, 0) := by decide +kernel
  have hpath : (notesOpened.ns.node 0).path = notesPath := by decide +kernel
  obtain ⟨-, rfl⟩ := Prod.mk.inj (Option.some.inj (hopened.symm.trans hd))
  exact hpath

theorem notes_refine_written : notesWritten.plain.content = [104, 105] ∧ RefinesPlain bareBackend notesWritten :=
  ⟨by decide +kernel, notes_refine notes_mounted notes_run (by decide +kernel) bareBackend⟩

end SpiritFox.Ns
