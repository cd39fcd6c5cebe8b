import SpiritFox.Lib.Checks
import SpiritFox.Persist.Store
import SpiritFox.Trust
import SpiritFox.Update
import SpiritFox.Version

/-!
# The persistence service

`services/persistence.c` over the atomic store: mounting, installing and trying an update, revoking a signing key, and the
notes file. The state is what the device reads, the volume in memory and the runtime trust. Everything the rest of the system
decides is an argument of an operation: whether the storage is writable, what a load returns, whether the dirty lease is
granted, and how a commit ends on the device.

An operation makes at most one commit, so a restart inside it is a commit that ends uncertain followed by `restart`.
-/

namespace SpiritFox.Persist

open Txn Trust Update Version

/-- `"/boot/current"` -/
def bootCurrent : List UInt8 := [47, 98, 111, 111, 116, 47, 99, 117, 114, 114, 101, 110, 116]

/-- `"/boot/revoked"` -/
def bootRevoked : List UInt8 := [47, 98, 111, 111, 116, 47, 114, 101, 118, 111, 107, 101, 100]

/-- `"/notes/user"` -/
def notesUser : List UInt8 := [47, 110, 111, 116, 101, 115, 47, 117, 115, 101, 114]

/-- `slot_path`: `"/slots/a.sfk"` for `'a'`, else `"/slots/b.sfk"` -/
def slotPath : Option Slot → List UInt8
  | some .a => [47, 115, 108, 111, 116, 115, 47, 97, 46, 115, 102, 107]
  | _ => [47, 115, 108, 111, 116, 115, 47, 98, 46, 115, 102, 107]

/-- `"runtime_id"`, `"app_id"`, `"version"` and `"org.spiritfox.native"` -/
def runtimeKey : List UInt8 := [114, 117, 110, 116, 105, 109, 101, 95, 105, 100]
def appKey : List UInt8 := [97, 112, 112, 95, 105, 100]
def versionKey : List UInt8 := [118, 101, 114, 115, 105, 111, 110]
def nativeRuntime : List UInt8 :=
  [111, 114, 103, 46, 115, 112, 105, 114, 105, 116, 102, 111, 120, 46, 110, 97, 116, 105, 118, 101]

/-- A buffer read as a C string. -/
def cstring (text : List UInt8) : List UInt8 := text.takeWhile (· != 0)

/-- What the device reads, the static `volume` and the global `sf_trust`. -/
structure State where
  disk : Snapshot
  volume : SfTxn
  trust : SfRuntimeTrust

/-- What the storage service answers during one operation. -/
structure Io where
  /-- `sf_storage_writable` -/
  writable : Bool
  /-- The error of `sf_storage_transaction(1)`, if it refuses. -/
  refused : Option SfError
  outcome : CommitOutcome

section Service

variable (sha256 : List UInt8 → Digest) (code : PackageCode) (store : SfTrustStore)

/-- The static `commit`. -/
def commit (s : State) (io : Io) (batch : List (List UInt8 × List UInt8)) : Except SfError Unit × State :=
  match io.refused with
  | some e => (.error e, s)
  | none =>
    let r := atomicCommit s.disk s.volume batch io.outcome
    (r.1, { s with disk := r.2.2, volume := r.2.1 })

/-! ## Reading packages and the record -/

/-- The manifest names the native runtime. -/
def nativeRuntimeOk (p : SfPackage) : Bool :=
  match code.manifestText p runtimeKey 64 with
  | .error _ => false
  | .ok runtime => cstring runtime == nativeRuntime

/-- `package_policy`: the application id and version of an acceptable package. -/
def packagePolicy (trust : SfRuntimeTrust) (data : List UInt8) (enforce : Bool) :
    Except SfError (List UInt8 × SfVersion) := do
  let p ← sfPackageOpenTrusted sha256 code store data
  if enforce ∧ sfTrustRevoked trust p.keyId then throw .revoked
  else if p.kind ≠ 2 ∨ nativeRuntimeOk code p = false then throw .dependency
  else
    let id ← code.manifestText p appKey 64
    let text ← code.manifestText p versionKey 33
    let version ← sfVersionParse (cstring text)
    pure (cstring id, version)

/-- `confirmed_version` -/
def confirmedVersion (s : State) (state : SfUpdate) : Except SfError SfVersion := do
  let data ← sfTxnGet s.volume (slotPath state.good) sfTxnFileBytes
  if sha256 data ≠ state.goodHash then throw .badSignature
  else
    let (id, version) ← packagePolicy sha256 code store s.trust data false
    if id ≠ state.appId then throw .dependency else pure version

/-- The import of the original one-byte selector. -/
def importSelector (s : State) (slot : Slot) : Except SfError SfUpdate := do
  let data ← sfTxnGet s.volume (slotPath (some slot)) sfTxnFileBytes
  let (id, _) ← packagePolicy sha256 code store s.trust data false
  let state := { SfUpdate.zero with good := some slot, appId := id, goodHash := sha256 data }
  let _ ← sfUpdateEncode state
  pure state

/-- `state_read` -/
def stateRead (s : State) : Except SfError SfUpdate :=
  match sfTxnGet s.volume bootCurrent 160 with
  | .error .notFound => .ok SfUpdate.zero
  | .error e => .error e
  | .ok [97] => importSelector sha256 code store s .a
  | .ok [98] => importSelector sha256 code store s .b
  | .ok bytes => sfUpdateDecode bytes

/-- `state_commit` -/
def stateCommit (s : State) (io : Io) (state : SfUpdate) : Except SfError Unit × State :=
  match sfUpdateEncode state with
  | .error e => (.error e, s)
  | .ok encoded => commit s io [(bootCurrent, encoded)]

/-! ## Installing and trying an update -/

/-- The version floor, if a package is confirmed. -/
def installFloor (s : State) (state : SfUpdate) : Except SfError (Option SfVersion) :=
  if state.good = none then .ok none else (confirmedVersion sha256 code store s state).map some

/-- The package against the confirmed one: 0 goes on, 1 is the exact package again. -/
def installUpgrade (floor : Option SfVersion) (state : SfUpdate) (id : List UInt8) (version : SfVersion) (hash : Digest) :
    Except SfError Nat :=
  match floor with
  | none => .ok 0
  | some floor => if state.appId ≠ id then throw .dependency else sfVersionUpgrade floor state.goodHash version hash

/-- `sf_persist_install` up to its commit: `none` is the exact confirmed package again. -/
def installPlan (s : State) (io : Io) (load : Except SfError (List UInt8)) :
    Except SfError (Option (List (List UInt8 × List UInt8))) := do
  if io.writable = false ∨ s.volume.ready = false then throw .deviceGone
  else
    let state ← stateRead sha256 code store s
    if state.phase ≠ .stable then throw .busy
    else
      let floor ← installFloor sha256 code store s state
      let data ← load
      let (id, version) ← packagePolicy sha256 code store s.trust data true
      let upgrade ← installUpgrade floor state id version (sha256 data)
      if upgrade ≠ 0 then pure none
      else
        let state ← sfUpdateStage state id (sha256 data)
        let encoded ← sfUpdateEncode state
        pure (some [(slotPath state.candidate, data), (bootCurrent, encoded)])

/-- `sf_persist_install` -/
def sfPersistInstall (s : State) (io : Io) (load : Except SfError (List UInt8)) : Except SfError Nat × State :=
  match installPlan sha256 code store s io load with
  | .error e => (.error e, s)
  | .ok none => (.ok 1, s)
  | .ok (some batch) =>
    let r := commit s io batch
    (r.1.map fun _ => 0, r.2)

/-- `sf_persist_begin` up to its commit: `none` is a confirmed package without a candidate. -/
def beginPlan (s : State) (io : Io) : Except SfError (Option SfUpdate) := do
  if io.writable = false then throw .deviceGone
  else
    let state ← stateRead sha256 code store s
    if state.phase = .stable then if state.good = none then throw .notFound else pure none
    else some <$> sfUpdateBegin state

/-- `sf_persist_begin` -/
def sfPersistBegin (s : State) (io : Io) : Except SfError Nat × State :=
  match beginPlan sha256 code store s io with
  | .error e => (.error e, s)
  | .ok none => (.ok 0, s)
  | .ok (some state) =>
    let r := stateCommit s io state
    (r.1.map fun _ => 1, r.2)

def finishPlan (s : State) (io : Io) (success : Bool) : Except SfError SfUpdate := do
  if io.writable = false then throw .deviceGone
  else
    let state ← stateRead sha256 code store s
    sfUpdateFinish state success

/-- `sf_persist_finish` -/
def sfPersistFinish (s : State) (io : Io) (success : Bool) : Except SfError Nat × State :=
  match finishPlan sha256 code store s io success with
  | .error e => (.error e, s)
  | .ok state =>
    let r := stateCommit s io state
    (r.1.map fun _ => 0, r.2)

/-! ## Revoking a key -/

/-- A file read with "not found" as the empty file. -/
def getOrEmpty (t : SfTxn) (path : List UInt8) (capacity : Nat) : Except SfError (List UInt8) :=
  match sfTxnGet t path capacity with
  | .error .notFound => .ok []
  | r => r

/-- `sf_persist_revoke` up to its commit, with the trust it has changed by then: `none` is "already revoked". -/
def revokePlan (s : State) (io : Io) (load : Except SfError (List UInt8)) :
    Except SfError (Option (SfRuntimeTrust × List UInt8)) := do
  if io.writable = false ∨ s.volume.ready = false then throw .deviceGone
  else
    let data ← load
    match sfTrustOpen sha256 code s.trust data with
    | .error .revoked => pure none
    | .error e => throw e
    | .ok p =>
      if sfTrustRevoked s.trust p.keyId then pure none
      else
        let old ← getOrEmpty s.volume bootRevoked (sfTrustMax * 32)
        if old.length % 32 ≠ 0 ∨ sfTrustMax * 32 < old.length + 32 then throw .badFormat
        else match sfTrustRevoke s.trust p.keyId with
          | .error _ => throw .noSpace
          | .ok trust => pure (some (trust, old ++ p.keyId))

/-- `sf_persist_revoke` -/
def sfPersistRevoke (s : State) (io : Io) (load : Except SfError (List UInt8)) : Except SfError Nat × State :=
  match revokePlan sha256 code s io load with
  | .error e => (.error e, s)
  | .ok none => (.ok 1, s)
  | .ok (some (trust, list)) =>
    -- the overlay is changed before the commit, and stays changed when it fails
    let r := commit { s with trust := trust } io [(bootRevoked, list)]
    (r.1.map fun _ => 0, r.2)

/-! ## Mounting -/

/-- The 32-byte entries of a revocation list. -/
def keyIds (bytes : List UInt8) : List KeyId := (List.range (bytes.length / 32)).map fun i => (bytes.drop (i * 32)).take 32

/-- The loop of `sf_persist_mount` over the persisted revocations. -/
def revokeAll : SfRuntimeTrust → List KeyId → Except SfError Unit × SfRuntimeTrust
  | trust, [] => (.ok (), trust)
  | trust, k :: ks =>
    match sfTrustRevoke trust k with
    | .error _ => (.error .noSpace, trust)
    | .ok trust => revokeAll trust ks

def loadRevocations (s : State) : Except SfError Unit × SfRuntimeTrust :=
  match getOrEmpty s.volume bootRevoked sfTxnFileBytes with
  | .error e => (.error e, s.trust)
  | .ok bytes => if bytes.length % 32 ≠ 0 then (.error .badFormat, s.trust) else revokeAll s.trust (keyIds bytes)

/-- What a mount is told besides: the results of reading the medium, of the write range and of the namespace nodes. -/
structure MountIo extends Io where
  readError : Option SfError
  rangeError : Option SfError
  namespaceError : Option SfError

/-- A mount that returns an error leaves the volume unpublished. -/
def unready (s : State) : State := { s with volume := { s.volume with ready := false } }

/-- The end of `sf_persist_mount`: the notes are readable and the nodes are made. -/
def publish (s : State) (io : MountIo) : Except SfError Nat × State :=
  match getOrEmpty s.volume notesUser sfTxnFileBytes with
  | .error e => (.error e, unready s)
  | .ok _ => match io.namespaceError with
    | some e => (.error e, unready s)
    | none => (.ok 0, s)

/-- The trial an interrupted run left is rolled back before anything is published. -/
def recover (s : State) (io : MountIo) : Except SfError Nat × State :=
  match stateRead sha256 code store s with
  | .error e => (.error e, unready s)
  | .ok state =>
    if state.phase = .trying then
      let state := match sfUpdateFinish state false with
        | .ok state => state
        | .error _ => state
      let r := stateCommit s io.toIo state
      match r.1 with
      | .error e => (.error e, unready r.2)
      | .ok _ => publish r.2 io
    else publish s io

/-- `sf_txn_mount` on the atomic store. -/
def loadVolume (s : State) : State :=
  { s with volume := { s.volume with ready := true, generation := s.disk.generation, files := s.disk.files } }

/-- `sf_persist_mount` -/
def sfPersistMount (s : State) (io : MountIo) : Except SfError Nat × State :=
  if io.writable = false then (.error .readOnly, unready s)
  else match io.readError with
    | some e => (.error e, unready s)
    | none => match io.rangeError with
      | some e => (.error e, unready (loadVolume s))
      | none =>
        let r := loadRevocations (loadVolume s)
        let s := { loadVolume s with trust := r.2 }
        match r.1 with
        | .error e => (.error e, unready s)
        | .ok _ => recover sha256 code store s io

/-! ## The notes file -/

/-- The notes after `bytes` are written at `offset`. -/
def writtenNotes (old : List UInt8) (offset : Nat) (bytes : List UInt8) : List UInt8 :=
  (old ++ List.replicate (offset - old.length) 0).take offset ++ bytes ++ old.drop (offset + bytes.length)

/-- `notes_write` on the notes node. -/
def notesWrite (s : State) (io : Io) (offset : Nat) (bytes : List UInt8) : Except SfError Nat × State :=
  if io.writable = false then (.error .deviceGone, s)
  else if sfTxnFileBytes < offset ∨ sfTxnFileBytes - offset < bytes.length then (.error .noSpace, s)
  else match getOrEmpty s.volume notesUser sfTxnFileBytes with
    | .error e => (.error e, s)
    | .ok old =>
      let r := commit s io [(notesUser, writtenNotes old offset bytes)]
      (r.1.map fun _ => bytes.length, r.2)

/-- `notes_truncate` on the notes node, with `sf_txn_resize`. -/
def notesTruncate (s : State) (io : Io) (bytes : Nat) : Except SfError Nat × State :=
  if io.writable = false ∨ s.volume.ready = false then (.error .deviceGone, s)
  else match io.refused with
    | some e => (.error e, s)
    | none =>
      if sfTxnFileBytes < bytes then (.error .noSpace, s)
      else
        let old := (s.volume.files.get? notesUser).getD []
        if bytes = old.length then (.ok 0, s)
        else
          let r := commit s io [(notesUser, (old ++ List.replicate (bytes - old.length) 0).take bytes)]
          (r.1.map fun _ => 0, r.2)

/-! ## Runs -/

inductive PersistOp where
  | mount (io : MountIo)
  | install (io : Io) (load : Except SfError (List UInt8))
  | begin (io : Io)
  | finish (io : Io) (success : Bool)
  | revoke (io : Io) (load : Except SfError (List UInt8))
  | notesWrite (io : Io) (offset : Nat) (bytes : List UInt8)
  | notesTruncate (io : Io) (bytes : Nat)
  | restart

/-- A restart keeps only what the device has. -/
def restart (s : State) : State := { unready s with trust := sfTrustInit store }

def step (s : State) : PersistOp → Except SfError Nat × State
  | .mount io => sfPersistMount sha256 code store s io
  | .install io load => sfPersistInstall sha256 code store s io load
  | .begin io => sfPersistBegin sha256 code store s io
  | .finish io success => sfPersistFinish sha256 code store s io success
  | .revoke io load => sfPersistRevoke sha256 code s io load
  | .notesWrite io offset bytes => Persist.notesWrite s io offset bytes
  | .notesTruncate io bytes => Persist.notesTruncate s io bytes
  | .restart => (.ok 0, restart store s)

/-- An empty volume, before anything is mounted. -/
def start : State := ⟨⟨1, FileTable.empty⟩, ⟨false, 0, false, [], FileTable.empty⟩, sfTrustInit store⟩

/-- `s'` is reached from `s` by operations that each meet `G` in the state they start from. -/
inductive Run (G : State → PersistOp → Prop) (s : State) : State → Prop
  | refl : Run G s s
  | step {s' : State} (h : Run G s s') (op : PersistOp) (hG : G s' op) : Run G s (step sha256 code store s' op).2

end Service

end SpiritFox.Persist
