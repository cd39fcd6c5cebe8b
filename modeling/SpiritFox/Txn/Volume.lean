import SpiritFox.Lib.WriteCache
import SpiritFox.Txn.Format

/-!
# Mounting and committing a transaction volume

The volume lives in fixed sectors of a device: a header, one commit record for each of the two banks, and the banks.
`sfTxnMount` selects the bank with the newest valid commit record. `sfTxnCommit` stages a batch in memory, invalidates the
record of the other bank, writes that bank, and writes its record last, with a flush after each phase.

- `snapshotAt` is what one bank says, as a function of the medium, and `mountMedia_ok_iff` is everything a mount returns;
- a mount whose reads may fail returns what a mount of the whole medium returns (`sfTxnMount_reads`);
- `stageFiles_spec`: an admissible batch is always staged, and gives the files of the volume updated with the batch.
-/

namespace SpiritFox.Txn

open ByteMem WriteCache List

abbrev Sector := Block 512

def sfTxnHeader : Nat := 2048
def sfTxnBank : Nat := 2051
def sfTxnBankSectors : Nat := 256
def sfTxnSectors : Nat := 4096

/-- `"SFTXN1\0"` with its terminator. -/
def txnMagic : List UInt8 := [83, 70, 84, 88, 78, 49, 0, 0]

/-- `"SFCMT1\0"` with its terminator. -/
def recordMagic : List UInt8 := [83, 70, 67, 77, 84, 49, 0, 0]

/-- The sector of the commit record of a bank. The banks 0 and 1 are `false` and `true`. -/
def recordLba (bank : Bool) : Nat := sfTxnHeader + 1 + bank.toNat

/-- Sector `i` of a bank. -/
def bankLba (bank : Bool) (i : Nat) : Nat := sfTxnBank + bank.toNat * sfTxnBankSectors + i

/-- The members of `SfTxn` that outlive a call; the callbacks are arguments and the buffers are local. -/
structure SfTxn where
  ready : Bool
  generation : Nat
  bank : Bool
  volume : List UInt8
  files : FileTable

section Device

variable (sha256 : List UInt8 → Digest) {t : SfTxn} {volume : List UInt8} {slot : Bool} {s : Sector}

/-! ## Seals and records -/

/-- `sealed`: the last 32 bytes are the digest of the rest. -/
def sealed (s : Sector) : Bool := slice s.mem 480 32 == (sha256 (slice s.mem 0 480)).toList

/-- `seal` on a buffer, as the sector that is written. -/
def sealSector (m : Mem) : Sector := blockAt 512 (blit m 480 (sha256 (slice m 0 480)).toList) 0

/-- The checks of `sf_txn_mount` on the header sector. -/
def headerOk (s : Sector) : Bool :=
  slice s.mem 0 8 == txnMagic && u32 s.mem 8 == 1 && u32 s.mem 12 == sfTxnSectors && isZero s.mem 32 448 && sealed sha256 s

/-- The volume id in the header. -/
def volumeId (s : Sector) : List UInt8 := slice s.mem 16 16

/-- The checks of `sf_txn_mount` on the commit record of `slot`. -/
def recordOk (volume : List UInt8) (slot : Bool) (s : Sector) : Bool :=
  slice s.mem 0 8 == recordMagic && sealed sha256 s && u64 s.mem 8 != 0 && u32 s.mem 16 == slot.toNat &&
    u32 s.mem 20 == 0 && slice s.mem 24 16 == volume && isZero s.mem 72 408

/-- The fields of a commit record before it is sealed. -/
def recordFields (volume : List UInt8) (generation : Nat) (bank : Bool) (h : Digest) : Mem :=
  blit (blit (put32 (put64 (blit zeros 0 recordMagic) 8 generation) 16 bank.toNat) 24 volume) 40 h.toList

/-- The commit record `sf_txn_commit` writes. -/
def commitRecord (volume : List UInt8) (generation : Nat) (bank : Bool) (h : Digest) : Sector :=
  sealSector sha256 (recordFields volume generation bank h)

/-- The zero sector that invalidates a record. -/
def zeroSector : Sector := fun _ => 0

/-! ## Mount -/

/-- Either of the two geometries. -/
def decodeBank (b : Mem) (generation : Nat) : Option FileTable :=
  match decode sha256 b generation sfTxnFiles sfTxnData with
  | some files => some files
  | none => decode sha256 b generation 4 1024

/-- The buffer after reading a bank sector by sector. -/
def readBank (read : Nat → Except SfError Sector) (slot : Bool) : Except SfError Mem := do
  let ss ← (List.range sfTxnBankSectors).mapM fun i => read (bankLba slot i)
  pure (join fun i => ss.getD i zeroSector)

/-- One turn of the loop of `sf_txn_mount` over the two banks. -/
def mountSlot (read : Nat → Except SfError Sector) (t : SfTxn) (slot : Bool) : Except SfError SfTxn := do
  let s ← read (recordLba slot)
  if recordOk sha256 t.volume slot s = false then pure t else
    let b ← readBank read slot
    if (sha256 (slice b 0 bufferBytes)).toList ≠ slice s.mem 40 32 then pure t else
      match decodeBank sha256 b (u64 s.mem 8) with
      | none => pure t
      | some files =>
        if u64 s.mem 8 = t.generation then throw .badFormat
        else if t.generation < u64 s.mem 8 then pure { t with generation := u64 s.mem 8, bank := slot, files := files }
        else pure t

/-- `sf_txn_mount`. When it fails the volume is left not ready, and nothing of it is read before the next mount. -/
def sfTxnMount (read : Nat → Except SfError Sector) : Except SfError SfTxn := do
  let s ← read sfTxnHeader
  if headerOk sha256 s = false then throw .badFormat else
    let t ← mountSlot sha256 read ⟨false, 0, false, volumeId s, FileTable.empty⟩ false
    let t ← mountSlot sha256 read t true
    if t.generation = 0 then throw .badFormat else pure { t with ready := true }

/-- `sf_txn_get` -/
def sfTxnGet (t : SfTxn) (path : List UInt8) (capacity : Nat) : Except SfError (List UInt8) :=
  if t.ready = false then .error .deviceGone
  else match t.files.get? path with
    | some data => if capacity < data.length then .error .noSpace else .ok data
    | none =>
      -- the empty path compares equal to the path of an unused slot
      if path = [] ∧ t.files.files.length < sfTxnFiles then .ok [] else .error .notFound

/-! ## Commit -/

/-- One file of a batch: `done` are the paths before it. -/
def stageFile (done : List (List UInt8)) (files : FileTable) (path data : List UInt8) : Except SfError FileTable :=
  if h : pathOk path = true ∧ data.length ≤ sfTxnFileBytes then
    if done.contains path then .error .invalid
    else match files.put? ⟨path, data, h.1, h.2⟩ with
      | none => .error .noSpace
      | some files => .ok files
  else .error .invalid

def stageFiles : List (List UInt8) → FileTable → List (List UInt8 × List UInt8) → Except SfError FileTable
  | _, files, [] => .ok files
  | done, files, (path, data) :: rest =>
    match stageFile done files path data with
    | .error e => .error e
    | .ok files => stageFiles (path :: done) files rest

/-- The part of `sf_txn_commit` before the device is touched. -/
def stage (t : SfTxn) (batch : List (List UInt8 × List UInt8)) : Except SfError FileTable :=
  if t.ready = false then .error .deviceGone
  else if batch.length = 0 ∨ sfTxnFiles < batch.length ∨ t.generation = 2 ^ 64 - 1 then .error .invalid
  else stageFiles [] t.files batch

/-- The sector writes of a bank. -/
def bankWrites (bank : Bool) (buffer : Mem) : List (Nat × Sector) :=
  (List.range sfTxnBankSectors).map fun i => (bankLba bank i, blockAt 512 buffer (i * 512))

/-- The 261 device operations of a commit. -/
def commitOps (t : SfTxn) (next : FileTable) : List (Op Sector) :=
  let buffer := encode sha256 (t.generation + 1) next
  let record := commitRecord sha256 t.volume (t.generation + 1) (!t.bank) (sha256 (slice buffer 0 bufferBytes))
  [(recordLba (!t.bank), zeroSector)].map (fun w => Op.write w.1 w.2) ++ ([Op.flush] ++
    ((bankWrites (!t.bank) buffer).map (fun w => Op.write w.1 w.2) ++ ([Op.flush] ++
      ([(recordLba (!t.bank), record)].map (fun w => Op.write w.1 w.2) ++ [Op.flush]))))

/-- A torn commit record fails its seal; any other sector may be torn into anything. -/
def tornOk (lba : Nat) (s : Sector) : Bool :=
  if lba = recordLba false ∨ lba = recordLba true then !sealed sha256 s else true

/-- `sf_txn_commit` -/
def sfTxnCommit (t : SfTxn) (batch : List (List UInt8 × List UInt8)) (f : Faulty Sector) :
    Except SfError Unit × SfTxn × Faulty Sector :=
  match stage t batch with
  | .error e => (.error e, t, f)
  | .ok next =>
    let r := perform (tornOk sha256) (commitOps sha256 t next) f
    if r.1 then (.ok (), { t with files := next, generation := t.generation + 1, bank := !t.bank }, r.2)
    else (.error .commitUncertain, { t with ready := false }, r.2)

/-! ## Batches that are staged -/

/-- A batch that a volume with these files can take: up to five distinct paths that fit the five slots. -/
structure Admissible (files : FileTable) (batch : List (List UInt8 × List UInt8)) : Prop where
  ne_nil : batch ≠ []
  length_le : batch.length ≤ sfTxnFiles
  path_ok : ∀ x ∈ batch, pathOk x.1 = true
  data_le : ∀ x ∈ batch, x.2.length ≤ sfTxnFileBytes
  nodup : (batch.map Prod.fst).Nodup
  fits : files.files.length + (batch.filter fun x => files.get? x.1 = none).length ≤ sfTxnFiles

/-- `files'` is `files` updated with the whole batch. -/
def Updated (files : FileTable) (batch : List (List UInt8 × List UInt8)) (files' : FileTable) : Prop :=
  ∀ p, files'.get? p = (batch.lookup p).or (files.get? p)

/-- The staging loop takes every batch whose files fit. -/
theorem stageFiles_spec : ∀ (batch : List (List UInt8 × List UInt8)) (done : List (List UInt8)) (files : FileTable),
    (∀ x ∈ batch, pathOk x.1 = true ∧ x.2.length ≤ sfTxnFileBytes) → (batch.map Prod.fst).Nodup →
    (∀ x ∈ batch, x.1 ∉ done) →
    files.files.length + (batch.filter fun x => files.get? x.1 = none).length ≤ sfTxnFiles →
    ∃ files', stageFiles done files batch = .ok files' ∧ Updated files batch files'
  | [], _, files, _, _, _, _ => ⟨files, rfl, fun p => by simp⟩
  | (path, data) :: rest, done, files, hok, hnodup, hdone, hfit => by
    obtain ⟨hpath, hrest⟩ := nodup_cons.1 hnodup
    obtain ⟨hp, hd⟩ := hok _ mem_cons_self
    have hne : ∀ x ∈ rest, x.1 ≠ path := fun x hx e => hpath (mem_map.2 ⟨x, hx, e⟩)
    have hcount : ((path, data) :: rest).filter (fun x => files.get? x.1 = none) =
        (if files.get? path = none then [(path, data)] else []) ++ rest.filter fun x => files.get? x.1 = none := by
      rw [filter_cons]
      by_cases hn : files.get? path = none <;> simp [hn]
    obtain ⟨files₁, hput, hlen⟩ := FileTable.put?_isSome (t := files) (f := ⟨path, data, hp, hd⟩) (by
      rw [hcount, length_append] at hfit
      split at hfit <;> simp_all <;> omega)
    have hget := FileTable.get?_put? hput
    -- the other paths of the batch are stored now exactly if they were before
    have hsame : (rest.filter fun x => files₁.get? x.1 = none) = rest.filter fun x => files.get? x.1 = none := by
      refine filter_congr fun x hx => ?_
      rw [hget, if_neg (hne x hx)]
    obtain ⟨files', hstage, hupd⟩ := stageFiles_spec rest (path :: done) files₁
      (fun x hx => hok x (mem_cons_of_mem _ hx)) hrest
      (fun x hx => by
        simp only [mem_cons, not_or]
        exact ⟨hne x hx, hdone x (mem_cons_of_mem _ hx)⟩)
      (by
        rw [hsame, hlen]
        rw [hcount, length_append] at hfit
        split at hfit <;> simp_all
        omega)
    refine ⟨files', ?_, fun p => ?_⟩
    · unfold stageFiles stageFile
      rw [dif_pos ⟨hp, hd⟩, if_neg (by simpa using hdone _ mem_cons_self), hput]
      exact hstage
    · rw [hupd p, hget p, lookup_cons]
      by_cases hpp : p = path
      · subst hpp
        have hnone : rest.lookup p = none := lookup_eq_none_iff.2 fun x hx => by
          simpa using Ne.symm (hne x hx)
        simp [hnone]
      · simp [hpp, beq_eq_false_iff_ne.2 hpp]

/-- Staging refuses a path it has staged before. -/
theorem stageFiles_not_mem : ∀ {batch : List (List UInt8 × List UInt8)} {done : List (List UInt8)} {files next : FileTable},
    stageFiles done files batch = .ok next → ∀ x ∈ batch, x.1 ∉ done
  | (path, data) :: rest, done, files, next, h, x, hx => by
    unfold stageFiles stageFile at h
    split at h
    · cases h
    rename_i hok
    split at hok
    · split at hok
      · cases hok
      · rename_i hnew
        rcases mem_cons.1 hx with rfl | hx
        · simpa using hnew
        · exact fun hd => stageFiles_not_mem h x hx (mem_cons_of_mem _ hd)
    · cases hok

/-- What is staged is the files updated with the whole batch. -/
theorem updated_of_stageFiles : ∀ {batch : List (List UInt8 × List UInt8)} {done : List (List UInt8)}
    {files next : FileTable}, stageFiles done files batch = .ok next → Updated files batch next
  | [], _, files, next, h, p => by cases h; simp
  | (path, data) :: rest, done, files, next, h, p => by
    unfold stageFiles at h
    split at h
    · cases h
    rename_i files₁ hok
    have hrest := updated_of_stageFiles h p
    have hnot := stageFiles_not_mem h
    unfold stageFile at hok
    split at hok
    · split at hok
      · cases hok
      · split at hok
        · cases hok
        · rename_i hput
          cases hok
          rw [hrest, FileTable.get?_put? hput, lookup_cons]
          by_cases hpp : p = path
          · subst hpp
            have hnone : rest.lookup p = none := lookup_eq_none_iff.2 fun x hx => by
              simpa using fun e : p = x.1 => hnot x hx (by simp [e])
            simp [hnone]
          · simp [hpp, beq_eq_false_iff_ne.2 hpp]
    · cases hok

/-- A batch is only staged on a mounted volume, with a generation left to give it. -/
theorem stage_ok {batch : List (List UInt8 × List UInt8)} {next : FileTable} (h : stage t batch = .ok next) :
    t.ready = true ∧ t.generation ≠ 2 ^ 64 - 1 ∧ stageFiles [] t.files batch = .ok next := by
  unfold stage at h
  split at h
  · cases h
  split at h
  · cases h
  · rename_i h₁ h₂
    exact ⟨by simpa using h₁, fun e => h₂ (Or.inr (Or.inr e)), h⟩

/-- **An admissible batch is staged**, and what is staged is the volume's files updated with the whole batch. -/
theorem stage_admissible {batch : List (List UInt8 × List UInt8)} (hready : t.ready = true)
    (hg : t.generation < 2 ^ 64 - 1) (ha : Admissible t.files batch) :
    ∃ next, stage t batch = .ok next ∧ Updated t.files batch next := by
  have hlen := ha.length_le
  have hpos : batch.length ≠ 0 := fun h => ha.ne_nil (eq_nil_of_length_eq_zero h)
  unfold stage
  rw [if_neg (by simp [hready]), if_neg (by omega)]
  exact stageFiles_spec batch [] t.files (fun x hx => ⟨ha.path_ok x hx, ha.data_le x hx⟩) ha.nodup
    (fun x _ => not_mem_nil) ha.fits

/-! ## What a medium says -/

/-- The buffer of a bank. -/
def bankMem (m : Nat → Sector) (slot : Bool) : Mem :=
  join fun i => if i < sfTxnBankSectors then m (bankLba slot i) else zeroSector

/-- The snapshot a commit record `s` vouches for, given the contents of its bank. -/
def snapshot (volume : List UInt8) (slot : Bool) (s : Sector) (b : Mem) : Option (Nat × FileTable) :=
  if recordOk sha256 volume slot s = true ∧ (sha256 (slice b 0 bufferBytes)).toList = slice s.mem 40 32 then
    (decodeBank sha256 b (u64 s.mem 8)).map fun files => (u64 s.mem 8, files)
  else none

def snapshotAt (volume : List UInt8) (m : Nat → Sector) (slot : Bool) : Option (Nat × FileTable) :=
  snapshot sha256 volume slot (m (recordLba slot)) (bankMem m slot)

/-- A mount of a medium whose sectors can all be read. -/
def mountMedia (m : Nat → Sector) : Except SfError SfTxn := sfTxnMount sha256 fun a => .ok (m a)

section Reads

variable {m : Nat → Sector} {read : Nat → Except SfError Sector} (hread : ∀ a s, read a = .ok s → s = m a)

include hread in
theorem mapM_reads (f : Nat → Nat) : ∀ {l : List Nat} {ss : List Sector}, (l.mapM fun i => read (f i)) = .ok ss →
    ss = l.map fun i => m (f i)
  | [], ss, h => by
    simp only [mapM_nil, pure, Except.pure] at h
    cases h; rfl
  | i :: l, ss, h => by
    rw [mapM_cons] at h
    cases hi : read (f i) with
    | error e => rw [hi] at h; cases h
    | ok s =>
      cases hl : l.mapM fun i => read (f i) with
      | error e => rw [hi, hl] at h; cases h
      | ok ss' =>
        rw [hi, hl] at h
        cases h
        rw [map_cons, ← hread _ _ hi, mapM_reads f hl]

include hread in
theorem readBank_reads {slot : Bool} {b : Mem} (h : readBank read slot = .ok b) : b = bankMem m slot := by
  unfold readBank at h
  cases hs : (range sfTxnBankSectors).mapM fun i => read (bankLba slot i) with
  | error e => rw [hs] at h; cases h
  | ok ss =>
    rw [hs] at h
    cases h
    rw [mapM_reads hread _ hs]
    unfold bankMem
    congr 1
    funext i
    split
    · rename_i hi
      rw [getD_eq_getElem _ _ (by simpa using hi)]
      simp
    · rename_i hi
      rw [getD_eq_default _ _ (by simpa using hi)]

end Reads

theorem readBank_media (m : Nat → Sector) (slot : Bool) : readBank (fun a => .ok (m a)) slot = .ok (bankMem m slot) := by
  cases h : readBank (fun a => .ok (m a)) slot with
  | ok b => rw [readBank_reads (fun a s hs => (Except.ok.inj hs).symm) h]
  | error e =>
    -- no read fails, so neither does the list of them
    unfold readBank at h
    have hall : ∀ l : List Nat, (l.mapM fun i => (Except.ok (m (bankLba slot i)) : Except SfError Sector)) =
        .ok (l.map fun i => m (bankLba slot i)) := fun l => by
      induction l with
      | nil => rfl
      | cons i l ih => rw [mapM_cons, ih]; rfl
    rw [hall] at h
    cases h

/-- One turn of the mount loop, by what the bank says. -/
theorem mountSlot_media (m : Nat → Sector) (t : SfTxn) (slot : Bool) :
    mountSlot sha256 (fun a => .ok (m a)) t slot = match snapshotAt sha256 t.volume m slot with
      | none => .ok t
      | some (g, files) =>
        if g = t.generation then .error .badFormat
        else if t.generation < g then .ok { t with generation := g, bank := slot, files := files }
        else .ok t := by
  unfold mountSlot snapshotAt snapshot
  simp only [readBank_media, bind, Except.bind, pure, Except.pure, throw, throwThe, MonadExceptOf.throw]
  cases hr : recordOk sha256 t.volume slot (m (recordLba slot)) with
  | false => simp
  | true =>
    by_cases hh : (sha256 (slice (bankMem m slot) 0 bufferBytes)).toList = slice (m (recordLba slot)).mem 40 32
    · cases hd : decodeBank sha256 (bankMem m slot) (u64 (m (recordLba slot)).mem 8) with
      | none => simp [hh]
      | some files => simp [hh]
    · simp [hh]

theorem snapshot_pos {b : Mem} {g : Nat} {files : FileTable}
    (h : snapshot sha256 volume slot s b = some (g, files)) : 0 < g := by
  unfold snapshot at h
  split at h
  · rename_i hr
    obtain ⟨_, _, heq⟩ := Option.map_eq_some_iff.1 h
    rw [← (Prod.mk.inj heq).1]
    simp only [recordOk, Bool.and_eq_true, bne_iff_ne] at hr
    exact Nat.pos_of_ne_zero hr.1.1.1.1.1.2
  · cases h

theorem snapshot_lt {b : Mem} {g : Nat} {files : FileTable}
    (h : snapshot sha256 volume slot s b = some (g, files)) : g < 2 ^ 64 := by
  unfold snapshot at h
  split at h
  · obtain ⟨_, _, heq⟩ := Option.map_eq_some_iff.1 h
    rw [← (Prod.mk.inj heq).1]
    exact load_lt _ _ 8
  · cases h

/-- **What a mount returns**: the snapshot of one bank, strictly newer than that of the other if it has one. -/
theorem mountMedia_ok_iff {m : Nat → Sector} :
    mountMedia sha256 m = .ok t ↔ headerOk sha256 (m sfTxnHeader) = true ∧ t.ready = true ∧
      t.volume = volumeId (m sfTxnHeader) ∧ snapshotAt sha256 t.volume m t.bank = some (t.generation, t.files) ∧
      ∀ g files, snapshotAt sha256 t.volume m (!t.bank) = some (g, files) → g < t.generation := by
  obtain ⟨ready, g, bank, volume, files⟩ := t
  simp only [mountMedia, sfTxnMount, mountSlot_media, bind, Except.bind, pure, Except.pure, throw, throwThe,
    MonadExceptOf.throw]
  by_cases hh : headerOk sha256 (m sfTxnHeader) = true
  swap
  · simp [hh]
  simp only [hh, Bool.true_eq_false, ↓reduceIte, true_and]
  generalize volumeId (m sfTxnHeader) = v
  -- only the bank can be chosen here; the rest is determined by what the two banks say
  have hpos : ∀ slot g files, snapshotAt sha256 v m slot = some (g, files) → 0 < g := fun _ _ _ h => snapshot_pos sha256 h
  have hpos₀ := hpos false
  have hpos₁ := hpos true
  cases h₀ : snapshotAt sha256 v m false with
  | none => cases h₁ : snapshotAt sha256 v m true with
    | none => cases bank <;> simp_all
    | some x => cases bank <;> simp_all <;> grind
  | some x => cases h₁ : snapshotAt sha256 v m true with
    | none => cases bank <;> simp_all <;> grind
    | some y => cases bank <;> simp_all <;> grind

/-! ## Commit records -/

theorem sealSector_eqOn (m : Mem) : EqOn (sealSector sha256 m).mem m 0 480 := fun i _ hi => by
  unfold sealSector
  rw [blockAt_mem _ _ (by omega), Nat.zero_add, blit_of_lt (Or.inl (by omega))]

theorem sealed_sealSector (m : Mem) : sealed sha256 (sealSector sha256 m) = true := by
  have hs := slice_blit_self m 480 (sha256 (slice m 0 480)).toList
  rw [Vector.length_toList] at hs
  unfold sealed
  rw [(sealSector_eqOn sha256 m).slice (Nat.le_refl 0) (Nat.le_refl 480), sealSector,
    slice_blockAt _ _ (by omega), Nat.zero_add, hs, beq_self_eq_true]

theorem recordOk_zeroSector (volume : List UInt8) (slot : Bool) : recordOk sha256 volume slot zeroSector = false := by
  have hmagic : (slice zeroSector.mem 0 8 == recordMagic) = false := by decide
  simp [recordOk, hmagic]

theorem recordOk_torn (h : sealed sha256 s = false) :
    recordOk sha256 volume slot s = false := by
  simp [recordOk, h]

section Fields

variable {volume : List UInt8} (hv : volume.length = 16) {g : Nat} (bank : Bool) (h : Digest)

include hv in
theorem recordFields_volume : slice (recordFields volume g bank h) 24 16 = volume := by
  unfold recordFields
  rw [(eqOn_blit (n := 16) (by omega)).slice (Nat.le_refl 24) (Nat.le_refl _)]
  have := slice_blit_self (put32 (put64 (blit zeros 0 recordMagic) 8 g) 16 bank.toNat) 24 volume
  rwa [hv] at this

theorem recordFields_digest : slice (recordFields volume g bank h) 40 32 = h.toList := by
  have := slice_blit_self (blit (put32 (put64 (blit zeros 0 recordMagic) 8 g) 16 bank.toNat) 24 volume) 40 h.toList
  rwa [Vector.length_toList] at this

include hv in
/-- Outside the volume id and the digest, the record has its magic, generation and bank. -/
theorem recordFields_eqOn :
    EqOn (recordFields volume g bank h) (put32 (put64 (blit zeros 0 recordMagic) 8 g) 16 bank.toNat) 0 24 ∧
      EqOn (recordFields volume g bank h) (put32 (put64 (blit zeros 0 recordMagic) 8 g) 16 bank.toNat) 72 408 := by
  constructor <;> exact (eqOn_blit (by simp)).trans (eqOn_blit (by omega))

include hv in
theorem recordOk_commitRecord (hg : g < 2 ^ 64) (hpos : 0 < g) :
    recordOk sha256 volume bank (commitRecord sha256 volume g bank h) = true ∧
      u64 (commitRecord sha256 volume g bank h).mem 8 = g ∧
      slice (commitRecord sha256 volume g bank h).mem 40 32 = h.toList := by
  have hs := sealSector_eqOn sha256 (recordFields volume g bank h)
  have hrec : commitRecord sha256 volume g bank h = sealSector sha256 (recordFields volume g bank h) := rfl
  obtain ⟨hlow, hhigh⟩ := recordFields_eqOn hv (g := g) bank h
  have hmagic : slice (commitRecord sha256 volume g bank h).mem 0 8 = recordMagic := by
    rw [hrec, hs.slice (Nat.le_refl _) (by omega), hlow.slice (Nat.le_refl _) (by omega)]
    unfold put32 put64
    rw [(eqOn_store (n := 8) (by omega)).slice (Nat.le_refl 0) (Nat.le_refl _),
      (eqOn_store (n := 8) (by omega)).slice (Nat.le_refl 0) (Nat.le_refl _)]
    exact slice_blit_self zeros 0 recordMagic
  have hgen : u64 (commitRecord sha256 volume g bank h).mem 8 = g := by
    unfold u64
    rw [hrec, hs.load (by omega) (by omega), hlow.load (by omega) (by omega)]
    unfold put32 put64
    rw [(eqOn_store (n := 8) (by omega)).load (Nat.le_refl 8) (Nat.le_refl _)]
    exact load_store_self _ _ hg
  have hbank : u32 (commitRecord sha256 volume g bank h).mem 16 = bank.toNat := by
    unfold u32
    rw [hrec, hs.load (by omega) (by omega), hlow.load (by omega) (by omega)]
    exact load_store_self _ _ (by cases bank <;> decide)
  have hzero : ∀ a, 20 ≤ a → put32 (put64 (blit zeros 0 recordMagic) 8 g) 16 bank.toNat a = 0 := fun a ha => by
    unfold put32 put64 store
    rw [blit_of_lt (by simp; omega), blit_of_lt (by simp; omega), blit_of_lt (by simp [recordMagic]; omega)]
    rfl
  have hpad : u32 (commitRecord sha256 volume g bank h).mem 20 = 0 := by
    have hz : slice (put32 (put64 (blit zeros 0 recordMagic) 8 g) 16 bank.toNat) 20 4 = [0, 0, 0, 0] := by
      simp [slice, range_succ, hzero]
    unfold u32
    rw [hrec, hs.load (by omega) (by omega), hlow.load (by omega) (by omega), load, hz]
    rfl
  have hvol : slice (commitRecord sha256 volume g bank h).mem 24 16 = volume := by
    rw [hrec, hs.slice (by omega) (by omega), recordFields_volume hv]
  have htail : isZero (commitRecord sha256 volume g bank h).mem 72 408 = true := by
    rw [hrec, hs.isZero (by omega) (by omega), hhigh.isZero (by omega) (by omega), isZero_iff]
    exact fun k _ => hzero _ (by omega)
  have hdig : slice (commitRecord sha256 volume g bank h).mem 40 32 = h.toList := by
    rw [hrec, hs.slice (by omega) (by omega), recordFields_digest]
  refine ⟨?_, hgen, hdig⟩
  have hseal : sealed sha256 (commitRecord sha256 volume g bank h) = true := sealed_sealSector sha256 _
  simp only [recordOk, hmagic, hseal, hgen, hbank, hpad, hvol, htail, beq_self_eq_true, Bool.and_true,
    Bool.true_and, bne_iff_ne]
  exact Nat.ne_of_gt hpos

include hv in
/-- A bank and the record written for it are the snapshot that the bank decodes to. -/
theorem snapshot_of_decodeBank (hg : g < 2 ^ 64) (hpos : 0 < g) {b : Mem} {files : FileTable}
    (hd : decodeBank sha256 b g = some files) :
    snapshot sha256 volume bank (commitRecord sha256 volume g bank (sha256 (slice b 0 bufferBytes))) b = some
      (g, files) := by
  obtain ⟨hok, hgen, hdig⟩ := recordOk_commitRecord sha256 hv bank (sha256 (slice b 0 bufferBytes)) hg hpos
  unfold snapshot
  rw [if_pos ⟨hok, hdig.symm⟩, hgen, hd]
  rfl

theorem decodeBank_encode (hg : g < 2 ^ 64) (files : FileTable) :
    decodeBank sha256 (encode sha256 g files) g = some files := by
  unfold decodeBank
  rw [decode_encode hg]

include hv in
theorem snapshot_commitRecord (hg : g < 2 ^ 64) (hpos : 0 < g) (files : FileTable) :
    snapshot sha256 volume bank (commitRecord sha256 volume g bank (sha256 (slice (encode sha256 g files) 0 bufferBytes)))
      (encode sha256 g files) = some (g, files) :=
  snapshot_of_decodeBank sha256 hv bank hg hpos (decodeBank_encode sha256 hg files)

end Fields

/-! ## Reads that fail -/

section Reads

variable {m : Nat → Sector} {read : Nat → Except SfError Sector} (hread : ∀ a s, read a = .ok s → s = m a)

include hread in
theorem mountSlot_reads {t t' : SfTxn} {slot : Bool} (h : mountSlot sha256 read t slot = .ok t') :
    mountSlot sha256 (fun a => .ok (m a)) t slot = .ok t' := by
  unfold mountSlot at h ⊢
  cases hs : read (recordLba slot) with
  | error e => rw [hs] at h; cases h
  | ok s =>
    obtain rfl := hread _ _ hs
    rw [hs] at h
    simp only [bind, Except.bind] at h ⊢
    split at h
    · rename_i hno
      rwa [if_pos hno]
    rename_i hok
    rw [if_neg hok]
    cases hb : readBank read slot with
    | error e => rw [hb] at h; cases h
    | ok b =>
      obtain rfl := readBank_reads hread hb
      rw [hb] at h
      rw [readBank_media]
      exact h

include hread in
/-- A mount that got through its reads returned what the whole medium says. -/
theorem sfTxnMount_reads {t : SfTxn} (h : sfTxnMount sha256 read = .ok t) : mountMedia sha256 m = .ok t := by
  unfold mountMedia
  unfold sfTxnMount at h ⊢
  cases hs : read sfTxnHeader with
  | error e => rw [hs] at h; cases h
  | ok s =>
    obtain rfl := hread _ _ hs
    rw [hs] at h
    simp only [bind, Except.bind] at h ⊢
    split at h
    · cases h
    rename_i hok
    rw [if_neg hok]
    cases h₀ : mountSlot sha256 read ⟨false, 0, false, volumeId (m sfTxnHeader), FileTable.empty⟩ false with
    | error e => rw [h₀] at h; cases h
    | ok t₀ =>
      rw [h₀] at h
      rw [mountSlot_reads sha256 hread h₀]
      simp only at h ⊢
      cases h₁ : mountSlot sha256 read t₀ true with
      | error e => rw [h₁] at h; cases h
      | ok t₁ =>
        rw [h₁] at h
        rw [mountSlot_reads sha256 hread h₁]
        exact h

end Reads

end Device

/-! ## Sectors do not overlap -/

theorem recordLba_ne_header (b : Bool) : recordLba b ≠ sfTxnHeader := by unfold recordLba; omega

theorem bankLba_ne_header (b : Bool) (i : Nat) : bankLba b i ≠ sfTxnHeader := by
  unfold bankLba sfTxnBank sfTxnHeader; omega

theorem recordLba_ne_not (b : Bool) : recordLba b ≠ recordLba (!b) := by
  cases b <;> simp [recordLba]

theorem bankLba_ne_record (b c : Bool) (i : Nat) : bankLba b i ≠ recordLba c := by
  cases c <;> simp only [bankLba, recordLba, sfTxnBank, sfTxnHeader, Bool.toNat_false, Bool.toNat_true] <;> omega

theorem bankLba_ne_not {b : Bool} {i j : Nat} (hi : i < sfTxnBankSectors) (hj : j < sfTxnBankSectors) :
    bankLba b i ≠ bankLba (!b) j := by
  cases b <;> simp only [bankLba, Bool.not_false, Bool.not_true, Bool.toNat_false, Bool.toNat_true] <;> omega

/-! ## Banks -/

section Banks

variable {sha256 : List UInt8 → Digest} {m m' : Nat → Sector} {b : Bool}

theorem bankMem_congr (h : ∀ i < sfTxnBankSectors, m (bankLba b i) = m' (bankLba b i)) : bankMem m b = bankMem m' b := by
  unfold bankMem
  congr 1
  funext i
  split
  · exact h i (by assumption)
  · rfl

theorem mem_bankWrites {buffer : Mem} {a : Nat} {s : Sector} :
    (a, s) ∈ bankWrites b buffer ↔ ∃ i < sfTxnBankSectors, a = bankLba b i ∧ s = blockAt 512 buffer (i * 512) := by
  unfold bankWrites
  simp only [mem_map, mem_range, Prod.mk.injEq]
  exact ⟨fun ⟨i, hi, h₁, h₂⟩ => ⟨i, hi, h₁.symm, h₂.symm⟩, fun ⟨i, hi, h₁, h₂⟩ => ⟨i, hi, h₁.symm, h₂.symm⟩⟩

theorem nodup_bankWrites (b : Bool) (buffer : Mem) : ((bankWrites b buffer).map Prod.fst).Nodup := by
  unfold bankWrites
  rw [map_map]
  exact nodup_range.map fun i j h => by simpa [bankLba] using h

/-- Writing every sector of a bank leaves the buffer there. -/
theorem bankMem_applyAll {buffer : Mem} (hz : ∀ a, bufferBytes ≤ a → buffer a = 0) (m : Nat → Sector) (b : Bool) :
    bankMem (applyAll (bankWrites b buffer) m) b = buffer := by
  refine Eq.trans ?_ (join_blockAt (n := 512) (by omega) buffer)
  unfold bankMem
  congr 1
  funext i
  split
  · exact applyAll_of_mem _ m (nodup_bankWrites b buffer) (mem_bankWrites.2 ⟨i, by assumption, rfl, rfl⟩)
  rename_i hi
  funext k
  refine (hz _ ?_).symm
  unfold bufferBytes
  unfold sfTxnBankSectors at hi
  omega

end Banks

/-! ## A formatted volume -/

section Format

variable (sha256 : List UInt8 → Digest)

/-- The fields of the header sector before it is sealed. -/
def headerFields (volume : List UInt8) : Mem := blit (put32 (put32 (blit zeros 0 txnMagic) 8 1) 12 sfTxnSectors) 16 volume

/-- What `tools/package/mkpersist.py` writes: the immutable image below the header, generation 1 with no files in bank 0,
no record of bank 1, and zeros elsewhere. -/
def formatted (image : Nat → Sector) (volume : List UInt8) : Nat → Sector := fun a =>
  if a < sfTxnHeader then image a
  else if a = sfTxnHeader then sealSector sha256 (headerFields volume)
  else if a = recordLba false then
    commitRecord sha256 volume 1 false (sha256 (slice (encode sha256 1 FileTable.empty) 0 bufferBytes))
  else applyAll (bankWrites false (encode sha256 1 FileTable.empty)) (fun _ => zeroSector) a

theorem headerOk_headerFields {volume : List UInt8} (hv : volume.length = 16) :
    headerOk sha256 (sealSector sha256 (headerFields volume)) = true ∧
      volumeId (sealSector sha256 (headerFields volume)) = volume := by
  have hs := sealSector_eqOn sha256 (headerFields volume)
  have hlow : EqOn (headerFields volume) (put32 (put32 (blit zeros 0 txnMagic) 8 1) 12 sfTxnSectors) 0 16 :=
    eqOn_blit (by omega)
  have hhigh : EqOn (headerFields volume) (put32 (put32 (blit zeros 0 txnMagic) 8 1) 12 sfTxnSectors) 32 448 :=
    eqOn_blit (by omega)
  have hmagic : slice (sealSector sha256 (headerFields volume)).mem 0 8 = txnMagic := by
    rw [hs.slice (Nat.le_refl _) (by omega), hlow.slice (Nat.le_refl _) (by omega)]
    decide
  have hversion : u32 (sealSector sha256 (headerFields volume)).mem 8 = 1 := by
    unfold u32
    rw [hs.load (by omega) (by omega), hlow.load (by omega) (by omega)]
    decide
  have hsectors : u32 (sealSector sha256 (headerFields volume)).mem 12 = sfTxnSectors := by
    unfold u32
    rw [hs.load (by omega) (by omega), hlow.load (by omega) (by omega)]
    decide
  have htail : isZero (sealSector sha256 (headerFields volume)).mem 32 448 = true := by
    rw [hs.isZero (by omega) (by omega), hhigh.isZero (by omega) (by omega), isZero_iff]
    intro k _
    unfold put32 store
    rw [blit_of_lt (by simp; omega), blit_of_lt (by simp; omega), blit_of_lt (by simp [txnMagic]; omega)]
    rfl
  constructor
  · simp [headerOk, hmagic, hversion, hsectors, htail, sealed_sealSector]
  unfold volumeId headerFields at *
  rw [hs.slice (by omega) (by omega)]
  have := slice_blit_self (put32 (put32 (blit zeros 0 txnMagic) 8 1) 12 sfTxnSectors) 16 volume
  rwa [hv] at this

/-- A formatted volume has generation 1 and no files. -/
theorem mountMedia_formatted (image : Nat → Sector) {volume : List UInt8} (hv : volume.length = 16) :
    mountMedia sha256 (formatted sha256 image volume) = .ok ⟨true, 1, false, volume, FileTable.empty⟩ := by
  obtain ⟨hok, hid⟩ := headerOk_headerFields sha256 hv
  have hheader : formatted sha256 image volume sfTxnHeader = sealSector sha256 (headerFields volume) := by
    simp [formatted]
  have hrecord : formatted sha256 image volume (recordLba false) =
      commitRecord sha256 volume 1 false (sha256 (slice (encode sha256 1 FileTable.empty) 0 bufferBytes)) := by
    unfold formatted
    rw [if_neg (by unfold recordLba; omega), if_neg (recordLba_ne_header false), if_pos rfl]
  have hother : formatted sha256 image volume (recordLba true) = zeroSector := by
    unfold formatted
    rw [if_neg (by unfold recordLba; omega), if_neg (recordLba_ne_header true),
      if_neg (show recordLba true ≠ recordLba false from recordLba_ne_not true)]
    exact applyAll_other _ _ fun s hs => by
      obtain ⟨i, _, he, _⟩ := mem_bankWrites.1 hs
      exact bankLba_ne_record _ _ _ he.symm
  have hbank : bankMem (formatted sha256 image volume) false = encode sha256 1 FileTable.empty := by
    rw [← bankMem_applyAll (fun a => encode_zero sha256 1 FileTable.empty) (fun _ => zeroSector) false]
    refine bankMem_congr fun i _ => ?_
    unfold formatted
    rw [if_neg (by simp only [bankLba, sfTxnBank, sfTxnHeader]; omega), if_neg (bankLba_ne_header _ _),
      if_neg (bankLba_ne_record _ _ _)]
  rw [mountMedia_ok_iff, hheader]
  refine ⟨hok, rfl, hid.symm, ?_, fun g files hs => ?_⟩
  · show snapshot sha256 volume false _ _ = _
    rw [hrecord, hbank]
    exact snapshot_commitRecord sha256 hv false (by decide) (by decide) FileTable.empty
  · have hnone : snapshot sha256 volume true zeroSector (bankMem (formatted sha256 image volume) true) = none := by
      unfold snapshot
      rw [if_neg (by simp [recordOk_zeroSector])]
    rw [snapshotAt, Bool.not_false, hother, hnone] at hs
    cases hs

end Format

end SpiritFox.Txn
