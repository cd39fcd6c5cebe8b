import SpiritFox.Lib.Proc
import SpiritFox.Txn.Durable
import Mathlib.Logic.Relation

/-!
# Banks of the original geometry

A bank of the original four-record layout and one of the current layout carry the same magic and version, and a
mount tries the current layout first. A bank that both decoders accept has the same records in both, so the same
paths, lengths and digests; what differs is where the data is read from, and there the digest decides
(`decode_agree`). Hence a bank is loaded as the files it was written from in either geometry (`Written.loads`), and
so is every bank that a commit leaves (`written_of_commit`).

`sfTxnMountOn` is the mount with all three callbacks of the device, to say that it only reads. The main result is
`legacy_compatible`.
-/

namespace SpiritFox.Txn

open ByteMem WriteCache

/-! ## What an accepted bank says -/

section Decode

variable {sha256 : List UInt8 → Digest} {b : Mem} {g slots start start' i : Nat}

theorem decodeFile_some {f : SfTxnFile} (h : decodeFile sha256 b start i = some f) :
    f.path = cstr b (512 + i * 128) ∧ f.data = slice b (start + i * sfTxnFileBytes) (u32 b (512 + i * 128 + 64)) ∧
      slice b (512 + i * 128 + 96) 32 = (sha256 f.data).toList := by
  unfold decodeFile at h
  dsimp only at h
  split at h
  · split at h
    · rename_i hc
      cases h
      simp only [Bool.and_eq_true, beq_iff_eq] at hc
      exact ⟨rfl, rfl, hc.2⟩
    · cases h
  · cases h

/-- The loop appends the files of the occupied slots. -/
theorem decodeFiles_some {count : Nat} : ∀ {l : List Nat}
    {t₀ t : FileTable}, decodeFiles sha256 b count start l t₀ = some t →
    ∃ fs, t.files = t₀.files ++ fs ∧ (l.filter (· < count)).map (decodeFile sha256 b start) = fs.map some
  | [], t₀, t, h => by
    cases h
    exact ⟨[], by simp, rfl⟩
  | i :: l, t₀, t, h => by
    unfold decodeFiles at h
    split at h
    · rename_i hge
      split at h
      · obtain ⟨fs, hfiles, hmap⟩ := decodeFiles_some h
        exact ⟨fs, hfiles, by rw [List.filter_cons_of_neg (by simpa using hge), hmap]⟩
      · cases h
    · rename_i hlt
      split at h
      · cases h
      rename_i f hf
      split at h
      · cases h
      rename_i t₁ hadd
      obtain ⟨fs, hfiles, hmap⟩ := decodeFiles_some h
      refine ⟨f :: fs, ?_, ?_⟩
      · rw [hfiles, (FileTable.add?_some hadd).1]
        simp
      · rw [List.filter_cons_of_pos (by simpa using hlt), List.map_cons, hmap, hf]
        rfl

theorem filter_range {n m : Nat} (h : n ≤ m) : (List.range m).filter (· < n) = List.range n := by
  obtain ⟨k, rfl⟩ := Nat.exists_eq_add_of_le h
  rw [List.range_add, List.filter_append, List.filter_eq_self.2 (by simp), List.filter_eq_nil_iff.2 (by simp),
    List.append_nil]

/-- The files of a bank are what its records and data slots say. -/
theorem decode_files {t : FileTable} (h : decode sha256 b g slots start = some t) :
    t.files.length = u32 b 16 ∧ ∀ j (hj : j < t.files.length), decodeFile sha256 b start j = some t.files[j] := by
  unfold decode at h
  split at h
  · rename_i hhead
    split at h
    · cases h
    rename_i t' hfiles
    split at h
    · cases h
      obtain ⟨fs, hfs, hmap⟩ := decodeFiles_some hfiles
      have heq : t.files = fs := by simpa [FileTable.empty] using hfs
      rw [filter_range hhead.2.2.1, ← heq] at hmap
      have hlen : t.files.length = u32 b 16 := by simpa using (congrArg List.length hmap).symm
      refine ⟨hlen, fun j hj => ?_⟩
      have hget := congrArg (fun l => l[j]?) hmap
      simpa [hj, hlen ▸ hj] using hget
    · cases h
  · cases h

/-- The two readings of a data slot do not collide: where their digests agree, they agree. -/
def CollisionFree (sha256 : List UInt8 → Digest) (b : Mem) : Prop :=
  ∀ i < u32 b 16, let n := u32 b (512 + i * 128 + 64)
    sha256 (slice b (legacy.start + i * sfTxnFileBytes) n) = sha256 (slice b (current.start + i * sfTxnFileBytes) n) →
      slice b (legacy.start + i * sfTxnFileBytes) n = slice b (current.start + i * sfTxnFileBytes) n

/-- **A bank denotes the same files in both geometries.** -/
theorem decode_agree (hfree : CollisionFree sha256 b) {t t' : FileTable}
    (h : decode sha256 b g current.slots current.start = some t)
    (h' : decode sha256 b g legacy.slots legacy.start = some t') :
    t = t' := by
  obtain ⟨hlen, hfiles⟩ := decode_files h
  obtain ⟨hlen', hfiles'⟩ := decode_files h'
  apply FileTable.ext'
  refine List.ext_getElem (hlen.trans hlen'.symm) fun j hj hj' => ?_
  obtain ⟨hpath, hdata, hdigest⟩ := decodeFile_some (hfiles j hj)
  obtain ⟨hpath', hdata', hdigest'⟩ := decodeFile_some (hfiles' j hj')
  -- the record, and so the digest, is the same one
  have hsame : sha256 t'.files[j].data = sha256 t.files[j].data := Vector.toList_inj.1 (hdigest'.symm.trans hdigest)
  refine SfTxnFile.ext' (hpath.trans hpath'.symm) ?_
  rw [hdata, hdata'] at hsame ⊢
  exact (hfree j (hlen ▸ hj) hsame).symm

end Decode

/-! ## Banks as they were written -/

section Written

variable {sha256 : List UInt8 → Digest} {G : Geometry} {m : Nat → Sector} {slot : Bool} {g : Nat} {t : FileTable}

/-- The medium has a valid header, and in `slot` a bank of geometry `G` with the files `t`, and its commit record. -/
structure Written (sha256 : List UInt8 → Digest) (G : Geometry) (m : Nat → Sector) (slot : Bool) (g : Nat)
    (t : FileTable) : Prop where
  header : headerOk sha256 (m sfTxnHeader) = true
  record : m (recordLba slot) =
    commitRecord sha256 (volumeId (m sfTxnHeader)) g slot (sha256 (slice (encodeIn sha256 G g t) 0 bufferBytes))
  bank : bankMem m slot = encodeIn sha256 G g t
  fits : t.files.length ≤ G.slots
  generation : 0 < g ∧ g < 2 ^ 64

/-- The mount finds the files in the bank, and returns them when the other bank has nothing newer. -/
structure Loads (sha256 : List UInt8 → Digest) (m : Nat → Sector) (slot : Bool) (g : Nat) (t : FileTable) : Prop where
  found : snapshotAt sha256 (volumeId (m sfTxnHeader)) m slot = some (g, t)
  mounts : (∀ g' t', snapshotAt sha256 (volumeId (m sfTxnHeader)) m (!slot) = some (g', t') → g' < g) →
    mountMedia sha256 m = .ok ⟨true, g, slot, volumeId (m sfTxnHeader), t⟩

section

variable (h : Written sha256 G m slot g t) (hG : G = legacy ∨ G = current)
  (hfree : G = legacy → CollisionFree sha256 (bankMem m slot))

include h hG hfree

theorem Written.decodeBank : decodeBank sha256 (bankMem m slot) g = some t := by
  have hdec : decode sha256 (bankMem m slot) g G.slots G.start = some t := by
    rw [h.bank]
    exact decode_encodeIn h.generation.2 h.fits
  unfold SpiritFox.Txn.decodeBank
  rcases hG with rfl | rfl
  · cases h5 : decode sha256 (bankMem m slot) g sfTxnFiles sfTxnData with
    | none => exact hdec
    | some t' => exact congrArg some (decode_agree (hfree rfl) h5 hdec)
  · have h5 : decode sha256 (bankMem m slot) g sfTxnFiles sfTxnData = some t := hdec
    rw [h5]

theorem Written.loads : Loads sha256 m slot g t := by
  have hfound : snapshotAt sha256 (volumeId (m sfTxnHeader)) m slot = some (g, t) := by
    unfold snapshotAt
    rw [h.record, ← h.bank]
    exact snapshot_of_decodeBank sha256 (length_slice _ _ _) slot h.generation.2 h.generation.1 (h.decodeBank hG hfree)
  exact ⟨hfound, fun hother => (mountMedia_ok_iff sha256).2 ⟨h.header, rfl, rfl, hfound, hother⟩⟩

end

/-- What a successful commit leaves on the device. -/
theorem written_of_commit {v v' : SfTxn} {batch : List (List UInt8 × List UInt8)} {f f' : Faulty Sector}
    (hheader : headerOk sha256 (f.disk.cache sfTxnHeader) = true) (hvolume : volumeId (f.disk.cache sfTxnHeader) = v.volume)
    (hg : v.generation < 2 ^ 64) (h : sfTxnCommit sha256 v batch f = (.ok (), v', f')) :
    Written sha256 current f'.disk.cache v'.bank v'.generation v'.files := by
  unfold sfTxnCommit at h
  split at h
  · cases h
  rename_i next hstage
  have hmax := (stage_ok hstage).2.1
  dsimp only at h
  split at h
  · rename_i hok
    cases h
    have hrun := perform_run (tornOk sha256) _ _ hok
    rw [commitOps_eq, run_append, run_flush] at hrun
    obtain ⟨m, _, hbank, hsame, hops⟩ := run_unflushedOps sha256 v next f.disk
    rw [hops] at hrun
    generalize hrecord : commitRecord sha256 v.volume (v.generation + 1) (!v.bank)
      (sha256 (slice (encode sha256 (v.generation + 1) next) 0 bufferBytes)) = record at hrun
    have hcache : (perform (tornOk sha256) (commitOps sha256 v next) f).2.disk.cache = Function.update m
      (recordLba (!v.bank)) record := by
      rw [commitOps_eq, hrun]
      exact cache_single m _ record
    have hhead : Function.update m (recordLba (!v.bank)) record sfTxnHeader = f.disk.cache sfTxnHeader := by
      rw [Function.update_of_ne (recordLba_ne_header _).symm]
      exact hsame _ (recordLba_ne_header _).symm fun i _ => (bankLba_ne_header _ _).symm
    rw [hcache]
    constructor
    case header => rwa [hhead]
    case record =>
      rw [hhead, hvolume, Function.update_self]
      exact hrecord.symm
    case bank =>
      rw [bankMem_congr fun i _ => Function.update_of_ne (bankLba_ne_record _ _ i) _ _, hbank]
      rfl
    case fits => exact next.length_le
    case generation => exact ⟨Nat.succ_pos _, by dsimp only; omega⟩
  · cases h

end Written

/-! ## A mount only reads -/

section Callbacks

open Proc

/-- The callbacks that `sf_txn_mount` is given; `σ` is their context. -/
structure Callbacks (σ : Type) where
  read : Nat → Proc σ SfError Sector
  write : Nat → Sector → Proc σ SfError Unit
  flush : Proc σ SfError Unit

variable (sha256 : List UInt8 → Digest) {σ : Type} (dev : Callbacks σ)

def readBankOn (slot : Bool) : Proc σ SfError Mem := do
  let ss ← (List.range sfTxnBankSectors).mapM' fun i => dev.read (bankLba slot i)
  pure (join fun i => ss.getD i zeroSector)

def mountSlotOn (t : SfTxn) (slot : Bool) : Proc σ SfError SfTxn := do
  let s ← dev.read (recordLba slot)
  if recordOk sha256 t.volume slot s = false then pure t else
    let b ← readBankOn dev slot
    if (sha256 (slice b 0 bufferBytes)).toList ≠ slice s.mem 40 32 then pure t else
      match decodeBank sha256 b (u64 s.mem 8) with
      | none => pure t
      | some files =>
        if u64 s.mem 8 = t.generation then fail .badFormat
        else if t.generation < u64 s.mem 8 then pure { t with generation := u64 s.mem 8, bank := slot, files := files }
        else pure t

/-- `sf_txn_mount` on a device. -/
def sfTxnMountOn : Proc σ SfError SfTxn := do
  let s ← dev.read sfTxnHeader
  if headerOk sha256 s = false then fail .badFormat else
    let t ← mountSlotOn sha256 dev ⟨false, 0, false, volumeId s, FileTable.empty⟩ false
    let t ← mountSlotOn sha256 dev t true
    if t.generation = 0 then fail .badFormat else pure { t with ready := true }

/-- The state of the device after some reads. -/
def Callbacks.Reads : σ → σ → Prop := Relation.ReflTransGen fun s s' => ∃ a, s' = (dev.read a s).2

theorem reads_refl (s : σ) : dev.Reads s s := .refl

theorem reads_trans (s t u : σ) : dev.Reads s t → dev.Reads t u → dev.Reads s u := .trans

theorem within_read_callback (a : Nat) : Within dev.Reads (dev.read a) := fun _ => .single ⟨a, rfl⟩

theorem within_readBankOn (slot : Bool) : Within dev.Reads (readBankOn dev slot) :=
  within_bind (reads_trans dev) (within_mapM (reads_refl dev) (reads_trans dev) _ fun _ => within_read_callback dev _)
    fun _ => within_pure (reads_refl dev) _

theorem within_mountSlotOn (t : SfTxn) (slot : Bool) : Within dev.Reads (mountSlotOn sha256 dev t slot) := by
  have hpure : ∀ t : SfTxn, Within dev.Reads (pure t : Proc σ SfError SfTxn) := within_pure (reads_refl dev)
  refine within_bind (reads_trans dev) (within_read_callback dev _) fun s => within_ite (hpure t) ?_
  refine within_bind (reads_trans dev) (within_readBankOn dev slot) fun b => within_ite (hpure t) ?_
  cases decodeBank sha256 b (u64 s.mem 8) with
  | none => exact hpure t
  | some files => exact within_ite (within_fail (reads_refl dev) _) (within_ite (hpure _) (hpure t))

/-- Whatever the callbacks do, a mount calls `read` and nothing else. -/
theorem within_sfTxnMountOn : Within dev.Reads (sfTxnMountOn sha256 dev) := by
  refine within_bind (reads_trans dev) (within_read_callback dev _) fun s => within_ite (within_fail (reads_refl dev) _) ?_
  refine within_bind (reads_trans dev) (within_mountSlotOn sha256 dev _ _) fun t => ?_
  refine within_bind (reads_trans dev) (within_mountSlotOn sha256 dev _ _) fun t => ?_
  exact within_ite (within_fail (reads_refl dev) _) (within_pure (reads_refl dev) _)

/-- On a device that reads do not change, this is the mount. -/
theorem sfTxnMountOn_eq {s : σ} {read : Nat → Except SfError Sector} (hread : ∀ a, Looks s (dev.read a) (read a)) :
    Looks s (sfTxnMountOn sha256 dev) (sfTxnMount sha256 read) := by
  have hbank : ∀ slot, Looks s (readBankOn dev slot) (readBank read slot) := by
    intro slot
    unfold readBank
    rw [← List.mapM'_eq_mapM]
    exact looks_bind (looks_mapM _ fun _ => hread _) fun _ => rfl
  have hslot : ∀ t slot, Looks s (mountSlotOn sha256 dev t slot) (mountSlot sha256 read t slot) := by
    intro t slot
    refine looks_bind (hread _) fun x => looks_ite rfl (looks_bind (hbank slot) fun b => looks_ite rfl ?_)
    cases decodeBank sha256 b (u64 x.mem 8) with
    | none => rfl
    | some files => exact looks_ite rfl (looks_ite rfl rfl)
  refine looks_bind (hread _) fun x => looks_ite rfl ?_
  exact looks_bind (hslot _ _) fun t => looks_bind (hslot _ _) fun t => looks_ite rfl rfl

end Callbacks

/-! ## Compatibility -/

structure Compatible (sha256 : List UInt8 → Digest) : Prop where
  /-- A bank of either geometry is loaded as the files it was written from. -/
  loads : ∀ {G m slot g t}, G = legacy ∨ G = current → Written sha256 G m slot g t →
    (G = legacy → CollisionFree sha256 (bankMem m slot)) → Loads sha256 m slot g t
  /-- A commit on a volume writes a bank of the current geometry. -/
  commits : ∀ {v v' : SfTxn} {batch : List (List UInt8 × List UInt8)} {f f' : Faulty Sector},
    headerOk sha256 (f.disk.cache sfTxnHeader) = true → volumeId (f.disk.cache sfTxnHeader) = v.volume →
      v.generation < 2 ^ 64 →
    sfTxnCommit sha256 v batch f = (.ok (), v', f') → Written sha256 current f'.disk.cache v'.bank v'.generation v'.files
  /-- A bank that both decoders accept denotes the same files. -/
  agrees : ∀ {b g t t'}, CollisionFree sha256 b → decode sha256 b g sfTxnFiles sfTxnData = some t →
    decode sha256 b g 4 1024 = some t' → t = t'
  /-- A mount reads the device and does nothing else to it. -/
  reads : ∀ {σ : Type} (dev : Callbacks σ) (s : σ), dev.Reads s (sfTxnMountOn sha256 dev s).2 ∧
    ∀ read, (∀ a, dev.read a s = (read a, s)) → sfTxnMountOn sha256 dev s = (sfTxnMount sha256 read, s)

/-- **Both geometries are loaded as they were written**, and no bank can be taken for one of the other geometry. -/
theorem legacy_compatible (sha256 : List UInt8 → Digest) : Compatible sha256 where
  loads hG hw hfree := hw.loads hG hfree
  commits hheader hvolume hg h := written_of_commit hheader hvolume hg h
  agrees hfree h h' := decode_agree hfree h h'
  reads dev s := ⟨within_sfTxnMountOn sha256 dev s, fun _ hread => sfTxnMountOn_eq sha256 dev hread⟩

/-! ## A sample volume -/

section Sample

variable (sha256 : List UInt8 → Digest) (G : Geometry)

/-- A volume with one bank, of geometry `G`. -/
def laidOut (volume : List UInt8) (g : Nat) (t : FileTable) : Nat → Sector := fun a =>
  if a = sfTxnHeader then sealSector sha256 (headerFields volume)
  else if a = recordLba false then commitRecord sha256 volume g false (sha256 (slice (encodeIn sha256 G g t) 0 bufferBytes))
  else applyAll (bankWrites false (encodeIn sha256 G g t)) (fun _ => zeroSector) a

variable {volume : List UInt8} (hv : volume.length = 16) {g : Nat} {t : FileTable}

include hv in
theorem written_laidOut (hg : 0 < g ∧ g < 2 ^ 64) (ht : t.files.length ≤ G.slots) :
    Written sha256 G (laidOut sha256 G volume g t) false g t := by
  obtain ⟨hok, hid⟩ := headerOk_headerFields sha256 hv
  have hheader : laidOut sha256 G volume g t sfTxnHeader = sealSector sha256 (headerFields volume) := if_pos rfl
  constructor
  case header =>
    rw [hheader]
    exact hok
  case record =>
    rw [hheader, hid]
    unfold laidOut
    rw [if_neg (recordLba_ne_header false), if_pos rfl]
  case bank =>
    rw [← bankMem_applyAll (fun a => encodeIn_zero sha256 g ht) (fun _ => zeroSector) false]
    refine bankMem_congr fun i _ => ?_
    unfold laidOut
    rw [if_neg (bankLba_ne_header _ _), if_neg (bankLba_ne_record _ _ _)]
  case fits => exact ht
  case generation => exact hg

theorem laidOut_other (v : List UInt8) : snapshotAt sha256 v (laidOut sha256 G volume g t) true = none := by
  have hzero : laidOut sha256 G volume g t (recordLba true) = zeroSector := by
    unfold laidOut
    rw [if_neg (recordLba_ne_header true), if_neg (show recordLba true ≠ recordLba false from recordLba_ne_not true)]
    refine applyAll_other _ _ fun s hs => ?_
    obtain ⟨i, _, he, _⟩ := mem_bankWrites.1 hs
    exact bankLba_ne_record _ _ _ he.symm
  unfold snapshotAt
  rw [hzero, snapshot_of_not_recordOk (recordOk_zeroSector sha256 v true)]

/-- One file whose contents are all zero. -/
def sampleZeros : FileTable := ⟨[⟨[47, 97], [0, 0], by decide, by decide⟩], by decide, by decide⟩

/-- A legacy bank with a file of zeros is loaded as that file. -/
theorem legacy_compatible_zeros :
    let sha256 : List UInt8 → Digest := fun _ => Vector.replicate 32 0
    let m := laidOut sha256 legacy (List.replicate 16 0) 1 sampleZeros
    mountMedia sha256 m = .ok ⟨true, 1, false, volumeId (m sfTxnHeader), sampleZeros⟩ := by
  intro sha256 m
  have hw : Written sha256 legacy m false 1 sampleZeros :=
    written_laidOut sha256 legacy (by decide) (by decide) (by decide)
  have hfree : CollisionFree sha256 (bankMem m false) := by
    rw [hw.bank]
    intro i hi n _
    have hcount : u32 (encodeIn sha256 legacy 1 sampleZeros) 16 = 1 := by decide
    obtain rfl : i = 0 := by omega
    have hn : n = 2 := by decide
    rw [hn]
    decide
  refine ((legacy_compatible sha256).loads (Or.inl rfl) hw fun _ => hfree).mounts fun g' t' h => ?_
  rw [Bool.not_false, laidOut_other] at h
  cases h

end Sample

end SpiritFox.Txn
