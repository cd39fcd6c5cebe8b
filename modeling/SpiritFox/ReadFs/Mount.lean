import Mathlib.Data.List.Pairwise
import SpiritFox.Abi
import SpiritFox.Lib.ByteMem
import SpiritFox.Lib.Checks
import SpiritFox.ReadFs.Path

/-!
# Mounting a read-only image

`services/readfs.c` reads the SFRFS1 format: a header sector, a table of at most sixteen 128-byte records, and the
files, each at a sector boundary. The reader trusts nothing that it reads: `sf_readfs_mount` checks every field, and
each record against the records before it. A sector read fails with a code of `sf.h`, which every function passes
on.

`mount_sound` says what a mounted image is: the extents lie behind the table, at sector boundaries and apart from
each other, the paths are strictly sorted, and no file is a directory of another. The reader looks for directories
among the earlier records only, and that is enough because a directory sorts before what is in it.
-/

namespace SpiritFox.ReadFs

open ByteMem Checks List

/-- `SF_READFS_MAX_ENTRIES` -/
def maxEntries : Nat := 16

/-- `SF_READFS_FILE_MAX` -/
def fileMax : Nat := 131072

/-- `SF_READFS_IMAGE_MAX` -/
def imageMax : Nat := 8388608

/-- `"SFRFS1\0\0"` -/
def magic : List UInt8 := [83, 70, 82, 70, 83, 49, 0, 0]

def u32 (m : Mem) (a : Nat) : Nat := load m a 4
def u64 (m : Mem) (a : Nat) : Nat := load m a 8

/-- The next sector boundary. -/
def roundUp (n : Nat) : Nat := (n + 511) / 512 * 512

/-- `SfSectorRead` -/
abbrev SfSectorRead := Nat → Except SfError (Block 512)

structure SfReadFile where
  path : List UInt8
  offset : Nat
  bytes : Nat
  hash : List UInt8
  deriving DecidableEq

/-- `SfReadFs`, with the occupied part of the array. -/
structure SfReadFs where
  read : SfSectorRead
  capacity : Nat
  mounted : Bool
  files : List SfReadFile

/-! ## The reader -/

/-- The fields of the header that are fixed. -/
def headerOk (h : Mem) (capacity : Nat) : Bool :=
  slice h 0 8 = magic && u32 h 8 = 1 && u32 h 12 = 512 && u64 h 16 = capacity && u32 h 28 = 128 && u64 h 32 = 512 &&
    isZero h 80 432

/-- The loop that reads the table from `off` on; what a sector has behind the table is zero. -/
def readTable (read : SfSectorRead) (bytes : Nat) : Nat → Nat → Mem → Except SfError Mem
  | 0, _, table => .ok table
  | rounds + 1, off, table => do
    let sector ← read (1 + off / 512)
    let n := min 512 (bytes - off)
    if n < 512 ∧ isZero sector.mem n (512 - n) = false then throw .badFormat
    else readTable read bytes rounds (off + 512) (blit table off (slice sector.mem 0 n))

/-- Record `i` on its own. -/
def decodeEntry (table : Mem) (capacity start i : Nat) : Except SfError SfReadFile :=
  let e := i * 128
  let path := cString (slice table e 64)
  if path.length = 64 ∨ isZero table (e + path.length) (64 - path.length) = false ∨ u32 table (e + 112) ≠ 1 ∨
      isZero table (e + 116) 12 = false then throw .badFormat
  else
    let f : SfReadFile := ⟨path, u64 table (e + 64), u64 table (e + 72), slice table (e + 80) 32⟩
    if sfReadfsPath f.path = false ∨ f.bytes = 0 ∨ fileMax < f.bytes ∨ f.offset % 512 ≠ 0 ∨ f.offset < start ∨
        capacity < f.offset ∨ capacity - f.offset < f.bytes then throw .badFormat
    else pure f

/-- The file `g` is a directory of `f`. -/
def isAncestor (g f : SfReadFile) : Bool := (g.path ++ [slash]).isPrefixOf f.path

/-- The extents share a byte. -/
def overlap (f g : SfReadFile) : Bool := f.offset < g.offset + g.bytes && g.offset < f.offset + f.bytes

/-- The loop over the records still to come. -/
def decodeEntries (table : Mem) (capacity start : Nat) : List Nat → List SfReadFile → Except SfError (List SfReadFile)
  | [], files => pure files
  | i :: is, files => do
    let f ← decodeEntry table capacity start i
    if ∃ g ∈ files.getLast?, 0 ≤ strcmp g.path f.path then throw .badFormat
    else if ∃ g ∈ files, overlap f g = true ∨ isAncestor g f = true then throw .badFormat
    else decodeEntries table capacity start is (files ++ [f])

section Sha

variable (sha256 : List UInt8 → Digest)

def sfReadfsMount (read : SfSectorRead) (capacity : Nat) : Except SfError SfReadFs :=
  if capacity < 1024 ∨ imageMax < capacity ∨ capacity % 512 ≠ 0 then throw .badFormat
  else do
    let header ← read 0
    let h := header.mem
    if headerOk h capacity = false then throw .badFormat
    else
      let count := u32 h 24
      let bytes := u64 h 40
      if count = 0 ∨ maxEntries < count ∨ bytes ≠ count * 128 ∨ capacity < 512 + bytes then throw .badFormat
      else do
        let table ← readTable read bytes ((bytes + 511) / 512) 0 zeros
        if (sha256 (slice table 0 bytes)).toList ≠ slice h 48 32 then throw .badFormat
        else do
          let files ← decodeEntries table capacity (roundUp (512 + bytes)) (List.range count) []
          pure ⟨read, capacity, true, files⟩

def sfReadfsFind (fs : SfReadFs) (path : List UInt8) : Except SfError Nat :=
  if fs.mounted = false then throw .deviceGone
  else if sfReadfsPath path = false then throw .invalid
  else match fs.files.findIdx? (fun f => strcmp f.path (cString path) = 0) with
    | some i => pure i
    | none => throw .notFound

/-- The loop of `sf_readfs_read`: the bytes left, from `position` on; every round takes at least one. -/
def readLoop (read : SfSectorRead) : Nat → Nat → Nat → Except SfError (List UInt8)
  | 0, _, _ => .ok []
  | rounds + 1, position, left =>
    if left = 0 then .ok []
    else do
      let sector ← read (position / 512)
      let n := min (512 - position % 512) left
      let rest ← readLoop read rounds (position + n) (left - n)
      pure (slice sector.mem (position % 512) n ++ rest)

/-- The bytes that `sf_readfs_read` stores; it returns their number. -/
def sfReadfsRead (fs : SfReadFs) (index offset bytes : Nat) : Except SfError (List UInt8) :=
  if fs.mounted = false then throw .deviceGone
  else match fs.files[index]? with
    | none => throw .invalid
    | some f =>
      if f.bytes ≤ offset ∨ bytes = 0 then pure []
      else
        let bytes := min bytes (f.bytes - offset)
        readLoop fs.read bytes (f.offset + offset) bytes

/-- The bytes that `sf_readfs_load` stores; it returns their number. -/
def sfReadfsLoad (fs : SfReadFs) (index capacity : Nat) : Except SfError (List UInt8) :=
  if fs.mounted = false then throw .deviceGone
  else match fs.files[index]? with
    | none => throw .invalid
    | some f =>
      if capacity < f.bytes then throw .noSpace
      else do
        let data ← sfReadfsRead fs index 0 f.bytes
        if data.length ≠ f.bytes then throw .badFormat
        else if (sha256 data).toList ≠ f.hash then throw .badFormat
        else pure data

end Sha

/-! ## What a record says -/

/-- Record `i` of the table is that of `f`. -/
structure Record (table : Mem) (i : Nat) (f : SfReadFile) : Prop where
  path : cString (slice table (i * 128) 64) = f.path
  short : f.path.length ≠ 64
  pad : isZero table (i * 128 + f.path.length) (64 - f.path.length) = true
  offset : u64 table (i * 128 + 64) = f.offset
  bytes : u64 table (i * 128 + 72) = f.bytes
  hash : slice table (i * 128 + 80) 32 = f.hash
  kind : u32 table (i * 128 + 112) = 1
  reserved : isZero table (i * 128 + 116) 12 = true

/-- A file with a good path whose extent lies at a sector boundary between `start` and the end of the image. -/
structure Placed (capacity start : Nat) (f : SfReadFile) : Prop where
  path_ok : sfReadfsPath f.path = true
  bytes_pos : 0 < f.bytes
  bytes_le : f.bytes ≤ fileMax
  aligned : f.offset % 512 = 0
  start_le : start ≤ f.offset
  end_le : f.offset + f.bytes ≤ capacity

/-- The file `g` comes before `f`, apart from it, and is no directory of it. -/
structure Apart (g f : SfReadFile) : Prop where
  lt : g.path < f.path
  disjoint : g.offset + g.bytes ≤ f.offset ∨ f.offset + f.bytes ≤ g.offset
  file : ¬ g.path ++ [slash] <+: f.path

section Records

variable {table : Mem} {capacity start i : Nat} {f : SfReadFile} {files out : List SfReadFile}

theorem decodeEntry_eq_ok : decodeEntry table capacity start i = .ok f ↔ Record table i f ∧ Placed capacity start f := by
  unfold decodeEntry
  dsimp only
  rw [guard_eq_ok, guard_eq_ok, pure_eq_ok]
  simp only [not_or, Bool.not_eq_false, ne_eq, not_not, Nat.not_lt]
  constructor
  · rintro ⟨⟨hlen, hpad, hkind, hreserved⟩, ⟨hpath, hpos, hmax, haligned, hstart, hcap, hend⟩, rfl⟩
    exact ⟨⟨rfl, hlen, hpad, rfl, rfl, rfl, hkind, hreserved⟩, hpath, Nat.pos_of_ne_zero hpos, hmax, haligned, hstart,
      by dsimp only at hcap hend ⊢; omega⟩
  · rintro ⟨h, hf⟩
    obtain ⟨path, offset, bytes, hash⟩ := f
    obtain ⟨rfl, hlen, hpad, rfl, rfl, rfl, hkind, hreserved⟩ := h
    have hend := hf.end_le
    dsimp only at hend
    exact ⟨⟨hlen, hpad, hkind, hreserved⟩, ⟨hf.path_ok, Nat.ne_of_gt hf.bytes_pos, hf.bytes_le, hf.aligned, hf.start_le,
      by omega, by omega⟩, rfl⟩

theorem zero_notMem_cString (p : List UInt8) : 0 ∉ cString p := fun h => by
  have := all_eq_true.1 (all_takeWhile (p := (· != 0)) (l := p)) 0 h
  exact absurd this (by decide)

theorem Record.zero_notMem (h : Record table i f) : 0 ∉ f.path := h.path ▸ zero_notMem_cString _

/-- What the two loops of a round establish, since the last file of a sorted list is the greatest. -/
theorem apart_iff (hfiles : files.Pairwise Apart) (h0 : 0 ∉ f.path) :
    (¬ ∃ g ∈ files.getLast?, 0 ≤ strcmp g.path f.path) ∧ (¬ ∃ g ∈ files, overlap f g = true ∨ isAncestor g f = true) ↔
      ∀ g ∈ files, Apart g f := by
  have hrest : ∀ g, ¬ (overlap f g = true ∨ isAncestor g f = true) ↔
      (g.offset + g.bytes ≤ f.offset ∨ f.offset + f.bytes ≤ g.offset) ∧ ¬ g.path ++ [slash] <+: f.path := by
    intro g
    rw [not_or, overlap, isAncestor, List.isPrefixOf_iff_prefix, Bool.and_eq_true, decide_eq_true_eq, decide_eq_true_eq]
    exact and_congr_left' (by omega)
  have hlt : ∀ g : SfReadFile, ¬ 0 ≤ strcmp g.path f.path ↔ g.path < f.path := fun g => by rw [Int.not_le, strcmp_neg h0]
  simp only [not_exists, not_and, hrest, hlt]
  constructor
  · rintro ⟨hlast, hall⟩ g hg
    refine ⟨?_, (hall g hg).1, (hall g hg).2⟩
    rcases List.eq_nil_or_concat files with rfl | ⟨init, g', rfl⟩
    · cases hg
    rw [List.concat_eq_append] at hg hlast hfiles
    have hg' : g'.path < f.path := hlast g' (by simp)
    rcases List.mem_append.1 hg with hg | hg
    · exact List.lt_trans ((List.pairwise_append.1 hfiles).2.2 g hg g' List.mem_cons_self).lt hg'
    · rwa [List.mem_singleton.1 hg]
  · intro h
    exact ⟨fun g hg => (h g (List.mem_of_mem_getLast? hg)).lt, fun g hg => ⟨(h g hg).disjoint, (h g hg).file⟩⟩

/-- One round. -/
theorem decodeEntries_cons {is : List Nat} (hfiles : files.Pairwise Apart) :
    decodeEntries table capacity start (i :: is) files = .ok out ↔
      ∃ f, decodeEntry table capacity start i = .ok f ∧ (∀ g ∈ files, Apart g f) ∧
      decodeEntries table capacity start is (files ++ [f]) = .ok out := by
  rw [decodeEntries, bind_eq_ok]
  refine exists_congr fun f => and_congr_right fun hf => ?_
  rw [guard_eq_ok, guard_eq_ok, ← and_assoc, apart_iff hfiles (decodeEntry_eq_ok.1 hf).1.zero_notMem]

theorem pairwise_concat (hfiles : files.Pairwise Apart) (hf : ∀ g ∈ files, Apart g f) : (files ++ [f]).Pairwise Apart :=
  pairwise_append.2 ⟨hfiles, pairwise_singleton _ _, fun g hg _ hf' => mem_singleton.1 hf' ▸ hf g hg⟩

/-- What the records of an accepted table are. -/
theorem decodeEntries_sound : ∀ {is : List Nat} {files : List SfReadFile}, files.Pairwise Apart →
    (∀ f ∈ files, Placed capacity start f) → decodeEntries table capacity start is files = .ok out →
      out.Pairwise Apart ∧ (∀ f ∈ out, Placed capacity start f) ∧ out.length = files.length + is.length
  | [], files, hfiles, hplaced, h => by
    obtain rfl := pure_eq_ok.1 h
    exact ⟨hfiles, hplaced, rfl⟩
  | i :: is, files, hfiles, hplaced, h => by
    obtain ⟨f, hf, hapart, hrest⟩ := (decodeEntries_cons hfiles).1 h
    have hplaced' : ∀ g ∈ files ++ [f], Placed capacity start g :=
      fun g hg => (mem_append.1 hg).elim (hplaced g) fun hg =>
      mem_singleton.1 hg ▸ (decodeEntry_eq_ok.1 hf).2
    obtain ⟨hout, hok, hlen⟩ := decodeEntries_sound (pairwise_concat hfiles hapart) hplaced' hrest
    refine ⟨hout, hok, ?_⟩
    rw [hlen, length_append, length_singleton, length_cons]
    omega

/-- A table of good records in a good order is accepted. -/
theorem decodeEntries_complete : ∀ {rest files : List SfReadFile} {k : Nat},
    (∀ j (hj : j < rest.length), decodeEntry table capacity start (k + j) = .ok rest[j]) → (files ++ rest).Pairwise Apart →
      decodeEntries table capacity start (range' k rest.length) files = .ok (files ++ rest)
  | [], files, k, _, _ => by
    rw [append_nil]
    rfl
  | f :: rest, files, k, hrecords, hpair => by
    obtain ⟨hfiles, -, hcross⟩ := pairwise_append.1 hpair
    rw [length_cons, range'_succ, decodeEntries_cons hfiles]
    refine ⟨f, hrecords 0 (Nat.zero_lt_succ _), fun g hg => hcross g hg f mem_cons_self, ?_⟩
    have hnext : (files ++ [f]) ++ rest = files ++ f :: rest := by simp
    rw [← hnext]
    refine decodeEntries_complete (fun j hj => ?_) (hnext ▸ hpair)
    have := hrecords (j + 1) (Nat.succ_lt_succ hj)
    rwa [getElem_cons_succ, ← Nat.add_assoc, Nat.add_right_comm] at this

end Records

/-! ## What a mounted image is -/

/-- The files of an image of `capacity` bytes that can be trusted to be an image. -/
structure Sound (capacity : Nat) (fs : SfReadFs) : Prop where
  size : fs.capacity = capacity
  count : 1 ≤ fs.files.length ∧ fs.files.length ≤ maxEntries
  placed : ∀ f ∈ fs.files, Placed capacity (roundUp (512 + fs.files.length * 128)) f
  apart : fs.files.Pairwise Apart
  file : ∀ g ∈ fs.files, ∀ f ∈ fs.files, ¬ g.path ++ [slash] <+: f.path

section Mount

variable {sha256 : List UInt8 → Digest} {read : SfSectorRead} {capacity : Nat} {fs : SfReadFs}

theorem sfReadfsMount_eq_ok : sfReadfsMount sha256 read capacity = .ok fs ↔
    (1024 ≤ capacity ∧ capacity ≤ imageMax ∧ capacity % 512 = 0) ∧ ∃ header, read 0 = .ok header ∧
      headerOk header.mem capacity = true ∧ ∃ count, u32 header.mem 24 = count ∧ u64 header.mem 40 = count * 128 ∧
      (0 < count ∧ count ≤ maxEntries ∧ 512 + count * 128 ≤ capacity) ∧
      ∃ table, readTable read (count * 128) ((count * 128 + 511) / 512) 0 zeros = .ok table ∧
        (sha256 (slice table 0 (count * 128))).toList = slice header.mem 48 32 ∧
        ∃ files, decodeEntries table capacity (roundUp (512 + count * 128)) (range count) [] = .ok files ∧
          ⟨read, capacity, true, files⟩ = fs := by
  unfold sfReadfsMount
  simp only [guard_eq_ok, bind_eq_ok, pure_eq_ok, not_or, Nat.not_lt, ne_eq, not_not, Bool.not_eq_false]
  refine and_congr_right fun _ => exists_congr fun header => and_congr_right fun _ => and_congr_right fun _ => ?_
  constructor
  · rintro ⟨⟨hpos, hmax, hbytes, hcap⟩, hrest⟩
    rw [hbytes] at hcap hrest
    exact ⟨_, rfl, hbytes, ⟨Nat.pos_of_ne_zero hpos, hmax, hcap⟩, hrest⟩
  · rintro ⟨count, rfl, hbytes, ⟨hpos, hmax, hcap⟩, hrest⟩
    rw [hbytes]
    exact ⟨⟨Nat.ne_of_gt hpos, hmax, rfl, hcap⟩, hrest⟩

/-- A directory sorts before what is in it. -/
theorem lt_of_ancestor {g f : List UInt8} (h : g ++ [slash] <+: f) : g < f := by
  obtain ⟨t, rfl⟩ := h
  induction g with
  | nil => exact nil_lt_cons _ _
  | cons a g ih => exact cons_lt_cons_iff.2 (Or.inr ⟨rfl, ih⟩)

/-- **Every image that is mounted is sound.** -/
theorem mount_sound (h : sfReadfsMount sha256 read capacity = .ok fs) : Sound capacity fs := by
  obtain ⟨-, header, -, -, count, -, -, ⟨hpos, hmax, -⟩, table, -, -, files, hfiles, rfl⟩ := sfReadfsMount_eq_ok.1 h
  obtain ⟨hapart, hplaced, hlen⟩ := decodeEntries_sound List.Pairwise.nil (fun _ hf => by cases hf) hfiles
  rw [List.length_nil, Nat.zero_add, List.length_range] at hlen
  subst hlen
  have hflip : ∀ g f, Apart f g → ¬ g.path ++ [slash] <+: f.path := fun g f hfg h => List.lt_asymm (lt_of_ancestor h) hfg.lt
  refine ⟨rfl, ⟨hpos, hmax⟩, hplaced, hapart, ?_⟩
  refine List.Pairwise.forall_of_forall_of_flip (fun f _ h => ?_) (hapart.imp Apart.file) (hapart.imp fun {f g} => hflip g f)
  exact List.lt_irrefl _ (lt_of_ancestor h)

/-! ## Reading an image -/

/-- The sectors of the image are read without a failure. -/
def Serves (read : SfSectorRead) (image : Mem) (capacity : Nat) : Prop :=
  ∀ n, n < capacity / 512 → read n = .ok (blockAt 512 image (n * 512))

variable {image : Mem}

theorem readTable_serves (hserves : Serves read image capacity) {bytes : Nat} (hcap : roundUp (512 + bytes) ≤ capacity)
    (hzero : isZero image (512 + bytes) (roundUp (512 + bytes) - (512 + bytes)) = true) :
    ∀ (rounds off : Nat) (table : Mem), off % 512 = 0 → rounds = (bytes - off + 511) / 512 →
      (∀ i < bytes, i < off → table i = image (512 + i)) →
      ∃ table', readTable read bytes rounds off table = .ok table' ∧ ∀ i < bytes, table' i = image (512 + i)
  | 0, off, table, _, hrounds, htable => ⟨table, rfl, fun i hi => htable i hi (by omega)⟩
  | rounds + 1, off, table, haligned, hrounds, htable => by
    unfold roundUp at hcap hzero
    have hsector : read (1 + off / 512) = .ok (blockAt 512 image (512 + off)) := by
      rw [hserves _ (by omega), show (1 + off / 512) * 512 = 512 + off by omega]
    have hslice : slice (blockAt 512 image (512 + off)).mem 0 (min 512 (bytes - off)) =
        slice image (512 + off) (min 512 (bytes - off)) := slice_blockAt image (512 + off) (by omega)
    have hpad : ¬ (min 512 (bytes - off) < 512 ∧
        isZero (blockAt 512 image (512 + off)).mem (min 512 (bytes - off)) (512 - min 512 (bytes - off)) = false) := by
      rintro ⟨hshort, hnot⟩
      rw [← Bool.not_eq_true, isZero_iff] at hnot
      refine hnot fun i hi => ?_
      rw [blockAt_mem _ _ (by omega)]
      have := isZero_iff.1 hzero i (by omega)
      rwa [show 512 + bytes + i = 512 + off + (min 512 (bytes - off) + i) by omega] at this
    obtain ⟨table', hrun, htable'⟩ := readTable_serves hserves hcap hzero rounds (off + 512)
      (blit table off (slice image (512 + off) (min 512 (bytes - off)))) (by omega) (by omega) fun i hi hoff => by
        by_cases hold : i < off
        · rw [blit_of_lt (Or.inl hold)]
          exact htable i hi hold
        obtain ⟨j, rfl⟩ := Nat.exists_eq_add_of_le (Nat.not_lt.1 hold)
        have hj : j < min 512 (bytes - off) := by omega
        rw [blit_of_mem (by rwa [length_slice])]
        simp [slice, hj, Nat.add_assoc]
    refine ⟨table', ?_, htable'⟩
    rw [readTable, hsector]
    dsimp only [bind, Except.bind]
    rw [if_neg hpad, hslice]
    exact hrun

theorem readLoop_serves (hserves : Serves read image capacity) (hcap : capacity % 512 = 0) : ∀ (rounds position left : Nat),
    left ≤ rounds → position + left ≤ capacity → readLoop read rounds position left = .ok (slice image position left)
  | 0, position, left, hleft, _ => by
    obtain rfl := Nat.le_zero.1 hleft
    rfl
  | rounds + 1, position, left, hleft, hend => by
    unfold readLoop
    split
    · rename_i h
      subst h
      rfl
    have hn : position % 512 + min (512 - position % 512) left ≤ 512 := by omega
    rw [hserves (position / 512) (by omega)]
    dsimp only [bind, Except.bind]
    rw [readLoop_serves hserves hcap rounds _ _ (by omega) (by omega)]
    dsimp only
    rw [slice_blockAt _ _ hn, show position / 512 * 512 + position % 512 = position by omega, ← slice_add]
    exact congrArg (fun n => Except.ok (slice image position n)) (by omega)

/-- A file whose digest is that of its extent is loaded. -/
theorem sfReadfsLoad_serves {index room : Nat} {f : SfReadFile} (hmounted : fs.mounted = true)
    (hf : fs.files[index]? = some f) (hserves : Serves fs.read image capacity) (hcap : capacity % 512 = 0)
    (hpos : 0 < f.bytes)
    (hend : f.offset + f.bytes ≤ capacity) (hhash : (sha256 (slice image f.offset f.bytes)).toList = f.hash)
    (hroom : f.bytes ≤ room) :
    sfReadfsLoad sha256 fs index room = .ok (slice image f.offset f.bytes) := by
  have hread : sfReadfsRead fs index 0 f.bytes = .ok (slice image f.offset f.bytes) := by
    unfold sfReadfsRead
    rw [hf, if_neg (by rw [hmounted]; decide)]
    dsimp only
    rw [if_neg (by omega), Nat.sub_zero, Nat.min_self]
    exact readLoop_serves hserves hcap _ _ _ (Nat.le_refl _) hend
  unfold sfReadfsLoad
  rw [hf, if_neg (by rw [hmounted]; decide)]
  dsimp only
  rw [if_neg (by omega), hread]
  dsimp only [bind, Except.bind]
  rw [if_neg (by rw [length_slice]; exact fun h => h rfl), if_neg (fun h => h hhash)]
  rfl

end Mount

end SpiritFox.ReadFs
