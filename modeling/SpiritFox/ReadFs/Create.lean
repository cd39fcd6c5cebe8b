import Mathlib.Data.Char
import Mathlib.Data.List.Lex
import Mathlib.Data.List.Sort
import SpiritFox.ReadFs.Mount

/-!
# Creating a read-only image

`create` of `tools/package/mkreadfs.py` writes the SFRFS1 format: it sorts the files by path, and puts each at the
next sector boundary and its record into the table. A Python dictionary is a list of pairs with distinct keys,
`bytearray`s are memories, and an exception is `none`.

The writer and the reader share no code. `layOut` is where the files go, and `packEntries_spec` says that the loop
of the writer leaves their records and their data behind; what the reader makes of them is `Created.mount`, and
`image_round_trip` the whole.
-/

namespace SpiritFox.ReadFs

open ByteMem Checks List

/-! ## The writer -/

/-- A dictionary from paths to contents. -/
structure FileSet where
  items : List (Str × List UInt8)
  nodup : (items.map Prod.fst).Nodup

/-- A bytes field of `struct.pack`: cut or padded to `n` bytes. -/
def field (n : Nat) (bs : List UInt8) : List UInt8 := (bs ++ List.replicate n 0).take n

/-- `struct.pack('<64sQQ32sI12s', …)` -/
def packRecord (f : SfReadFile) : List UInt8 :=
  field 64 f.path ++ (toLe 8 f.offset ++ (toLe 8 f.bytes ++ (field 32 f.hash ++ (toLe 4 1 ++ List.replicate 12 0))))

/-- `struct.pack('<8sIIQIIQQ32s', …)` -/
def packHeader (imageBytes count tableBytes : Nat) (digest : Digest) : List UInt8 :=
  magic ++ (toLe 4 1 ++ (toLe 4 512 ++ (toLe 8 imageBytes ++ (toLe 4 count ++ (toLe 4 128 ++ (toLe 8 512 ++
    (toLe 8 tableBytes ++ digest.toList)))))))

/-- The variables of the loop. -/
structure Writer where
  table : Mem
  result : Mem
  position : Nat

section Create

variable (sha256 : List UInt8 → Digest)

/-- The loop over the entries still to come; `previous` are the paths of the others. -/
def packEntries (imageBytes : Nat) : List Str → List (Str × List UInt8) → Writer → Option Writer
  | _, [], w => some w
  | previous, (path, data) :: rest, w => do
    let valid ← validPath path
    if valid = false ∨ ¬ (0 < data.length ∧ data.length ≤ fileMax) ∨ imageBytes < w.position + data.length then none
    else if ∃ p ∈ previous, p ++ ['/'] <+: path then none
    else do
      let encoded ← encodeAscii path
      packEntries imageBytes (previous ++ [path]) rest
        { table := blit w.table (previous.length * 128) (packRecord ⟨encoded, w.position, data.length, (sha256 data).toList⟩)
          result := blit w.result w.position data
          position := roundUp (w.position + data.length) }

/-- `sorted(files.items())`; the keys are distinct, so the contents are never compared. -/
def sorted (files : FileSet) : List (Str × List UInt8) := files.items.insertionSort fun p q => p.1 ≤ q.1

def create (files : FileSet) (imageBytes : Nat) : Option Mem :=
  if ¬ (1024 ≤ imageBytes ∧ imageBytes ≤ imageMax) ∨ imageBytes % 512 ≠ 0 ∨
      ¬ (1 ≤ files.items.length ∧ files.items.length ≤ 16) then none
  else do
    let entries := sorted files
    let tableBytes := 128 * entries.length
    let w ← packEntries sha256 imageBytes [] entries ⟨zeros, zeros, roundUp (512 + tableBytes)⟩
    let result := blit w.result 0 (packHeader imageBytes entries.length tableBytes (sha256 (slice w.table 0 tableBytes)))
    some (blit result 512 (slice w.table 0 tableBytes))

/-! ## Where the files go -/

/-- The files from `position` on, with their contents. -/
def layOut : Nat → List (Str × List UInt8) → List (SfReadFile × List UInt8)
  | _, [] => []
  | position, (path, data) :: rest =>
    (⟨ascii path, position, data.length, (sha256 data).toList⟩, data) :: layOut (roundUp (position + data.length)) rest

/-- The files of the image, as the reader is to find them. -/
def filesOf (position : Nat) (es : List (Str × List UInt8)) : List SfReadFile := (layOut sha256 position es).map Prod.fst

variable {sha256} {imageBytes position : Nat} {previous : List Str} {es : List (Str × List UInt8)} {w w' : Writer}

theorem length_layOut : ∀ (position : Nat) (es : List (Str × List UInt8)), (layOut sha256 position es).length = es.length
  | _, [] => rfl
  | _, _ :: es => congrArg (· + 1) (length_layOut _ es)

theorem roundUp_le (n : Nat) : n ≤ roundUp n := by
  unfold roundUp
  omega

theorem roundUp_mod (n : Nat) : roundUp n % 512 = 0 := by
  unfold roundUp
  omega

/-- The entry a file comes from. -/
theorem mem_layOut : ∀ {position : Nat} {es : List (Str × List UInt8)}, position % 512 = 0 → ∀ x ∈ layOut sha256 position es,
    (∃ p, (p, x.2) ∈ es ∧ x.1.path = ascii p) ∧ x.1.bytes = x.2.length ∧ x.1.hash = (sha256 x.2).toList ∧
    position ≤ x.1.offset ∧ x.1.offset % 512 = 0
  | _, [], _, _, hx => by cases hx
  | position, (path, data) :: es, haligned, x, hx => by
    rcases mem_cons.1 hx with rfl | hx
    · exact ⟨⟨path, mem_cons_self, rfl⟩, rfl, rfl, Nat.le_refl _, haligned⟩
    obtain ⟨⟨p, hp, hpath⟩, hbytes, hhash, hle, hmod⟩ := mem_layOut (roundUp_mod _) x hx
    have hround := roundUp_le (position + data.length)
    exact ⟨⟨p, mem_cons_of_mem _ hp, hpath⟩, hbytes, hhash, by omega, hmod⟩

theorem exists_layOut {p : Str} {data : List UInt8} : ∀ (position : Nat) {es : List (Str × List UInt8)}, (p, data) ∈ es →
    ∃ x ∈ layOut sha256 position es, x.1.path = ascii p ∧ x.2 = data
  | _, [], h => by cases h
  | position, (path, data') :: es, h => by
    rcases mem_cons.1 h with h | h
    · cases h
      exact ⟨_, mem_cons_self, rfl, rfl⟩
    · obtain ⟨x, hx, hpath, hdata⟩ := exists_layOut (roundUp (position + data'.length)) h
      exact ⟨x, mem_cons_of_mem _ hx, hpath, hdata⟩

theorem paths_filesOf : ∀ (position : Nat) (es : List (Str × List UInt8)),
    (filesOf sha256 position es).map SfReadFile.path = es.map fun e => ascii e.1
  | _, [] => rfl
  | _, _ :: es => congrArg (_ :: ·) (paths_filesOf _ es)

/-- The entry `e` may come before `e'`. -/
def Before (e e' : Str × List UInt8) : Prop := e.1 < e'.1 ∧ ¬ e.1 ++ ['/'] <+: e'.1

theorem ancestor_ascii {g f : Str} (hg : IsAscii g) (hf : IsAscii f) : ascii g ++ [slash] <+: ascii f ↔
    g ++ ['/'] <+: f := by
  have hslash : ascii g ++ [slash] = ascii (g ++ ['/']) := by
    simp [ascii]
    rfl
  have hgs : IsAscii (g ++ ['/']) := forall_mem_append.2 ⟨hg, by simp⟩
  rw [hslash, prefix_iff_eq_take, prefix_iff_eq_take, ascii, ascii, length_map, ← map_take]
  exact ascii_inj hgs fun c hc => hf c (mem_of_mem_take hc)

theorem apart_filesOf : ∀ {position : Nat} {es : List (Str × List UInt8)}, position % 512 = 0 → (∀ e ∈ es, IsAscii e.1) →
    es.Pairwise Before → (filesOf sha256 position es).Pairwise Apart
  | _, [], _, _, _ => List.Pairwise.nil
  | position, (path, data) :: es, _, hascii, hes => by
    obtain ⟨hhead, htail⟩ := pairwise_cons.1 hes
    have hascii' : ∀ e ∈ es, IsAscii e.1 := fun e he => hascii e (mem_cons_of_mem _ he)
    refine pairwise_cons.2 ⟨fun f hf => ?_, apart_filesOf (roundUp_mod _) hascii' htail⟩
    obtain ⟨x, hx, rfl⟩ := mem_map.1 hf
    obtain ⟨⟨p, hp, hpath⟩, -, -, hle, -⟩ := mem_layOut (roundUp_mod _) x hx
    have hround := roundUp_le (position + data.length)
    have hpath' := hascii _ mem_cons_self
    have hp' := hascii _ (mem_cons_of_mem _ hp)
    refine ⟨?_, Or.inl (Nat.le_trans hround hle), ?_⟩
    · rw [hpath]
      exact (ascii_lt hpath' hp').2 (hhead _ hp).1
    · rw [hpath]
      exact fun h => (hhead _ hp).2 ((ancestor_ascii hpath' hp').1 h)

/-! ## The loop of the writer -/

theorem isAscii_of_validPath {path : Str} (h : validPath path = some true) : IsAscii path := by
  by_contra hascii
  simp [validPath, encodeAscii, hascii] at h

/-- The writer after one entry. -/
def Writer.put (sha256 : List UInt8 → Digest) (w : Writer) (i : Nat) (path : Str) (data : List UInt8) : Writer :=
  { table := blit w.table (i * 128) (packRecord ⟨ascii path, w.position, data.length, (sha256 data).toList⟩)
    result := blit w.result w.position data
    position := roundUp (w.position + data.length) }

theorem packEntries_cons {path : Str} {data : List UInt8} :
    packEntries sha256 imageBytes previous ((path, data) :: es) w = some w' ↔
    (validPath path = some true ∧ 0 < data.length ∧ data.length ≤ fileMax) ∧ w.position + data.length ≤ imageBytes ∧
      (∀ p ∈ previous, ¬ p ++ ['/'] <+: path) ∧
      packEntries sha256 imageBytes (previous ++ [path]) es (w.put sha256 previous.length path data) = some w' := by
  rw [packEntries]
  rcases hvalid : validPath path with - | - | -
  · simp
  · simp
  have hencode : encodeAscii path = some (ascii path) := if_pos (isAscii_of_validPath hvalid)
  simp only [hencode, Option.bind_eq_bind, Option.bind_some, Option.ite_none_left_eq_some, not_or, not_and, not_exists,
    Nat.not_lt, Writer.put, Classical.not_imp, not_not, Bool.true_eq_false, not_false_eq_true, true_and, and_assoc]

@[simp] theorem length_field (n : Nat) (bs : List UInt8) : (field n bs).length = n := by
  simp [field]

@[simp] theorem length_packRecord (f : SfReadFile) : (packRecord f).length = 128 := by
  simp [packRecord]

/-- What the loop has done to the entries. -/
structure Packed (sha256 : List UInt8 → Digest) (imageBytes : Nat) (previous : List Str) (es : List (Str × List UInt8))
    (w w' : Writer) : Prop where
  valid : ∀ e ∈ es, validPath e.1 = some true ∧ 0 < e.2.length ∧ e.2.length ≤ fileMax
  earlier : ∀ e ∈ es, ∀ p ∈ previous, ¬ p ++ ['/'] <+: e.1
  file : es.Pairwise fun e e' => ¬ e.1 ++ ['/'] <+: e'.1
  fits : ∀ f ∈ filesOf sha256 w.position es, f.offset + f.bytes ≤ imageBytes
  table : EqOn w'.table w.table 0 (previous.length * 128)
  records : ∀ i (hi : i < (filesOf sha256 w.position es).length),
    slice w'.table ((previous.length + i) * 128) 128 = packRecord (filesOf sha256 w.position es)[i]
  result : EqOn w'.result w.result 0 w.position
  data : ∀ x ∈ layOut sha256 w.position es, slice w'.result x.1.offset x.1.bytes = x.2

/-- By induction on the entries: a later entry touches neither the records nor the data of the earlier ones. -/
theorem packEntries_spec (h : packEntries sha256 imageBytes previous es w = some w') :
    Packed sha256 imageBytes previous es w w' := by
  induction es generalizing previous w with
  | nil =>
    obtain rfl := Option.some.inj h
    exact ⟨nofun, nofun, List.Pairwise.nil, nofun, fun _ _ _ => rfl, nofun, fun _ _ _ => rfl, nofun⟩
  | cons e es ih =>
    obtain ⟨path, data⟩ := e
    obtain ⟨hvalid, hend, hearlier, hrest⟩ := packEntries_cons.1 h
    replace ih := ih hrest
    have hround := roundUp_le (w.position + data.length)
    have htable := ih.table
    have hresult := ih.result
    rw [length_append, length_singleton] at htable
    refine ⟨?_, ?_, ?_, ?_, ?_, ?_, ?_, ?_⟩
    · exact forall_mem_cons.2 ⟨hvalid, ih.valid⟩
    · exact forall_mem_cons.2 ⟨hearlier, fun e he p hp => ih.earlier e he p (mem_append_left _ hp)⟩
    · exact pairwise_cons.2 ⟨fun e he => ih.earlier e he path (by simp), ih.file⟩
    · exact forall_mem_cons.2 ⟨hend, ih.fits⟩
    · intro i h₁ h₂
      exact (htable i h₁ (by omega)).trans (blit_of_lt (by omega))
    · rintro (- | i) hi
      · rw [htable.slice (Nat.zero_le _) (by omega)]
        have := slice_blit_self w.table (previous.length * 128)
          (packRecord ⟨ascii path, w.position, data.length, (sha256 data).toList⟩)
        rwa [length_packRecord] at this
      · have := ih.records i (Nat.lt_of_succ_lt_succ hi)
        rwa [length_append, length_singleton, Nat.add_assoc, Nat.add_comm 1] at this
    · intro i h₁ h₂
      exact (hresult i h₁ (by change i < 0 + roundUp _; omega)).trans (blit_of_lt (by omega))
    · refine forall_mem_cons.2 ⟨?_, ih.data⟩
      change slice w'.result w.position data.length = data
      rw [hresult.slice (Nat.zero_le _) (by change _ ≤ 0 + roundUp _; omega)]
      exact slice_blit_self _ _ _

/-! ## What the reader makes of it -/

theorem field_of_le {n : Nat} {bs : List UInt8} (h : bs.length ≤ n) :
    field n bs = bs ++ replicate (n - bs.length) 0 := by
  rw [field, take_append, take_of_length_le h, take_replicate, Nat.min_eq_left (Nat.sub_le _ _)]

/-- A record reads back. -/
theorem record_of_slice {table : Mem} {i : Nat} {f : SfReadFile} (hzero : 0 ∉ f.path) (hlen : f.path.length < 64)
    (hoffset : f.offset < 256 ^ 8) (hbytes : f.bytes < 256 ^ 8) (hhash : f.hash.length = 32)
    (h : slice table (i * 128) 128 = packRecord f) : Record table i f := by
  obtain ⟨h₁, h⟩ := (slice_eq_append (k := 64) (length_field 64 _)).1 h
  obtain ⟨h₂, h⟩ := (slice_eq_append (k := 56) (length_toLe 8 _)).1 h
  obtain ⟨h₃, h⟩ := (slice_eq_append (k := 48) (length_toLe 8 _)).1 h
  obtain ⟨h₄, h⟩ := (slice_eq_append (k := 16) (length_field 32 _)).1 h
  obtain ⟨h₅, h₆⟩ := (slice_eq_append (k := 12) (length_toLe 4 _)).1 h
  rw [field_of_le (Nat.le_of_lt hlen)] at h₁
  rw [field_of_le (Nat.le_of_eq hhash), hhash, Nat.sub_self, replicate_zero, append_nil] at h₄
  have hpath : slice table (i * 128) (f.path.length + (64 - f.path.length)) =
      f.path ++ replicate (64 - f.path.length) 0 := by
    rw [← h₁, show f.path.length + (64 - f.path.length) = 64 by omega]
  refine ⟨?_, by omega, ?_, ?_, ?_, h₄, ?_, ?_⟩
  · rw [h₁, show 64 - f.path.length = (63 - f.path.length) + 1 by omega, replicate_succ]
    exact takeWhile_terminated hzero _
  · rw [isZero, ((slice_eq_append rfl).1 hpath).2]
    simp
  · rw [u64, load, h₂, le_toLe hoffset]
  · rw [u64, load, h₃, le_toLe hbytes]
  · rw [u32, load, h₅]
    decide
  · rw [isZero, h₆]
    decide

theorem sorted_lt (files : FileSet) : (sorted files).Pairwise fun e e' => e.1 < e'.1 := by
  have htotal : Std.Total fun p q : Str × List UInt8 => p.1 ≤ q.1 := ⟨fun p q => le_total p.1 q.1⟩
  have htrans : IsTrans (Str × List UInt8) fun p q => p.1 ≤ q.1 := ⟨fun _ _ _ => le_trans⟩
  have hle := pairwise_insertionSort (fun p q : Str × List UInt8 => p.1 ≤ q.1) files.items
  have hnodup : ((sorted files).map Prod.fst).Nodup :=
    ((perm_insertionSort _ files.items).map Prod.fst).nodup_iff.2 files.nodup
  have hne : (sorted files).Pairwise fun e e' => e.1 ≠ e'.1 := pairwise_map.1 hnodup
  exact (hle.and hne).imp fun h => lt_of_le_of_ne h.1 h.2

/-- The sector at which the data of `n` files begins. -/
def dataStart (n : Nat) : Nat := roundUp (512 + n * 128)

/-- An image that the writer has made, with its table. -/
structure Created (sha256 : List UInt8 → Digest) (files : FileSet) (imageBytes : Nat) (image table : Mem) : Prop where
  size : 1024 ≤ imageBytes ∧ imageBytes ≤ imageMax ∧ imageBytes % 512 = 0
  count : 0 < (sorted files).length ∧ (sorted files).length ≤ maxEntries
  header : slice image 0 80 = packHeader imageBytes (sorted files).length ((sorted files).length * 128)
    (sha256 (slice table 0 ((sorted files).length * 128)))
  reserved : isZero image 80 432 = true
  directory : ∀ i < (sorted files).length * 128, image (512 + i) = table i
  gap : isZero image (512 + (sorted files).length * 128)
    (dataStart (sorted files).length - (512 + (sorted files).length * 128)) = true
  records : ∀ i (hi : i < (filesOf sha256 (dataStart (sorted files).length) (sorted files)).length),
    slice table (i * 128) 128 = packRecord (filesOf sha256 (dataStart (sorted files).length) (sorted files))[i]
  data : ∀ x ∈ layOut sha256 (dataStart (sorted files).length) (sorted files), slice image x.1.offset x.1.bytes = x.2
  placed : ∀ f ∈ filesOf sha256 (dataStart (sorted files).length) (sorted files),
    Placed imageBytes (dataStart (sorted files).length) f
  path : ∀ f ∈ filesOf sha256 (dataStart (sorted files).length) (sorted files), 0 ∉ f.path
  apart : (filesOf sha256 (dataStart (sorted files).length) (sorted files)).Pairwise Apart

@[simp] theorem length_packHeader (imageBytes count tableBytes : Nat) (digest : Digest) :
    (packHeader imageBytes count tableBytes digest).length = 80 := by
  simp [packHeader, magic]

theorem create_spec {files : FileSet} {image : Mem} (h : create sha256 files imageBytes = some image) :
    ∃ table, Created sha256 files imageBytes image table := by
  unfold create at h
  rw [Option.ite_none_left_eq_some] at h
  obtain ⟨hsize, h⟩ := h
  dsimp only at h
  rw [Nat.mul_comm 128, Option.bind_eq_bind, Option.bind_eq_some_iff] at h
  obtain ⟨w, hw, h⟩ := h
  have hlen : (sorted files).length = files.items.length := length_insertionSort _ _
  have hp := packEntries_spec hw
  have hstart : 512 + (sorted files).length * 128 ≤ dataStart (sorted files).length := roundUp_le _
  have haligned : dataStart (sorted files).length % 512 = 0 := roundUp_mod _
  have hascii : ∀ e ∈ sorted files, IsAscii e.1 := fun e he => isAscii_of_validPath (hp.valid e he).1
  have hresult : EqOn w.result zeros 0 (dataStart (sorted files).length) := hp.result
  have hlow : 512 ≤ 512 + (sorted files).length * 128 := Nat.le_add_right _ _
  -- the table is written last, and nothing else reaches behind the header sector
  have htable : ∀ {a n : Nat}, a + n ≤ 512 ∨ 512 + (sorted files).length * 128 ≤ a →
      EqOn image (blit w.result 0 (packHeader imageBytes (sorted files).length ((sorted files).length * 128)
        (sha256 (slice w.table 0 ((sorted files).length * 128))))) a n := by
    rintro a n hout
    rw [← Option.some.inj h]
    exact eqOn_blit (by rwa [length_slice])
  have hrest : ∀ {a n : Nat}, 80 ≤ a → a + n ≤ 512 ∨ 512 + (sorted files).length * 128 ≤ a → EqOn image w.result a n :=
    fun ha hout => (htable hout).trans (eqOn_blit (Or.inr (by rw [length_packHeader]; exact ha)))
  refine ⟨w.table, ⟨by omega, by omega, by omega⟩, ⟨by omega, by unfold maxEntries; omega⟩, ?_, ?_, ?_, ?_, ?_, ?_,
    ?_, ?_, ?_⟩
  · rw [(htable (a := 0) (n := 80) (Or.inl (by omega))).slice (Nat.le_refl _) (Nat.le_refl _)]
    have := slice_blit_self w.result 0 (packHeader imageBytes (sorted files).length ((sorted files).length * 128)
      (sha256 (slice w.table 0 ((sorted files).length * 128))))
    rwa [length_packHeader] at this
  · rw [(hrest (a := 80) (n := 432) (by omega) (Or.inl (by omega))).isZero (Nat.le_refl _) (Nat.le_refl _),
      hresult.isZero (by omega) (by omega), isZero_iff]
    exact fun _ _ => rfl
  · intro i hi
    rw [← Option.some.inj h, blit_of_mem (by rwa [length_slice])]
    simp [slice, hi]
  · rw [(hrest (by omega) (Or.inr (Nat.le_refl _))).isZero (Nat.le_refl _) (Nat.le_refl _),
      hresult.isZero (by omega) (by omega), isZero_iff]
    exact fun _ _ => rfl
  · intro i hi
    have := hp.records i hi
    rwa [length_nil, Nat.zero_add] at this
  · intro x hx
    obtain ⟨-, -, -, hle, -⟩ := mem_layOut haligned x hx
    rw [(hrest (by omega) (Or.inr (by omega))).slice (Nat.le_refl _) (Nat.le_refl _)]
    exact hp.data x hx
  · intro f hf
    have hfits := hp.fits f hf
    obtain ⟨x, hx, rfl⟩ := mem_map.1 hf
    obtain ⟨⟨p, hpe, hpath⟩, hbytes, -, hle, hmod⟩ := mem_layOut haligned x hx
    obtain ⟨hvalid, hpos, hmax⟩ := hp.valid _ hpe
    rw [← hbytes] at hpos hmax
    exact ⟨hpath ▸ ((validPath_iff (hascii _ hpe)).1 hvalid).2, hpos, hmax, hmod, hle, hfits⟩
  · intro f hf
    obtain ⟨x, hx, rfl⟩ := mem_map.1 hf
    obtain ⟨⟨p, hpe, hpath⟩, -⟩ := mem_layOut haligned x hx
    rw [hpath]
    exact ((validPath_iff (hascii _ hpe)).1 (hp.valid _ hpe).1).1
  · exact apart_filesOf haligned hascii ((sorted_lt files).and hp.file)

section Mounted

variable {files : FileSet} {image table : Mem} {read : SfSectorRead}

theorem Created.headerOk (h : Created sha256 files imageBytes image table) {m : Mem} (hm : ∀ i < 512, m i = image i) :
    headerOk m imageBytes = true ∧ u32 m 24 = (sorted files).length ∧ u64 m 40 = (sorted files).length * 128 ∧
      slice m 48 32 = (sha256 (slice table 0 ((sorted files).length * 128))).toList := by
  have hcount := h.count.2
  have hsize := h.size.2.1
  unfold maxEntries at hcount
  unfold imageMax at hsize
  have hheader : slice m 0 80 = _ := (slice_congr fun i hi => hm (0 + i) (by omega)).trans h.header
  have hreserved : isZero m 80 432 = true :=
    isZero_iff.2 fun i hi => (hm (80 + i) (by omega)).trans (isZero_iff.1 h.reserved i hi)
  obtain ⟨h₁, hheader⟩ := (slice_eq_append (n := 8) (k := 72) rfl).1 hheader
  obtain ⟨h₂, hheader⟩ := (slice_eq_append (k := 68) (length_toLe 4 _)).1 hheader
  obtain ⟨h₃, hheader⟩ := (slice_eq_append (k := 64) (length_toLe 4 _)).1 hheader
  obtain ⟨h₄, hheader⟩ := (slice_eq_append (k := 56) (length_toLe 8 _)).1 hheader
  obtain ⟨h₅, hheader⟩ := (slice_eq_append (k := 52) (length_toLe 4 _)).1 hheader
  obtain ⟨h₆, hheader⟩ := (slice_eq_append (k := 48) (length_toLe 4 _)).1 hheader
  obtain ⟨h₇, hheader⟩ := (slice_eq_append (k := 40) (length_toLe 8 _)).1 hheader
  obtain ⟨h₈, h₉⟩ := (slice_eq_append (k := 32) (length_toLe 8 _)).1 hheader
  have hword : ∀ {a n v : Nat}, v < 256 ^ n → slice m a n = toLe n v → load m a n = v := fun hv hs => by
    rw [load, hs, le_toLe hv]
  refine ⟨?_, hword (by omega) h₅, hword (by omega) h₈, h₉⟩
  unfold ReadFs.headerOk
  simp only [Bool.and_eq_true, decide_eq_true_eq]
  exact ⟨⟨⟨⟨⟨⟨h₁, hword (by decide) h₂⟩, hword (by decide) h₃⟩, hword (by omega) h₄⟩, hword (by decide) h₆⟩,
    hword (by decide) h₇⟩, hreserved⟩

/-- **The image of the writer is mounted with the files that it was made from.** -/
theorem Created.mount (h : Created sha256 files imageBytes image table) (hserves : Serves read image imageBytes) :
    sfReadfsMount sha256 read imageBytes =
      .ok ⟨read, imageBytes, true, filesOf sha256 (dataStart (sorted files).length) (sorted files)⟩ := by
  have hlen : (filesOf sha256 (dataStart (sorted files).length) (sorted files)).length = (sorted files).length := by
    rw [filesOf, length_map, length_layOut]
  have hcount := h.count.2
  have hsize := h.size
  unfold maxEntries at hcount
  unfold imageMax at hsize
  -- the first file lies behind the table, so the table is inside the image
  have hend : dataStart (sorted files).length ≤ imageBytes := by
    have hf := h.placed _ (getElem_mem (hlen ▸ h.count.1))
    have h₁ := hf.start_le
    have h₂ := hf.end_le
    omega
  have hstart : 512 + (sorted files).length * 128 ≤ dataStart (sorted files).length := roundUp_le _
  obtain ⟨hheader, hn, hbytes, hdigest⟩ := h.headerOk (m := (blockAt 512 image 0).mem) fun i hi => by
    rw [blockAt_mem _ _ hi, Nat.zero_add]
  obtain ⟨table', hrun, htable⟩ := readTable_serves hserves hend h.gap
    (((sorted files).length * 128 + 511) / 512) 0 zeros rfl rfl
    fun i _ hi => absurd hi (Nat.not_lt_zero i)
  have htable' : ∀ {a k : Nat}, a + k ≤ (sorted files).length * 128 → slice table' a k = slice table a k := fun hak =>
    slice_congr fun i hi => (htable _ (by omega)).trans (h.directory _ (by omega))
  refine sfReadfsMount_eq_ok.2 ⟨h.size, blockAt 512 image 0, ?_, hheader, _, hn, hbytes, ⟨h.count.1, h.count.2, by omega⟩,
    table', hrun, ?_, _, ?_, rfl⟩
  · rw [hserves 0 (by omega), Nat.zero_mul]
  · rw [hdigest, htable' (by omega)]
  have hall : decodeEntries table' imageBytes (dataStart (sorted files).length)
      (range' 0 (filesOf sha256 (dataStart (sorted files).length) (sorted files)).length) [] = .ok ([] ++ _) :=
    decodeEntries_complete (fun j hj => ?_) h.apart
  · rw [nil_append, hlen, ← range_eq_range'] at hall
    exact hall
  have hmem := getElem_mem hj
  have hplaced := h.placed _ hmem
  have hzero := h.path _ hmem
  have hmax := hplaced.bytes_le
  have hfend := hplaced.end_le
  unfold fileMax at hmax
  obtain ⟨x, hx, hxf⟩ := mem_map.1 hmem
  obtain ⟨-, -, hhash, -⟩ := mem_layOut (roundUp_mod _) x hx
  rw [Nat.zero_add]
  have hshort := ((sfReadfsPath_iff hzero).1 hplaced.path_ok).2.1
  refine decodeEntry_eq_ok.2 ⟨record_of_slice hzero hshort (by omega) (by omega) ?_ ?_, hplaced⟩
  · rw [← hxf, hhash, Vector.length_toList]
  · rw [htable' (by omega)]
    exact h.records j hj

/-- In a sorted list the path determines the file. -/
theorem eq_of_path {l : List SfReadFile} (h : l.Pairwise Apart) {f g : SfReadFile} (hf : f ∈ l) (hg : g ∈ l)
    (hpath : f.path = g.path) : f = g := by
  have hne : ∀ {f g : SfReadFile}, Apart f g → f.path ≠ g.path := fun h he => List.lt_irrefl _ (he ▸ h.lt)
  refine List.Pairwise.forall_of_forall_of_flip (R := fun f g => f.path = g.path → f = g)
    (fun _ _ _ => rfl) ?_ ?_ hf hg hpath
  · exact h.imp fun h he => absurd he (hne h)
  · exact h.imp fun h he => absurd he.symm (hne h)

/-- Every file is found under its path, and its contents are loaded. -/
theorem Created.load (h : Created sha256 files imageBytes image table) (hserves : Serves read image imageBytes) {p : Str}
    {data : List UInt8} (hp : (p, data) ∈ files.items) :
    let fs : SfReadFs := ⟨read, imageBytes, true, filesOf sha256 (dataStart (sorted files).length) (sorted files)⟩
    ∃ i, sfReadfsFind fs (ascii p) = .ok i ∧ ∀ room, data.length ≤ room → sfReadfsLoad sha256 fs i room = .ok data := by
  intro fs
  have hp' : (p, data) ∈ sorted files := (mem_insertionSort _).2 hp
  obtain ⟨x, hx, hpath, rfl⟩ : ∃ x ∈ layOut sha256 (dataStart (sorted files).length) (sorted files),
      x.1.path = ascii p ∧ x.2 = data := exists_layOut _ hp'
  have hxf : x.1 ∈ fs.files := mem_map_of_mem hx
  have hplaced := h.placed _ hxf
  have hzero := h.path _ hxf
  rw [← hpath]
  obtain ⟨i, hi⟩ : ∃ i, fs.files.findIdx? (fun f => strcmp f.path (cString x.1.path) = 0) = some i := by
    rw [← Option.isSome_iff_exists, findIdx?_isSome, any_eq_true]
    refine ⟨x.1, hxf, decide_eq_true ?_⟩
    rw [cString_eq hzero, strcmp_eq_zero hzero hzero]
  obtain ⟨hlt, hcmp, -⟩ := findIdx?_eq_some_iff_getElem.1 hi
  have hmem := getElem_mem hlt
  have hsame : fs.files[i] = x.1 := by
    rw [decide_eq_true_eq, cString_eq hzero, strcmp_eq_zero (h.path _ hmem) hzero] at hcmp
    exact eq_of_path h.apart hmem hxf hcmp
  have hget : fs.files[i]? = some x.1 := hsame ▸ getElem?_eq_getElem hlt
  obtain ⟨-, hbytes, hhash, -⟩ := mem_layOut (roundUp_mod _) x hx
  have hdata := h.data x hx
  refine ⟨i, ?_, fun room hroom => ?_⟩
  · unfold sfReadfsFind
    rw [if_neg (by exact Bool.noConfusion), if_neg (by rw [hplaced.path_ok]; decide), hi]
    rfl
  · have hload := sfReadfsLoad_serves rfl hget hserves h.size.2.2 hplaced.bytes_pos hplaced.end_le (by rw [hdata, hhash])
      (hbytes ▸ hroom)
    rw [hload, hdata]

end Mounted

end Create

/-- `memory_sector` of `tools/package/crypto_host.c`. -/
def memorySector (image : Mem) (bytes : Nat) : SfSectorRead :=
  fun sector => if bytes / 512 ≤ sector then throw .invalid else pure (blockAt 512 image (sector * 512))

theorem serves_memorySector (image : Mem) (bytes : Nat) : Serves (memorySector image bytes) image bytes :=
  fun _ hn => if_neg (Nat.not_le.2 hn)

/-- **The round trip of the format.** An image that the writer makes is mounted with exactly its paths, and every file is
found and loaded with exactly its contents; every image that is mounted is sound; and the two path grammars agree. -/
theorem image_round_trip (sha256 : List UInt8 → Digest) :
    (∀ files imageBytes image, create sha256 files imageBytes = some image → ∀ read, Serves read image imageBytes →
      ∃ fs, sfReadfsMount sha256 read imageBytes = .ok fs ∧
        (fs.files.map SfReadFile.path).Perm (files.items.map fun e => ascii e.1) ∧
        ∀ p data, (p, data) ∈ files.items → ∃ i, sfReadfsFind fs (ascii p) = .ok i ∧
          ∀ room, data.length ≤ room → sfReadfsLoad sha256 fs i room = .ok data) ∧
    (∀ read capacity fs, sfReadfsMount sha256 read capacity = .ok fs → Sound capacity fs) ∧
    ∀ s, IsAscii s → (validPath s = some true ↔ 0 ∉ ascii s ∧ sfReadfsPath (ascii s) = true) := by
  refine ⟨fun files imageBytes image h read hserves => ?_, fun _ _ _ => mount_sound, fun _ => validPath_iff⟩
  obtain ⟨table, hcreated⟩ := create_spec h
  refine ⟨_, hcreated.mount hserves, ?_, fun p data => hcreated.load hserves⟩
  rw [paths_filesOf]
  exact (List.perm_insertionSort _ files.items).map _

/-- Two files in an image of four sectors. -/
def sampleFiles : FileSet := ⟨[(['/', 'b'], [1, 2, 3]), (['/', 'a', '/', 'c'], [4])], by decide⟩

theorem sampleFiles_round_trip : ∃ image, create (fun _ => Vector.replicate 32 0) sampleFiles 2048 = some image ∧
    ∃ fs i, sfReadfsMount (fun _ => Vector.replicate 32 0) (memorySector image 2048) 2048 = .ok fs ∧
      sfReadfsFind fs (ascii ['/', 'b']) = .ok i ∧ sfReadfsLoad (fun _ => Vector.replicate 32 0) fs i 3 = .ok [1, 2, 3] := by
  have hsome : (create (fun _ => Vector.replicate 32 0) sampleFiles 2048).isSome = true := by decide +kernel
  obtain ⟨image, himage⟩ := Option.isSome_iff_exists.1 hsome
  obtain ⟨fs, hmount, -, hload⟩ := (image_round_trip _).1 _ _ _ himage _ (serves_memorySector image 2048)
  obtain ⟨i, hfind, hdata⟩ := hload ['/', 'b'] [1, 2, 3] (by decide)
  exact ⟨image, himage, fs, i, hmount, hfind, hdata 3 (by decide)⟩

end SpiritFox.ReadFs
