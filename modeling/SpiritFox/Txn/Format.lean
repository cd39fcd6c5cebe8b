import SpiritFox.Lib.ByteMem
import SpiritFox.Txn.Files

/-!
# The bank format of a transaction volume

A bank is a 128 KiB buffer: a header with the generation and the number of files, one 128-byte record for each file, and
one 16 KiB data slot for each file; everything unused is zero. `sf_txn_commit` writes five records with the data from offset
1152 on (`encode`); `decode` also reads the original geometry of four records with the data from 1024 on.

A `Geometry` is the number of records and where the data starts, and `encodeIn` the encoder of either geometry. The
main result is `decode_encodeIn`: the decoder of a geometry reads back exactly the files that were encoded in it. It
holds for every digest function, since `decode` recomputes each digest from the bytes it was taken from.
-/

namespace SpiritFox.Txn

open ByteMem

/-- The bytes of one bank, `sizeof(t->buffer)`. -/
def bufferBytes : Nat := 131072

/-- `SF_TXN_DATA`: the data slots start after the header and the five records. -/
def sfTxnData : Nat := 1152

/-- `"SFBANK1"` with its terminator. -/
def bankMagic : List UInt8 := [83, 70, 66, 65, 78, 75, 49, 0]

def u32 (m : Mem) (a : Nat) : Nat := load m a 4
def u64 (m : Mem) (a : Nat) : Nat := load m a 8
def put32 (m : Mem) (a v : Nat) : Mem := store m a 4 v
def put64 (m : Mem) (a v : Nat) : Mem := store m a 8 v

/-- The C string at `a` in a field of 64 bytes. -/
def cstr (m : Mem) (a : Nat) : List UInt8 := (slice m a 64).takeWhile (· != 0)

section Codec

variable (sha256 : List UInt8 → Digest)

/-! ## Reading a bank -/

/-- Record `i` and its data slot, when they pass every check of `decode`. -/
def decodeFile (b : Mem) (start i : Nat) : Option SfTxnFile :=
  let e := 512 + i * 128
  let d := start + i * sfTxnFileBytes
  let path := cstr b e
  let n := u32 b (e + 64)
  if h : pathOk path = true ∧ n ≤ sfTxnFileBytes then
    if isZero b (e + path.length + 1) (63 - path.length) && isZero b (e + 68) 28 && isZero b (d + n) (sfTxnFileBytes - n) &&
        (slice b (e + 96) 32 == (sha256 (slice b d n)).toList) then
      some ⟨path, slice b d n, h.1, by rw [length_slice]; exact h.2⟩
    else none
  else none

/-- Record `i` and its data slot are unused. -/
def freeSlot (b : Mem) (start i : Nat) : Bool :=
  isZero b (512 + i * 128) 128 && isZero b (start + i * sfTxnFileBytes) sfTxnFileBytes

/-- The loop of `decode` over the slots still to come. -/
def decodeFiles (b : Mem) (count start : Nat) : List Nat → FileTable → Option FileTable
  | [], t => some t
  | i :: is, t =>
    if count ≤ i then if freeSlot b start i then decodeFiles b count start is t else none
    else match decodeFile sha256 b start i with
      | none => none
      | some f => match t.add? f with
        | none => none
        | some t' => decodeFiles b count start is t'

/-- `decode`: the files of a bank of the given generation in a geometry of `slots` records. -/
def decode (b : Mem) (generation slots start : Nat) : Option FileTable :=
  if slice b 0 8 = bankMagic ∧ u64 b 8 = generation ∧ u32 b 16 ≤ slots ∧ isZero b 20 492 = true then
    match decodeFiles sha256 b (u32 b 16) start (List.range slots) FileTable.empty with
    | none => none
    | some t => if isZero b (start + slots * sfTxnFileBytes)
      (bufferBytes - start - slots * sfTxnFileBytes) then some t else none
  else none

/-! ## Writing a bank -/

/-- The 64-byte path field of a record. -/
def pathField (f : SfTxnFile) : List UInt8 := f.path ++ List.replicate (64 - f.path.length) 0

@[simp] theorem length_pathField (f : SfTxnFile) : (pathField f).length = 64 := by
  have := pathOk_length f.path_ok
  simp only [pathField, List.length_append, List.length_replicate]
  omega

/-- The header of a bank over an otherwise empty buffer. -/
def bankHeader (generation count : Nat) : Mem := put32 (put64 (blit zeros 0 bankMagic) 8 generation) 16 count

/-- How the records and the data slots are laid out: the data starts right after the last record. -/
structure Geometry where
  slots : Nat
  start : Nat
  start_eq : start = 512 + slots * 128
  slots_le : slots ≤ sfTxnFiles

/-- The geometry of `sf_txn_commit`. -/
def current : Geometry := ⟨sfTxnFiles, sfTxnData, rfl, Nat.le_refl _⟩

/-- The original geometry. -/
def legacy : Geometry := ⟨4, 1024, rfl, by decide⟩

/-- One file copied to record and slot `i` of a geometry. -/
def encodeFile (G : Geometry) (b : Mem) (i : Nat) (f : SfTxnFile) : Mem :=
  let e := 512 + i * 128
  let d := G.start + i * sfTxnFileBytes
  let b := blit b e (pathField f)
  let b := put32 b (e + 64) f.data.length
  let b := blit b d f.data
  blit b (e + 96) (sha256 (slice b d f.data.length)).toList

def encodeFiles (G : Geometry) : Mem → Nat → List SfTxnFile → Mem
  | b, _, [] => b
  | b, i, f :: fs => encodeFiles G (encodeFile sha256 G b i f) (i + 1) fs

/-- A bank in a geometry, as `tests/host/test_txn_compat.c` writes it. -/
def encodeIn (G : Geometry) (generation : Nat) (t : FileTable) : Mem :=
  encodeFiles sha256 G (bankHeader generation t.files.length) 0 t.files

/-- The bank `sf_txn_commit` builds. -/
def encode (generation : Nat) (t : FileTable) : Mem := encodeIn sha256 current generation t

/-! ## Reading back what was written -/

variable {sha256} {G : Geometry} {b b' : Mem} {start i : Nat} {f : SfTxnFile}

theorem decodeFile_congr (hr : EqOn b b' (512 + i * 128) 128) (hd : EqOn b b' (start + i * sfTxnFileBytes) sfTxnFileBytes) :
    decodeFile sha256 b start i = decodeFile sha256 b' start i := by
  have hpath : cstr b (512 + i * 128) = cstr b' (512 + i * 128) := by
    unfold cstr
    rw [hr.slice (Nat.le_refl _) (by omega)]
  have hn : u32 b (512 + i * 128 + 64) = u32 b' (512 + i * 128 + 64) := hr.load (by omega) (by omega)
  unfold decodeFile
  simp only [hpath, hn]
  split
  · rename_i h
    have hlen := pathOk_length h.1
    rw [hr.isZero (by omega) (by omega), hr.isZero (c := 512 + i * 128 + 68) (by omega) (by omega),
      hd.isZero (by omega) (by omega), hr.slice (c := 512 + i * 128 + 96) (by omega) (by omega)]
    have hdata := hd.slice (c := start + i * sfTxnFileBytes) (k := u32 b' (512 + i * 128 + 64)) (Nat.le_refl _)
      (by have := h.2; omega)
    simp only [hdata]
  · rfl

theorem freeSlot_congr (hr : EqOn b b' (512 + i * 128) 128) (hd : EqOn b b' (start + i * sfTxnFileBytes) sfTxnFileBytes) :
    freeSlot b start i = freeSlot b' start i := by
  unfold freeSlot
  rw [hr.isZero (Nat.le_refl _) (Nat.le_refl _), hd.isZero (Nat.le_refl _) (Nat.le_refl _)]

/-- Encoding file `i` changes only its record and its slot. -/
theorem encodeFile_eqOn {a n : Nat} (hr : a + n ≤ 512 + i * 128 ∨ 512 + i * 128 + 128 ≤ a)
    (hd : a + n ≤ G.start + i * sfTxnFileBytes ∨ G.start + i * sfTxnFileBytes + sfTxnFileBytes ≤ a) :
    EqOn (encodeFile sha256 G b i f) b a n := by
  have hl := f.data_le
  exact (eqOn_blit (by simp; omega)).trans ((eqOn_blit (by omega)).trans ((eqOn_store (by omega)).trans
    (eqOn_blit (by simp; omega))))

theorem cstr_of_slice {a : Nat} {p : List UInt8} (hp : pathOk p = true)
    (h : slice b a 64 = p ++ List.replicate (64 - p.length) 0) : cstr b a = p := by
  have hlen := pathOk_length hp
  unfold cstr
  rw [h, List.takeWhile_append_of_pos (by simpa using pathOk_ne_zero hp),
    show 64 - p.length = (63 - p.length) + 1 by omega, List.replicate_succ]
  simp

section Slot

variable (sha256) (hi : i < G.slots)

include hi in
/-- The records end before the first data slot. -/
theorem record_le_slot : 512 + i * 128 + 128 ≤ G.start + i * sfTxnFileBytes := by
  have hstart := G.start_eq
  unfold sfTxnFileBytes
  omega

include hi in
theorem encodeFile_path (b : Mem) (f : SfTxnFile) :
    EqOn (encodeFile sha256 G b i f) (blit b (512 + i * 128) (pathField f)) (512 + i * 128) 64 := by
  have hsep := record_le_slot hi
  exact (eqOn_blit (by omega)).trans ((eqOn_blit (by omega)).trans (eqOn_store (by omega)))

include hi in
theorem encodeFile_length (b : Mem) (f : SfTxnFile) :
    EqOn (encodeFile sha256 G b i f) (put32 b (512 + i * 128 + 64) f.data.length) (512 + i * 128 + 64) 32 := by
  have hsep := record_le_slot hi
  refine (eqOn_blit (by omega)).trans ((eqOn_blit (by omega)).trans fun k h₁ h₂ => ?_)
  unfold put32 store
  by_cases hk : k < 512 + i * 128 + 64 + 4
  · obtain ⟨j, rfl⟩ := Nat.exists_eq_add_of_le h₁
    rw [blit_of_mem (by simp; omega), blit_of_mem (by simp; omega)]
  · rw [blit_of_lt (by simp; omega), blit_of_lt (by simp; omega), blit_of_lt (by simp; omega)]

include hi in
theorem encodeFile_data (b : Mem) (f : SfTxnFile) :
    EqOn (encodeFile sha256 G b i f) (blit b (G.start + i * sfTxnFileBytes) f.data)
      (G.start + i * sfTxnFileBytes) sfTxnFileBytes := by
  have hsep := record_le_slot hi
  refine (eqOn_blit (by simp; omega)).trans fun k h₁ h₂ => ?_
  obtain ⟨j, rfl⟩ := Nat.exists_eq_add_of_le h₁
  by_cases hj : j < f.data.length
  · rw [blit_of_mem hj, blit_of_mem hj]
  rw [blit_of_lt (by omega), blit_of_lt (by omega)]
  unfold put32 store
  rw [blit_of_lt (by simp; omega), blit_of_lt (by simp; omega)]

theorem encodeFile_digest (b : Mem) (f : SfTxnFile) :
    slice (encodeFile sha256 G b i f) (512 + i * 128 + 96) 32 = (sha256 f.data).toList := by
  have hs := slice_blit_self
    (blit (put32 (blit b (512 + i * 128) (pathField f)) (512 + i * 128 + 64) f.data.length)
      (G.start + i * sfTxnFileBytes) f.data) (512 + i * 128 + 96) (sha256 f.data).toList
  rw [Vector.length_toList] at hs
  unfold encodeFile
  simp only [slice_blit_self]
  exact hs

include hi in
/-- A file encoded into an unused record and slot decodes to itself. -/
theorem decodeFile_encodeFile (hfree : freeSlot b G.start i = true) :
    decodeFile sha256 (encodeFile sha256 G b i f) G.start i = some f := by
  have hp := pathOk_length f.path_ok
  have hl := f.data_le
  obtain ⟨hfr, hfd⟩ := Bool.and_eq_true _ _ ▸ hfree
  rw [isZero_iff] at hfr hfd
  have hpath := encodeFile_path sha256 hi b f
  have hlen := encodeFile_length sha256 hi b f
  have hslot := encodeFile_data sha256 hi b f
  have hcstr : cstr (encodeFile sha256 G b i f) (512 + i * 128) = f.path := by
    refine cstr_of_slice f.path_ok ?_
    rw [hpath.slice (Nat.le_refl _) (Nat.le_refl _)]
    have := slice_blit_self b (512 + i * 128) (pathField f)
    rwa [length_pathField] at this
  have hn : u32 (encodeFile sha256 G b i f) (512 + i * 128 + 64) = f.data.length := by
    unfold u32
    rw [hlen.load (Nat.le_refl _) (by omega)]
    exact load_store_self _ _ (by unfold sfTxnFileBytes at hl; omega)
  have hdata : slice (encodeFile sha256 G b i f) (G.start + i * sfTxnFileBytes) f.data.length = f.data := by
    rw [hslot.slice (Nat.le_refl _) (by omega)]
    exact slice_blit_self _ _ _
  have hpad : isZero (encodeFile sha256 G b i f) (512 + i * 128 + f.path.length + 1) (63 - f.path.length) = true := by
    rw [hpath.isZero (by omega) (by omega), isZero_iff]
    intro k hk
    rw [show 512 + i * 128 + f.path.length + 1 + k = 512 + i * 128 + (f.path.length + 1 + k) by omega,
      blit_of_mem (by rw [length_pathField]; omega), pathField, List.getD_append_right _ _ _ _ (by omega)]
    simp
  have hres : isZero (encodeFile sha256 G b i f) (512 + i * 128 + 68) 28 = true := by
    rw [hlen.isZero (by omega) (by omega), isZero_iff]
    intro k hk
    unfold put32 store
    rw [blit_of_lt (by simp), Nat.add_assoc]
    exact hfr _ (by omega)
  have hrest : isZero (encodeFile sha256 G b i f) (G.start + i * sfTxnFileBytes + f.data.length)
      (sfTxnFileBytes - f.data.length) = true := by
    rw [hslot.isZero (by omega) (by omega), isZero_iff]
    intro k hk
    rw [blit_of_lt (by omega), Nat.add_assoc]
    exact hfd _ (by omega)
  unfold decodeFile
  simp only [hcstr, hn]
  rw [dif_pos ⟨f.path_ok, hl⟩]
  simp only [hdata, hpad, hres, hrest, encodeFile_digest, beq_self_eq_true, Bool.and_self, ↓reduceIte]

end Slot

/-- Encoding the files from `i` on leaves everything outside their records and slots alone. -/
theorem encodeFiles_eqOn {a n : Nat} : ∀ (fs : List SfTxnFile) (b : Mem) (i : Nat),
    (∀ j, i ≤ j → j < i + fs.length → (a + n ≤ 512 + j * 128 ∨ 512 + j * 128 + 128 ≤ a) ∧
      (a + n ≤ G.start + j * sfTxnFileBytes ∨ G.start + j * sfTxnFileBytes + sfTxnFileBytes ≤ a)) →
    EqOn (encodeFiles sha256 G b i fs) b a n
  | [], _, _, _ => fun _ _ _ => rfl
  | f :: fs, b, i, h => by
    have hi := h i (Nat.le_refl i) (by simp)
    have ih := encodeFiles_eqOn fs (encodeFile sha256 G b i f) (i + 1) fun j h₁ h₂ =>
      h j (by omega) (by rw [List.length_cons]; omega)
    exact ih.trans (encodeFile_eqOn hi.1 hi.2)

/-- The record and the slot of another index are untouched. -/
theorem encodeFiles_other (sha256 : List UInt8 → Digest) (fs : List SfTxnFile) (i : Nat) {j : Nat}
    (hfs : i + fs.length ≤ G.slots) (hj : j < G.slots) (hout : j < i ∨ i + fs.length ≤ j) (b : Mem) :
    EqOn (encodeFiles sha256 G b i fs) b (512 + j * 128) 128 ∧
      EqOn (encodeFiles sha256 G b i fs) b (G.start + j * sfTxnFileBytes) sfTxnFileBytes := by
  have hstart := G.start_eq
  constructor <;>
  · apply encodeFiles_eqOn
    intro k h₁ h₂
    simp only [sfTxnFileBytes]
    omega

/-- Every encoded file is read back from its slot. -/
theorem decodeFile_encodeFiles : ∀ (fs : List SfTxnFile) (b : Mem) (i : Nat), i + fs.length ≤ G.slots →
    (∀ j, i ≤ j → j < G.slots → freeSlot b G.start j = true) →
    ∀ j (hj : j < fs.length), decodeFile sha256 (encodeFiles sha256 G b i fs) G.start (i + j) = some fs[j]
  | [], _, _, _, _, _, hj => absurd hj (by simp)
  | f :: fs, b, i, hlen, hfree, j, hj => by
    rw [List.length_cons] at hlen hj
    have hi : i < G.slots := by omega
    cases j with
    | zero =>
      obtain ⟨hr, hd⟩ := encodeFiles_other sha256 fs (i + 1) (by omega) hi
        (Or.inl (Nat.lt_succ_self i)) (encodeFile sha256 G b i f)
      exact (decodeFile_congr hr hd).trans (decodeFile_encodeFile sha256 hi (hfree i (Nat.le_refl i) hi))
    | succ j =>
      have hfree' : ∀ k, i + 1 ≤ k → k < G.slots → freeSlot (encodeFile sha256 G b i f) G.start k = true := by
        intro k h₁ h₂
        obtain ⟨hr, hd⟩ := encodeFiles_other sha256 [f] i hi h₂ (Or.inr h₁) b
        exact (freeSlot_congr hr hd).trans (hfree k (by omega) h₂)
      have ih := decodeFile_encodeFiles fs (encodeFile sha256 G b i f) (i + 1) (by omega) hfree' j (by omega)
      rw [show i + (j + 1) = i + 1 + j by omega]
      exact ih

/-- The decoder's loop over the remaining slots collects the remaining files. -/
theorem decodeFiles_table {t : FileTable} {slots : Nat} (hle : t.files.length ≤ slots)
    (hf : ∀ j (hj : j < t.files.length), decodeFile sha256 b start j = some t.files[j])
    (hfree : ∀ j, t.files.length ≤ j → j < slots → freeSlot b start j = true) :
    ∀ n i, i + n = slots →
      decodeFiles sha256 b t.files.length start (List.range' i n) (t.take i) = some t
  | 0, i, hn => by
    simp only [List.range'_zero, decodeFiles]
    exact congrArg some (FileTable.ext' (List.take_of_length_le (by omega)))
  | n + 1, i, hn => by
    have ih := decodeFiles_table hle hf hfree n (i + 1) (by omega)
    simp only [List.range'_succ, decodeFiles]
    split
    · rename_i hge
      rw [if_pos (hfree i hge (by omega))]
      rwa [show t.take i = t.take (i + 1) from FileTable.ext' (by
        simp only [FileTable.take]
        rw [List.take_of_length_le hge, List.take_of_length_le (by omega)])]
    · rename_i hlt
      simp only [hf i (by omega), t.add?_take (Nat.lt_of_not_le hlt)]
      exact ih

/-! ## The header -/

section Header

variable (g n : Nat)

theorem bankHeader_magic : slice (bankHeader g n) 0 8 = bankMagic :=
  calc slice (bankHeader g n) 0 8
      = slice (put64 (blit zeros 0 bankMagic) 8 g) 0 8 :=
        (eqOn_store (n := 8) (by omega)).slice (Nat.le_refl 0) (Nat.le_refl 8)
    _ = slice (blit zeros 0 bankMagic) 0 8 := (eqOn_store (n := 8) (by omega)).slice (Nat.le_refl 0) (Nat.le_refl 8)
    _ = bankMagic := slice_blit_self zeros 0 bankMagic

theorem bankHeader_generation (hg : g < 2 ^ 64) : u64 (bankHeader g n) 8 = g :=
  calc u64 (bankHeader g n) 8
      = u64 (put64 (blit zeros 0 bankMagic) 8 g) 8 := (eqOn_store (n := 8) (by omega)).load (Nat.le_refl 8) (Nat.le_refl 16)
    _ = g := load_store_self _ _ hg

theorem bankHeader_count (hn : n ≤ sfTxnFiles) : u32 (bankHeader g n) 16 = n :=
  load_store_self _ _ (by unfold sfTxnFiles at hn; omega)

theorem bankHeader_zero {a : Nat} (ha : 20 ≤ a) : bankHeader g n a = 0 := by
  unfold bankHeader put32 put64 store
  rw [blit_of_lt (by simp; omega), blit_of_lt (by simp; omega), blit_of_lt (by simp [bankMagic]; omega)]
  rfl

theorem freeSlot_bankHeader (j : Nat) : freeSlot (bankHeader g n) G.start j = true := by
  have hstart := G.start_eq
  simp only [freeSlot, Bool.and_eq_true, isZero_iff]
  exact ⟨fun k _ => bankHeader_zero g n (by omega), fun k _ => bankHeader_zero g n (by omega)⟩

end Header

section Bank

variable (sha256) (generation : Nat) {t : FileTable} (hle : t.files.length ≤ G.slots)

include hle

/-- The files leave the header and the tail of the bank alone. -/
theorem encodeIn_eqOn :
    EqOn (encodeIn sha256 G generation t) (bankHeader generation t.files.length) 0 512 ∧
      EqOn (encodeIn sha256 G generation t) (bankHeader generation t.files.length) (G.start + G.slots * sfTxnFileBytes)
        (bufferBytes - G.start - G.slots * sfTxnFileBytes) := by
  have hstart := G.start_eq
  constructor <;>
  · apply encodeFiles_eqOn
    intro j h₁ h₂
    simp only [sfTxnFileBytes, bufferBytes]
    omega

/-- Past the bank there is nothing. -/
theorem encodeIn_zero {a : Nat} (ha : bufferBytes ≤ a) : encodeIn sha256 G generation t a = 0 := by
  have hstart := G.start_eq
  have hslots := G.slots_le
  have h : EqOn (encodeIn sha256 G generation t) (bankHeader generation t.files.length) a 1 := by
    apply encodeFiles_eqOn
    intro j h₁ h₂
    simp only [sfTxnFileBytes, sfTxnFiles, bufferBytes] at *
    omega
  rw [h a (Nat.le_refl a) (by omega)]
  exact bankHeader_zero _ _ (by unfold bufferBytes at ha; omega)

end Bank

/-- **The decoder of a geometry reads back what was encoded in it.** -/
theorem decode_encodeIn {generation : Nat} (hg : generation < 2 ^ 64) {t : FileTable} (hle : t.files.length ≤ G.slots) :
    decode sha256 (encodeIn sha256 G generation t) generation G.slots G.start = some t := by
  have hstart := G.start_eq
  obtain ⟨hhead, htail⟩ := encodeIn_eqOn sha256 generation hle
  have hmagic : slice (encodeIn sha256 G generation t) 0 8 = bankMagic := by
    rw [hhead.slice (Nat.le_refl _) (by omega), bankHeader_magic]
  have hgen : u64 (encodeIn sha256 G generation t) 8 = generation := by
    unfold u64
    rw [hhead.load (by omega) (by omega)]
    exact bankHeader_generation _ _ hg
  have hcount : u32 (encodeIn sha256 G generation t) 16 = t.files.length := by
    unfold u32
    rw [hhead.load (by omega) (by omega)]
    exact bankHeader_count _ _ t.length_le
  have hpad : isZero (encodeIn sha256 G generation t) 20 492 = true := by
    rw [hhead.isZero (by omega) (by omega), isZero_iff]
    exact fun k _ => bankHeader_zero _ _ (by omega)
  have hend : isZero (encodeIn sha256 G generation t) (G.start + G.slots * sfTxnFileBytes)
      (bufferBytes - G.start - G.slots * sfTxnFileBytes) = true := by
    rw [htail.isZero (Nat.le_refl _) (Nat.le_refl _), isZero_iff]
    exact fun k _ => bankHeader_zero _ _ (by omega)
  have hfiles : decodeFiles sha256 (encodeIn sha256 G generation t) t.files.length G.start (List.range G.slots)
      FileTable.empty = some t := by
    rw [List.range_eq_range']
    refine decodeFiles_table hle (fun j hj => ?_) (fun j h₁ h₂ => ?_) G.slots 0 (Nat.zero_add _)
    · have hdec : decodeFile sha256 (encodeIn sha256 G generation t) G.start (0 + j) = some t.files[j] :=
        decodeFile_encodeFiles t.files _ 0 (by omega) (fun k _ _ => freeSlot_bankHeader _ _ k) j hj
      rwa [Nat.zero_add] at hdec
    · obtain ⟨hr, hd⟩ := encodeFiles_other sha256 t.files 0 (by omega) h₂ (Or.inr (by omega))
        (bankHeader generation t.files.length)
      exact (freeSlot_congr hr hd).trans (freeSlot_bankHeader _ _ j)
  unfold decode
  rw [if_pos ⟨hmagic, hgen, by rw [hcount]; exact hle, hpad⟩, hcount, hfiles]
  simp only [hend, ↓reduceIte]

/-- Past the bank of a commit there is nothing. -/
theorem encode_zero (sha256 : List UInt8 → Digest) (generation : Nat) (t : FileTable) {a : Nat} (ha : bufferBytes ≤ a) :
    encode sha256 generation t a = 0 := by
  unfold encode
  exact encodeIn_zero sha256 generation t.length_le ha

/-- **The decoder reads back what a commit wrote.** -/
theorem decode_encode {generation : Nat} (hg : generation < 2 ^ 64) (t : FileTable) :
    decode sha256 (encode sha256 generation t) generation sfTxnFiles sfTxnData = some t := by
  unfold encode
  exact decode_encodeIn (G := current) hg t.length_le

end Codec

end SpiritFox.Txn
