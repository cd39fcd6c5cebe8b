import SpiritFox.Lib.Checks
import SpiritFox.Txn.Crash

/-!
# The file array

In `services/txn.c` the files of a volume are an array of five slots, where a slot that is not used has an empty
path, and the loops over it stop at the first empty path or look at every slot. `SfTxnArray` is the volume with this
array and the functions over it are those of the source. `FileTable.slots` is the array of a table, and every
function does on the array of a table what its counterpart does on the table (`mountArray_eq`, `commitArray_eq`), so
a volume of any run is the array of a table: its files are a dense run of slots with distinct paths.

The main result is `commit_map_update`.
-/

namespace SpiritFox.Txn

open ByteMem WriteCache Checks

/-- A slot of `t->files` or `t->next`; `data` is the first `bytes` bytes. -/
structure FileSlot where
  path : List UInt8
  data : List UInt8
  deriving DecidableEq

abbrev FileSlots := Vector FileSlot sfTxnFiles

def emptySlot : FileSlot := ⟨[], []⟩

/-- `memset(t->next, 0, sizeof(t->next))` -/
def emptySlots : FileSlots := Vector.replicate sfTxnFiles emptySlot

/-- `SfTxn` with its file array. -/
structure SfTxnArray where
  ready : Bool
  generation : Nat
  bank : Bool
  volume : List UInt8
  files : FileSlots

section Functions

variable (sha256 : List UInt8 → Digest)

/-! ## Mount -/

/-- Record `i` and its data slot pass the checks of `decode` that do not look at the other records. -/
def recordSlot (b : Mem) (start i : Nat) : Option FileSlot :=
  let e := 512 + i * 128
  let d := start + i * sfTxnFileBytes
  let path := cstr b e
  let n := u32 b (e + 64)
  if pathOk path = true ∧ n ≤ sfTxnFileBytes ∧ isZero b (e + path.length + 1) (63 - path.length) = true ∧
      isZero b (e + 68) 28 = true ∧ isZero b (d + n) (sfTxnFileBytes - n) = true ∧
      slice b (e + 96) 32 = (sha256 (slice b d n)).toList then some ⟨path, slice b d n⟩ else none

/-- The loop of `decode`. -/
def decodeSlots (b : Mem) (count start : Nat) : List Nat → FileSlots → Option FileSlots
  | [], next => some next
  | i :: is, next =>
    if count ≤ i then if freeSlot b start i then decodeSlots b count start is next else none
    else match recordSlot sha256 b start i with
      | none => none
      | some x =>
        if (next.toList.take i).any (fun y => y.path == x.path) then none
        else decodeSlots b count start is (next.setIfInBounds i x)

def decodeArray (b : Mem) (generation slots start : Nat) : Option FileSlots :=
  if slice b 0 8 = bankMagic ∧ u64 b 8 = generation ∧ u32 b 16 ≤ slots ∧ isZero b 20 492 = true then
    match decodeSlots sha256 b (u32 b 16) start (List.range slots) emptySlots with
    | none => none
    | some t => if isZero b (start + slots * sfTxnFileBytes)
      (bufferBytes - start - slots * sfTxnFileBytes) then some t else none
  else none

def decodeBankArray (b : Mem) (generation : Nat) : Option FileSlots :=
  match decodeArray sha256 b generation sfTxnFiles sfTxnData with
  | some files => some files
  | none => decodeArray sha256 b generation 4 1024

/-- One turn of the loop of `sf_txn_mount`. -/
def mountSlotArray (read : Nat → Except SfError Sector) (t : SfTxnArray) (slot : Bool) : Except SfError SfTxnArray := do
  let s ← read (recordLba slot)
  if recordOk sha256 t.volume slot s = false then pure t else
    let b ← readBank read slot
    if (sha256 (slice b 0 bufferBytes)).toList ≠ slice s.mem 40 32 then pure t else
      match decodeBankArray sha256 b (u64 s.mem 8) with
      | none => pure t
      | some files =>
        if u64 s.mem 8 = t.generation then throw .badFormat
        else if t.generation < u64 s.mem 8 then pure { t with generation := u64 s.mem 8, bank := slot, files := files }
        else pure t

/-- `sf_txn_mount` -/
def mountArray (read : Nat → Except SfError Sector) : Except SfError SfTxnArray := do
  let s ← read sfTxnHeader
  if headerOk sha256 s = false then throw .badFormat else
    let t ← mountSlotArray sha256 read ⟨false, 0, false, volumeId s, emptySlots⟩ false
    let t ← mountSlotArray sha256 read t true
    if t.generation = 0 then throw .badFormat else pure { t with ready := true }

/-! ## Commit -/

/-- `sf_txn_get` -/
def getArray (t : SfTxnArray) (path : List UInt8) (capacity : Nat) : Except SfError (List UInt8) :=
  if t.ready = false then .error .deviceGone
  else match t.files.toList.find? (fun x => x.path == path) with
    | some x => if capacity < x.data.length then .error .noSpace else .ok x.data
    | none => .error .notFound

/-- The slot of a path in a commit: the first that is empty or has the path. -/
def slotFor (next : FileSlots) (path : List UInt8) : Nat := next.toList.findIdx fun x => x.path == [] || x.path == path

/-- One turn of the loop of `sf_txn_commit` over the batch. -/
def stageSlot (done : List (List UInt8)) (next : FileSlots) (path data : List UInt8) : Except SfError FileSlots :=
  if pathOk path = false ∨ sfTxnFileBytes < data.length then .error .invalid
  else if done.contains path then .error .invalid
  else if slotFor next path = sfTxnFiles then .error .noSpace
  else .ok (next.setIfInBounds (slotFor next path) ⟨path, data⟩)

def stageSlots : List (List UInt8) → FileSlots → List (List UInt8 × List UInt8) → Except SfError FileSlots
  | _, next, [] => .ok next
  | done, next, (path, data) :: rest =>
    match stageSlot done next path data with
    | .error e => .error e
    | .ok next => stageSlots (path :: done) next rest

def stageArray (t : SfTxnArray) (batch : List (List UInt8 × List UInt8)) : Except SfError FileSlots :=
  if t.ready = false then .error .deviceGone
  else if batch.length = 0 ∨ sfTxnFiles < batch.length ∨ t.generation = 2 ^ 64 - 1 then .error .invalid
  else stageSlots [] t.files batch

/-- One slot copied to record and data slot `i`. -/
def encodeSlot (b : Mem) (i : Nat) (x : FileSlot) : Mem :=
  let e := 512 + i * 128
  let d := sfTxnData + i * sfTxnFileBytes
  let b := blit b e (x.path ++ List.replicate (64 - x.path.length) 0)
  let b := put32 b (e + 64) x.data.length
  let b := blit b d x.data
  blit b (e + 96) (sha256 (slice b d x.data.length)).toList

def encodeSlots : Mem → Nat → List FileSlot → Mem
  | b, _, [] => b
  | b, i, x :: xs => encodeSlots (encodeSlot sha256 b i x) (i + 1) xs

/-- The slots before the first empty one. -/
def used (next : FileSlots) : List FileSlot := next.toList.takeWhile fun x => x.path != []

def encodeArray (generation : Nat) (next : FileSlots) : Mem :=
  encodeSlots sha256 (bankHeader generation (used next).length) 0 (used next)

def commitOpsArray (t : SfTxnArray) (next : FileSlots) : List (Op Sector) :=
  let buffer := encodeArray sha256 (t.generation + 1) next
  let record := commitRecord sha256 t.volume (t.generation + 1) (!t.bank) (sha256 (slice buffer 0 bufferBytes))
  [(recordLba (!t.bank), zeroSector)].map (fun w => Op.write w.1 w.2) ++ ([Op.flush] ++
    ((bankWrites (!t.bank) buffer).map (fun w => Op.write w.1 w.2) ++ ([Op.flush] ++
      ([(recordLba (!t.bank), record)].map (fun w => Op.write w.1 w.2) ++ [Op.flush]))))

/-- `sf_txn_commit` -/
def commitArray (t : SfTxnArray) (batch : List (List UInt8 × List UInt8)) (f : Faulty Sector) :
    Except SfError Unit × SfTxnArray × Faulty Sector :=
  match stageArray t batch with
  | .error e => (.error e, t, f)
  | .ok next =>
    let r := perform (tornOk sha256) (commitOpsArray sha256 t next) f
    if r.1 then (.ok (), { t with files := next, generation := t.generation + 1, bank := !t.bank }, r.2)
    else (.error .commitUncertain, { t with ready := false }, r.2)

/-- The bytes that `sf_txn_resize` commits. -/
def resized (old : List UInt8) (bytes : Nat) : List UInt8 := old.take bytes ++ List.replicate (bytes - old.length) 0

/-- `sf_txn_resize` -/
def resizeArray (t : SfTxnArray) (path : List UInt8) (bytes : Nat) (f : Faulty Sector) :
    Except SfError Unit × SfTxnArray × Faulty Sector :=
  if t.ready = false then (.error .deviceGone, t, f)
  else if pathOk path = false then (.error .invalid, t, f)
  else if sfTxnFileBytes < bytes then (.error .noSpace, t, f)
  else
    let old := ((t.files.toList.find? fun x => x.path == path).map FileSlot.data).getD []
    if bytes = old.length then (.ok (), t, f) else commitArray sha256 t [(path, resized old bytes)] f

end Functions

/-! ## The array of a table -/

open List

def SfTxnFile.slot (f : SfTxnFile) : FileSlot := ⟨f.path, f.data⟩

theorem length_slots (t : FileTable) :
    (t.files.map SfTxnFile.slot ++ replicate (sfTxnFiles - t.files.length) emptySlot).length = sfTxnFiles := by
  have hle := t.length_le
  simp only [length_append, length_map, length_replicate]
  omega

/-- The files in the first slots. -/
def FileTable.slots (t : FileTable) : FileSlots :=
  ⟨(t.files.map SfTxnFile.slot ++ List.replicate (sfTxnFiles - t.files.length) emptySlot).toArray, length_slots t⟩

def SfTxn.array (t : SfTxn) : SfTxnArray := ⟨t.ready, t.generation, t.bank, t.volume, t.files.slots⟩

section Table

variable {t : FileTable} {path : List UInt8}

theorem toList_slots (t : FileTable) :
    t.slots.toList = t.files.map SfTxnFile.slot ++ replicate (sfTxnFiles - t.files.length) emptySlot := by
  simp [FileTable.slots]

theorem slots_ext {v w : FileSlots} (h : v.toList = w.toList) : v = w := Vector.toList_inj.1 h

theorem path_ne_nil (f : SfTxnFile) : f.path ≠ [] := by
  have hlen := pathOk_length f.path_ok
  rintro h
  rw [h] at hlen
  exact absurd hlen.1 (by decide)

theorem slots_empty : FileTable.empty.slots = emptySlots := by
  apply slots_ext
  simp [toList_slots, FileTable.empty, emptySlots]

theorem used_slots (t : FileTable) : used t.slots = t.files.map SfTxnFile.slot := by
  have hall : ∀ x ∈ t.files.map SfTxnFile.slot, (x.path != []) = true := by
    intro x hx
    obtain ⟨f, -, rfl⟩ := mem_map.1 hx
    exact bne_iff_ne.2 (path_ne_nil f)
  unfold used
  rw [toList_slots, takeWhile_append_of_pos hall]
  cases sfTxnFiles - t.files.length <;> simp [replicate_succ, emptySlot]

theorem find_slots (hpath : path ≠ []) :
    t.slots.toList.find? (fun x => x.path == path) = (t.files.find? (fun g => g.path == path)).map SfTxnFile.slot := by
  have hempty : (replicate (sfTxnFiles - t.files.length) emptySlot).find? (fun x => x.path == path) = none := by
    rw [find?_eq_none]
    intro x hx
    rw [eq_of_mem_replicate hx]
    simpa [emptySlot] using Ne.symm hpath
  rw [toList_slots, find?_append, hempty, Option.or_none, find?_map]
  rfl

/-- A file in the first free slot. -/
theorem slots_add? {t' : FileTable} {f : SfTxnFile} (h : t.add? f = some t') :
    t'.slots = t.slots.setIfInBounds t.files.length f.slot := by
  obtain ⟨hfiles, -⟩ := FileTable.add?_some h
  have hlen := t'.length_le
  rw [hfiles, length_append, length_singleton] at hlen
  apply slots_ext
  obtain ⟨k, hk⟩ : ∃ k, sfTxnFiles - t.files.length = k + 1 := ⟨sfTxnFiles - t.files.length - 1, by omega⟩
  have hk' : sfTxnFiles - t'.files.length = k := by
    rw [hfiles, length_append, length_singleton]
    omega
  rw [Vector.toList_setIfInBounds, toList_slots, toList_slots, hk, hk', hfiles, set_append_right _ _ (by simp)]
  simp [replicate_succ]

/-- A file in the slot of its path. -/
theorem slots_set {t' : FileTable} {f : SfTxnFile} {i : Nat} (hi : i < t.files.length) (h : t'.files = t.files.set i f) :
    t'.slots = t.slots.setIfInBounds i f.slot := by
  apply slots_ext
  rw [Vector.toList_setIfInBounds, toList_slots, toList_slots, h, set_append_left _ _ (by simpa using hi)]
  simp [map_set]

theorem slotFor_slots (t : FileTable) (path : List UInt8) : slotFor t.slots path = t.slot path := by
  have hpred : ((fun x : FileSlot => x.path == [] || x.path == path) ∘ SfTxnFile.slot) = fun g : SfTxnFile =>
    g.path == path := by
    funext g
    simp [SfTxnFile.slot, path_ne_nil g]
  have hrest : (replicate (sfTxnFiles - t.files.length) emptySlot).findIdx
    (fun x => x.path == [] || x.path == path) = 0 := by
    cases sfTxnFiles - t.files.length with
    | zero => rfl
    | succ k => simp [replicate_succ, findIdx_cons, emptySlot]
  unfold slotFor
  rw [toList_slots, findIdx_append, findIdx_map, hpred, hrest, length_map]
  split
  · rfl
  rename_i hno
  rw [Nat.zero_add]
  exact Nat.le_antisymm (Nat.not_lt.1 hno) findIdx_le_length

/-- The slot of a new file is the first free one. -/
theorem slot_of_not_lt (h : ¬ t.slot path < t.files.length) : t.slot path = t.files.length ∧
    path ∉ t.files.map SfTxnFile.path := by
  refine ⟨Nat.le_antisymm findIdx_le_length (Nat.not_lt.1 h), ?_⟩
  intro hmem
  obtain ⟨g, hg, rfl⟩ := mem_map.1 hmem
  exact h (findIdx_lt_length.2 ⟨g, hg, beq_self_eq_true _⟩)

/-- **To put a file into a table** is to put it into the slot of its path. -/
theorem slots_put? (t : FileTable) (f : SfTxnFile) : (t.put? f).map FileTable.slots =
    if t.slot f.path = sfTxnFiles then none else some (t.slots.setIfInBounds (t.slot f.path) f.slot) := by
  have hle := t.length_le
  unfold FileTable.put?
  by_cases hslot : t.slot f.path < t.files.length
  · rw [dif_pos hslot, if_neg (by omega), Option.map_some, slots_set hslot rfl]
  obtain ⟨heq, hnew⟩ := slot_of_not_lt hslot
  rw [dif_neg hslot, heq]
  by_cases hfull : t.files.length = sfTxnFiles
  · have hadd : t.add? f = none := dif_neg fun h => absurd h.1 (by omega)
    rw [hadd, if_pos hfull]
    rfl
  · obtain ⟨t', hadd⟩ : ∃ t', t.add? f = some t' := ⟨_, dif_pos ⟨by omega, hnew⟩⟩
    rw [hadd, if_neg hfull, Option.map_some, slots_add? hadd]

/-! ## Commits -/

theorem stageSlot_slots (done : List (List UInt8)) (t : FileTable) (path data : List UInt8) :
    stageSlot done t.slots path data = (stageFile done t path data).map FileTable.slots := by
  unfold stageSlot stageFile
  by_cases hok : pathOk path = true ∧ data.length ≤ sfTxnFileBytes
  · have hput := slots_put? t ⟨path, data, hok.1, hok.2⟩
    rw [if_neg (by simp only [hok.1]; simpa using hok.2), dif_pos hok, slotFor_slots]
    split
    · rfl
    split at hput
    · rename_i hfull
      rw [if_pos hfull]
      rw [Option.map_eq_none_iff.1 hput]
      rfl
    · rename_i hroom
      obtain ⟨t', ht', hslots⟩ := Option.map_eq_some_iff.1 hput
      rw [if_neg hroom, ht']
      exact congrArg Except.ok hslots.symm
  · rw [dif_neg hok, if_pos (by rw [not_and_or, Bool.not_eq_true, Nat.not_le] at hok; exact hok)]
    rfl

theorem stageSlots_slots : ∀ (batch : List (List UInt8 × List UInt8)) (done : List (List UInt8)) (t : FileTable),
    stageSlots done t.slots batch = (stageFiles done t batch).map FileTable.slots
  | [], _, _ => rfl
  | (path, data) :: rest, done, t => by
    unfold stageSlots stageFiles
    rw [stageSlot_slots]
    cases stageFile done t path data with
    | error e => rfl
    | ok t' => exact stageSlots_slots rest (path :: done) t'

theorem stageArray_eq (t : SfTxn) (batch : List (List UInt8 × List UInt8)) :
    stageArray t.array batch = (stage t batch).map FileTable.slots := by
  unfold stageArray stage SfTxn.array
  dsimp only
  split
  · rfl
  split
  · rfl
  · exact stageSlots_slots batch [] t.files

variable (sha256 : List UInt8 → Digest)

theorem encodeSlots_slots : ∀ (fs : List SfTxnFile) (b : Mem) (i : Nat),
    encodeSlots sha256 b i (fs.map SfTxnFile.slot) = encodeFiles sha256 current b i fs
  | [], _, _ => rfl
  | f :: fs, b, i => encodeSlots_slots fs (encodeFile sha256 current b i f) (i + 1)

theorem encodeArray_eq (generation : Nat) (t : FileTable) :
    encodeArray sha256 generation t.slots = encode sha256 generation t := by
  unfold encodeArray encode encodeIn
  rw [used_slots, length_map, encodeSlots_slots]

/-- A result on the table as a result on the array. -/
def onArray (r : Except SfError Unit × SfTxn × Faulty Sector) : Except SfError Unit × SfTxnArray × Faulty Sector :=
  (r.1, r.2.1.array, r.2.2)

theorem commitArray_eq (t : SfTxn) (batch : List (List UInt8 × List UInt8)) (f : Faulty Sector) :
    commitArray sha256 t.array batch f = onArray (sfTxnCommit sha256 t batch f) := by
  unfold commitArray sfTxnCommit
  rw [stageArray_eq]
  cases stage t batch with
  | error e => rfl
  | ok next =>
    have hops : commitOpsArray sha256 t.array next.slots = commitOps sha256 t next := by
      unfold commitOpsArray commitOps
      rw [encodeArray_eq]
      rfl
    simp only [Except.map, hops]
    split <;> rfl

theorem getArray_eq (t : SfTxn) (path : List UInt8) (capacity : Nat) :
    getArray t.array path capacity = sfTxnGet t path capacity := by
  unfold getArray sfTxnGet
  change (if t.ready = false then _ else match t.files.slots.toList.find?
    (fun x => x.path == path) with | some x => _ | none => _) = _
  split
  · rfl
  by_cases hpath : path = []
  · -- the slots that are not used have this path, and no file has
    subst hpath
    have hfiles : t.files.files.find? (fun g => g.path == []) = none :=
      find?_eq_none.2 fun g _ => by simpa using path_ne_nil g
    have hslots : (t.files.files.map SfTxnFile.slot).find? (fun x => x.path == []) = none := by
      rw [find?_map]
      exact Option.map_eq_none_iff.2 hfiles
    rw [toList_slots, find?_append, hslots, Option.none_or, FileTable.get?, hfiles]
    by_cases hroom : t.files.files.length < sfTxnFiles
    · obtain ⟨k, hk⟩ : ∃ k, sfTxnFiles - t.files.files.length = k + 1 := ⟨sfTxnFiles - t.files.files.length - 1, by omega⟩
      simp [hk, hroom, emptySlot]
    · have hk : sfTxnFiles - t.files.files.length = 0 := by omega
      simp [hk, hroom]
  · rw [find_slots hpath, FileTable.get?]
    cases t.files.files.find? (fun g => g.path == path) with
    | none => simp [hpath]
    | some g => rfl

/-! ## Mounts -/

theorem recordSlot_eq (b : Mem) (start i : Nat) :
    recordSlot sha256 b start i = (decodeFile sha256 b start i).map SfTxnFile.slot := by
  unfold recordSlot decodeFile
  dsimp only
  split
  · rename_i hok
    rw [dif_pos ⟨hok.1, hok.2.1⟩, if_pos (by simp [hok.2.2])]
    rfl
  · rename_i hok
    split
    · rename_i hfirst
      rw [if_neg]
      · rfl
      intro hrest
      simp only [Bool.and_eq_true, beq_iff_eq] at hrest
      exact hok ⟨hfirst.1, hfirst.2, hrest.1.1.1, hrest.1.1.2, hrest.1.2, hrest.2⟩
    · rfl

/-- The loop of `decode`, from slot `i` on; so far the first slots are filled. -/
theorem decodeSlots_slots (b : Mem) (count start : Nat) : ∀ (k i : Nat) (t : FileTable), t.files.length = min i count →
    i + k ≤ sfTxnFiles → decodeSlots sha256 b count start (range' i k) t.slots =
      (decodeFiles sha256 b count start (range' i k) t).map FileTable.slots
  | 0, _, _, _, _ => rfl
  | k + 1, i, t, hlen, hk => by
    rw [range'_succ]
    unfold decodeSlots decodeFiles
    split
    · rename_i hcount
      split
      · exact decodeSlots_slots b count start k (i + 1) t (by omega) (by omega)
      · rfl
    · rename_i hcount
      have hi : t.files.length = i := by omega
      rw [recordSlot_eq]
      cases decodeFile sha256 b start i with
      | none => rfl
      | some f =>
        have hdup : ((t.slots.toList.take i).any fun y => y.path == f.slot.path) = true ↔
          f.path ∈ t.files.map SfTxnFile.path := by
          rw [toList_slots, take_append_of_le_length (by simp [hi]), take_of_length_le (by simp [hi])]
          simp [SfTxnFile.slot]
        simp only [Option.map_some]
        by_cases hmem : f.path ∈ t.files.map SfTxnFile.path
        · have hadd : t.add? f = none := dif_neg fun h => h.2 hmem
          rw [if_pos (hdup.2 hmem), hadd]
          rfl
        · obtain ⟨t', hadd⟩ : ∃ t', t.add? f = some t' := ⟨_, dif_pos ⟨by omega, hmem⟩⟩
          obtain ⟨hfiles, -⟩ := FileTable.add?_some hadd
          rw [if_neg (fun h => hmem (hdup.1 h)), hadd, ← hi, ← slots_add? hadd]
          have hlen' : t'.files.length = min (t.files.length + 1) count := by
            rw [hfiles, length_append, length_singleton]
            omega
          exact decodeSlots_slots b count start k (t.files.length + 1) t' hlen' (by omega)

theorem decodeArray_eq (b : Mem) (generation : Nat) {slots : Nat} (start : Nat) (hslots : slots ≤ sfTxnFiles) :
    decodeArray sha256 b generation slots start = (decode sha256 b generation slots start).map FileTable.slots := by
  unfold decodeArray decode
  split
  · rw [← slots_empty, range_eq_range',
      decodeSlots_slots sha256 b _ start slots 0 _ (by simp [FileTable.empty]) (by omega)]
    cases decodeFiles sha256 b (u32 b 16) start (range' 0 slots) FileTable.empty with
    | none => rfl
    | some t =>
      simp only [Option.map_some]
      split <;> rfl
  · rfl

theorem decodeBankArray_eq (b : Mem) (generation : Nat) :
    decodeBankArray sha256 b generation = (decodeBank sha256 b generation).map FileTable.slots := by
  unfold decodeBankArray decodeBank
  rw [decodeArray_eq sha256 b generation sfTxnData (Nat.le_refl _), decodeArray_eq sha256 b generation 1024 (by decide)]
  cases decode sha256 b generation sfTxnFiles sfTxnData <;> rfl

theorem mountSlotArray_eq (read : Nat → Except SfError Sector) (t : SfTxn) (slot : Bool) :
    mountSlotArray sha256 read t.array slot = (mountSlot sha256 read t slot).map SfTxn.array := by
  unfold mountSlotArray mountSlot
  cases read (recordLba slot) with
  | error e => rfl
  | ok s =>
    change (if recordOk sha256 t.volume slot s = false then _ else _) =
      Except.map SfTxn.array (if recordOk sha256 t.volume slot s = false then _ else _)
    split
    · rfl
    cases readBank read slot with
    | error e => rfl
    | ok b =>
      change (if (sha256 (slice b 0 bufferBytes)).toList ≠ slice s.mem 40 32 then _ else _) =
        Except.map SfTxn.array (if (sha256 (slice b 0 bufferBytes)).toList ≠ slice s.mem 40 32 then _ else _)
      split
      · rfl
      rw [decodeBankArray_eq]
      cases decodeBank sha256 b (u64 s.mem 8) with
      | none => rfl
      | some files =>
        change (if u64 s.mem 8 = t.generation then _ else if t.generation < u64 s.mem 8 then _ else _) =
          Except.map SfTxn.array (if u64 s.mem 8 = t.generation then _ else if t.generation < u64 s.mem 8 then _ else _)
        split
        · rfl
        · split <;> rfl

/-- **Mounting** gives the array of a table. -/
theorem mountArray_eq (read : Nat → Except SfError Sector) :
    mountArray sha256 read = (sfTxnMount sha256 read).map SfTxn.array := by
  unfold mountArray sfTxnMount
  cases read sfTxnHeader with
  | error e => rfl
  | ok s =>
    change (if headerOk sha256 s = false then _ else _) = Except.map SfTxn.array (if headerOk sha256 s = false then _ else _)
    split
    · rfl
    have hfirst := mountSlotArray_eq sha256 read ⟨false, 0, false, volumeId s, FileTable.empty⟩ false
    simp only [SfTxn.array, slots_empty] at hfirst
    rw [hfirst]
    cases mountSlot sha256 read ⟨false, 0, false, volumeId s, FileTable.empty⟩ false with
    | error e => rfl
    | ok t =>
      change (mountSlotArray sha256 read t.array true >>= _) = Except.map SfTxn.array (mountSlot sha256 read t true >>= _)
      rw [mountSlotArray_eq]
      cases mountSlot sha256 read t true with
      | error e => rfl
      | ok u =>
        change (if u.generation = 0 then _ else _) = Except.map SfTxn.array (if u.generation = 0 then _ else _)
        split <;> rfl

/-- `sf_txn_resize` on the table. -/
def sfTxnResize (t : SfTxn) (path : List UInt8) (bytes : Nat) (f : Faulty Sector) :
    Except SfError Unit × SfTxn × Faulty Sector :=
  if t.ready = false then (.error .deviceGone, t, f)
  else if pathOk path = false then (.error .invalid, t, f)
  else if sfTxnFileBytes < bytes then (.error .noSpace, t, f)
  else
    let old := (t.files.get? path).getD []
    if bytes = old.length then (.ok (), t, f) else sfTxnCommit sha256 t [(path, resized old bytes)] f

theorem resizeArray_eq (t : SfTxn) (path : List UInt8) (bytes : Nat) (f : Faulty Sector) :
    resizeArray sha256 t.array path bytes f = onArray (sfTxnResize sha256 t path bytes f) := by
  unfold resizeArray sfTxnResize
  change (if t.ready = false then _ else _) = _
  split
  · rfl
  split
  · rfl
  rename_i hpath
  split
  · rfl
  have hne : path ≠ [] := by
    rintro rfl
    exact hpath (by decide)
  have hold : ((t.array.files.toList.find? fun x => x.path == path).map FileSlot.data).getD [] =
    (t.files.get? path).getD [] := by
    change ((t.files.slots.toList.find? fun x => x.path == path).map FileSlot.data).getD [] = _
    rw [find_slots hne, FileTable.get?, Option.map_map]
    rfl
  simp only [hold]
  split
  · rfl
  · exact commitArray_eq sha256 t _ f

end Table

/-! ## Volumes in use -/

section Runs

variable (sha256 : List UInt8 → Digest)

/-- A volume that was mounted from a device, and the device, after any commits. -/
inductive Attached : Disk Sector → SfTxnArray → Prop
  | mount {d : Disk Sector} {t : SfTxnArray} (read : Nat → Except SfError Sector)
      (reads : ∀ a x, read a = .ok x → x = d.cache a) (ok : mountArray sha256 read = .ok t) : Attached d t
  | commit {d : Disk Sector} {t : SfTxnArray} (h : Attached d t) (batch : List (List UInt8 × List UInt8))
      (script : List (Outcome Sector)) :
      Attached (commitArray sha256 t batch ⟨d, script⟩).2.2.disk (commitArray sha256 t batch ⟨d, script⟩).2.1
  | resize {d : Disk Sector} {t : SfTxnArray} (h : Attached d t) (path : List UInt8) (bytes : Nat)
      (script : List (Outcome Sector)) :
      Attached (resizeArray sha256 t path bytes ⟨d, script⟩).2.2.disk (resizeArray sha256 t path bytes ⟨d, script⟩).2.1

/-- A volume that is ready is what a mount of the device gives. -/
def Mirrored (d : Disk Sector) (t : SfTxn) : Prop := t.ready = true → mountMedia sha256 d.cache = .ok t

variable {sha256} {d : Disk Sector} {t : SfTxn} {batch : List (List UInt8 × List UInt8)} {script : List (Outcome Sector)}

/-- **A commit that got through** is what a mount finds. -/
theorem mountMedia_perform {next : FileTable} (hm : mountMedia sha256 d.cache = .ok t) (hstage : stage t batch = .ok next)
    (hdone : (perform (tornOk sha256) (commitOps sha256 t next) ⟨d, script⟩).1 = true) :
    mountMedia sha256 (perform (tornOk sha256) (commitOps sha256 t next) ⟨d, script⟩).2.disk.cache =
      .ok { t with files := next, generation := t.generation + 1, bank := !t.bank } := by
  obtain ⟨hready, hmax, -⟩ := stage_ok hstage
  -- as far as reads go the device could have been flushed before the commit
  have hgood := good_of_mount (d := d.flush) rfl hm
  have hlt := snapshot_lt sha256 hgood.live
  have hresult := perform_commitOps (f := ⟨d.flush, replicate (commitOps sha256 t next).length .ok ++ []⟩) next hgood
    (Q := fun _ _ => True) (by omega) (fun _ _ _ => trivial) trivial
  rw [perform_ok] at hresult
  obtain ⟨-, hnew⟩ := hresult.2 rfl
  obtain ⟨t', hmount, hready', hvolume, hcase⟩ := hnew.mount (fun g files h => by omega) (crash_cache _ _)
  have hcache : (perform (tornOk sha256) (commitOps sha256 t next) ⟨d, script⟩).2.disk.cache =
      (d.flush.run (commitOps sha256 t next)).cache := by
    rw [perform_run _ _ _ hdone]
    exact cache_run_congr _ rfl
  rw [hcache, hmount]
  obtain ⟨ready, g, bank, volume, files⟩ := t'
  rcases hcase with ⟨rfl, rfl, rfl⟩ | ⟨-, ⟨hold, -⟩, hlater⟩
  · exact congrArg Except.ok (by rw [SfTxn.mk.injEq]; exact ⟨hready'.trans hready.symm, rfl, rfl, hvolume, rfl⟩)
  · dsimp only at hold hlater
    omega

theorem mirrored_commit (h : Mirrored sha256 d t) (batch : List (List UInt8 × List UInt8)) (script : List (Outcome Sector)) :
    Mirrored sha256 (sfTxnCommit sha256 t batch ⟨d, script⟩).2.2.disk (sfTxnCommit sha256 t batch ⟨d, script⟩).2.1 := by
  unfold sfTxnCommit
  cases hstage : stage t batch with
  | error e => exact h
  | ok next =>
    dsimp only
    split
    · rename_i hdone
      intro _
      exact mountMedia_perform (h (stage_ok hstage).1) hstage hdone
    · exact fun hready => absurd hready Bool.false_ne_true

theorem mirrored_resize (h : Mirrored sha256 d t) (path : List UInt8) (bytes : Nat) (script : List (Outcome Sector)) :
    Mirrored sha256 (sfTxnResize sha256 t path bytes ⟨d, script⟩).2.2.disk
      (sfTxnResize sha256 t path bytes ⟨d, script⟩).2.1 := by
  unfold sfTxnResize
  split
  · exact h
  split
  · exact h
  split
  · exact h
  dsimp only
  split
  · exact h
  · exact mirrored_commit h _ script

/-- **Every volume in use is the array of a table.** -/
theorem Attached.table {a : SfTxnArray} (h : Attached sha256 d a) : ∃ t : SfTxn, a = t.array ∧ Mirrored sha256 d t := by
  induction h with
  | mount read reads ok =>
    rw [mountArray_eq] at ok
    cases hm : sfTxnMount sha256 read with
    | error e =>
      rw [hm] at ok
      cases ok
    | ok t =>
      rw [hm] at ok
      exact ⟨t, (Except.ok.inj ok).symm, fun _ => sfTxnMount_reads sha256 reads hm⟩
  | commit _ batch script ih =>
    obtain ⟨t, rfl, hb⟩ := ih
    rw [commitArray_eq]
    exact ⟨_, rfl, mirrored_commit hb batch script⟩
  | resize _ path bytes script ih =>
    obtain ⟨t, rfl, hb⟩ := ih
    rw [resizeArray_eq]
    exact ⟨_, rfl, mirrored_resize hb path bytes script⟩

/-- The files come first, with canonical and distinct paths; the other slots are empty. -/
def Dense (files : FileSlots) : Prop :=
  ∃ l : List FileSlot, files.toList = l ++ List.replicate (sfTxnFiles - l.length) emptySlot ∧ l.length ≤ sfTxnFiles ∧
    (∀ x ∈ l, pathOk x.path = true ∧ x.data.length ≤ sfTxnFileBytes) ∧ (l.map FileSlot.path).Nodup

theorem dense_slots (t : FileTable) : Dense t.slots := by
  refine ⟨t.files.map SfTxnFile.slot, ?_, ?_, ?_, ?_⟩
  · rw [toList_slots, length_map]
  · rw [length_map]
    exact t.length_le
  · intro x hx
    obtain ⟨f, -, rfl⟩ := mem_map.1 hx
    exact ⟨f.path_ok, f.data_le⟩
  · rw [map_map]
    exact t.nodup

/-- The volume answers nothing until it is mounted again. -/
structure Refuses (sha256 : List UInt8 → Digest) (t : SfTxnArray) : Prop where
  get : ∀ path capacity, getArray t path capacity = .error .deviceGone
  resize : ∀ path bytes f, resizeArray sha256 t path bytes f = (.error .deviceGone, t, f)
  commit : ∀ batch f, commitArray sha256 t batch f = (.error .deviceGone, t, f)

theorem refuses_of_not_ready {a : SfTxnArray} (h : a.ready = false) : Refuses sha256 a := by
  refine ⟨fun path capacity => if_pos h, fun path bytes f => if_pos h, fun batch f => ?_⟩
  unfold commitArray stageArray
  rw [if_pos h]

/-- What `sf_txn_commit` does to a volume and its device. -/
structure MapUpdate (sha256 : List UInt8 → Digest) (d : Disk Sector) (script : List (Outcome Sector)) (t : SfTxnArray)
    (batch : List (List UInt8 × List UInt8)) (r : Except SfError Unit × SfTxnArray × Faulty Sector) : Prop where
  /-- The batch's bytes under the batch's paths, and what was there under every other. -/
  files : r.1 = .ok () → ∀ p capacity, pathOk p = true → getArray r.2.1 p capacity =
    match batch.lookup p with
    | some data => if capacity < data.length then .error .noSpace else .ok data
    | none => getArray t p capacity
  remount : r.1 = .ok () → mountArray sha256 (fun a => .ok (r.2.2.disk.cache a)) = .ok r.2.1 ∧
    r.2.1.generation = t.generation + 1 ∧ r.2.1.bank = !t.bank
  refused : r.1 = .error .invalid ∨ r.1 = .error .noSpace → r.2 = (t, ⟨d, script⟩)
  uncertain : r.1 = .error .commitUncertain → Refuses sha256 r.2.1
  dense : Dense t.files

theorem sfTxnGet_ready (hready : t.ready = true) {p : List UInt8} (hp : pathOk p = true) (capacity : Nat) :
    sfTxnGet t p capacity = match t.files.get? p with
      | some data => if capacity < data.length then .error .noSpace else .ok data
      | none => .error .notFound := by
  have hne : ¬ (p = [] ∧ t.files.files.length < sfTxnFiles) := by
    rintro ⟨rfl, -⟩
    exact absurd hp (by decide)
  unfold sfTxnGet
  rw [if_neg (by rw [hready]; decide)]
  cases t.files.get? p with
  | none => exact if_neg hne
  | some data => rfl

theorem getArray_updated {u : SfTxn} (hupd : Updated t.files batch u.files) (hready : t.ready = true) (hu : u.ready = true)
    {p : List UInt8} (hp : pathOk p = true) (capacity : Nat) : getArray u.array p capacity = match batch.lookup p with
      | some data => if capacity < data.length then .error .noSpace else .ok data
      | none => getArray t.array p capacity := by
  rw [getArray_eq, getArray_eq, sfTxnGet_ready hu hp, sfTxnGet_ready hready hp, hupd p]
  cases batch.lookup p with
  | some data => rfl
  | none => rw [Option.none_or]

/-- The batch alone is refused with these errors. -/
theorem raises_stageFiles : ∀ (batch : List (List UInt8 × List UInt8)) (done : List (List UInt8)) (files : FileTable),
    Raises (fun e => e = .invalid ∨ e = .noSpace) (stageFiles done files batch)
  | [], _, _ => raises_ok _
  | (path, data) :: rest, done, files => by
    have hfile : Raises (fun e => e = .invalid ∨ e = .noSpace) (stageFile done files path data) := by
      unfold stageFile
      split
      · split
        · exact raises_throw (.inl rfl)
        · split
          · exact raises_throw (.inr rfl)
          · exact raises_ok _
      · exact raises_throw (.inl rfl)
    unfold stageFiles
    split
    · rename_i e he
      exact raises_throw (hfile e he)
    · exact raises_stageFiles rest _ _

theorem stage_ne_uncertain : stage t batch ≠ .error .commitUncertain := by
  unfold stage
  split
  · exact nofun
  split
  · exact nofun
  · intro he
    rcases raises_stageFiles batch [] t.files _ he with h | h <;> cases h

/-- **A commit updates the map of files.** For every volume in use, every batch and every behaviour of the device. -/
theorem commit_map_update {a : SfTxnArray} (attached : Attached sha256 d a) (batch : List (List UInt8 × List UInt8))
    (script : List (Outcome Sector)) : MapUpdate sha256 d script a batch (commitArray sha256 a batch ⟨d, script⟩) := by
  obtain ⟨t, rfl, hmirrored⟩ := attached.table
  rw [commitArray_eq]
  have hnext := mirrored_commit hmirrored batch script
  unfold sfTxnCommit at hnext ⊢
  cases hstage : stage t batch with
  | error e =>
    rw [hstage] at hnext
    refine ⟨nofun, nofun, fun _ => rfl, ?_, dense_slots t.files⟩
    intro he
    exact absurd (hstage.trans (congrArg Except.error (Except.error.inj he))) stage_ne_uncertain
  | ok next =>
    rw [hstage] at hnext
    obtain ⟨hready, -, hfiles⟩ := stage_ok hstage
    dsimp only at hnext ⊢
    split at hnext
    · rename_i hdone
      rw [if_pos hdone]
      refine ⟨?_, ?_, ?_, nofun, dense_slots t.files⟩
      · intro _ p capacity hp
        exact getArray_updated (u := { t with files := next, generation := t.generation + 1, bank := !t.bank })
          (updated_of_stageFiles hfiles) hready hready hp capacity
      · intro _
        refine ⟨?_, rfl, rfl⟩
        rw [mountArray_eq]
        exact congrArg (Except.map SfTxn.array) (hnext hready)
      · rintro (h | h) <;> cases h
    · rename_i hdone
      rw [if_neg hdone]
      refine ⟨nofun, nofun, ?_, fun _ => refuses_of_not_ready rfl, dense_slots t.files⟩
      rintro (h | h) <;> cases h

/-- A file made on a formatted volume. -/
theorem commit_map_update_formatted :
    let sha256 : List UInt8 → Digest := fun _ => Vector.replicate 32 0
    let a : SfTxnArray := ⟨true, 1, false, List.replicate 16 0, emptySlots⟩
    let d : Disk Sector := ⟨formatted sha256 (fun _ => zeroSector) (List.replicate 16 0), []⟩
    Attached sha256 d a ∧ MapUpdate sha256 d [] a [([47, 97], [1])] (commitArray sha256 a [([47, 97], [1])] ⟨d, []⟩) := by
  intro sha256 a d
  have hattached : Attached sha256 d a := by
    refine .mount (fun x => .ok (d.cache x)) (fun _ _ h => (Except.ok.inj h).symm) ?_
    have hm : sfTxnMount sha256 (fun x => .ok (d.cache x)) = .ok ⟨true, 1, false, List.replicate 16 0, FileTable.empty⟩ :=
      mountMedia_formatted sha256 _ (by decide)
    rw [mountArray_eq, hm]
    exact congrArg (fun files => Except.ok (SfTxnArray.mk true 1 false (List.replicate 16 0) files)) slots_empty
  exact ⟨hattached, commit_map_update hattached _ _⟩

end Runs

end SpiritFox.Txn
