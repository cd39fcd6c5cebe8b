import Mathlib.Data.List.GetD
import Mathlib.Data.List.Nodup
import SpiritFox.Abi

/-!
# Files of a transaction volume

`services/txn.c` keeps at most five files, each a path and at most 16 KiB of data, in the occupied prefix of an array.
`pathOk` is the source's path grammar. A `SfTxnFile` carries the checks every stored file has passed and a `FileTable` those
of the whole array, so neither can be built without them.
-/

namespace SpiritFox.Txn

open List

def sfTxnFiles : Nat := 5
def sfTxnFileBytes : Nat := 16384

/-- `path_ok` on the bytes before the terminator: absolute, printable, no empty, `.` or `..` component. -/
def pathOk (p : List UInt8) : Bool :=
  2 ≤ p.length && p.length < 64 && p.head? == some 47 && p.getLast? != some 47 &&
    (List.range p.length).all (fun i => i == 0 ||
      (33 ≤ p.getD i 0 && p.getD i 0 ≤ 126 && p.getD i 0 != 92 && !(p.getD i 0 == 47 && p.getD (i - 1) 0 == 47))) &&
    ((p.drop 1).splitOn 47).all (fun c => c != [46] && c != [46, 46])

theorem pathOk_length {p : List UInt8} (h : pathOk p = true) : 2 ≤ p.length ∧ p.length < 64 := by
  simp only [pathOk, Bool.and_eq_true, decide_eq_true_eq] at h
  exact h.1.1.1.1

/-- A path has no zero byte, so as a C string it ends where it ends. -/
theorem pathOk_ne_zero {p : List UInt8} (h : pathOk p = true) : ∀ c ∈ p, c ≠ 0 := by
  simp only [pathOk, Bool.and_eq_true, all_eq_true, mem_range, Bool.or_eq_true, beq_iff_eq,
    decide_eq_true_eq] at h
  intro c hc
  obtain ⟨i, hi, rfl⟩ := getElem_of_mem hc
  rcases h.1.2 i hi with rfl | hc
  · have h47 := h.1.1.1.2
    rw [head?_eq_getElem?, getElem?_eq_getElem hi] at h47
    rw [Option.some.inj h47]; decide
  · have h33 := hc.1.1.1
    rw [getD_eq_getElem _ _ hi] at h33
    intro h0
    rw [h0] at h33
    exact absurd h33 (by decide)

/-- A stored file; `data` is the first `bytes` bytes of the source's buffer. -/
structure SfTxnFile where
  path : List UInt8
  data : List UInt8
  path_ok : pathOk path = true
  data_le : data.length ≤ sfTxnFileBytes
  deriving DecidableEq

/-- The occupied prefix of the file array. -/
structure FileTable where
  files : List SfTxnFile
  length_le : files.length ≤ sfTxnFiles
  nodup : (files.map SfTxnFile.path).Nodup
  deriving DecidableEq

theorem SfTxnFile.ext' {f g : SfTxnFile} (hp : f.path = g.path) (hd : f.data = g.data) : f = g := by
  cases f; cases g; simp_all

theorem FileTable.ext' {t u : FileTable} (h : t.files = u.files) : t = u := by
  cases t; cases u; simp_all

namespace FileTable

def empty : FileTable := ⟨[], Nat.zero_le _, List.nodup_nil⟩

/-- A further file, when there is room and its path is new. -/
def add? (t : FileTable) (f : SfTxnFile) : Option FileTable :=
  if h : t.files.length < sfTxnFiles ∧ f.path ∉ t.files.map SfTxnFile.path then
    some ⟨t.files ++ [f], by rw [List.length_append]; exact h.1, by
      rw [List.map_append, List.nodup_append]
      exact ⟨t.nodup, List.nodup_singleton _, fun a ha b hb e => h.2 (by
        rw [List.map_singleton, List.mem_singleton] at hb; rw [← hb, ← e]; exact ha)⟩⟩
  else none

/-- The first slot holding `p`, or the first free one. -/
def slot (t : FileTable) (p : List UInt8) : Nat := t.files.findIdx (fun g => g.path == p)

theorem slot_path {t : FileTable} {p : List UInt8} (h : t.slot p < t.files.length) : (t.files[t.slot p]).path = p := by
  have hlt : t.files.findIdx (fun g => g.path == p) < t.files.length := h
  exact beq_iff_eq.1 (findIdx_getElem (w := hlt))

/-- Replacing a file by one of the same path keeps the paths. -/
theorem map_path_set {t : FileTable} {f : SfTxnFile} (h : t.slot f.path < t.files.length) :
    (t.files.set (t.slot f.path) f).map SfTxnFile.path = t.files.map SfTxnFile.path := by
  apply ext_getElem (by simp)
  intro i h₁ h₂
  rw [length_map] at h₂
  simp only [getElem_map, getElem_set]
  split
  · subst i; exact (slot_path h).symm
  · rfl

/-- The table with `f` in the slot of its path, or in a free one. -/
def put? (t : FileTable) (f : SfTxnFile) : Option FileTable :=
  if h : t.slot f.path < t.files.length then
    some ⟨t.files.set (t.slot f.path) f, by rw [List.length_set]; exact t.length_le, by
      rw [map_path_set h]; exact t.nodup⟩
  else t.add? f

/-- The bytes stored under `p`. -/
def get? (t : FileTable) (p : List UInt8) : Option (List UInt8) :=
  (t.files.find? (fun g => g.path == p)).map SfTxnFile.data

/-! ## Updating one file -/

section Update

variable {t t' : FileTable} {f : SfTxnFile}

theorem length_get?_le {p data : List UInt8} (h : t.get? p = some data) : data.length ≤ sfTxnFileBytes := by
  obtain ⟨f, -, rfl⟩ := Option.map_eq_some_iff.1 h
  exact f.data_le

/-- A path is stored exactly when the search for its slot ends before the free ones. -/
theorem slot_lt_iff {p : List UInt8} : t.slot p < t.files.length ↔ t.get? p ≠ none := by
  rw [slot, findIdx_lt_length, get?, ne_eq, Option.map_eq_none_iff, find?_eq_none]
  simp only [not_forall, not_not, exists_prop]

theorem add?_some (h : t.add? f = some t') : t'.files = t.files ++ [f] ∧ f.path ∉ t.files.map SfTxnFile.path := by
  unfold add? at h
  split at h
  · cases h; exact ⟨rfl, (by assumption : _ ∧ _).2⟩
  · cases h

theorem get?_add? (h : t.add? f = some t') (p : List UInt8) :
    t'.get? p = if p = f.path then some f.data else t.get? p := by
  obtain ⟨hfiles, hnew⟩ := add?_some h
  unfold get?
  rw [hfiles, find?_append]
  by_cases hp : p = f.path
  · subst hp
    have hnone : t.files.find? (fun g => g.path == f.path) = none :=
      find?_eq_none.2 fun g hg he => hnew (beq_iff_eq.1 he ▸ mem_map_of_mem hg)
    simp [hnone]
  · have hne : (f.path == p) = false := beq_eq_false_iff_ne.2 (Ne.symm hp)
    simp [hp, hne]

theorem find?_set (f : SfTxnFile) (p : List UInt8) : ∀ l : List SfTxnFile,
    l.findIdx (fun g => g.path == f.path) < l.length →
    ((l.set (l.findIdx (fun g => g.path == f.path)) f).find? (fun g => g.path == p)).map SfTxnFile.data =
      if p = f.path then some f.data else (l.find? (fun g => g.path == p)).map SfTxnFile.data
  | [], h => absurd h (by simp)
  | g :: l, h => by
    rw [findIdx_cons] at h ⊢
    by_cases hg : g.path = f.path
    · by_cases hp : p = f.path
      · simp [hg, hp]
      · simp [hg, hp, Ne.symm hp]
    · simp only [beq_eq_false_iff_ne.2 hg, cond_false, length_cons, Nat.add_lt_add_iff_right] at h ⊢
      rw [set_cons_succ, find?_cons, find?_cons]
      by_cases hp : g.path = p
      · subst hp
        simp [hg]
      · simp only [beq_eq_false_iff_ne.2 hp]
        exact find?_set f p l h

/-- The updated table holds the new bytes under the path and the old ones elsewhere. -/
theorem get?_put? (h : t.put? f = some t') (p : List UInt8) :
    t'.get? p = if p = f.path then some f.data else t.get? p := by
  unfold put? at h
  split at h
  · cases h; exact find?_set f p t.files (by assumption)
  · exact get?_add? h p

/-- An update succeeds when its path is stored already or a slot is free. -/
theorem put?_isSome (hfit : t.files.length + (if t.get? f.path = none then 1 else 0) ≤ sfTxnFiles) :
    ∃ t', t.put? f = some t' ∧ t'.files.length = t.files.length + if t.get? f.path = none then 1 else 0 := by
  unfold put?
  by_cases h : t.slot f.path < t.files.length
  · rw [dif_pos h, if_neg (slot_lt_iff.1 h)]
    exact ⟨_, rfl, length_set⟩
  have hnone : t.get? f.path = none := Decidable.not_not.1 fun hn => h (slot_lt_iff.2 hn)
  have hnew : f.path ∉ t.files.map SfTxnFile.path := by
    intro hmem
    obtain ⟨g, hg, hpath⟩ := mem_map.1 hmem
    rw [get?, Option.map_eq_none_iff, find?_eq_none] at hnone
    exact hnone g hg (beq_iff_eq.2 hpath)
  rw [if_pos hnone] at hfit ⊢
  rw [dif_neg h, add?, dif_pos ⟨hfit, hnew⟩]
  exact ⟨_, rfl, by simp⟩

end Update

/-- The first `i` files. -/
def take (t : FileTable) (i : Nat) : FileTable :=
  ⟨t.files.take i, Nat.le_trans (List.length_take_le' i _) t.length_le, by
    rw [List.map_take]; exact t.nodup.sublist (List.take_sublist i _)⟩

/-- A table is its files added one after another. -/
theorem add?_take (t : FileTable) {i : Nat} (h : i < t.files.length) :
    (t.take i).add? t.files[i] = some (t.take (i + 1)) := by
  have hlen : (t.take i).files.length < sfTxnFiles := by
    have := t.length_le
    simp only [take, length_take]; omega
  have hnew : (t.files[i]).path ∉ (t.take i).files.map SfTxnFile.path := by
    have hn := t.nodup
    rw [← take_append_drop i t.files, map_append, nodup_append] at hn
    intro hmem
    refine hn.2.2 _ hmem _ ?_ rfl
    rw [drop_eq_getElem_cons h]
    exact mem_cons_self
  unfold add?
  rw [dif_pos ⟨hlen, hnew⟩]
  exact congrArg some (ext' (by simp [take, take_append_getElem]))

end FileTable

end SpiritFox.Txn
