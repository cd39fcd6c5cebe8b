import Mathlib.Data.List.Basic
import Mathlib.Order.Basic

/-!
# Paths of a read-only image

The path grammar of the SFRFS1 format is written down twice: `sf_readfs_path` reads a C string and `valid_path` of
`tools/package/mkreadfs.py` a Python string. `validPath_iff` says that they accept the same ASCII strings.

The image is sorted by path, again in two ways: the writer sorts Python strings by code point and the reader
compares C strings with `strcmp`. `strcmp_neg` and `ascii_lt` bring both to the lexicographic order of the bytes.
-/

namespace SpiritFox.ReadFs

open List

/-! ## C strings -/

def slash : UInt8 := 47
def dot : UInt8 := 46
def backslash : UInt8 := 92

/-- The C string at the start of a buffer. -/
def cString (p : List UInt8) : List UInt8 := p.takeWhile (· != 0)

/-- `strcmp` on the bytes before the terminators. -/
def strcmp : List UInt8 → List UInt8 → Int
  | [], [] => 0
  | [], b :: _ => -b.toNat
  | a :: _, [] => a.toNat
  | a :: s, b :: t => if a = b then strcmp s t else a.toNat - b.toNat

/-- The loop of `sf_readfs_path` over the components of what is left of the path; every round takes at least one byte. -/
def componentsOk : Nat → List UInt8 → Bool
  | 0, _ => true
  | n + 1, s =>
    if s = [] then true
    else
      let b := s.takeWhile (· != slash)
      if b = [] ∨ b = [dot] ∨ b = [dot, dot] then false
      -- the slash after the component is skipped where there is one
      else componentsOk n ((s.drop b.length).drop 1)

def sfReadfsPath (p : List UInt8) : Bool :=
  let s := cString p
  2 ≤ s.length && s.length < 64 && s.head? = some slash && s.getLast? ≠ some slash &&
    s.all (fun c => 33 ≤ c && c ≤ 126 && c ≠ backslash) && componentsOk s.length (s.drop 1)

/-! ## Python strings -/

/-- A string of code points. -/
abbrev Str := List Char

/-- The byte of an ASCII character. -/
def byte (c : Char) : UInt8 := UInt8.ofNat c.toNat

/-- The bytes of an ASCII string. -/
def ascii (s : Str) : List UInt8 := s.map byte

def IsAscii (s : Str) : Prop := ∀ c ∈ s, c.toNat < 128

instance (s : Str) : Decidable (IsAscii s) := List.decidableBAll (fun c : Char => c.toNat < 128) s

/-- `path.encode('ascii')`, which raises an exception on any other character. -/
def encodeAscii (s : Str) : Option (List UInt8) := if IsAscii s then some (ascii s) else none

/-- `valid_path`, with `none` for the exception. -/
def validPath (path : Str) : Option Bool := do
  let encoded ← encodeAscii path
  return 1 < encoded.length && encoded.length < 64 && path.head? = some '/' && path.getLast? ≠ some '/' &&
    !path.contains (Char.ofNat 92) && path.all (fun c => 33 ≤ c.toNat && c.toNat ≤ 126) &&
    ((path.drop 1).splitOn '/').all fun part => part ∉ [[], ['.'], ['.', '.']]

/-! ## Orders -/

section Strcmp

variable {s t : List UInt8}

theorem toNat_pos {b : UInt8} (h : b ≠ 0) : 0 < b.toNat :=
  Nat.pos_of_ne_zero fun h0 => h (UInt8.toNat_inj.1 h0)

theorem strcmp_neg (h : 0 ∉ t) : strcmp s t < 0 ↔ s < t := by
  induction s, t using strcmp.induct with
  | case1 => simp [strcmp]
  | case2 b t =>
    have hb := toNat_pos (b := b) fun hb => h (hb ▸ mem_cons_self)
    simp only [strcmp, nil_lt_cons, iff_true]
    omega
  | case3 a s => simp [strcmp]
  | case4 s b t ih =>
    rw [strcmp, if_pos rfl, ih fun h0 => h (mem_cons_of_mem _ h0), cons_lt_cons_iff]
    simp
  | case5 a s b t hne =>
    rw [strcmp, if_neg hne, cons_lt_cons_iff, UInt8.lt_iff_toNat_lt]
    simp only [hne, false_and, or_false]
    omega

theorem strcmp_eq_zero (hs : 0 ∉ s) (ht : 0 ∉ t) : strcmp s t = 0 ↔ s = t := by
  induction s, t using strcmp.induct with
  | case1 => simp [strcmp]
  | case2 b t =>
    have hb := toNat_pos (b := b) fun hb => ht (hb ▸ mem_cons_self)
    simp only [strcmp, reduceCtorEq, iff_false]
    omega
  | case3 a s =>
    have ha := toNat_pos (b := a) fun ha => hs (ha ▸ mem_cons_self)
    simp only [strcmp, reduceCtorEq, iff_false]
    omega
  | case4 s b t ih =>
    rw [strcmp, if_pos rfl, ih (fun h0 => hs (mem_cons_of_mem _ h0)) fun h0 => ht (mem_cons_of_mem _ h0)]
    simp
  | case5 a s b t hne =>
    have hne' : a.toNat ≠ b.toNat := fun h => hne (UInt8.toNat_inj.1 h)
    rw [strcmp, if_neg hne]
    simp only [cons.injEq, hne, false_and, iff_false]
    omega

end Strcmp

section Ascii

variable {s t : Str}

theorem toNat_byte {c : Char} (h : c.toNat < 128) : (byte c).toNat = c.toNat := by
  rw [byte, UInt8.toNat_ofNat']
  omega

theorem byte_inj {c d : Char} (hc : c.toNat < 128) (hd : d.toNat < 128) : byte c = byte d ↔ c = d := by
  rw [← UInt8.toNat_inj, toNat_byte hc, toNat_byte hd, Char.toNat_inj]

/-- The bytes of an ASCII string determine it. -/
theorem ascii_inj (hs : IsAscii s) (ht : IsAscii t) : ascii s = ascii t ↔ s = t := by
  have hback : ∀ {s : Str}, IsAscii s → (ascii s).map (fun b => Char.ofNat b.toNat) = s := by
    intro s hs
    rw [ascii, map_map]
    refine (map_congr_left fun c hc => ?_).trans (map_id s)
    rw [Function.comp_apply, toNat_byte (hs c hc), Char.ofNat_toNat, id]
  refine ⟨fun h => ?_, congrArg ascii⟩
  rw [← hback hs, h, hback ht]

/-- Python's order of strings is the order of their bytes. -/
theorem ascii_lt : ∀ {s t : Str}, IsAscii s → IsAscii t → (ascii s < ascii t ↔ s < t)
  | [], [], _, _ => by simp [ascii]
  | [], d :: t, _, _ => by simp [ascii]
  | c :: s, [], _, _ => by simp [ascii]
  | c :: s, d :: t, hs, ht => by
    have hc := toNat_byte (hs c mem_cons_self)
    have hd := toNat_byte (ht d mem_cons_self)
    have ih := ascii_lt (fun c hc => hs c (mem_cons_of_mem _ hc)) fun c hc => ht c (mem_cons_of_mem _ hc)
    have hlt : byte c < byte d ↔ c < d := by
      rw [UInt8.lt_iff_toNat_lt, hc, hd]
      rfl
    change byte c :: ascii s < byte d :: ascii t ↔ _
    rw [cons_lt_cons_iff, cons_lt_cons_iff, hlt, byte_inj (hs c mem_cons_self) (ht d mem_cons_self), ih]

end Ascii

/-! ## The two grammars -/

theorem cString_eq {p : List UInt8} (h : 0 ∉ p) : cString p = p := by
  have hall : ∀ c ∈ p, (c != 0) = true := fun c hc => bne_iff_ne.2 fun h0 => h (h0 ▸ hc)
  have happend : (p ++ []).takeWhile (· != 0) = p ++ [].takeWhile (· != 0) := takeWhile_append_of_pos hall
  simpa [cString] using happend

/-- A component that neither grammar refuses. -/
def PartOk (b : List UInt8) : Prop := b ≠ [] ∧ b ≠ [dot] ∧ b ≠ [dot, dot]

/-- The loop sees the parts between the slashes, provided that the path does not end with one. -/
theorem componentsOk_iff : ∀ {n : Nat} {s : List UInt8}, s ≠ [] → s.getLast? ≠ some slash → s.length ≤ n →
    (componentsOk n s = true ↔ ∀ b ∈ s.splitOn slash, PartOk b)
  | 0, s, hne, _, hlen => absurd (length_eq_zero_iff.1 (Nat.le_zero.1 hlen)) hne
  | n + 1, s, hne, hlast, hlen => by
    have hfree : ∀ c ∈ s.takeWhile (· != slash), (c == slash) = false := fun c hc => by
      simpa using all_eq_true.1 all_takeWhile c hc
    have hsplit := takeWhile_append_dropWhile (p := (· != slash)) (l := s)
    have hdrop : s.drop (s.takeWhile (· != slash)).length = s.dropWhile (· != slash) := by
      nth_rewrite 2 [← hsplit]
      exact drop_left
    unfold componentsOk
    rw [if_neg hne]
    dsimp only
    rw [hdrop]
    rcases hrest : s.dropWhile (· != slash) with - | ⟨c, t⟩
    · rw [hrest, append_nil] at hsplit
      have hsingle : s.splitOn slash = [s] := splitOnP_eq_singleton (by rw [← hsplit]; exact hfree)
      have hend : componentsOk n [] = true := by cases n <;> rfl
      rw [hsingle, hsplit]
      simp [PartOk, hend]
    · have hc : c = slash := by
        have := head?_dropWhile_not (· != slash) s
        rw [hrest] at this
        simpa using this
      subst hc
      rw [hrest] at hsplit
      have hparts : s.splitOn slash = s.takeWhile (· != slash) :: t.splitOn slash := by
        nth_rewrite 1 [← hsplit]
        exact splitOnP_append_cons_of_forall_mem hfree slash (beq_self_eq_true slash) t
      have ht : t ≠ [] := by
        rintro rfl
        rw [← hsplit] at hlast
        simp at hlast
      have hlast' : t.getLast? ≠ some slash := by
        rw [← hsplit, getLast?_append, getLast?_cons] at hlast
        intro hx
        simp [hx] at hlast
      have hlen' : t.length ≤ n := by
        have := congrArg length hsplit
        simp only [length_append, length_cons] at this
        omega
      rw [hparts, forall_mem_cons, ← componentsOk_iff ht hlast' hlen']
      simp [PartOk]

theorem sfReadfsPath_iff {p : List UInt8} (h : 0 ∉ p) : sfReadfsPath p = true ↔ 2 ≤ p.length ∧ p.length < 64 ∧
    p.head? = some slash ∧ p.getLast? ≠ some slash ∧ (∀ c ∈ p, 33 ≤ c ∧ c ≤ 126 ∧ c ≠ backslash) ∧
    ∀ b ∈ (p.drop 1).splitOn slash, PartOk b := by
  unfold sfReadfsPath
  dsimp only
  rw [cString_eq h]
  simp only [Bool.and_eq_true, decide_eq_true_eq, all_eq_true, and_assoc]
  refine and_congr_right fun hlen => and_congr_right fun _ => and_congr_right fun _ => and_congr_right fun hlast =>
    and_congr_right fun _ => ?_
  obtain ⟨a, b, p, rfl⟩ : ∃ a b q, p = a :: b :: q := by
    match p, hlen with
    | a :: b :: q, _ => exact ⟨a, b, q, rfl⟩
  refine componentsOk_iff (cons_ne_nil _ _) ?_ (Nat.le_succ _)
  rwa [getLast?_cons_cons] at hlast

theorem splitOn_ascii : ∀ {s : Str}, IsAscii s → (ascii s).splitOn slash = (s.splitOn '/').map ascii
  | [], _ => rfl
  | c :: s, hs => by
    have ih := splitOn_ascii fun d hd => hs d (mem_cons_of_mem c hd)
    have hslash : (byte c == slash) = (c == '/') := by
      rw [Bool.eq_iff_iff, beq_iff_eq, beq_iff_eq]
      exact byte_inj (d := '/') (hs c mem_cons_self) (by decide)
    unfold splitOn at ih ⊢
    change splitOnP _ (byte c :: ascii s) = _
    rw [splitOnP_cons_eq_if_modifyHead, splitOnP_cons_eq_if_modifyHead, hslash, ih]
    split
    · rfl
    cases s.splitOnP (· == '/') with
    | nil => rfl
    | cons b bs => rfl

theorem isAscii_part : ∀ {s : Str}, IsAscii s → ∀ b ∈ s.splitOn '/', IsAscii b
  | [], _, b, hb => by
    obtain rfl : b = [] := by simpa [splitOn] using hb
    nofun
  | c :: s, hs, b, hb => by
    have ih := isAscii_part fun d hd => hs d (mem_cons_of_mem c hd)
    unfold splitOn at ih hb
    rw [splitOnP_cons_eq_if_modifyHead] at hb
    split at hb
    · rcases mem_cons.1 hb with rfl | hb
      · nofun
      · exact ih b hb
    · cases hparts : s.splitOnP (· == '/') with
      | nil =>
        rw [hparts] at hb
        cases hb
      | cons b' bs =>
        rw [hparts] at hb ih
        rcases mem_cons.1 hb with rfl | hb
        · exact forall_mem_cons.2 ⟨hs c mem_cons_self, ih b' mem_cons_self⟩
        · exact ih b (mem_cons_of_mem _ hb)

/-- A component, as the writer tests it. -/
theorem partOk_ascii {b : Str} (hb : IsAscii b) : PartOk (ascii b) ↔ b ∉ [[], ['.'], ['.', '.']] := by
  have hnil : ascii b = ascii [] ↔ b = [] := ascii_inj hb (by simp [IsAscii])
  have hdot : ascii b = ascii ['.'] ↔ b = ['.'] := ascii_inj hb (by simp [IsAscii])
  have hdots : ascii b = ascii ['.', '.'] ↔ b = ['.', '.'] := ascii_inj hb (by simp [IsAscii])
  change ascii b ≠ ascii [] ∧ ascii b ≠ ascii ['.'] ∧ ascii b ≠ ascii ['.', '.'] ↔ _
  simp only [ne_eq, hnil, hdot, hdots, mem_cons, not_mem_nil, or_false, not_or]

/-- A character at one end of the string. -/
theorem map_byte_eq_slash {o : Option Char} (h : ∀ c ∈ o, c.toNat < 128) : o.map byte = some slash ↔ o = some '/' := by
  cases o with
  | none => simp
  | some c =>
    rw [Option.map_some, Option.some.injEq, Option.some.injEq]
    exact byte_inj (d := '/') (h c rfl) (by decide)

/-- The characters that both sides allow. -/
theorem printable_byte {c : Char} (h : c.toNat < 128) :
    (33 ≤ byte c ∧ byte c ≤ 126 ∧ byte c ≠ backslash) ↔ (33 ≤ c.toNat ∧ c.toNat ≤ 126) ∧ c ≠ Char.ofNat 92 := by
  have hback : byte c = backslash ↔ c = Char.ofNat 92 := byte_inj (d := Char.ofNat 92) h (by decide)
  rw [UInt8.le_iff_toNat_le, UInt8.le_iff_toNat_le, toNat_byte h, ne_eq, hback, and_assoc]
  rfl

/-- **The writer and the reader accept the same paths.** A string with a NUL is no C string, and the writer refuses it. -/
theorem validPath_iff {s : Str} (hs : IsAscii s) : validPath s = some true ↔ 0 ∉ ascii s ∧
    sfReadfsPath (ascii s) = true := by
  have hchars : (∀ b ∈ ascii s, 33 ≤ b ∧ b ≤ 126 ∧ b ≠ backslash) ↔
      Char.ofNat 92 ∉ s ∧ ∀ c ∈ s, 33 ≤ c.toNat ∧ c.toNat ≤ 126 := by
    rw [ascii, forall_mem_map, forall₂_congr fun c hc => printable_byte (hs c hc), forall₂_and, and_comm]
    exact and_congr_left' ⟨fun h hmem => h _ hmem rfl, fun h c hc heq => h (heq ▸ hc)⟩
  have hparts : (∀ b ∈ ((ascii s).drop 1).splitOn slash, PartOk b) ↔
      ∀ b ∈ (s.drop 1).splitOn '/', b ∉ [[], ['.'], ['.', '.']] := by
    have htail : IsAscii (s.drop 1) := fun c hc => hs c (mem_of_mem_drop hc)
    rw [ascii, ← map_drop, ← ascii, splitOn_ascii htail, forall_mem_map]
    exact forall₂_congr fun b hb => partOk_ascii (isAscii_part htail b hb)
  have hhead : (ascii s).head? = some slash ↔ s.head? = some '/' := by
    rw [ascii, head?_map]
    exact map_byte_eq_slash fun c hc => hs c (mem_of_mem_head? hc)
  have hlast : (ascii s).getLast? = some slash ↔ s.getLast? = some '/' := by
    rw [ascii, getLast?_map]
    exact map_byte_eq_slash fun c hc => hs c (mem_of_mem_getLast? hc)
  have hzero : (∀ b ∈ ascii s, 33 ≤ b ∧ b ≤ 126 ∧ b ≠ backslash) → 0 ∉ ascii s := fun h h0 => absurd (h 0 h0).1 (by decide)
  have hvalid : validPath s = some true ↔ 2 ≤ (ascii s).length ∧ (ascii s).length < 64 ∧ (ascii s).head? = some slash ∧
      (ascii s).getLast? ≠ some slash ∧ (∀ c ∈ ascii s, 33 ≤ c ∧ c ≤ 126 ∧ c ≠ backslash) ∧
      ∀ b ∈ ((ascii s).drop 1).splitOn slash, PartOk b := by
    rw [hchars, hparts, hhead, ne_eq, hlast, validPath, encodeAscii, if_pos hs]
    simp only [Nat.lt_iff_add_one_le, ne_eq, decide_not, contains_eq_mem, mem_cons, not_mem_nil,
      or_false, not_or,
      Bool.decide_and, Option.pure_def, Option.bind_eq_bind, Option.bind_some, Option.some.injEq, Bool.and_eq_true,
      decide_eq_true_eq, and_assoc, Bool.not_eq_eq_eq_not, Bool.not_true, decide_eq_false_iff_not, all_eq_true]
  rw [hvalid]
  constructor
  · intro h
    have h0 := hzero h.2.2.2.2.1
    exact ⟨h0, (sfReadfsPath_iff h0).2 h⟩
  · rintro ⟨h0, h⟩
    exact (sfReadfsPath_iff h0).1 h

end SpiritFox.ReadFs
