import SpiritFox.Lib.Cbor
import SpiritFox.Lib.Checks

/-!
# Manifests

The manifest of a package is one CBOR item. `services/package.c` checks it with `item`, which calls `head` and `utf8`;
`tools/package/sfpack.py` writes it with `cbor`. A scan that reads past the end, or whose loop does not end, is an outcome of
the model (`Stop`), so that `settles_itemAt` can say that there is none.

- `head_head`, `head_inv`: `head` reads exactly the shortest heads;
- `utf8_utf8`, `utf8_inv`: `utf8` accepts exactly the encodings of texts without NUL;
- `itemAt_encode`, `itemAt_inv`: `item` accepts exactly the deterministic encodings of trees within the limits.

The main result is `manifest_agrees`.
-/

namespace SpiritFox.Package

open Cbor (Value)
open Checks List

/-! ## The validator -/

/-- Why a scan has no result: a check fails, a byte past the end would be read, or a loop does not end in its turns. -/
inductive Stop where
  | refused
  | overrun
  | unfinished
  deriving DecidableEq

abbrev Scan (α : Type) := Except Stop α

/-- The bytes from `c->p` to `c->end`. -/
abbrev Cursor := List UInt8

/-- `*c->p++` -/
def next : Cursor → Scan (UInt8 × Cursor)
  | [] => .error .overrun
  | b :: c => .ok (b, c)

/-- `c->p += n`, with the bytes that were passed. -/
def skip (n : Nat) (c : Cursor) : Scan (List UInt8 × Cursor) :=
  if n ≤ c.length then .ok (c.take n, c.drop n) else .error .overrun

def span (a n limit : Nat) : Bool := a ≤ limit && n ≤ limit - a

/-- The inner loop of `utf8`: `k` continuation bytes. -/
def continuation : Nat → Nat → Cursor → Scan (Nat × Cursor)
  | 0, c, p => pure (c, p)
  | k + 1, c, p => do
    let (b, p) ← next p
    -- `(*p & 192) != 128`
    if b.toNat / 64 ≠ 2 then throw .refused else continuation k (c * 64 + b.toNat % 64) p

/-- How many continuation bytes a first byte calls for, its own bits, and the least character that may be written so. -/
def lead (c : Nat) : Option (Nat × Nat × Nat) :=
  if 0xc2 ≤ c ∧ c ≤ 0xdf then some (1, c % 32, 128)
  else if 0xe0 ≤ c ∧ c ≤ 0xef then some (2, c % 16, 2048)
  else if 0xf0 ≤ c ∧ c ≤ 0xf4 then some (3, c % 8, 65536)
  else none

/-- One turn of the loop of `utf8`. -/
def scalar (p : Cursor) : Scan Cursor := do
  let (b, p) ← next p
  if b.toNat = 0 then throw .refused
  else if b.toNat < 128 then pure p
  else match lead b.toNat with
    | none => throw .refused
    | some (k, c, min) =>
      if p.length < k then throw .refused
      else do
        let (c, p) ← continuation k c p
        if c < min ∨ 0x10ffff < c ∨ (0xd800 ≤ c ∧ c ≤ 0xdfff) then throw .refused else pure p

/-- The loop of `utf8`. Each turn takes a byte at least, so as many turns as there are bytes are enough. -/
def utf8Loop : Nat → Cursor → Scan Unit
  | _, [] => pure ()
  | 0, _ :: _ => throw .unfinished
  | n + 1, b :: p => do
    let p ← scalar (b :: p)
    utf8Loop n p

def utf8 (p : Cursor) : Scan Unit := utf8Loop p.length p

def argumentBytes (a : Nat) : Nat :=
  if a = 24 then 1 else if a = 25 then 2 else if a = 26 then 4 else if a = 27 then 8 else 0

/-- The least value that an argument of `n` bytes may have. -/
def leastValue (n : Nat) : Nat := if n = 1 then 24 else if n = 2 then 256 else if n = 4 then 65536 else 0x100000000

def argument : Nat → Nat → Cursor → Scan (Nat × Cursor)
  | 0, v, c => pure (v, c)
  | n + 1, v, c => do
    let (b, c) ← next c
    argument n (v * 256 + b.toNat) c

/-- `head`: the major type and the argument. -/
def head (c : Cursor) : Scan (Nat × Nat × Cursor) :=
  if c = [] then throw .refused
  else do
    let (b, c) ← next c
    if b.toNat % 32 < 24 then pure (b.toNat / 32, b.toNat % 32, c)
    else
      let n := argumentBytes (b.toNat % 32)
      if n = 0 ∨ c.length < n then throw .refused
      else do
        let (v, c) ← argument n 0 c
        if v < leastValue n then throw .refused else pure (b.toNat / 32, v, c)

/-- A key of a map, with the bytes from its head on. -/
def key (c : Cursor) : Scan (List UInt8 × Cursor) := do
  let (t, len, c') ← head c
  if t ≠ 3 ∨ span 0 len c'.length = false then throw .refused
  else do
    let (text, c'') ← skip len c'
    utf8 text
    pure (c.take (c.length - c''.length), c'')

/-- The order of keys: `prev && (size < plen || (size == plen && memcmp(start, prev, size) <= 0))` -/
def outOfOrder (prev : Option (List UInt8)) (k : List UInt8) : Bool :=
  prev.any fun p => k.length < p.length || k.length == p.length && decide (k.map UInt8.toNat ≤ p.map UInt8.toNat)

/-- The loop of `item` over the entries of a list or a map. -/
def entries (item : Cursor → Scan Cursor) (t : Nat) : Nat → Option (List UInt8) → Cursor → Scan Cursor
  | 0, _, c => pure c
  | n + 1, prev, c =>
    if t = 5 then do
      let (k, c) ← key c
      if outOfOrder prev k then throw .refused
      else do
        let c ← item c
        entries item t n (some k) c
    else do
      let c ← item c
      entries item t n prev c

/-- What `item` does after the head. -/
def content (item : Cursor → Scan Cursor) (t n : Nat) (c : Cursor) : Scan Cursor :=
  if t < 2 then pure c
  else if t = 2 ∨ t = 3 then
    if span 0 n c.length = false then throw .refused
    else do
      let (text, c) ← skip n c
      if t = 3 then do
        utf8 text
        pure c
      else pure c
  else if t = 7 then if n = 20 ∨ n = 21 ∨ n = 22 then pure c else throw .refused
  else if t ≠ 4 ∧ t ≠ 5 then throw .refused
  else if 65536 < n then throw .refused
  else entries item t n none c

/-- `item` with a number of levels left. -/
def itemAt : Nat → Cursor → Scan Cursor
  | 0, _ => throw .refused
  | l + 1, c => do
    let (t, n, c) ← head c
    content (itemAt l) t n c

/-- `item`, which refuses a depth over 16. -/
def item (c : Cursor) (depth : Nat) : Scan Cursor := itemAt (17 - depth) c

/-! ## The encoder -/

inductive ValueError where
  | integerOverflow
  | nulText
  | unsupportedType

/-- `head` of `cbor` -/
def cborHead (t n : Nat) : Except ValueError (List UInt8) :=
  if n < 24 then .ok [UInt8.ofNat (t * 32 + n)]
  else match [(24, 1), (25, 2), (26, 4), (27, 8)].find? fun x : Nat × Nat => n < 1 <<< (8 * x.2) with
    | some (tag, size) => .ok (UInt8.ofNat (t * 32 + tag) :: Cbor.be size n)
    | none => .error .integerOverflow

def cborText (t : List Char) : Except ValueError (List UInt8) :=
  if 0 ∈ Cbor.utf8 t then .error .nulText
  else do
    let h ← cborHead 3 (Cbor.utf8 t).length
    pure (h ++ Cbor.utf8 t)

mutual

def cbor : Value → Except ValueError (List UInt8)
  | .null => .ok [0xf6]
  | .bool b => .ok [if b then 0xf5 else 0xf4]
  | .int i => cborHead (if 0 ≤ i then 0 else 1) (if 0 ≤ i then i.toNat else (-1 - i).toNat)
  | .bytes _ => .error .unsupportedType
  | .text t => cborText t
  | .list vs => do
    let h ← cborHead 4 vs.length
    let body ← cborList vs
    pure (h ++ body)
  | .map es => do
    let ps ← cborPairs es
    let h ← cborHead 5 ps.length
    pure (h ++ Cbor.join (Cbor.sortEntries ps))

def cborList : List Value → Except ValueError (List UInt8)
  | [] => pure []
  | v :: vs => do
    let b ← cbor v
    let bs ← cborList vs
    pure (b ++ bs)

def cborPairs : List (List Char × Value) → Except ValueError (List (List UInt8 × List UInt8))
  | [] => pure []
  | (k, v) :: es => do
    let kb ← cborText k
    let vb ← cbor v
    let ps ← cborPairs es
    pure ((kb, vb) :: ps)

end

/-! ## No scan reads past the end -/

/-- The scan returns, or refuses its input. -/
abbrev Settles {α : Type} (x : Scan α) : Prop := Raises (· = Stop.refused) x

theorem settles_refused {α : Type} : Settles (throw .refused : Scan α) := raises_throw rfl

theorem settles_guard {α : Type} {p : Prop} [Decidable p] {x : Scan α} (hx : ¬p → Settles x) :
    Settles (if p then throw .refused else x) := raises_guard rfl hx

theorem settles_next {c : Cursor} (h : c ≠ []) : Settles (next c) := by
  cases c with
  | nil => exact absurd rfl h
  | cons b c => exact raises_ok _

theorem settles_skip {n : Nat} {c : Cursor} (h : n ≤ c.length) : Settles (skip n c) := by
  rw [skip, if_pos h]
  exact raises_ok _

theorem settles_continuation : ∀ (k c : Nat) (p : Cursor), k ≤ p.length → Settles (continuation k c p)
  | 0, _, _, _ => raises_ok _
  | k + 1, _, _ :: p, h => settles_guard fun _ => settles_continuation k _ p (Nat.le_of_succ_le_succ h)

theorem settles_argument : ∀ (n v : Nat) (c : Cursor), n ≤ c.length → Settles (argument n v c)
  | 0, _, _, _ => raises_ok _
  | n + 1, _, _ :: c, h => settles_argument n _ c (Nat.le_of_succ_le_succ h)

theorem settles_scalar {p : Cursor} (h : p ≠ []) : Settles (scalar p) := by
  apply raises_bind (settles_next h)
  intro a _
  apply settles_guard
  intro _
  refine raises_ite (fun _ => raises_ok _) ?_
  intro _
  split
  · exact settles_refused
  apply settles_guard
  intro hlen
  exact raises_bind (settles_continuation _ _ _ (Nat.not_lt.1 hlen)) fun _ _ => settles_guard fun _ => raises_ok _

/-! ## Texts -/

theorem continuation_cons (k c : Nat) (b : UInt8) (q : Cursor) : continuation (k + 1) c (b :: q) =
    if b.toNat / 64 ≠ 2 then throw .refused else continuation k (c * 64 + b.toNat % 64) q := rfl

theorem continuation_eq_ok {k c w : Nat} {p r : Cursor} : continuation (k + 1) c p = .ok (w, r) ↔
    ∃ b q, p = b :: q ∧ b.toNat / 64 = 2 ∧ continuation k (c * 64 + b.toNat % 64) q = .ok (w, r) := by
  cases p with
  | nil => simp [continuation, next, bind, Except.bind]
  | cons b q =>
    rw [continuation_cons, guard_eq_ok]
    simp

theorem length_of_continuation {w : Nat} {r : Cursor} : ∀ {k c : Nat} {p : Cursor}, continuation k c p = .ok (w, r) →
    k ≤ p.length
  | 0, _, _, _ => Nat.zero_le _
  | k + 1, _, _, h => by
    obtain ⟨b, q, rfl, _, h⟩ := continuation_eq_ok.1 h
    exact Nat.succ_le_succ (length_of_continuation h)

/-- The values that are left are characters that need as many bytes. -/
theorem inRange_iff (w min : Nat) :
    ¬(w < min ∨ 0x10ffff < w ∨ (0xd800 ≤ w ∧ w ≤ 0xdfff)) ↔ min ≤ w ∧ w.isValidChar := by
  unfold Nat.isValidChar
  omega

theorem scalar_eq_ok {b : UInt8} {p r : Cursor} : scalar (b :: p) = .ok r ↔ b.toNat ≠ 0 ∧
    (b.toNat < 128 ∧ p = r ∨ 128 ≤ b.toNat ∧ ∃ k c min w, lead b.toNat = some (k, c, min) ∧ continuation k c p = .ok (w, r) ∧
      min ≤ w ∧ w.isValidChar) := by
  by_cases hb : b.toNat < 128
  · simp [scalar, next, bind, Except.bind, guard_eq_ok, hb, pure_eq_ok]
  cases hlead : lead b.toNat with
  | none => simp [scalar, next, bind, Except.bind, hb, hlead, throw_eq_ok]
  | some x =>
    obtain ⟨k, c, min⟩ := x
    have hstep : scalar (b :: p) = if b.toNat = 0 then throw .refused else if p.length < k then throw .refused
        else continuation k c p >>= fun x =>
          if x.1 < min ∨ 0x10ffff < x.1 ∨ (0xd800 ≤ x.1 ∧ x.1 ≤ 0xdfff) then throw .refused else pure x.2 := by
      simp [scalar, next, bind, Except.bind, hb, hlead]
    rw [hstep, guard_eq_ok, guard_eq_ok, bind_eq_ok]
    simp only [guard_eq_ok, inRange_iff, pure_eq_ok, hb, false_and, false_or, Nat.not_lt.1 hb, true_and, Option.some.injEq,
      Prod.mk.injEq, Prod.exists]
    constructor
    · rintro ⟨h0, _, w, q, hc, hw, rfl⟩
      exact ⟨h0, k, c, min, w, ⟨rfl, rfl, rfl⟩, hc, hw⟩
    · rintro ⟨h0, k', c', min', w, ⟨rfl, rfl, rfl⟩, hc, hw⟩
      exact ⟨h0, Nat.not_lt.2 (length_of_continuation hc), w, r, hc, hw, rfl⟩

theorem lead_two {c : Nat} (h : 0xc2 ≤ c ∧ c ≤ 0xdf) : lead c = some (1, c % 32, 128) := if_pos h

theorem lead_three {c : Nat} (h : 0xe0 ≤ c ∧ c ≤ 0xef) : lead c = some (2, c % 16, 2048) := by
  rw [lead, if_neg (by omega), if_pos h]

theorem lead_four {c : Nat} (h : 0xf0 ≤ c ∧ c ≤ 0xf4) : lead c = some (3, c % 8, 65536) := by
  rw [lead, if_neg (by omega), if_neg (by omega), if_pos h]

theorem lead_inv {c : Nat} {x : Nat × Nat × Nat} (h : lead c = some x) :
    (0xc2 ≤ c ∧ c ≤ 0xdf) ∧ x = (1, c % 32, 128) ∨ (0xe0 ≤ c ∧ c ≤ 0xef) ∧ x = (2, c % 16, 2048) ∨
      (0xf0 ≤ c ∧ c ≤ 0xf4) ∧ x = (3, c % 8, 65536) := by
  unfold lead at h
  split_ifs at h with h₁ h₂ h₃
  · exact .inl ⟨h₁, (Option.some.inj h).symm⟩
  · exact .inr (.inl ⟨h₂, (Option.some.inj h).symm⟩)
  · exact .inr (.inr ⟨h₃, (Option.some.inj h).symm⟩)

theorem toNat_ne_zero {ch : Char} (h : ch ≠ Char.ofNat 0) : ch.val.toNat ≠ 0 := fun h0 => h (Char.toNat_inj.1 h0)

theorem toNat_byte {n : Nat} (h : n < 256) : (UInt8.ofNat n).toNat = n := UInt8.toNat_ofNat_of_lt' h

theorem continuation_ofNat (k c x : Nat) (q : Cursor) :
    continuation (k + 1) c (UInt8.ofNat (x % 64 + 128) :: q) = continuation k (c * 64 + x % 64) q := by
  have hb : (UInt8.ofNat (x % 64 + 128)).toNat = x % 64 + 128 := toNat_byte (by omega)
  have hmod : (x % 64 + 128) % 64 = x % 64 := by omega
  rw [continuation_cons, hb, hmod, if_neg (by omega)]

/-- A character other than NUL is accepted in its encoding. -/
theorem scalar_utf8EncodeChar {ch : Char} (h : ch ≠ Char.ofNat 0) (r : Cursor) :
    scalar (String.utf8EncodeChar ch ++ r) = .ok r := by
  have h0 := toNat_ne_zero h
  have hvalid : ch.val.toNat.isValidChar := ch.valid
  generalize hv : ch.val.toNat = v at h0 hvalid
  have hmax : v < 0x110000 := by
    unfold Nat.isValidChar at hvalid
    omega
  rw [String.utf8EncodeChar, hv]
  split_ifs with h₁ h₂ h₃
  · rw [singleton_append, scalar_eq_ok, toNat_byte (by omega)]
    exact ⟨h0, .inl ⟨by omega, rfl⟩⟩
  · rw [cons_append, scalar_eq_ok, toNat_byte (by omega)]
    refine ⟨by omega, .inr ⟨by omega, 1, _, _, v, lead_two (by omega), ?_, by omega, hvalid⟩⟩
    rw [cons_append, continuation_ofNat]
    exact congrArg Except.ok (Prod.ext (show (v / 64 % 32 + 192) % 32 * 64 + v % 64 = v by omega) rfl)
  · rw [cons_append, scalar_eq_ok, toNat_byte (by omega)]
    refine ⟨by omega, .inr ⟨by omega, 2, _, _, v, lead_three (by omega), ?_, by omega, hvalid⟩⟩
    rw [cons_append, continuation_ofNat, cons_append, continuation_ofNat]
    exact congrArg Except.ok (Prod.ext (show ((v / 4096 % 16 + 224) % 16 * 64 + v / 64 % 64) * 64 + v % 64 = v by omega) rfl)
  · rw [cons_append, scalar_eq_ok, toNat_byte (by omega)]
    refine ⟨by omega, .inr ⟨by omega, 3, _, _, v, lead_four (by omega), ?_, by omega, hvalid⟩⟩
    rw [cons_append, continuation_ofNat, cons_append, continuation_ofNat, cons_append, continuation_ofNat]
    exact congrArg Except.ok (Prod.ext
      (show (((v / 262144 % 8 + 240) % 8 * 64 + v / 4096 % 64) * 64 + v / 64 % 64) * 64 + v % 64 = v by omega) rfl)

/-- What is accepted is the encoding of a character other than NUL. -/
theorem scalar_inv {b : UInt8} {p r : Cursor} (h : scalar (b :: p) = .ok r) :
    ∃ ch : Char, ch ≠ Char.ofNat 0 ∧ b :: p = String.utf8EncodeChar ch ++ r := by
  have hbyte : ∀ {n : Nat} (x : UInt8), n = x.toNat → UInt8.ofNat n = x := fun x h => h ▸ UInt8.ofNat_toNat
  have hchar : ∀ {w : Nat} (hw : w.isValidChar), w ≠ 0 → Char.ofNatAux w hw ≠ Char.ofNat 0 :=
    fun hw h0 he => h0 (congrArg Char.toNat he)
  obtain ⟨h0, ⟨hlt, rfl⟩ | ⟨hge, k, c, min, w, hlead, hcont, hmin, hw⟩⟩ := scalar_eq_ok.1 h
  · have hw : b.toNat.isValidChar := .inl (by omega)
    refine ⟨Char.ofNatAux b.toNat hw, hchar hw h0, ?_⟩
    have hv : (Char.ofNatAux b.toNat hw).val.toNat = b.toNat := rfl
    rw [String.utf8EncodeChar, hv, if_pos (by omega), UInt8.ofNat_toNat, singleton_append]
  · have hv : (Char.ofNatAux w hw).val.toNat = w := rfl
    have hmax : w < 0x110000 := by
      unfold Nat.isValidChar at hw
      omega
    obtain ⟨hc, hx⟩ | ⟨hc, hx⟩ | ⟨hc, hx⟩ := lead_inv hlead
    · cases hx
      obtain ⟨b₁, q, rfl, h₁, hcont⟩ := continuation_eq_ok.1 hcont
      cases hcont
      refine ⟨Char.ofNatAux _ hw, hchar hw (by omega), ?_⟩
      rw [String.utf8EncodeChar, hv, if_neg (by omega), if_pos (by omega), hbyte b (by omega), hbyte b₁ (by omega)]
      rfl
    · cases hx
      obtain ⟨b₁, q, rfl, h₁, hcont⟩ := continuation_eq_ok.1 hcont
      obtain ⟨b₂, q, rfl, h₂, hcont⟩ := continuation_eq_ok.1 hcont
      cases hcont
      refine ⟨Char.ofNatAux _ hw, hchar hw (by omega), ?_⟩
      rw [String.utf8EncodeChar, hv, if_neg (by omega), if_neg (by omega), if_pos (by omega), hbyte b (by omega),
        hbyte b₁ (by omega), hbyte b₂ (by omega)]
      rfl
    · cases hx
      obtain ⟨b₁, q, rfl, h₁, hcont⟩ := continuation_eq_ok.1 hcont
      obtain ⟨b₂, q, rfl, h₂, hcont⟩ := continuation_eq_ok.1 hcont
      obtain ⟨b₃, q, rfl, h₃, hcont⟩ := continuation_eq_ok.1 hcont
      cases hcont
      refine ⟨Char.ofNatAux _ hw, hchar hw (by omega), ?_⟩
      rw [String.utf8EncodeChar, hv, if_neg (by omega), if_neg (by omega), if_neg (by omega), hbyte b (by omega),
        hbyte b₁ (by omega), hbyte b₂ (by omega), hbyte b₃ (by omega)]
      rfl

theorem utf8EncodeChar_cons (ch : Char) : ∃ b bs, String.utf8EncodeChar ch = b :: bs := by
  cases h : String.utf8EncodeChar ch with
  | nil => exact absurd (by simp [Cbor.utf8, h]) (Cbor.utf8_cons_ne_nil ch [])
  | cons b bs => exact ⟨b, bs, rfl⟩

theorem utf8Loop_cons (n : Nat) (b : UInt8) (p : Cursor) : utf8Loop (n + 1) (b :: p) = scalar (b :: p) >>= utf8Loop n := rfl

theorem utf8Loop_utf8 : ∀ {t : List Char} {n : Nat}, Cbor.NulFree t → (Cbor.utf8 t).length ≤ n →
    utf8Loop n (Cbor.utf8 t) = .ok ()
  | [], n, _, _ => by cases n <;> rfl
  | ch :: t, n, hnul, hlen => by
    obtain ⟨b, bs, hb⟩ := utf8EncodeChar_cons ch
    have hsplit : Cbor.utf8 (ch :: t) = String.utf8EncodeChar ch ++ Cbor.utf8 t := by simp [Cbor.utf8]
    have hscalar := scalar_utf8EncodeChar (hnul ch mem_cons_self) (Cbor.utf8 t)
    rw [hb, cons_append] at hscalar hsplit
    rw [hsplit] at hlen ⊢
    cases n with
    | zero => simp at hlen
    | succ n =>
      rw [utf8Loop_cons, hscalar]
      apply utf8Loop_utf8 fun c hc => hnul c (mem_cons_of_mem ch hc)
      simp only [length_cons, length_append] at hlen
      omega

theorem utf8_utf8 {t : List Char} (h : Cbor.NulFree t) : utf8 (Cbor.utf8 t) = .ok () := utf8Loop_utf8 h (Nat.le_refl _)

theorem utf8_inv {p : Cursor} (h : utf8 p = .ok ()) : ∃ t, Cbor.NulFree t ∧ p = Cbor.utf8 t := by
  suffices ∀ n p, utf8Loop n p = .ok () → ∃ t, Cbor.NulFree t ∧ p = Cbor.utf8 t from this _ p h
  intro n
  induction n with
  | zero =>
    intro p h
    cases p with
    | nil => exact ⟨[], nofun, rfl⟩
    | cons b p => cases h
  | succ n ih =>
    intro p h
    cases p with
    | nil => exact ⟨[], nofun, rfl⟩
    | cons b p =>
      obtain ⟨q, hscalar, hrest⟩ := bind_eq_ok.1 (utf8Loop_cons n b p ▸ h)
      obtain ⟨ch, hch, hp⟩ := scalar_inv hscalar
      obtain ⟨t, ht, rfl⟩ := ih q hrest
      refine ⟨ch :: t, ?_, by simpa [Cbor.utf8] using hp⟩
      rintro c (_ | ⟨_, hc⟩)
      · exact hch
      · exact ht c hc

theorem settles_utf8 (p : Cursor) : Settles (utf8 p) := by
  suffices ∀ n p, p.length ≤ n → Settles (utf8Loop n p) from this _ p (Nat.le_refl _)
  intro n
  induction n with
  | zero =>
    intro p h
    cases p with
    | nil => exact raises_ok _
    | cons b p => simp at h
  | succ n ih =>
    intro p h
    cases p with
    | nil => exact raises_ok _
    | cons b p =>
      apply raises_bind (settles_scalar (cons_ne_nil b p))
      intro q hq
      -- a turn takes a byte at least
      obtain ⟨ch, -, hp⟩ := scalar_inv hq
      obtain ⟨b', bs, hb⟩ := utf8EncodeChar_cons ch
      apply ih
      rw [hp, hb, cons_append, length_cons, length_append] at h
      omega

/-! ## Heads -/

theorem argument_append : ∀ (bs : List UInt8) (v : Nat)
    (r : Cursor), argument bs.length v (bs ++ r) = .ok (Cbor.ofBe v bs, r)
  | [], _, _ => rfl
  | b :: bs, v, r => argument_append bs (v * 256 + b.toNat) r

theorem argument_inv {w : Nat} {r : Cursor} : ∀ {n v : Nat} {c : Cursor}, argument n v c = .ok (w, r) →
    ∃ bs, bs.length = n ∧ c = bs ++ r ∧ w = Cbor.ofBe v bs
  | 0, _, _, h => by
    cases h
    exact ⟨[], rfl, rfl, rfl⟩
  | n + 1, v, [], h => by cases h
  | n + 1, v, b :: c, h => by
    obtain ⟨bs, hlen, rfl, rfl⟩ := argument_inv (n := n) h
    exact ⟨b :: bs, congrArg Nat.succ hlen, rfl, rfl⟩

theorem head_cons (b : UInt8) (c : Cursor) : head (b :: c) =
    if b.toNat % 32 < 24 then pure (b.toNat / 32, b.toNat % 32, c)
    else if argumentBytes (b.toNat % 32) = 0 ∨ c.length < argumentBytes (b.toNat % 32) then throw .refused
    else argument (argumentBytes (b.toNat % 32)) 0 c >>= fun x =>
      if x.1 < leastValue (argumentBytes (b.toNat % 32)) then throw .refused else pure (b.toNat / 32, x.1, x.2) := rfl

/-- A shortest head is read. -/
theorem head_head {t n : Nat} (ht : t < 8) (hn : n < 2 ^ 64) (r : Cursor) : head (Cbor.head t n ++ r) = .ok (t, n, r) := by
  have htag := Cbor.tag_lt n
  have hb : (UInt8.ofNat (t * 32 + Cbor.tag n)).toNat = t * 32 + Cbor.tag n := toNat_byte (by omega)
  have hmod : (t * 32 + Cbor.tag n) % 32 = Cbor.tag n := by omega
  have hdiv : (t * 32 + Cbor.tag n) / 32 = t := by omega
  rw [Cbor.head, cons_append, head_cons, hb, hmod, hdiv]
  by_cases hsmall : n < 24
  · rw [Cbor.tag, if_pos hsmall, if_pos hsmall, Cbor.width, if_pos hsmall]
    rfl
  have hbytes : argumentBytes (Cbor.tag n) = Cbor.width n := by
    unfold argumentBytes Cbor.tag Cbor.width
    split_ifs <;> omega
  have hwide : ¬ Cbor.tag n < 24 ∧ Cbor.width n ≠ 0 ∧ leastValue (Cbor.width n) ≤ n := by
    unfold Cbor.tag Cbor.width leastValue
    split_ifs <;> omega
  have hlen := Cbor.length_be (Cbor.width n) n
  have hval : Cbor.ofBe 0 (Cbor.be (Cbor.width n) n) = n := by
    rw [Cbor.ofBe_be, Nat.zero_mul, Nat.zero_add]
    exact Nat.mod_eq_of_lt ((Cbor.lt_width hn).resolve_left hwide.2.1)
  have harg := argument_append (Cbor.be (Cbor.width n) n) 0 r
  rw [hlen, hval] at harg
  rw [if_neg hwide.1, hbytes, harg, if_neg]
  · exact if_neg (Nat.not_lt.2 hwide.2.2)
  · rw [length_append, hlen]
    omega

/-- The least value of an argument leaves no shorter form for it. -/
theorem wide_inv {a v : Nat} (hlo : leastValue (argumentBytes a) ≤ v) (hhi : v < 256 ^ argumentBytes a) :
    Cbor.width v = argumentBytes a ∧ Cbor.tag v = a ∧ v < 2 ^ 64 := by
  unfold argumentBytes at *
  split_ifs at hlo hhi ⊢ with h₁ h₂ h₃ h₄ <;> simp [leastValue] at hlo hhi <;> unfold Cbor.width Cbor.tag
  · rw [if_neg (by omega), if_pos (by omega), if_neg (by omega), if_pos (by omega)]
    omega
  · rw [if_neg (by omega), if_neg (by omega), if_pos (by omega), if_neg (by omega), if_neg (by omega), if_pos (by omega)]
    omega
  · split_ifs <;> omega
  · split_ifs <;> omega
  · omega

/-- What is read is a shortest head. -/
theorem head_inv {c r : Cursor} {t n : Nat} (h : head c = .ok (t, n, r)) : t < 8 ∧ n < 2 ^ 64 ∧ c = Cbor.head t n ++ r := by
  cases c with
  | nil => cases h
  | cons b c =>
    have hb : b.toNat < 256 := b.toNat_lt
    rw [head_cons] at h
    split_ifs at h with hsmall
    · cases h
      refine ⟨by omega, by omega, ?_⟩
      have hbyte : b.toNat / 32 * 32 + b.toNat % 32 = b.toNat := by omega
      rw [Cbor.head, Cbor.tag, Cbor.width, if_pos hsmall, if_pos hsmall, hbyte, UInt8.ofNat_toNat]
      rfl
    · obtain ⟨⟨w, q⟩, harg, hrest⟩ := bind_eq_ok.1 h
      obtain ⟨hleast, hrest⟩ := guard_eq_ok.1 hrest
      cases hrest
      obtain ⟨bs, hlen, rfl, rfl⟩ := argument_inv harg
      have hlt := Cbor.ofBe_lt bs
      rw [hlen] at hlt
      obtain ⟨hwidth, htag, hmax⟩ := wide_inv (Nat.not_lt.1 hleast) hlt
      have hbyte : b.toNat / 32 * 32 + b.toNat % 32 = b.toNat := by omega
      refine ⟨by omega, hmax, ?_⟩
      rw [Cbor.head, hwidth, htag, ← hlen, Cbor.be_ofBe, hbyte, UInt8.ofNat_toNat, cons_append]

theorem settles_head (c : Cursor) : Settles (head c) := by
  cases c with
  | nil => exact settles_refused
  | cons b c =>
    rw [head_cons]
    refine raises_ite (fun _ => raises_ok _) ?_
    intro _
    apply settles_guard
    intro h
    exact raises_bind (settles_argument _ _ _ (by omega)) fun _ _ => settles_guard fun _ => raises_ok _

/-! ## Keys -/

theorem span_zero {n limit : Nat} : span 0 n limit = true ↔ n ≤ limit := by simp [span]

theorem span_append (a r : Cursor) : span 0 a.length (a ++ r).length ≠ false := by simp [span]

theorem skip_append (a r : Cursor) : skip a.length (a ++ r) = .ok (a, r) := by
  rw [skip, if_pos (by rw [length_append]; omega), take_left, drop_left]

theorem skip_inv {n : Nat} {c a r : Cursor} (h : skip n c = .ok (a, r)) : a.length = n ∧ c = a ++ r := by
  unfold skip at h
  split at h
  · cases h
    exact ⟨length_take_of_le (by assumption), (take_append_drop n c).symm⟩
  · cases h

theorem key_text {k : List Char} (hk : Cbor.TextOk k) (r : Cursor) : key (Cbor.text k ++ r) = .ok (Cbor.text k, r) := by
  have htake : (Cbor.text k ++ r).take ((Cbor.text k ++ r).length - r.length) = Cbor.text k := by
    rw [length_append, Nat.add_sub_cancel, take_left]
  have hhead := head_head (t := 3) (by decide) hk.2 (Cbor.utf8 k ++ r)
  rw [← append_assoc, ← Cbor.text] at hhead
  refine bind_eq_ok.2 ⟨_, hhead, guard_eq_ok.2 ⟨by simp [span], bind_eq_ok.2 ⟨_, skip_append _ r, ?_⟩⟩⟩
  refine bind_eq_ok.2 ⟨(), utf8_utf8 hk.1, pure_eq_ok.2 ?_⟩
  rw [htake]

theorem key_inv {c r : Cursor} {kb : List UInt8} (h : key c = .ok (kb, r)) :
    ∃ k, Cbor.TextOk k ∧ kb = Cbor.text k ∧ c = Cbor.text k ++ r := by
  obtain ⟨⟨t, n, c'⟩, hhead, h⟩ := bind_eq_ok.1 h
  obtain ⟨hgood, h⟩ := guard_eq_ok.1 h
  obtain ⟨⟨text, c''⟩, hskip, h⟩ := bind_eq_ok.1 h
  obtain ⟨⟨⟩, hutf, h⟩ := bind_eq_ok.1 h
  cases h
  obtain ⟨_, hn, rfl⟩ := head_inv hhead
  obtain ⟨rfl, rfl⟩ := skip_inv hskip
  obtain ⟨k, hnul, rfl⟩ := utf8_inv hutf
  obtain rfl : t = 3 := by omega
  have hsplit : Cbor.head 3 (Cbor.utf8 k).length ++ (Cbor.utf8 k ++ r) = Cbor.text k ++ r := by
    rw [Cbor.text, append_assoc]
  refine ⟨k, ⟨hnul, hn⟩, ?_, hsplit⟩
  rw [hsplit, length_append, Nat.add_sub_cancel, take_left]

theorem settles_key (c : Cursor) : Settles (key c) := by
  apply raises_bind (settles_head c)
  intro x _
  apply settles_guard
  intro h
  have hspan : x.2.1 ≤ x.2.2.length := span_zero.1 (by simpa using fun hf => h (.inr hf))
  exact raises_bind (settles_skip hspan) fun _ _ => raises_bind (settles_utf8 _) fun _ _ => raises_ok _

/-- The scanner's order of keys is that of the encoding. -/
theorem outOfOrder_eq_false {prev : Option (List UInt8)} {k : List UInt8} :
    outOfOrder prev k = false ↔ ∀ p ∈ prev, Cbor.rank p < Cbor.rank k := by
  cases prev with
  | none => simp [outOfOrder]
  | some p =>
    simp only [outOfOrder, Option.any_some, Option.mem_def, Option.some.injEq, forall_eq', Cbor.rank,
      Prod.Lex.toLex_lt_toLex,
      Bool.or_eq_false_iff, Bool.and_eq_false_imp, decide_eq_false_iff_not, beq_iff_eq, not_lt, not_le]
    constructor
    · rintro ⟨hle, hlt⟩
      rcases hle.lt_or_eq with h | h
      · exact .inl h
      · exact .inr ⟨h, hlt h.symm⟩
    · rintro (h | ⟨h, hlt⟩)
      · exact ⟨h.le, fun he => absurd he.symm h.ne⟩
      · exact ⟨h.le, fun _ => hlt⟩

/-! ## Entries -/

section Entries

variable {item : Cursor → Scan Cursor}

theorem entries_list_succ (n : Nat) (prev : Option (List UInt8)) (c : Cursor) :
    entries item 4 (n + 1) prev c = item c >>= entries item 4 n prev := rfl

theorem entries_map_succ (n : Nat) (prev : Option (List UInt8)) (c : Cursor) : entries item 5 (n + 1) prev c =
    key c >>= fun x => if outOfOrder prev x.1 = true then throw .refused else item x.2 >>= entries item 5 n (some x.1) := rfl

theorem entries_flatMap {prev : Option (List UInt8)} {r : Cursor} : ∀ {vs : List Value},
    (∀ v ∈ vs, ∀ r, item (Cbor.encode v ++ r) = .ok r) →
    entries item 4 vs.length prev (vs.flatMap Cbor.encode ++ r) = .ok r
  | [], _ => rfl
  | v :: vs, h => by
    rw [length_cons, entries_list_succ, flatMap_cons, append_assoc, h v mem_cons_self]
    exact entries_flatMap fun w hw => h w (mem_cons_of_mem v hw)

theorem entries_join {r : Cursor} : ∀ {ps : List (List UInt8 × List UInt8)} {prev : Option (List UInt8)},
    (∀ p ∈ ps, (∃ k, Cbor.TextOk k ∧ p.1 = Cbor.text k) ∧ ∀ r, item (p.2 ++ r) = .ok r) →
    ps.Pairwise (fun p q => Cbor.rank p.1 < Cbor.rank q.1) → (∀ p ∈ ps, ∀ k ∈ prev, Cbor.rank k < Cbor.rank p.1) →
    entries item 5 ps.length prev (Cbor.join ps ++ r) = .ok r
  | [], _, _, _, _ => rfl
  | (kb, vb) :: ps, prev, h, hsorted, hprev => by
    obtain ⟨⟨k, hk, hkb⟩, hv⟩ := h (kb, vb) mem_cons_self
    obtain ⟨hfirst, hrest⟩ := pairwise_cons.1 hsorted
    have hsplit : Cbor.join ((kb, vb) :: ps) ++ r = kb ++ (vb ++ (Cbor.join ps ++ r)) := by simp [Cbor.join]
    have hkey : key (kb ++ (vb ++ (Cbor.join ps ++ r))) = .ok (kb, vb ++ (Cbor.join ps ++ r)) := by
      obtain rfl : kb = Cbor.text k := hkb
      exact key_text hk _
    have horder : outOfOrder prev kb = false := outOfOrder_eq_false.2 (hprev _ mem_cons_self)
    rw [length_cons, entries_map_succ, hsplit]
    refine bind_eq_ok.2 ⟨_, hkey, guard_eq_ok.2 ⟨by simp [horder], bind_eq_ok.2 ⟨_, hv _, ?_⟩⟩⟩
    apply entries_join (fun p hp => h p (mem_cons_of_mem _ hp)) hrest
    rintro p hp _ ⟨⟩
    exact hfirst p hp

variable {F : Value → Prop} {r : Cursor}

theorem entries_list_inv (hitem : ∀ {c r}, item c = .ok r → ∃ v, F v ∧ c = Cbor.encode v ++ r) {prev : Option (List UInt8)} :
    ∀ {n : Nat} {c : Cursor}, entries item 4 n prev c = .ok r →
      ∃ vs : List Value, vs.length = n ∧ (∀ v ∈ vs, F v) ∧ c = vs.flatMap Cbor.encode ++ r
  | 0, _, h => by
    cases h
    exact ⟨[], rfl, nofun, rfl⟩
  | n + 1, c, h => by
    rw [entries_list_succ] at h
    obtain ⟨c', hc, hrest⟩ := bind_eq_ok.1 h
    obtain ⟨v, hv, rfl⟩ := hitem hc
    obtain ⟨vs, rfl, hvs, rfl⟩ := entries_list_inv hitem hrest
    exact ⟨v :: vs, rfl, forall_mem_cons.2 ⟨hv, hvs⟩, by simp⟩

theorem entries_map_inv (hitem : ∀ {c r}, item c = .ok r → ∃ v, F v ∧ c = Cbor.encode v ++ r) :
    ∀ {n : Nat} {prev : Option (List UInt8)} {c : Cursor}, entries item 5 n prev c = .ok r →
      ∃ es : List (List Char × Value), es.length = n ∧ (∀ e ∈ es, Cbor.TextOk e.1 ∧ F e.2) ∧
        (es.map Prod.fst).Pairwise Cbor.KeyLt ∧ (∀ e ∈ es, ∀ p ∈ prev, Cbor.rank p < Cbor.rank (Cbor.text e.1)) ∧
        c = Cbor.join (es.map fun e => (Cbor.text e.1, Cbor.encode e.2)) ++ r
  | 0, _, _, h => by
    cases h
    exact ⟨[], rfl, nofun, .nil, nofun, rfl⟩
  | n + 1, prev, c, h => by
    rw [entries_map_succ] at h
    obtain ⟨⟨kb, c'⟩, hkey, hvalue⟩ := bind_eq_ok.1 h
    obtain ⟨horder, hvalue⟩ := guard_eq_ok.1 hvalue
    obtain ⟨c'', hc, hrest⟩ := bind_eq_ok.1 hvalue
    obtain ⟨k, hk, rfl, rfl⟩ := key_inv hkey
    obtain ⟨v, hv, rfl⟩ := hitem hc
    obtain ⟨es, rfl, hes, hsorted, hprev, rfl⟩ := entries_map_inv hitem hrest
    have hlast := outOfOrder_eq_false.1 (Bool.eq_false_of_not_eq_true horder)
    have hfirst : ∀ e ∈ es, Cbor.KeyLt k e.1 := fun e he => hprev e he _ rfl
    refine ⟨(k, v) :: es, rfl, forall_mem_cons.2 ⟨⟨hk, hv⟩, hes⟩, ?_, ?_, by simp [Cbor.join]⟩
    · rw [map_cons, pairwise_cons]
      exact ⟨forall_mem_map.2 hfirst, hsorted⟩
    · rw [forall_mem_cons]
      exact ⟨hlast, fun e he p hp => lt_trans (hlast p hp) (hfirst e he)⟩

theorem settles_entries (hitem : ∀ c, Settles (item c)) (t : Nat) : ∀ (n : Nat) (prev : Option (List UInt8)) (c : Cursor),
    Settles (entries item t n prev c)
  | 0, _, _ => raises_ok _
  | n + 1, prev, c => by
    apply raises_ite
    · intro _
      refine raises_bind (settles_key c) fun x _ => settles_guard fun _ => ?_
      exact raises_bind (hitem _) fun c _ => settles_entries hitem t n _ c
    · intro _
      exact raises_bind (hitem c) fun c _ => settles_entries hitem t n prev c

end Entries

/-! ## Items -/

theorem itemAt_succ (l : Nat) (c : Cursor) : itemAt (l + 1) c = head c >>= fun x => content (itemAt l) x.1 x.2.1 x.2.2 := rfl

theorem content_string {item : Cursor → Scan Cursor} {t : Nat} (ht : t = 2 ∨ t = 3) {a : List UInt8}
    (h : t = 3 → utf8 a = .ok ()) (r : Cursor) : content item t a.length (a ++ r) = .ok r := by
  rw [content, if_neg (by omega), if_pos ht]
  refine guard_eq_ok.2 ⟨span_append a r, bind_eq_ok.2 ⟨_, skip_append a r, ?_⟩⟩
  dsimp only
  split
  · exact bind_eq_ok.2 ⟨(), h (by assumption), rfl⟩
  · rfl

theorem content_entries {item : Cursor → Scan Cursor} {t n : Nat} (ht : t = 4 ∨ t = 5) (hn : n ≤ 65536) (c : Cursor) :
    content item t n c = entries item t n none c := by
  rw [content, if_neg (by omega), if_neg (by omega), if_neg (by omega), if_neg (by omega), if_neg (by omega)]

/-- What an accepted item has after its head. -/
theorem content_inv {item : Cursor → Scan Cursor} {t n : Nat} {c r : Cursor} (h : content item t n c = .ok r) :
    t < 2 ∧ c = r ∨ (t = 2 ∨ t = 3) ∧ (∃ a, a.length = n ∧ c = a ++ r ∧ (t = 3 → utf8 a = .ok ())) ∨
      t = 7 ∧ (n = 20 ∨ n = 21 ∨ n = 22) ∧ c = r ∨ (t = 4 ∨ t = 5) ∧ n ≤ 65536 ∧ entries item t n none c = .ok r := by
  unfold content at h
  by_cases h₁ : t < 2
  · rw [if_pos h₁] at h
    exact .inl ⟨h₁, pure_eq_ok.1 h⟩
  rw [if_neg h₁] at h
  by_cases h₂ : t = 2 ∨ t = 3
  · rw [if_pos h₂] at h
    obtain ⟨⟨a, c'⟩, hskip, hrest⟩ := bind_eq_ok.1 (guard_eq_ok.1 h).2
    obtain ⟨hlen, rfl⟩ := skip_inv hskip
    dsimp only at hrest
    by_cases h₃ : t = 3
    · rw [if_pos h₃] at hrest
      obtain ⟨⟨⟩, hutf, hr⟩ := bind_eq_ok.1 hrest
      exact .inr (.inl ⟨h₂, a, hlen, by rw [pure_eq_ok.1 hr], fun _ => hutf⟩)
    · rw [if_neg h₃] at hrest
      exact .inr (.inl ⟨h₂, a, hlen, by rw [pure_eq_ok.1 hrest], fun h => absurd h h₃⟩)
  rw [if_neg h₂] at h
  by_cases h₇ : t = 7
  · rw [if_pos h₇] at h
    split at h
    · exact .inr (.inr (.inl ⟨h₇, by assumption, pure_eq_ok.1 h⟩))
    · cases h
  rw [if_neg h₇, guard_eq_ok, guard_eq_ok] at h
  exact .inr (.inr (.inr ⟨by omega, by omega, h.2.2⟩))

theorem nodup_text {es : List (List Char × Value)} (hkeys : (es.map Prod.fst).Pairwise (· ≠ ·))
    (hes : ∀ e ∈ es, Cbor.TextOk e.1) :
    ((es.map fun e => (Cbor.text e.1, Cbor.encode e.2)).map Prod.fst).Nodup := by
  rw [map_map]
  apply pairwise_map.2
  apply (pairwise_map.1 hkeys).imp_of_mem
  intro e e' he he' hne htext
  exact hne (Cbor.text_inj (hes e he) (hes e' he') (congrArg (· ++ []) htext)).1

/-- **The encoding of a tree within the limits is accepted**, up to its end. -/
theorem itemAt_encode {l : Nat} : ∀ {v : Value}, Cbor.Fits (Cbor.encodable (· ≠ ·)) l v →
    ∀ r, itemAt l (Cbor.encode v ++ r) = .ok r := by
  induction l with
  | zero => exact fun h => h.elim
  | succ l ih =>
    intro v hv r
    rw [Cbor.encode_eq, append_assoc, itemAt_succ, head_head (Cbor.major_lt v) (Cbor.argument_lt hv)]
    change content (itemAt l) v.major v.argument (v.body ++ r) = .ok r
    cases v with
    | null => rfl
    | bool b => cases b <;> rfl
    | int i =>
      have hmajor : (Value.int i).major < 2 := by
        simp only [Value.major]
        split <;> decide
      rw [content, if_pos hmajor]
      rfl
    | bytes b => exact content_string (.inl rfl) (by rintro ⟨⟩) r
    | text t => exact content_string (.inr rfl) (fun _ => utf8_utf8 hv.1) r
    | list vs =>
      refine (content_entries (.inl rfl) hv.1 _).trans ?_
      exact entries_flatMap fun v h => ih (hv.2 v h)
    | map es =>
      obtain ⟨hlen, hkeys, hes⟩ := hv
      refine (content_entries (.inr rfl) hlen _).trans ?_
      have hperm := Cbor.sortEntries_perm (es.map fun e => (Cbor.text e.1, Cbor.encode e.2))
      have hnodup := nodup_text hkeys fun e he => (hes e he).1
      have hlength : es.length = (Cbor.sortEntries (es.map fun e => (Cbor.text e.1, Cbor.encode e.2))).length := by
        rw [hperm.length_eq, length_map]
      rw [hlength]
      refine entries_join (fun p hp => ?_) (Cbor.sortEntries_pairwise hnodup) (by rintro p - k ⟨⟩)
      obtain ⟨e, he, rfl⟩ := mem_map.1 (hperm.mem_iff.1 hp)
      exact ⟨⟨e.1, (hes e he).1, rfl⟩, ih (hes e he).2⟩

/-- **What is accepted is the encoding of a tree** with its maps in order. -/
theorem itemAt_inv {l : Nat} : ∀ {c r : Cursor}, itemAt l c = .ok r → ∃ v, Cbor.Fits (Cbor.encodable Cbor.KeyLt) l v ∧
    c = Cbor.encode v ++ r := by
  induction l with
  | zero => exact fun h => nomatch h
  | succ l ih =>
    intro c r h
    rw [itemAt_succ] at h
    obtain ⟨⟨t, n, c'⟩, hhead, hcontent⟩ := bind_eq_ok.1 h
    obtain ⟨ht, hn, rfl⟩ := head_inv hhead
    suffices ∃ v : Value, Cbor.Fits (Cbor.encodable Cbor.KeyLt) (l + 1) v ∧ v.major = t ∧ v.argument = n ∧
      c' = v.body ++ r by
      obtain ⟨v, hv, rfl, rfl, rfl⟩ := this
      exact ⟨v, hv, by rw [Cbor.encode_eq, append_assoc]⟩
    obtain ⟨hlt, rfl⟩ | ⟨h₂, a, rfl, rfl, hutf⟩ | ⟨rfl, hsimple, rfl⟩ | ⟨h₄, hlen, hentries⟩ := content_inv hcontent
    · obtain rfl | rfl : t = 0 ∨ t = 1 := by omega
      · exact ⟨.int n, ⟨by omega, by omega⟩, by simp [Value.major], by simp [Value.argument], rfl⟩
      · refine ⟨.int (-1 - n), ⟨by omega, by omega⟩, ?_, ?_, rfl⟩ <;> simp only [Value.major, Value.argument] <;>
          rw [if_neg (by omega)]
        omega
    · obtain rfl | rfl := h₂
      · exact ⟨.bytes a, hn, rfl, rfl, rfl⟩
      · obtain ⟨text, hnul, rfl⟩ := utf8_inv (hutf rfl)
        exact ⟨.text text, ⟨hnul, hn⟩, rfl, rfl, rfl⟩
    · obtain rfl | rfl | rfl := hsimple
      · exact ⟨.bool false, trivial, rfl, rfl, rfl⟩
      · exact ⟨.bool true, trivial, rfl, rfl, rfl⟩
      · exact ⟨.null, trivial, rfl, rfl, rfl⟩
    · obtain rfl | rfl := h₄
      · obtain ⟨vs, rfl, hvs, rfl⟩ := entries_list_inv ih hentries
        exact ⟨.list vs, ⟨hlen, hvs⟩, rfl, rfl, rfl⟩
      · obtain ⟨es, rfl, hes, hsorted, -, rfl⟩ := entries_map_inv ih hentries
        exact ⟨.map es, ⟨hlen, hsorted, hes⟩, rfl, rfl, by rw [Cbor.join_sorted hsorted]⟩

theorem settles_content {item : Cursor → Scan Cursor} (hitem : ∀ c, Settles (item c)) (t n : Nat) (c : Cursor) :
    Settles (content item t n c) := by
  refine raises_ite (fun _ => raises_ok _) ?_
  intro _
  apply raises_ite
  · intro _
    apply settles_guard
    intro hspan
    apply raises_bind (settles_skip (span_zero.1 (by simpa using hspan)))
    intro x _
    exact raises_ite (fun _ => raises_bind (settles_utf8 _) fun _ _ => raises_ok _) fun _ => raises_ok _
  · intro _
    apply raises_ite
    · intro _
      exact raises_ite (fun _ => raises_ok _) fun _ => settles_refused
    · intro _
      exact settles_guard fun _ => settles_guard fun _ => settles_entries hitem t n none c

theorem settles_itemAt : ∀ (l : Nat) (c : Cursor), Settles (itemAt l c)
  | 0, _ => settles_refused
  | l + 1, c => raises_bind (settles_head c) fun _ _ => settles_content (settles_itemAt l) _ _ _

/-! ## What the encoder writes -/

theorem cborHead_eq_ok {t n : Nat} {bs : List UInt8} : cborHead t n = .ok bs ↔ n < 2 ^ 64 ∧ bs = Cbor.head t n := by
  have hshift : (1 : Nat) <<< (8 * 1) = 2 ^ 8 ∧ (1 : Nat) <<< (8 * 2) = 2 ^ 16 ∧ (1 : Nat) <<< (8 * 4) = 2 ^ 32 ∧
      (1 : Nat) <<< (8 * 8) = 2 ^ 64 := by decide
  simp only [cborHead, Cbor.head, Cbor.tag, Cbor.width, find?_cons, find?_nil, hshift]
  by_cases h₁ : n < 24
  · simp only [h₁, if_true, Cbor.be, Except.ok.injEq]
    exact ⟨fun h => ⟨by omega, h.symm⟩, fun h => h.2.symm⟩
  by_cases h₂ : n < 2 ^ 8
  · simp only [h₁, h₂, if_true, if_false, decide_true, Except.ok.injEq]
    exact ⟨fun h => ⟨by omega, h.symm⟩, fun h => h.2.symm⟩
  by_cases h₃ : n < 2 ^ 16
  · simp only [h₁, h₂, h₃, if_true, if_false, decide_true, decide_false, Except.ok.injEq]
    exact ⟨fun h => ⟨by omega, h.symm⟩, fun h => h.2.symm⟩
  by_cases h₄ : n < 2 ^ 32
  · simp only [h₁, h₂, h₃, h₄, if_true, if_false, decide_true, decide_false, Except.ok.injEq]
    exact ⟨fun h => ⟨by omega, h.symm⟩, fun h => h.2.symm⟩
  by_cases h₅ : n < 2 ^ 64
  · simp only [h₁, h₂, h₃, h₄, h₅, if_false, decide_true, decide_false, Except.ok.injEq]
    exact ⟨fun h => ⟨trivial, h.symm⟩, fun h => h.2.symm⟩
  · simp only [h₁, h₂, h₃, h₄, h₅, if_false, decide_false, false_and]
    exact ⟨by rintro ⟨⟩, False.elim⟩

theorem zero_mem_utf8EncodeChar {ch : Char} : 0 ∈ String.utf8EncodeChar ch ↔ ch = Char.ofNat 0 := by
  constructor
  · intro h
    by_contra hne
    have h0 := toNat_ne_zero hne
    have hbig : ∀ n, n < 256 → 0 < n → (0 : UInt8) ≠ UInt8.ofNat n := fun n hn hpos he => by
      have := congrArg UInt8.toNat he
      rw [toNat_byte hn] at this
      exact absurd this.symm hpos.ne'
    unfold String.utf8EncodeChar at h
    generalize ch.val.toNat = v at h h0
    dsimp only at h
    split_ifs at h <;> simp only [mem_cons, not_mem_nil, or_false] at h
    · exact hbig _ (by omega) (by omega) h
    · rcases h with h | h <;> exact hbig _ (by omega) (by omega) h
    · rcases h with h | h | h <;> exact hbig _ (by omega) (by omega) h
    · rcases h with h | h | h | h <;> exact hbig _ (by omega) (by omega) h
  · rintro rfl
    decide

theorem zero_mem_utf8 {t : List Char} : 0 ∈ Cbor.utf8 t ↔ ¬ Cbor.NulFree t := by
  simp [Cbor.utf8, Cbor.NulFree, zero_mem_utf8EncodeChar]

theorem cborText_eq_ok {t : List Char} {bs : List UInt8} : cborText t = .ok bs ↔ Cbor.TextOk t ∧ bs = Cbor.text t := by
  unfold cborText Cbor.TextOk Cbor.text
  by_cases hnul : Cbor.NulFree t
  · rw [if_neg (by rw [zero_mem_utf8, not_not]; exact hnul), bind_eq_ok]
    constructor
    · rintro ⟨h, hhead, hpure⟩
      obtain ⟨hlen, rfl⟩ := cborHead_eq_ok.1 hhead
      exact ⟨⟨hnul, hlen⟩, (pure_eq_ok.1 hpure).symm⟩
    · rintro ⟨⟨-, hlen⟩, rfl⟩
      exact ⟨_, cborHead_eq_ok.2 ⟨hlen, rfl⟩, rfl⟩
  · rw [if_pos (zero_mem_utf8.2 hnul)]
    exact ⟨nofun, fun h => absurd h.1.1 hnul⟩

theorem cborList_inv {F : Value → Prop} : ∀ {vs : List Value} {body : List UInt8},
    (∀ v ∈ vs, ∀ {bs}, cbor v = .ok bs → F v ∧ bs = Cbor.encode v) → cborList vs = .ok body →
    (∀ v ∈ vs, F v) ∧ body = vs.flatMap Cbor.encode
  | [], _, _, hok => by
    rw [cborList] at hok
    exact ⟨nofun, (pure_eq_ok.1 hok).symm⟩
  | v :: vs, body, h, hok => by
    rw [cborList] at hok
    obtain ⟨b, hb, hrest⟩ := bind_eq_ok.1 hok
    obtain ⟨bs, hbs, hpure⟩ := bind_eq_ok.1 hrest
    obtain ⟨hv, rfl⟩ := h v mem_cons_self hb
    obtain ⟨hvs, rfl⟩ := cborList_inv (fun w hw => h w (mem_cons_of_mem v hw)) hbs
    exact ⟨forall_mem_cons.2 ⟨hv, hvs⟩, (pure_eq_ok.1 hpure).symm⟩

theorem cborPairs_inv {F : Value → Prop} : ∀ {es : List (List Char × Value)} {ps : List (List UInt8 × List UInt8)},
    (∀ e ∈ es, ∀ {bs}, cbor e.2 = .ok bs → F e.2 ∧ bs = Cbor.encode e.2) → cborPairs es = .ok ps →
    (∀ e ∈ es, Cbor.TextOk e.1 ∧ F e.2) ∧ ps = es.map fun e => (Cbor.text e.1, Cbor.encode e.2)
  | [], _, _, hok => by
    rw [cborPairs] at hok
    exact ⟨nofun, (pure_eq_ok.1 hok).symm⟩
  | (k, v) :: es, ps, h, hok => by
    rw [cborPairs] at hok
    obtain ⟨kb, hkb, hvalue⟩ := bind_eq_ok.1 hok
    obtain ⟨vb, hvb, hrest⟩ := bind_eq_ok.1 hvalue
    obtain ⟨ps', hps', hpure⟩ := bind_eq_ok.1 hrest
    obtain ⟨hk, rfl⟩ := cborText_eq_ok.1 hkb
    obtain ⟨hv, rfl⟩ := h (k, v) mem_cons_self hvb
    obtain ⟨hes, rfl⟩ := cborPairs_inv (fun e he => h e (mem_cons_of_mem _ he)) hps'
    exact ⟨forall_mem_cons.2 ⟨⟨hk, hv⟩, hes⟩, (pure_eq_ok.1 hpure).symm⟩

/-- The trees that manifests are made from. -/
def plain : Cbor.Limits where
  int i := -2 ^ 64 ≤ i ∧ i < 2 ^ 64
  bytes _ := False
  text := Cbor.NulFree
  keys := (· ≠ ·)

theorem cbor_inv {l : Nat} : ∀ {v : Value} {bs : List UInt8}, Cbor.Fits plain l v → cbor v = .ok bs →
    Cbor.Fits (Cbor.encodable (· ≠ ·)) l v ∧ bs = Cbor.encode v := by
  induction l with
  | zero => exact fun h => h.elim
  | succ l ih =>
    intro v bs hv hok
    cases v with
    | null =>
      rw [cbor] at hok
      exact ⟨trivial, (Except.ok.inj hok).symm⟩
    | bool b =>
      rw [cbor] at hok
      obtain rfl := Except.ok.inj hok
      exact ⟨trivial, by cases b <;> rfl⟩
    | int i =>
      rw [cbor] at hok
      obtain ⟨-, rfl⟩ := cborHead_eq_ok.1 hok
      exact ⟨hv, by rw [Cbor.encode_eq, Value.body, append_nil]; rfl⟩
    | bytes b => exact hv.elim
    | text t =>
      rw [cbor] at hok
      obtain ⟨ht, rfl⟩ := cborText_eq_ok.1 hok
      exact ⟨ht, by rw [Cbor.encode]⟩
    | list vs =>
      obtain ⟨hlen, hvs⟩ := hv
      rw [cbor] at hok
      obtain ⟨h, hhead, hbody⟩ := bind_eq_ok.1 hok
      obtain ⟨body, hlist, hpure⟩ := bind_eq_ok.1 hbody
      obtain ⟨-, rfl⟩ := cborHead_eq_ok.1 hhead
      obtain ⟨hfits, rfl⟩ := cborList_inv (fun v h => ih (hvs v h)) hlist
      exact ⟨⟨hlen, hfits⟩, by rw [← pure_eq_ok.1 hpure, Cbor.encode_list]⟩
    | map es =>
      obtain ⟨hlen, hkeys, hes⟩ := hv
      rw [cbor] at hok
      obtain ⟨ps, hps, hhead⟩ := bind_eq_ok.1 hok
      obtain ⟨h, hhead, hpure⟩ := bind_eq_ok.1 hhead
      obtain ⟨-, rfl⟩ := cborHead_eq_ok.1 hhead
      obtain ⟨hfits, rfl⟩ := cborPairs_inv (fun e h => ih (hes e h).2) hps
      refine ⟨⟨hlen, hkeys, hfits⟩, ?_⟩
      rw [← pure_eq_ok.1 hpure, length_map, Cbor.encode, Cbor.encodeEntries_eq]

/-- Such trees with texts that have a length. -/
def sized : Cbor.Limits := { plain with text := Cbor.TextOk }

theorem cborList_encode : ∀ {vs : List Value}, (∀ v ∈ vs, cbor v = .ok (Cbor.encode v)) →
    cborList vs = .ok (vs.flatMap Cbor.encode)
  | [], _ => by rw [cborList]; rfl
  | v :: vs, h => by
    rw [cborList, h v mem_cons_self, cborList_encode fun w hw => h w (mem_cons_of_mem v hw)]
    rfl

theorem cborPairs_encode : ∀ {es : List (List Char × Value)}, (∀ e ∈ es,
    Cbor.TextOk e.1 ∧ cbor e.2 = .ok (Cbor.encode e.2)) →
    cborPairs es = .ok (es.map fun e => (Cbor.text e.1, Cbor.encode e.2))
  | [], _ => by rw [cborPairs]; rfl
  | (k, v) :: es, h => by
    obtain ⟨hk, hv⟩ := h (k, v) mem_cons_self
    rw [cborPairs, cborText_eq_ok.2 ⟨hk, rfl⟩, hv, cborPairs_encode fun e he => h e (mem_cons_of_mem _ he)]
    rfl

theorem cbor_encode {l : Nat} : ∀ {v : Value}, Cbor.Fits sized l v → cbor v = .ok (Cbor.encode v) := by
  induction l with
  | zero => exact fun h => h.elim
  | succ l ih =>
    intro v hv
    cases v with
    | null => rw [cbor]; rfl
    | bool b => rw [cbor]; cases b <;> rfl
    | int i =>
      rw [cbor, Cbor.encode_eq, Value.body, append_nil]
      refine cborHead_eq_ok.2 ⟨?_, rfl⟩
      obtain ⟨hlo, hhi⟩ := hv
      split <;> omega
    | bytes b => exact hv.elim
    | text t => rw [cbor, Cbor.encode, cborText_eq_ok.2 ⟨hv, rfl⟩]
    | list vs =>
      obtain ⟨hlen, hvs⟩ := hv
      rw [cbor, Cbor.encode_list, cborHead_eq_ok.2 ⟨Nat.lt_of_le_of_lt hlen (by decide), rfl⟩,
        cborList_encode fun v h => ih (hvs v h)]
      rfl
    | map es =>
      obtain ⟨hlen, -, hes⟩ := hv
      rw [cbor, cborPairs_encode fun e h => ⟨(hes e h).1, ih (hes e h).2⟩, Cbor.encode, Cbor.encodeEntries_eq]
      refine bind_eq_ok.2 ⟨_, rfl, bind_eq_ok.2 ⟨_, cborHead_eq_ok.2 ⟨?_, rfl⟩, ?_⟩⟩
      · rw [length_map]
        exact Nat.lt_of_le_of_lt hlen (by decide)
      · rw [length_map]
        rfl

/-! ## Agreement -/

/-- The bytes are the deterministic encoding of the tree, with its maps in order: an encoding, and none is shorter. -/
structure Denotes (v : Value) (bs : List UInt8) : Prop where
  fits : Cbor.Fits (Cbor.encodable Cbor.KeyLt) 17 v
  eq : Cbor.encode v = bs
  encodes : Cbor.Encodes v bs
  shortest : ∀ bs', Cbor.Encodes v bs' → bs.length ≤ bs'.length

/-- The encoder and the validator of manifests agree on the deterministic encodings. -/
structure CborAgreement : Prop where
  /-- Whatever the encoder writes is accepted in full. -/
  accepted : ∀ {v : Value} {bs : List UInt8}, Cbor.Fits plain 17 v → cbor v = .ok bs → item bs 0 = .ok []
  /-- It writes every tree whose texts have a length. -/
  written : ∀ {v : Value}, Cbor.Fits sized 17 v → ∃ bs, cbor v = .ok bs
  /-- What is accepted in full is the encoding of one tree. -/
  denotes : ∀ {bs : List UInt8}, item bs 0 = .ok [] → ∃! v, Denotes v bs
  /-- Every scan ends in the input, with a result or a refusal. -/
  settles : ∀ bs depth, (∃ r, item bs depth = .ok r) ∨ item bs depth = .error .refused

/-- **The encoder and the validator agree**: what the one writes the other accepts, and what is accepted is the deterministic
encoding of exactly one tree. -/
theorem manifest_agrees : CborAgreement where
  accepted := by
    intro v bs hv hok
    obtain ⟨hfits, rfl⟩ := cbor_inv hv hok
    have h := itemAt_encode hfits []
    rw [List.append_nil] at h
    exact h
  written := fun hv => ⟨_, cbor_encode hv⟩
  denotes := by
    intro bs h
    obtain ⟨v, hv, hbs⟩ := itemAt_inv h
    rw [List.append_nil] at hbs
    subst hbs
    refine ⟨v, ⟨hv, rfl, Cbor.encodes_encode hv, fun _ => Cbor.length_encode_le⟩, ?_⟩
    intro w hw
    exact (Cbor.encode_inj hw.fits hv (congrArg (· ++ []) hw.eq)).1
  settles := by
    intro bs depth
    cases h : item bs depth with
    | ok r => exact .inl ⟨r, rfl⟩
    | error e => exact .inr (congrArg _ (settles_itemAt _ bs e h))

end SpiritFox.Package
