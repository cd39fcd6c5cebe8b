import Mathlib.Data.Prod.Lex
import SpiritFox.Lib.Checks
import SpiritFox.Lib.Numeral
import SpiritFox.Abi

/-!
# Package versions

`services/version.c`: a version is three numbers, compared in order. `sfVersionUpgrade` decides whether a package may
replace the confirmed one. `Newer` is the order the comparison computes, and `sfVersionUpgrade_ok` says what an accepted
upgrade is. `versions_exact` says which texts are versions, and that texts, the order and upgrades agree.
-/

namespace SpiritFox.Version

open Checks Numeral

/-- `SfVersion`, with the three entries of `part`. -/
structure SfVersion where
  part0 : Nat
  part1 : Nat
  part2 : Nat
  deriving DecidableEq, Repr

/-- The digit loop of `sf_version_parse`: the number so far and the text that is left. -/
def versionDigits : Nat → List UInt8 → Except SfError (Nat × List UInt8)
  | part, [] => .ok (part, [])
  | part, c :: text =>
    if 48 ≤ c ∧ c ≤ 57 then
      if (2 ^ 32 - 1 - (c - 48).toNat) / 10 < part then .error .badFormat
      else versionDigits (part * 10 + (c - 48).toNat) text
    else .ok (part, c :: text)

/-- One number: at least one digit, and no leading zero before another. -/
def versionPart (text : List UInt8) : Except SfError (Nat × List UInt8) :=
  match text with
  | [] => .error .badFormat
  | c :: _ =>
    if 48 ≤ c ∧ c ≤ 57 then
      match versionDigits 0 text with
      | .error e => .error e
      | .ok (part, rest) => if 1 < text.length - rest.length ∧ c = 48 then .error .badFormat else .ok (part, rest)
    else .error .badFormat

/-- The dot between two numbers. -/
def versionDot : List UInt8 → Except SfError (List UInt8)
  | 46 :: rest => .ok rest
  | _ => .error .badFormat

/-- `sf_version_parse` on the text before the terminator. -/
def sfVersionParse (text : List UInt8) : Except SfError SfVersion := do
  let (part0, text) ← versionPart text
  let text ← versionDot text
  let (part1, text) ← versionPart text
  let text ← versionDot text
  let (part2, text) ← versionPart text
  if text = [] then pure ⟨part0, part1, part2⟩ else throw .badFormat

/-- `sf_version_parse` with its output, which is assigned at the end. -/
def versionParse (text : List UInt8) (out : SfVersion) : Except SfError Unit × SfVersion :=
  match sfVersionParse text with
  | .ok version => (.ok (), version)
  | .error e => (.error e, out)

/-- `sf_version_compare` -/
def sfVersionCompare (a b : SfVersion) : Int :=
  if a.part0 ≠ b.part0 then if b.part0 < a.part0 then 1 else -1
  else if a.part1 ≠ b.part1 then if b.part1 < a.part1 then 1 else -1
  else if a.part2 ≠ b.part2 then if b.part2 < a.part2 then 1 else -1
  else 0

/-- `sf_version_upgrade`: 0 is an upgrade, 1 the exact package again. -/
def sfVersionUpgrade (current : SfVersion) (old : Digest) (candidate : SfVersion) (next : Digest) : Except SfError Nat :=
  if 0 < sfVersionCompare candidate current then .ok 0
  else if sfVersionCompare candidate current < 0 ∨ old ≠ next then .error .versionRejected
  else .ok 1

/-! ## The order of versions -/

/-- `b` is a later version than `a`. -/
def Newer (a b : SfVersion) : Prop :=
  a.part0 < b.part0 ∨ a.part0 = b.part0 ∧ (a.part1 < b.part1 ∨ a.part1 = b.part1 ∧ a.part2 < b.part2)

theorem sfVersionCompare_pos {a b : SfVersion} : 0 < sfVersionCompare b a ↔ Newer a b := by
  unfold sfVersionCompare Newer
  grind

theorem sfVersionCompare_self (a : SfVersion) : sfVersionCompare a a = 0 := by simp [sfVersionCompare]

theorem Newer.trans {a b c : SfVersion} (h : Newer a b) (h' : Newer b c) : Newer a c := by
  unfold Newer at *
  omega

/-- Only a strictly later version is an upgrade. -/
theorem sfVersionUpgrade_ok {current candidate : SfVersion} {old next : Digest}
    (h : sfVersionUpgrade current old candidate next = .ok 0) : Newer current candidate := by
  unfold sfVersionUpgrade at h
  split at h
  · exact sfVersionCompare_pos.1 (by assumption)
  · split at h <;> cases h

/-! ## Texts -/

def uint32Max : Nat := 2 ^ 32 - 1

/-- The text of a version: three numerals of 32 bits with dots between them. -/
def Spells (text : List UInt8) (v : SfVersion) : Prop :=
  ∃ a b c, text = a ++ 46 :: (b ++ 46 :: c) ∧ (IsNumeral a v.part0 ∧ v.part0 ≤ uint32Max) ∧
    (IsNumeral b v.part1 ∧ v.part1 ≤ uint32Max) ∧ IsNumeral c v.part2 ∧ v.part2 ≤ uint32Max

/-- A version as text. -/
def print (v : SfVersion) : List UInt8 := decimal v.part0 ++ 46 :: (decimal v.part1 ++ 46 :: decimal v.part2)

section Texts

variable {text rest : List UInt8} {part n : Nat} {v : SfVersion}

/-- The digit loop reads the digits in front, up to the 32-bit bound. -/
theorem versionDigits_eq (h : part ≤ uint32Max) (text : List UInt8) : versionDigits part text =
    if readOn 10 part ((text.takeWhile isDigit).map digitOf) ≤ uint32Max then
      .ok (readOn 10 part ((text.takeWhile isDigit).map digitOf), text.dropWhile isDigit)
    else .error .badFormat := by
  induction text generalizing part with
  | nil => exact (if_pos h).symm
  | cons c text ih =>
    unfold versionDigits
    by_cases hc : isDigit c = true
    · have hlt := digitOf_lt hc
      rw [if_pos (isDigit_iff.1 hc), List.takeWhile_cons_of_pos hc, List.dropWhile_cons_of_pos hc, List.map_cons,
        readOn_cons]
      change (if (_ - digitOf c) / 10 < part then _ else versionDigits (part * 10 + digitOf c) text) = _
      unfold uint32Max at *
      split
      · -- what no longer fits does not fit with more digits
        have hle : part * 10 + digitOf c ≤ readOn 10 (part * 10 + digitOf c) ((text.takeWhile isDigit).map digitOf) :=
          le_readOn (by decide)
        rw [if_neg (by omega)]
      · exact ih (by omega)
    · rw [if_neg (mt isDigit_iff.2 hc), List.takeWhile_cons_of_neg hc, List.dropWhile_cons_of_neg hc]
      exact (if_pos h).symm

theorem versionPart_cons {c : UInt8} (hc : isDigit c = true) : versionPart (c :: text) =
    if ofText ((c :: text).takeWhile isDigit) ≤ uint32Max ∧ ¬ (1 < ((c :: text).takeWhile isDigit).length ∧ c = 48) then
      .ok (ofText ((c :: text).takeWhile isDigit), (c :: text).dropWhile isDigit)
    else .error .badFormat := by
  have hlen := congrArg List.length (List.takeWhile_append_dropWhile (p := isDigit) (l := c :: text))
  rw [List.length_append] at hlen
  have hdigits : versionDigits 0 (c :: text) = if ofText ((c :: text).takeWhile isDigit) ≤ uint32Max then
      .ok (ofText ((c :: text).takeWhile isDigit), (c :: text).dropWhile isDigit) else .error .badFormat :=
    versionDigits_eq (Nat.zero_le _) _
  unfold versionPart
  dsimp only
  rw [if_pos (isDigit_iff.1 hc), hdigits, ← hlen, ite_and]
  by_cases hle : ofText ((c :: text).takeWhile isDigit) ≤ uint32Max
  · simp only [if_pos hle, Nat.add_sub_cancel, ite_not]
  · simp only [if_neg hle]

theorem versionPart_eq_ok : versionPart text = .ok (n, rest) ↔
    (∃ ds, text = ds ++ rest ∧ IsNumeral ds n ∧ n ≤ uint32Max) ∧ ∀ c ∈ rest.head?, isDigit c = false := by
  constructor
  · intro h
    cases text with
    | nil => cases h
    | cons c text =>
      by_cases hc : isDigit c = true
      · have hspan := List.takeWhile_append_dropWhile (p := isDigit) (l := c :: text)
        rw [versionPart_cons hc] at h
        split at h
        · rename_i hok
          cases h
          refine ⟨⟨_, hspan.symm, ⟨by simp [hc], fun d hd => List.mem_takeWhile_imp hd, fun hlen h48 => ?_, rfl⟩, hok.1⟩,
            head_dropWhile _⟩
          rw [List.takeWhile_cons_of_pos hc] at h48
          exact hok.2 ⟨hlen, Option.some.inj h48⟩
        · cases h
      · unfold versionPart at h
        dsimp only at h
        rw [if_neg (mt isDigit_iff.2 hc)] at h
        cases h
  · rintro ⟨⟨ds, rfl, hnum, hle⟩, hrest⟩
    obtain ⟨htake, hdrop⟩ := span_append hnum.digits hrest
    obtain ⟨c, ds, rfl⟩ := List.exists_cons_of_ne_nil hnum.nonempty
    rw [List.cons_append] at *
    rw [versionPart_cons (hnum.digits c List.mem_cons_self), htake, hdrop, hnum.value]
    exact if_pos ⟨hle, fun h => hnum.leading h.1 (by rw [h.2, List.head?_cons])⟩

theorem versionDot_eq_ok : versionDot text = .ok rest ↔ text = 46 :: rest := by
  unfold versionDot
  split
  · simp
  · rename_i h
    simp only [reduceCtorEq, false_iff]
    exact h rest

theorem sfVersionParse_eq_ok : sfVersionParse text = .ok v ↔ Spells text v := by
  have hend : ∀ rest : List UInt8, ∀ c ∈ (46 :: rest).head?, isDigit c = false := by simp [isDigit]
  unfold sfVersionParse
  simp only [bind_eq_ok, versionDot_eq_ok, Prod.exists, versionPart_eq_ok]
  constructor
  · rintro ⟨_, _, ⟨⟨a, rfl, ha⟩, -⟩, _, rfl, _, _, ⟨⟨b, rfl, hb⟩, -⟩, _, rfl, _, rest, ⟨⟨c, rfl, hc⟩, -⟩, h⟩
    split at h
    · rename_i hrest
      cases h
      subst hrest
      exact ⟨a, b, c, by rw [List.append_nil], ha, hb, hc⟩
    · cases h
  · rintro ⟨a, b, c, rfl, ha, hb, hc⟩
    refine ⟨_, _, ⟨⟨a, rfl, ha⟩, hend _⟩, _, rfl, _, _, ⟨⟨b, rfl, hb⟩, hend _⟩, _, rfl, _, [], ⟨⟨c, ?_, hc⟩, by simp⟩, ?_⟩
    · rw [List.append_nil]
    · exact if_pos rfl

theorem versionParse_eq_ok {out : SfVersion} : versionParse text out = (.ok (), v) ↔ Spells text v := by
  rw [← sfVersionParse_eq_ok]
  unfold versionParse
  cases sfVersionParse text <;> simp

end Texts

/-! ## Versions are exact -/

/-- The triple of a version, in lexicographic order. -/
def triple (v : SfVersion) : Nat ×ₗ Nat ×ₗ Nat := toLex (v.part0, toLex (v.part1, v.part2))

structure VersionsExact : Prop where
  /-- A text is accepted exactly when it spells a version, which is then the output. -/
  accepted : ∀ text out v, versionParse text out = (.ok (), v) ↔ Spells text v
  untouched : ∀ text out e v, versionParse text out = (.error e, v) → v = out
  printed : ∀ (a b c : UInt32) out, versionParse (print ⟨a.toNat, b.toNat, c.toNat⟩) out =
    (.ok (), ⟨a.toNat, b.toNat, c.toNat⟩)
  /-- The comparison is that of the triples. -/
  compared : ∀ a b, sfVersionCompare a b = if triple b < triple a then 1 else if triple a < triple b then -1 else 0
  distinct : ∀ a b, triple a = triple b ↔ a = b
  upgraded : ∀ current old candidate next, sfVersionUpgrade current old candidate next =
    if triple current < triple candidate then .ok 0
    else if candidate = current ∧ old = next then .ok 1 else .error .versionRejected

/-- **Texts, the order and upgrades of versions are exact.** -/
theorem versions_exact : VersionsExact where
  accepted _ _ _ := versionParse_eq_ok
  untouched text out e v h := by
    unfold versionParse at h
    split at h <;> cases h
    rfl
  printed a b c out := by
    have hle : ∀ x : UInt32, x.toNat ≤ uint32Max := fun x => Nat.le_pred_of_lt x.toNat_lt
    exact versionParse_eq_ok.2 ⟨_, _, _, rfl, ⟨isNumeral_decimal _, hle a⟩, ⟨isNumeral_decimal _, hle b⟩,
      isNumeral_decimal _, hle c⟩
  compared a b := by
    unfold sfVersionCompare
    simp only [triple, Prod.Lex.toLex_lt_toLex]
    grind
  distinct a b := by
    cases a
    cases b
    simp [triple]
  upgraded current old candidate next := by
    unfold sfVersionUpgrade sfVersionCompare
    simp only [triple, Prod.Lex.toLex_lt_toLex]
    cases current
    cases candidate
    grind

end SpiritFox.Version
