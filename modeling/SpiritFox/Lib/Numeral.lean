import Mathlib.Data.List.TakeWhile
import Mathlib.Tactic.IntervalCases

/-!
# Numbers in positional notation

`readOn b p ds` is the number that `p` becomes when the digits `ds` are written behind it, and `write b n` is `n` in base
`b`, the most significant digit first. A text is read through the values of its characters (`ofText`); the longest run of
digits at its front is what a scanning loop consumes (`span_append`).
-/

namespace Numeral

section Positional

variable {b n p : Nat} {ds : List Nat}

def readOn (b p : Nat) (ds : List Nat) : Nat := ds.foldl (fun n d => n * b + d) p

theorem readOn_cons (d : Nat) : readOn b p (d :: ds) = readOn b (p * b + d) ds := rfl

theorem readOn_append (es : List Nat) : readOn b p (ds ++ es) = readOn b (readOn b p ds) es := List.foldl_append

theorem le_readOn (hb : 0 < b) : p ≤ readOn b p ds := by
  induction ds generalizing p with
  | nil => exact Nat.le_refl p
  | cons d ds ih => exact ((Nat.le_mul_of_pos_right p hb).trans (Nat.le_add_right _ d)).trans ih

/-- The digits of `n`, most significant first; zero has one. -/
def write (b n : Nat) : List Nat := if _ : 1 < b ∧ b ≤ n then write b (n / b) ++ [n % b] else [n]
termination_by n
decreasing_by exact Nat.div_lt_self (by omega) (by omega)

theorem write_of_lt (h : n < b) : write b n = [n] := by
  rw [write, dif_neg (by omega)]

theorem write_of_le (hb : 1 < b) (h : b ≤ n) : write b n = write b (n / b) ++ [n % b] := by
  rw [write, dif_pos ⟨hb, h⟩]

/-- Induction on the digits of a number. -/
theorem digit_induction {P : Nat → Prop} (hb : 1 < b) (hlt : ∀ n < b, P n) (hle : ∀ n, b ≤ n → P (n / b) → P n) (n : Nat) :
    P n := by
  induction n using Nat.strong_induction_on with
  | _ n ih =>
    by_cases h : n < b
    · exact hlt n h
    · exact hle n (by omega) (ih _ (Nat.div_lt_self (by omega) hb))

theorem readOn_write (hb : 1 < b) (n : Nat) : readOn b 0 (write b n) = n := by
  induction n using digit_induction hb with
  | hlt n h => simp [write_of_lt h, readOn]
  | hle n h ih =>
    rw [write_of_le hb h, readOn_append, ih]
    exact Nat.div_add_mod' n b

theorem write_lt (hb : 1 < b) (n : Nat) : ∀ d ∈ write b n, d < b := by
  induction n using digit_induction hb with
  | hlt n h => simpa [write_of_lt h] using h
  | hle n h ih =>
    simp only [write_of_le hb h, List.mem_append, List.mem_singleton]
    rintro d (hd | rfl)
    · exact ih d hd
    · exact Nat.mod_lt n (by omega)

/-- Only zero is written with a zero in front. -/
theorem head_write (hb : 1 < b) (n : Nat) : ∃ d ds, write b n = d :: ds ∧ (d = 0 → n = 0 ∧ ds = []) := by
  induction n using digit_induction hb with
  | hlt n h => exact ⟨n, [], write_of_lt h, fun h0 => ⟨h0, rfl⟩⟩
  | hle n h ih =>
    obtain ⟨d, ds, heq, hzero⟩ := ih
    refine ⟨d, ds ++ [n % b], by rw [write_of_le hb h, heq, List.cons_append], fun h0 => ?_⟩
    have hpos : 0 < n / b := Nat.div_pos h (by omega)
    have := (hzero h0).1
    omega

theorem length_write_le (hb : 1 < b) {k : Nat} (h : n < b ^ (k + 1)) : (write b n).length ≤ k + 1 := by
  induction k generalizing n with
  | zero => simp [write_of_lt (by simpa using h)]
  | succ k ih =>
    by_cases hn : n < b
    · simp [write_of_lt hn]
    rw [write_of_le hb (by omega), List.length_append]
    exact Nat.succ_le_succ (ih (Nat.div_lt_of_lt_mul (by rwa [pow_succ, Nat.mul_comm] at h)))

end Positional

/-! ## Text -/

/-- The decimal digits of ASCII. -/
def isDigit (c : UInt8) : Bool := 48 ≤ c && c ≤ 57

def digitOf (c : UInt8) : Nat := (c - 48).toNat

def ofText (text : List UInt8) : Nat := readOn 10 0 (text.map digitOf)

/-- The decimal text of a number. -/
def decimal (n : Nat) : List UInt8 := (write 10 n).map fun d => UInt8.ofNat (48 + d)

theorem isDigit_iff {c : UInt8} : isDigit c = true ↔ 48 ≤ c ∧ c ≤ 57 := by simp [isDigit]

theorem digitOf_lt {c : UInt8} (h : isDigit c = true) : digitOf c < 10 := by
  obtain ⟨hlow, hhigh⟩ := isDigit_iff.1 h
  unfold digitOf
  rw [UInt8.toNat_sub_of_le _ _ hlow]
  have hle := UInt8.le_iff_toNat_le.1 hhigh
  simp only [UInt8.reduceToNat] at hle ⊢
  omega

theorem isDigit_ofNat {d : Nat} (h : d < 10) :
    isDigit (UInt8.ofNat (48 + d)) = true ∧ digitOf (UInt8.ofNat (48 + d)) = d := by
  interval_cases d <;> decide

/-- `ds` is the decimal numeral of `n`, without superfluous zeros in front. -/
structure IsNumeral (ds : List UInt8) (n : Nat) : Prop where
  nonempty : ds ≠ []
  digits : ∀ c ∈ ds, isDigit c = true
  leading : 1 < ds.length → ds.head? ≠ some 48
  value : ofText ds = n

theorem ofText_decimal (n : Nat) : ofText (decimal n) = n := by
  have h : (decimal n).map digitOf = write 10 n := by
    unfold decimal
    rw [List.map_map]
    exact (List.map_congr_left fun d hd => (isDigit_ofNat (write_lt (by decide) n d hd)).2).trans (List.map_id _)
  rw [ofText, h, readOn_write (by decide)]

theorem isNumeral_decimal (n : Nat) : IsNumeral (decimal n) n := by
  obtain ⟨d, ds, heq, hzero⟩ := head_write (b := 10) (by decide) n
  have hlt := write_lt (b := 10) (by decide) n
  refine ⟨by simp [decimal, heq], fun c hc => ?_, fun hlen h48 => ?_, ofText_decimal n⟩
  · obtain ⟨e, he, rfl⟩ := List.mem_map.1 hc
    exact (isDigit_ofNat (hlt e he)).1
  · simp only [decimal, heq, List.map_cons, List.head?_cons, Option.some.injEq] at h48
    have hd := (isDigit_ofNat (hlt d (by simp [heq]))).2
    rw [h48] at hd
    simp [decimal, heq, (hzero hd.symm).2] at hlen

section Span

variable {α : Type} {p : α → Bool} {ds rest : List α}

/-- A run of digits and what does not go on with one are found by scanning. -/
theorem span_append (hds : ∀ c ∈ ds, p c = true) (hrest : ∀ c ∈ rest.head?, p c = false) :
    (ds ++ rest).takeWhile p = ds ∧ (ds ++ rest).dropWhile p = rest := by
  rw [List.takeWhile_append_of_pos hds, List.dropWhile_append_of_pos hds]
  cases rest with
  | nil => simp
  | cons c rest => simp [hrest c rfl]

theorem head_dropWhile (l : List α) : ∀ c ∈ (l.dropWhile p).head?, p c = false := by
  intro c hc
  have h := List.head?_dropWhile_not p l
  rw [hc] at h
  simpa using h

end Span

end Numeral
